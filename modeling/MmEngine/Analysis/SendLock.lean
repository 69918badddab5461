import MmEngine.Analysis.MockFraming
import MmEngine.Interface.MockThreadRules

/-!
# What the lock of `send_msg` is for

The session's thread and the streaming thread of a mock session both send, and `self.lock` keeps them
apart: whatever the order of their steps, down to single bytes, the peer reads whole messages, numbered
1, 2, 3 and so on, and each thread's messages in the order in which it sent them (`send_lock`).
The session's are those it would send without the other thread.
-/

set_option autoImplicit false

namespace MmEngine.Analysis

open MmEngine.Model MmEngine.Model.Mock MmEngine.Interface MmEngine.Lib

variable {w : World}

/-! ## Calls -/

/-- A call of `send_msg`, from the moment it has the lock. -/
abbrev CallSection : Type := Section Who Sending SendAct

/-- The calls of a thread. -/
def callsOf (who : Who) (xs : List CallSection) : List Call :=
  (xs.filter fun x => x.thread = who).map fun x => Sending.call x.start

theorem callsOf_append (who : Who) (xs ys : List CallSection) :
    callsOf who (xs ++ ys) = callsOf who xs ++ callsOf who ys := by
  unfold callsOf
  rw [List.filter_append, List.map_append]

theorem callsOf_entered (who : Who) (done : List CallSection) (x : CallSection) :
    callsOf who (done ++ (some x).toList) =
      callsOf who (done ++ (none : Option CallSection).toList) ++ callsOf who [x] := by
  rw [Option.toList_none, List.append_nil]
  exact callsOf_append who done [x]

/-- The call of a section whose texts have an encoding. -/
structure SoundCall (x : CallSection) : Prop where
  start : ∃ t fs, x.start = .reading t fs ∧ Latin1 t ∧ Latin1Fields fs
  acts : ∀ a ∈ x.acts, Latin1Act a

/-- The calls that are over, and the one that is going on. -/
structure LockedCalls (w : World) (h : List ThreadObs) (lock : Monitor Who Outgoing Sending)
    (done : List CallSection) (opened : Option CallSection) : Prop where
  serialized : Serialized (sendStep w) {} done opened lock
  sound : ∀ x ∈ done ++ opened.toList, SoundCall x
  failed : ∀ x ∈ done ++ opened.toList, .fail ∈ x.acts → ThreadObs.failed ∈ h

namespace LockedCalls

variable {h : List ThreadObs} {lock lock' : Monitor Who Outgoing Sending} {done : List CallSection}
  {opened : Option CallSection}

theorem mono (hinv : LockedCalls w h lock done opened) (es : List ThreadObs) :
    LockedCalls w (h ++ es) lock done opened :=
  { hinv with failed := fun x hx hfail => List.mem_append_left _ (hinv.failed x hx hfail) }

/-- A thread calls `send_msg` when nobody is inside. -/
theorem enter {who : Who} {t : Text} {fs : List (Text × Text)} (hinv : LockedCalls w h lock done opened)
    (ht : Latin1 t) (hfs : Latin1Fields fs) (henter : lock.enter who (.reading t fs) = some lock') :
    opened = none ∧ LockedCalls w h lock' done (some ⟨who, .reading t fs, []⟩) := by
  obtain ⟨rfl, hserial⟩ := hinv.serialized.enter henter
  refine ⟨rfl, hserial, ?_, ?_⟩
  · intro x hx
    obtain hx | hx := List.mem_append.mp hx
    · exact hinv.sound x (List.mem_append_left _ hx)
    · obtain rfl := List.mem_singleton.mp hx
      exact ⟨⟨t, fs, rfl, ht, hfs⟩, fun a ha => absurd ha List.not_mem_nil⟩
  · intro x hx hfail
    obtain hx | hx := List.mem_append.mp hx
    · exact hinv.failed x (List.mem_append_left _ hx) hfail
    · obtain rfl := List.mem_singleton.mp hx
      exact absurd hfail List.not_mem_nil

/-- INTERNAL: **the holder goes on**, and the calls stay the same. -/
theorem proceed {a : SendAct} (es : List ThreadObs) (hinv : LockedCalls w h lock done opened) (ha : Latin1Act a)
    (hfail : a = .fail → ThreadObs.failed ∈ es) (hproceed : lock.proceed (sendStep w) a = some lock') :
    ∃ done' opened', LockedCalls w (h ++ es) lock' done' opened' ∧
      ∀ who, callsOf who (done' ++ opened'.toList) = callsOf who (done ++ opened.toList) := by
  obtain ⟨x, rfl, hcases⟩ := hinv.serialized.proceed hproceed
  -- the call of the holder, one action longer
  have hsound : ∀ y ∈ done ++ [{ x with acts := x.acts ++ [a] }], SoundCall y := by
    intro y hy
    obtain hy | hy := List.mem_append.mp hy
    · exact hinv.sound y (List.mem_append_left _ hy)
    · obtain rfl := List.mem_singleton.mp hy
      have hx := hinv.sound x (List.mem_append_right _ (List.mem_singleton_self x))
      refine ⟨hx.start, fun b hb => ?_⟩
      obtain hb | hb := List.mem_append.mp hb
      · exact hx.acts b hb
      · exact List.mem_singleton.mp hb ▸ ha
  have hfailed : ∀ y ∈ done ++ [{ x with acts := x.acts ++ [a] }], .fail ∈ y.acts → ThreadObs.failed ∈ h ++ es := by
    intro y hy hmem
    obtain hy | hy := List.mem_append.mp hy
    · exact List.mem_append_left _ (hinv.failed y (List.mem_append_left _ hy) hmem)
    · obtain rfl := List.mem_singleton.mp hy
      obtain hmem | hmem := List.mem_append.mp hmem
      · exact List.mem_append_left _ (hinv.failed x (List.mem_append_right _ (List.mem_singleton_self x)) hmem)
      · exact List.mem_append_right _ (hfail (List.mem_singleton.mp hmem).symm)
  have hcalls : ∀ who, callsOf who (done ++ [{ x with acts := x.acts ++ [a] }]) = callsOf who (done ++ [x]) := by
    intro who
    rw [callsOf_append, callsOf_append]
    unfold callsOf
    rw [List.filter_singleton, List.filter_singleton]
    dsimp only
    cases decide (x.thread = who) <;> rfl
  obtain ⟨-, hserial⟩ | ⟨-, hserial⟩ := hcases
  · exact ⟨done, some { x with acts := x.acts ++ [a] }, ⟨hserial, hsound, hfailed⟩, hcalls⟩
  · refine ⟨done ++ [{ x with acts := x.acts ++ [a] }], none, ⟨hserial, ?_, ?_⟩, ?_⟩
    · simpa only [Option.toList_none, List.append_nil] using hsound
    · simpa only [Option.toList_none, List.append_nil] using hfailed
    · intro who
      rw [Option.toList_none, List.append_nil]
      exact hcalls who

/-- INTERNAL: **no message raises** when it is built.
SRCLINE: scripts/mock_exchange.py:46-53, 84 -/
theorem built {who : Who} {t : Text} {fs : List (Text × Text)} {user : Text}
    (hinv : LockedCalls w h lock done opened) (hholder : lock.holder = some (who, .building t fs))
    (hu : Latin1 user) (hproceed : lock.proceed (sendStep w) (.next user) = some lock') :
    lock'.holder.isNone = false := by
  obtain ⟨hserial, hsound, -⟩ := hinv
  cases hserial with
  | free before => cases hholder
  | @held d' d'' x l before part =>
    obtain rfl : l = .building t fs := (Prod.mk.inj (Option.some.inj hholder)).2
    obtain ⟨⟨t₀, fs₀, hstart, ht, hfs⟩, hacts⟩ := hsound x (List.mem_append_right _ (List.mem_singleton_self x))
    rw [hstart] at part
    obtain ⟨hcall, rfl, -⟩ := hasCome_of_goes ht hfs hacts part
    obtain ⟨rfl, rfl⟩ := Prod.mk.inj hcall
    have hbuilt : build t ↑(d'.seq + 1) "ROFX".toList user fs (w.sendingTime (d'.seq + 1)) = some _ :=
      built_messageOf w (d'.seq + 1) (c := (t, fs)) ht hfs hu
    simp only [Monitor.proceed, sendStep] at hproceed
    rw [hbuilt] at hproceed
    rw [← Option.some.inj hproceed]
    rfl

end LockedCalls

/-! ## The threads -/

/-- The messages handled. -/
def handledOf (h : List ThreadObs) : List Parsed :=
  h.filterMap fun
    | .handled m => some m
    | _ => none

/-- The snapshots of the passes that have begun. -/
def passesOf (h : List ThreadObs) : List Call :=
  h.flatMap fun
    | .passed reqId symbols elapsed => (passFields reqId symbols elapsed).map fun fs => ("W".toList, fs)
    | _ => []

theorem handledOf_append (h h' : List ThreadObs) : handledOf (h ++ h') = handledOf h ++ handledOf h' :=
  List.filterMap_append

theorem passesOf_append (h h' : List ThreadObs) : passesOf (h ++ h') = passesOf h ++ passesOf h' :=
  List.flatMap_append

/-- The snapshots that are left of the pass. -/
def snapshotsLeft : StreamAt → List Call
  | .passing _ _ todo => todo.map fun fs => ("W".toList, fs)
  | _ => []

/-- The texts of the streaming thread have an encoding. -/
def Latin1Stream : StreamAt → Prop
  | .looping reqId symbols => Latin1 reqId ∧ ∀ v ∈ symbols, Latin1 v
  | .passing reqId symbols todo => (Latin1 reqId ∧ ∀ v ∈ symbols, Latin1 v) ∧ ∀ fs ∈ todo, Latin1Fields fs
  | _ => True

/-- Every text of the two threads has an encoding. -/
structure Latin1Threads (s : SessionThreads) : Prop where
  user : Latin1 s.user
  buf : Latin1 s.buf
  todo : ∀ x ∈ s.todo, Latin1Task x
  stream : Latin1Stream s.stream

/-- INTERNAL: the invariant.  What a thread has sent, with what it is about to send, is what it has to
send. -/
structure LockInv (w : World) (s : SessionThreads) (h : List ThreadObs) (done : List CallSection)
    (opened : Option CallSection) : Prop where
  calls : LockedCalls w h s.lock done opened
  texts : Latin1Threads s
  dicts : ∀ m ∈ handledOf h, Latin1Dict m
  calm : s.pc ≠ .draining → s.todo = []
  session : replies w 0 ((handledOf h).flatMap handleTasks) =
    ((replies w s.orderNo s.todo).1, callsOf .session (done ++ opened.toList) ++ (replies w s.orderNo s.todo).2)
  stream : passesOf h = callsOf .stream (done ++ opened.toList) ++ snapshotsLeft s.stream

namespace LockInv

variable {s s' : SessionThreads} {h : List ThreadObs} {done : List CallSection} {opened : Option CallSection}

/-- INTERNAL: a task is done: it is a call, or what is left of the message sends the same. -/
theorem task {x : Task} {rest : List Task} (hinv : LockInv w s h done opened) (htodo : s.todo = x :: rest)
    (hdo : s.doTask w x rest = some s') : ∃ opened', LockInv w s' h done opened' := by
  obtain ⟨hx, hrest⟩ := List.forall_mem_cons.mp (htodo ▸ hinv.texts.todo)
  have hdraining : s.pc = .draining := by
    by_contra hpc
    rw [hinv.calm hpc] at htodo
    cases htodo
  have hsession := hinv.session
  rw [htodo] at hsession
  cases x with
  | rename user =>
    obtain rfl := Option.some.inj hdo
    exact ⟨opened, hinv.calls, ⟨hx, hinv.texts.buf, hrest, hinv.texts.stream⟩, hinv.dicts,
      fun hpc => absurd hdraining hpc, hsession, hinv.stream⟩
  | send t fs =>
    obtain ⟨lock, henter, rfl⟩ := Option.map_eq_some_iff.mp hdo
    obtain ⟨rfl, hcalls⟩ := hinv.calls.enter hx.1 hx.2 henter
    refine ⟨some ⟨.session, .reading t fs, []⟩, hcalls, ⟨hinv.texts.user, hinv.texts.buf, hrest, hinv.texts.stream⟩,
      hinv.dicts, fun hpc => absurd hdraining hpc, ?_, ?_⟩
    · rw [hsession, replies, callsOf_entered, List.append_assoc]
      rfl
    · rw [hinv.stream, callsOf_entered]
      exact congrArg (· ++ _) (List.append_nil _).symm
  | report m execType ordStatus leaves cum last =>
    obtain rfl := Option.some.inj hdo
    obtain ⟨hm, hvalues, hlast⟩ := hx
    refine ⟨opened, hinv.calls, ⟨hinv.texts.user, hinv.texts.buf, ?_, hinv.texts.stream⟩, hinv.dicts,
      fun hpc => absurd hdraining hpc, hsession, hinv.stream⟩
    exact List.forall_mem_cons.mpr ⟨⟨by decide, latin1_reportFields w _ hm hvalues hlast⟩, hrest⟩
  | fifth m =>
    simp only [SessionThreads.doTask] at hdo
    split at hdo
    · next hfifth =>
      obtain rfl := Option.some.inj hdo
      refine ⟨opened, hinv.calls, ⟨hinv.texts.user, hinv.texts.buf, ?_, hinv.texts.stream⟩, hinv.dicts,
        fun hpc => absurd hdraining hpc, ?_, hinv.stream⟩
      · exact List.forall_mem_cons.mpr ⟨latin1_fill hx, hrest⟩
      · rw [hsession, replies_fifth, if_pos hfifth]
    · next hfifth =>
      obtain rfl := Option.some.inj hdo
      refine ⟨opened, hinv.calls, ⟨hinv.texts.user, hinv.texts.buf, hrest, hinv.texts.stream⟩, hinv.dicts,
        fun hpc => absurd hdraining hpc, ?_, hinv.stream⟩
      rw [hsession, replies_fifth, if_neg hfifth]
  | stop =>
    obtain rfl := Option.some.inj hdo
    exact ⟨opened, hinv.calls, ⟨hinv.texts.user, hinv.texts.buf, hrest, hinv.texts.stream⟩, hinv.dicts,
      fun hpc => absurd hdraining hpc, hsession, hinv.stream⟩
  | subscribe reqId symbols =>
    simp only [SessionThreads.doTask] at hdo
    split at hdo
    · next habsent =>
      obtain rfl := Option.some.inj hdo
      refine ⟨opened, hinv.calls, ⟨hinv.texts.user, hinv.texts.buf, hrest, hx⟩, hinv.dicts,
        fun hpc => absurd hdraining hpc, hsession, ?_⟩
      rw [hinv.stream, habsent]
      rfl
    · obtain rfl := Option.some.inj hdo
      exact ⟨opened, hinv.calls, ⟨hinv.texts.user, hinv.texts.buf, hrest, hinv.texts.stream⟩, hinv.dicts,
        fun hpc => absurd hdraining hpc, hsession, hinv.stream⟩

/-- INTERNAL: the session's thread ends, with nothing left to do. -/
theorem finish (hinv : LockInv w s h done opened) (hpc : s.pc = .looping) : LockInv w s.finish h done opened := by
  have htodo := hinv.calm (hpc ▸ by decide)
  have hsession := hinv.session
  rw [htodo] at hsession
  exact ⟨hinv.calls, ⟨hinv.texts.user, hinv.texts.buf, fun x hx => absurd hx List.not_mem_nil, hinv.texts.stream⟩,
    hinv.dicts, fun _ => rfl, hsession, hinv.stream⟩

/-- INTERNAL: a message is handled, or the buffer has none.
SRCLINE: scripts/mock_exchange.py:146-154 -/
theorem turn {es : List ThreadObs} (hinv : LockInv w s h done opened) (hstep : s.step w .turn = some (s', es)) :
    LockInv w s' (h ++ es) done opened := by
  simp only [SessionThreads.step] at hstep
  split at hstep
  · next hcond =>
    obtain ⟨hpc, htodo, -⟩ := hcond
    have hsession := hinv.session
    rw [htodo] at hsession
    cases hnext : nextMessage s.buf with
    | none =>
      rw [hnext] at hstep
      obtain ⟨rfl, rfl⟩ := Prod.mk.inj (Option.some.inj hstep)
      rw [List.append_nil]
      exact ⟨hinv.calls, ⟨hinv.texts.user, hinv.texts.buf, hinv.texts.todo, hinv.texts.stream⟩, hinv.dicts,
        fun _ => htodo, hinv.session, hinv.stream⟩
    | some next =>
      obtain ⟨raw, buf⟩ := next
      rw [hnext] at hstep
      obtain ⟨rfl, rfl⟩ := Prod.mk.inj (Option.some.inj hstep)
      obtain ⟨hraw, hbuf⟩ := latin1_append.mp (nextMessage_eq_some hnext ▸ hinv.texts.buf)
      have hm := latin1_parse hraw
      refine ⟨hinv.calls.mono _, ⟨hinv.texts.user, hbuf, latin1_handleTasks hm, hinv.texts.stream⟩, ?_,
        fun hne => absurd hpc hne, ?_, ?_⟩
      · intro m' hm'
        rw [handledOf_append] at hm'
        obtain hm' | hm' := List.mem_append.mp hm'
        · exact hinv.dicts m' hm'
        · exact List.mem_singleton.mp hm' ▸ hm
      · rw [handledOf_append, List.flatMap_append, replies_append, hsession]
        have hone : (handledOf [ThreadObs.handled (parse raw)]).flatMap handleTasks = handleTasks (parse raw) :=
          List.flatMap_singleton _ _
        rw [hone, replies, List.append_nil]
      · rw [passesOf_append, hinv.stream]
        exact List.append_nil _
  · cases hstep

/-- INTERNAL: **one step** of one of the threads.
SRCLINE: scripts/mock_exchange.py:81-114, 137-157 -/
theorem step {a : ThreadStep} {es : List ThreadObs} (hinv : LockInv w s h done opened)
    (hstep : s.step w a = some (s', es)) : ∃ done' opened', LockInv w s' (h ++ es) done' opened' := by
  cases a with
  | recv chunk =>
    simp only [SessionThreads.step] at hstep
    split at hstep
    · next hcond =>
      split at hstep
      · obtain ⟨rfl, rfl⟩ := Prod.mk.inj (Option.some.inj hstep)
        rw [List.append_nil]
        exact ⟨done, opened, hinv.finish hcond.1⟩
      · obtain ⟨rfl, rfl⟩ := Prod.mk.inj (Option.some.inj hstep)
        rw [List.append_nil]
        have htodo := hinv.calm (hcond.1 ▸ by decide)
        exact ⟨done, opened, hinv.calls,
          ⟨hinv.texts.user, latin1_append.mpr ⟨hinv.texts.buf, latin1_decodeLatin1 chunk⟩, hinv.texts.todo,
            hinv.texts.stream⟩, hinv.dicts, fun _ => htodo, hinv.session, hinv.stream⟩
    · cases hstep
  | reset =>
    simp only [SessionThreads.step] at hstep
    split at hstep
    · next hcond =>
      obtain ⟨rfl, rfl⟩ := Prod.mk.inj (Option.some.inj hstep)
      rw [List.append_nil]
      exact ⟨done, opened, hinv.finish hcond.1⟩
    · cases hstep
  | leave =>
    simp only [SessionThreads.step] at hstep
    split at hstep
    · next hcond =>
      obtain ⟨rfl, rfl⟩ := Prod.mk.inj (Option.some.inj hstep)
      rw [List.append_nil]
      exact ⟨done, opened, hinv.finish hcond.1⟩
    · cases hstep
  | turn => exact ⟨done, opened, hinv.turn hstep⟩
  | task =>
    simp only [SessionThreads.step] at hstep
    split at hstep
    · cases hstep
    · next x rest htodo =>
      split at hstep
      · obtain ⟨s'', hdo, heq⟩ := Option.map_eq_some_iff.mp hstep
        obtain ⟨rfl, rfl⟩ := Prod.mk.inj heq
        rw [List.append_nil]
        exact ⟨done, hinv.task htodo hdo⟩
      · cases hstep
  | pass elapsed =>
    simp only [SessionThreads.step] at hstep
    split at hstep
    · next reqId symbols hlooping =>
      have hstream := hinv.stream
      rw [hlooping] at hstream
      have htexts : Latin1 reqId ∧ ∀ v ∈ symbols, Latin1 v := by
        have := hinv.texts.stream
        rwa [hlooping] at this
      split at hstep
      · obtain ⟨rfl, rfl⟩ := Prod.mk.inj (Option.some.inj hstep)
        refine ⟨done, opened, hinv.calls.mono _, ⟨hinv.texts.user, hinv.texts.buf, hinv.texts.todo,
          htexts, latin1_passFields htexts.1 htexts.2 elapsed⟩, ?_, hinv.calm, ?_, ?_⟩
        · rw [handledOf_append]
          simpa only [handledOf, List.filterMap_cons_none, List.filterMap_nil, List.append_nil] using hinv.dicts
        · rw [handledOf_append]
          exact (congrArg (fun ms => replies w 0 (List.flatMap handleTasks ms)) (List.append_nil _)).trans hinv.session
        · rw [passesOf_append, hstream]
          exact congrArg₂ (· ++ ·) (List.append_nil _) (List.append_nil _)
      · obtain ⟨rfl, rfl⟩ := Prod.mk.inj (Option.some.inj hstep)
        rw [List.append_nil]
        exact ⟨done, opened, hinv.calls, ⟨hinv.texts.user, hinv.texts.buf, hinv.texts.todo, trivial⟩, hinv.dicts,
          hinv.calm, hinv.session, hstream⟩
    · cases hstep
  | snapshot =>
    simp only [SessionThreads.step] at hstep
    split at hstep
    · next reqId symbols hpassing =>
      have hstream := hinv.stream
      rw [hpassing] at hstream
      have htexts := hinv.texts.stream
      rw [hpassing] at htexts
      split at hstep
      · obtain ⟨rfl, rfl⟩ := Prod.mk.inj (Option.some.inj hstep)
        rw [List.append_nil]
        exact ⟨done, opened, hinv.calls, ⟨hinv.texts.user, hinv.texts.buf, hinv.texts.todo, htexts.1⟩, hinv.dicts,
          hinv.calm, hinv.session, hstream⟩
      · cases hstep
    · next reqId symbols fields rest hpassing =>
      have hstream := hinv.stream
      rw [hpassing] at hstream
      have htexts := hinv.texts.stream
      rw [hpassing] at htexts
      obtain ⟨hfields, hrest⟩ := List.forall_mem_cons.mp htexts.2
      obtain ⟨lock, henter, heq⟩ := Option.map_eq_some_iff.mp hstep
      obtain ⟨rfl, rfl⟩ := Prod.mk.inj heq
      obtain ⟨rfl, hcalls⟩ := hinv.calls.enter (by decide : Latin1 "W".toList) hfields henter
      rw [List.append_nil]
      refine ⟨done, some ⟨.stream, .reading "W".toList fields, []⟩, hcalls,
        ⟨hinv.texts.user, hinv.texts.buf, hinv.texts.todo, htexts.1, hrest⟩, hinv.dicts, hinv.calm, ?_, ?_⟩
      · rw [hinv.session, callsOf_entered]
        exact congrArg (fun cs => (_, cs ++ _)) (List.append_nil _).symm
      · rw [hstream, callsOf_entered, List.append_assoc]
        rfl
    · cases hstep
  | holder =>
    -- nothing that is built raises, so the step is one of the lock alone
    have hlock : ∃ lock, s.lock.proceed (sendStep w) (.next s.user) = some lock ∧ s' = { s with lock := lock } ∧ es = [] := by
      simp only [SessionThreads.step, SessionThreads.holderStep] at hstep
      split at hstep
      · cases hstep
      · split at hstep
        · cases hstep
        · obtain ⟨lock, hproceed, heq⟩ := Option.map_eq_some_iff.mp hstep
          obtain ⟨rfl, rfl⟩ := Prod.mk.inj heq
          exact ⟨lock, hproceed, rfl, rfl⟩
      · next who t fs hholder =>
        obtain ⟨lock, hproceed, heq⟩ := Option.map_eq_some_iff.mp hstep
        rw [hinv.calls.built hholder hinv.texts.user hproceed] at heq
        obtain ⟨rfl, rfl⟩ := Prod.mk.inj heq
        exact ⟨lock, hproceed, rfl, rfl⟩
      · obtain ⟨lock, hproceed, heq⟩ := Option.map_eq_some_iff.mp hstep
        obtain ⟨rfl, rfl⟩ := Prod.mk.inj heq
        exact ⟨lock, hproceed, rfl, rfl⟩
    obtain ⟨lock, hproceed, rfl, rfl⟩ := hlock
    obtain ⟨done', opened', hcalls, hsame⟩ :=
      hinv.calls.proceed (a := .next s.user) [] hinv.texts.user (fun hfail => nomatch hfail) hproceed
    rw [List.append_nil] at hcalls ⊢
    exact ⟨done', opened', hcalls,
      ⟨hinv.texts.user, hinv.texts.buf, hinv.texts.todo, hinv.texts.stream⟩, hinv.dicts, hinv.calm, (hsame .session).symm ▸ hinv.session,
      (hsame .stream).symm ▸ hinv.stream⟩
  | fail =>
    obtain ⟨lock, hproceed, heq⟩ := Option.map_eq_some_iff.mp hstep
    obtain ⟨rfl, rfl⟩ := Prod.mk.inj heq
    obtain ⟨done', opened', hcalls, hsame⟩ :=
      hinv.calls.proceed (a := .fail) [.failed] trivial (fun _ => List.mem_singleton_self _) hproceed
    refine ⟨done', opened', hcalls, ⟨hinv.texts.user, hinv.texts.buf, hinv.texts.todo, hinv.texts.stream⟩, ?_,
      hinv.calm, ?_, ?_⟩
    · rw [handledOf_append]
      simpa only [handledOf, List.filterMap_cons_none, List.filterMap_nil, List.append_nil] using hinv.dicts
    · rw [handledOf_append, hsame .session]
      exact (congrArg (fun ms => replies w 0 (List.flatMap handleTasks ms)) (List.append_nil _)).trans hinv.session
    · rw [passesOf_append, hsame .stream]
      exact (List.append_nil _).trans hinv.stream

end LockInv

theorem lockInv_init : LockInv w {} [] [] none where
  calls := ⟨.free .none, fun x hx => absurd hx List.not_mem_nil, fun x hx => absurd hx List.not_mem_nil⟩
  texts := ⟨by decide, by decide, fun x hx => absurd hx List.not_mem_nil, trivial⟩
  dicts := fun m hm => absurd hm List.not_mem_nil
  calm := fun _ => rfl
  session := rfl
  stream := rfl

/-! ## The wire -/

/-- A message that has a number, with what the peer can read of it. -/
structure Posted where
  who : Who
  message : Message
  out : List UInt8

/-- What the message was sent with. -/
def Posted.call (x : Posted) : Call := (x.message.msgType, x.message.body)

/-- The messages of a thread. -/
def postedBy (who : Who) (xs : List Posted) : List Call := (xs.filter fun x => x.who = who).map Posted.call

/-- The peer can read a beginning of a framed message. -/
def Begins (x : Posted) : Prop := ∃ data, x.message.built = some data ∧ Framed data ∧ x.out <+: data

/-- The messages are numbered from one on, and the bytes are theirs. -/
structure Readable (out : List UInt8) (xs : List Posted) : Prop where
  numbers : xs.map (fun x => x.message.seq) = (List.range xs.length).map fun (k : ℕ) => (k : ℤ) + 1
  bytes : out = xs.flatMap Posted.out
  begins : ∀ x ∈ xs, Begins x

/-- And nothing else was counted. -/
structure OnWire (d : Outgoing) (xs : List Posted) : Prop extends Readable d.out xs where
  count : d.seq = xs.length

theorem encodeLatin1_eq_some {t : Text} {bytes : List UInt8} (h : encodeLatin1 t = some bytes) :
    bytes = latin1Bytes t := by
  unfold encodeLatin1 at h
  split at h
  · exact (Option.some.inj h).symm
  · cases h

/-- Whatever is built is framed. -/
theorem framed_of_built {m : Message} {data : List UInt8} (h : m.built = some data) : Framed data := by
  obtain ⟨sum, hsum, hencode⟩ := Option.bind_eq_some_iff.mp h
  obtain ⟨bytes, hbytes, rfl⟩ := Option.map_eq_some_iff.mp hsum
  rw [encodeLatin1_eq_some hencode, encodeLatin1_eq_some hbytes, Message.bodyOf_eq, ← Message.fieldsText_frontFields]
  have hframed := framed_text m
  rw [Message.text_eq] at hframed
  exact hframed

theorem begins_of_built {x : Posted} {rest : List UInt8} (h : x.message.built = some (x.out ++ rest)) : Begins x :=
  ⟨x.out ++ rest, h, framed_of_built h, List.prefix_append _ _⟩

theorem OnWire.concat {d : Outgoing} {xs : List Posted} {x : Posted} (h : OnWire d xs)
    (hseq : x.message.seq = d.seq + 1) (hx : Begins x) :
    OnWire { seq := d.seq + 1, out := d.out ++ x.out } (xs ++ [x]) where
  count := by rw [List.length_append, ← h.count]; rfl
  numbers := by
    rw [List.map_append, h.numbers, List.length_append, List.length_singleton, List.range_succ, List.map_append,
      List.map_singleton, List.map_singleton, hseq, h.count]
  bytes := by rw [List.flatMap_append, ← h.bytes, List.flatMap_singleton]
  begins := by
    intro y hy
    obtain hy | hy := List.mem_append.mp hy
    · exact h.begins y hy
    · exact List.mem_singleton.mp hy ▸ hx

/-- The messages of the sections, one each. -/
def SameCalls (done : List CallSection) (xs : List Posted) : Prop :=
  ∀ who, postedBy who xs = callsOf who done

theorem SameCalls.concat {done : List CallSection} {xs : List Posted} {x : CallSection} {y : Posted}
    (h : SameCalls done xs) (hwho : y.who = x.thread) (hcall : y.call = Sending.call x.start) :
    SameCalls (done ++ [x]) (xs ++ [y]) := by
  intro who
  rw [callsOf_append, ← h who]
  unfold postedBy callsOf
  rw [List.filter_append, List.map_append, List.filter_singleton, List.filter_singleton, hwho]
  cases decide (x.thread = who)
  · rfl
  · exact congrArg (fun c => _ ++ [c]) hcall

/-- INTERNAL: **sections one after the other** put whole messages on the wire, unless a `sendall` fails. -/
theorem posted_of_serial {done : List CallSection} {d : Outgoing} (hserial : Serial (sendStep w) {} done d)
    (hsound : ∀ x ∈ done, SoundCall x) :
    ∃ xs, OnWire d xs ∧ SameCalls done xs ∧
      ((∀ x ∈ done, .fail ∉ x.acts) → ∀ x ∈ xs, x.message.built = some x.out) := by
  induction hserial with
  | none =>
    refine ⟨[], ⟨⟨rfl, rfl, fun x hx => absurd hx List.not_mem_nil⟩, rfl⟩, fun _ => rfl, ?_⟩
    exact fun _ x hx => absurd hx List.not_mem_nil
  | @one done d' d'' x before whole ih =>
    obtain ⟨xs, hwire, hsame, hall⟩ := ih fun y hy => hsound y (List.mem_append_left _ hy)
    obtain ⟨⟨t, fs, hstart, ht, hfs⟩, hacts⟩ := hsound x (List.mem_append_right _ (List.mem_singleton_self x))
    have hcome := whole
    rw [hstart] at hcome
    obtain ⟨user, sent, rest, hbuilt, rfl, hwhole⟩ := hasCome_of_goes ht hfs hacts hcome
    -- the message of this section
    let y : Posted := { who := x.thread, message := messageOf w (d'.seq + 1) (t, fs) user, out := sent }
    refine ⟨xs ++ [y], hwire.concat (x := y) (Nat.cast_succ _) (begins_of_built (x := y) hbuilt),
      hsame.concat rfl (by rw [hstart]; rfl), ?_⟩
    intro hnofail z hz
    obtain hz | hz := List.mem_append.mp hz
    · exact hall (fun u hu => hnofail u (List.mem_append_left _ hu)) z hz
    · obtain rfl := List.mem_singleton.mp hz
      have hrest := hwhole (hnofail x (List.mem_append_right _ (List.mem_singleton_self x)))
      rw [hrest, List.append_nil] at hbuilt
      exact hbuilt

theorem callsOf_singleton_of_ne {who : Who} {x : CallSection} (h : x.thread ≠ who) : callsOf who [x] = [] := by
  unfold callsOf
  rw [List.filter_singleton, decide_eq_false h]
  rfl

/-- INTERNAL: **what the lock guards** is on the wire: whole messages, and what is out of the one that is
being sent.  A call that has no number yet is still to come. -/
theorem LockedCalls.posted {h : List ThreadObs} {lock : Monitor Who Outgoing Sending} {done : List CallSection}
    {opened : Option CallSection} (hinv : LockedCalls w h lock done opened) :
    ∃ whole last, Readable lock.data.out (whole ++ last.toList) ∧
      (ThreadObs.failed ∉ h → ∀ x ∈ whole, x.message.built = some x.out) ∧ (lock.holder = none → last = none) ∧
      ∀ who, ∃ rest, callsOf who (done ++ opened.toList) = postedBy who (whole ++ last.toList) ++ rest ∧
        (lock.holder.map Prod.fst ≠ some who → rest = []) := by
  obtain ⟨hserial, hsound, hfailed⟩ := hinv
  cases hserial with
  | free before =>
    rw [Option.toList_none, List.append_nil] at hsound hfailed
    obtain ⟨xs, hwire, hsame, hall⟩ := posted_of_serial before hsound
    refine ⟨xs, none, ?_, fun hno => hall fun x hx hfail => hno (hfailed x hx hfail), fun _ => rfl, fun who => ?_⟩
    · rw [Option.toList_none, List.append_nil]
      exact hwire.toReadable
    · refine ⟨[], ?_, fun _ => rfl⟩
      simp only [Option.toList_none, List.append_nil]
      exact (hsame who).symm
  | @held d' d'' x l before part =>
    obtain ⟨xs, hwire, hsame, hall⟩ := posted_of_serial before fun y hy => hsound y (List.mem_append_left _ hy)
    obtain ⟨⟨t, fs, hstart, ht, hfs⟩, hacts⟩ := hsound x (List.mem_append_right _ (List.mem_singleton_self x))
    have hcome := part
    rw [hstart] at hcome
    have hcome := hasCome_of_goes ht hfs hacts hcome
    have hwhole : ThreadObs.failed ∉ h → ∀ y ∈ xs, y.message.built = some y.out :=
      fun hno => hall fun y hy hfail => hno (hfailed y (List.mem_append_left _ hy) hfail)
    -- before it is built, the message has no number
    have hbefore : d''.out = d'.out →
        ∃ whole last, Readable d''.out (whole ++ last.toList) ∧
          (ThreadObs.failed ∉ h → ∀ y ∈ whole, y.message.built = some y.out) ∧
          ((some (x.thread, l) : Option (Who × Sending)) = none → last = none) ∧
          ∀ who, ∃ rest, callsOf who (done ++ (some x).toList) = postedBy who (whole ++ last.toList) ++ rest ∧
            ((some (x.thread, l) : Option (Who × Sending)).map Prod.fst ≠ some who → rest = []) := by
      intro hout
      refine ⟨xs, none, ?_, hwhole, fun _ => rfl, fun who => ⟨callsOf who [x], ?_, fun hne => ?_⟩⟩
      · rw [Option.toList_none, List.append_nil, hout]
        exact hwire.toReadable
      · rw [Option.toList_none, List.append_nil, hsame who]
        exact callsOf_append who done [x]
      · exact callsOf_singleton_of_ne fun heq => hne (congrArg some heq)
    cases l with
    | reading t' fs' => exact hbefore (by rw [hcome.2.1])
    | writing t' fs' n => exact hbefore (by rw [hcome.2.1])
    | building t' fs' => exact hbefore (by rw [hcome.2.1])
    | sending t' fs' rest =>
      obtain ⟨-, -, user, sent, hbuilt, rfl⟩ := hcome
      let y : Posted := { who := x.thread, message := messageOf w (d'.seq + 1) (t, fs) user, out := sent }
      have hnow := hwire.concat (x := y) (Nat.cast_succ _) (begins_of_built (x := y) hbuilt)
      have hcalls := hsame.concat (x := x) (y := y) rfl (by rw [hstart]; rfl)
      refine ⟨xs, some y, hnow.toReadable, hwhole, fun hnone => absurd hnone (Option.some_ne_none _),
        fun who => ⟨[], ?_, fun _ => rfl⟩⟩
      rw [List.append_nil]
      exact (hcalls who).symm

/-- **The lock keeps the messages apart.**  However the two threads of a session take turns, statement
by statement and byte by byte, what the peer can read are messages that are numbered one after the
other, framed, and whole if no `sendall` failed, all but the one that is being sent.  Those of the
session are the answers it gives alone, in order; those of the streaming thread are its snapshots.
SRCLINE: scripts/mock_exchange.py:81-114, 137-195 -/
theorem send_lock (w : World) {acts : List ThreadStep} {s : SessionThreads} {h : List ThreadObs}
    (hrun : run (recorded (SessionThreads.step w)) ({}, []) acts = some (s, h)) :
    ∃ (whole : List Posted) (last : Option Posted), Readable s.lock.data.out (whole ++ last.toList) ∧
      (ThreadObs.failed ∉ h → ∀ x ∈ whole, x.message.built = some x.out) ∧
      (s.lock.holder = none → last = none) ∧
      (∃ s' answers rest, serve w {} (handledOf h) = some (s', answers) ∧
        answers.map Sent.call = postedBy .session (whole ++ last.toList) ++ rest ∧
        (s.todo = [] → s.outside .session = true → rest = [])) ∧
      ∃ rest, passesOf h = postedBy .stream (whole ++ last.toList) ++ rest ∧
        (snapshotsLeft s.stream = [] → s.outside .stream = true → rest = []) := by
  have hinv : ∃ done opened, LockInv w s h done opened := by
    apply run_invariant' (I := fun x : SessionThreads × List ThreadObs => ∃ done opened, LockInv w x.1 x.2 done opened)
      _ ⟨[], none, lockInv_init⟩ hrun
    rintro ⟨s, h⟩ a ⟨s', h'⟩ ⟨done, opened, hinv⟩ hact
    obtain ⟨es, hes, rfl⟩ := recorded_eq_some.mp hact
    exact hinv.step hes
  obtain ⟨done, opened, hinv⟩ := hinv
  obtain ⟨whole, last, hread, hall, hlast, hcalls⟩ := hinv.calls.posted
  refine ⟨whole, last, hread, hall, hlast, ?_, ?_⟩
  · obtain ⟨rest, hrest, hnone⟩ := hcalls .session
    obtain ⟨s', answers, hserve, hreplies⟩ :=
      serve_replies (w := w) (s := {}) hinv.dicts (by decide : Latin1 "CLIENT".toList)
    have heq := (Prod.mk.inj (hreplies.symm.trans hinv.session)).2
    refine ⟨s', answers, rest ++ (replies w s.orderNo s.todo).2, hserve, ?_, ?_⟩
    · rw [heq, hrest, List.append_assoc]
    · intro htodo hout
      rw [hnone (by simpa [SessionThreads.outside] using hout), htodo]
      rfl
  · obtain ⟨rest, hrest, hnone⟩ := hcalls .stream
    refine ⟨rest ++ snapshotsLeft s.stream, ?_, ?_⟩
    · rw [hinv.stream, hrest, List.append_assoc]
    · intro hleft hout
      rw [hnone (by simpa [SessionThreads.outside] using hout), hleft]
      rfl

/-- A subscription and a logon. -/
def subscribeThenLogon : List Message :=
  [clientMessage "V".toList 1 [("262".toList, "1".toList), ("55".toList, "DLR".toList)],
    clientMessage "A".toList 2 [("108".toList, "30".toList)]]

/-- The user is renamed while the first snapshot is about to be built, and the answer to the logon waits
for the lock. -/
def renamedInside : List ThreadStep :=
  [.recv (streamOf subscribeThenLogon), .turn, .task, .turn, .pass 0, .snapshot, .holder, .holder, .task, .holder] ++
    List.replicate 343 .holder ++ [.task] ++ List.replicate 20 .holder

/-- The snapshot is whole and the answer has begun. -/
theorem send_lock_renamedInside :
    ∃ (s : SessionThreads) (h : List ThreadObs) (whole : List Posted) (last : Option Posted),
      run (recorded (SessionThreads.step stillWorld)) ({}, []) renamedInside = some (s, h) ∧ s.lock.data.seq = 2 ∧ Readable s.lock.data.out (whole ++ last.toList) ∧
      ∀ x ∈ whole, x.message.built = some x.out := by
  have hfacts : (run (recorded (SessionThreads.step stillWorld)) ({}, []) renamedInside).map
      (fun x => (x.1.lock.data.seq, x.2.all fun | .failed => false | _ => true)) = some (2, true) := by decide +kernel
  obtain ⟨⟨s, h⟩, hrun, hfacts⟩ := Option.map_eq_some_iff.mp hfacts
  obtain ⟨hseq, hall⟩ := Prod.mk.inj hfacts
  obtain ⟨whole, last, hread, hwhole, -⟩ := send_lock stillWorld hrun
  refine ⟨s, h, whole, last, hrun, hseq, hread, hwhole fun hmem => ?_⟩
  exact absurd (List.all_eq_true.mp hall _ hmem) (by decide)

end MmEngine.Analysis
