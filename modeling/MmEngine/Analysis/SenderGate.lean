import MmEngine.Interface.EngineRules

/-!
# What becomes of an accepted command

The strategy marks a slot as in flight when `OrdRing` accepts its command.  The sender pops
the commands in push order and sends a command only if the session is logged on when it
looks (main.cpp:217); a command popped while it is logged out is discarded.  Every pushed
command is therefore popped once and in order, and sent once and in order exactly when its
check found the session up.

A slot that waits in `PendingNew` or `PendingCancel` waits for a command that was sent, is
still on its way, or was discarded at a check that found the session down.
-/

set_option autoImplicit false

namespace MmEngine.Analysis

open MmEngine.Model MmEngine.Model.MarketMaker MmEngine.Interface MmEngine.Lib

/-- The commands `OrdRing` accepted, in order. -/
def pushes (h : List Obs) : List OrderCmd :=
  h.filterMap fun
    | .strategy (.pushed c) => some c
    | _ => none

/-- The commands the sender popped, in order. -/
def pops (h : List Obs) : List OrderCmd :=
  h.filterMap fun
    | .popped c => some c
    | _ => none

/-- The commands the sender looked at `logged_on()` for, with the answers, in order. -/
def checks (h : List Obs) : List (OrderCmd × Bool) :=
  h.filterMap fun
    | .checked c up => some (c, up)
    | _ => none

/-- The commands handed to `sendToTarget`, in order. -/
def sends (h : List Obs) : List OrderCmd :=
  h.filterMap fun
    | .sent c _ => some c
    | _ => none

/-- The session is logged on after the history. -/
def sessionUp (h : List Obs) : Bool :=
  h.foldl (fun up o => match o with
    | .logon => true
    | .logout => false
    | _ => up) false

/-- The checks of a history saw the session as it was. -/
def Gate (h : List Obs) : Prop :=
  ∀ earlier c up later, h = earlier ++ .checked c up :: later → up = sessionUp earlier

/-- The command the sender has popped and not looked at the session for. -/
def unchecked : Sender → List OrderCmd
  | .popped c => [c]
  | _ => []

/-- The command the sender is about to send. -/
def unsent : Sender → List OrderCmd
  | .cleared c => [c]
  | _ => []

/-- The sender pops what was pushed, checks what it popped and sends what its check let
through, each once and in order, and its checks see the session as it is. -/
structure Relayed (cfg : EngineConfig) (x : Engine × List Obs) : Prop where
  popped : pushes x.2 = pops x.2 ++ x.1.ordRing
  checked : pops x.2 = (checks x.2).map Prod.fst ++ unchecked x.1.sender
  sent : ((checks x.2).filter Prod.snd).map Prod.fst = sends x.2 ++ unsent x.1.sender
  message : ∀ c m, .sent c m ∈ x.2 → (FixApp.init cfg).sendOrderCmd c = some m
  session : x.1.ses.loggedOn = sessionUp x.2
  gate : Gate x.2

section Lists

variable (h h' : List Obs)

theorem pushes_append : pushes (h ++ h') = pushes h ++ pushes h' := List.filterMap_append

theorem pops_append : pops (h ++ h') = pops h ++ pops h' := List.filterMap_append

theorem checks_append : checks (h ++ h') = checks h ++ checks h' := List.filterMap_append

theorem sends_append : sends (h ++ h') = sends h ++ sends h' := List.filterMap_append

theorem sessionUp_append :
    sessionUp (h ++ h') = h'.foldl (fun up o => match o with
      | .logon => true
      | .logout => false
      | _ => up) (sessionUp h) := List.foldl_append

end Lists

/-- INTERNAL: the commands of a turn are the commands its history shows. -/
theorem pushes_map_strategy (es : List Effect) :
    pushes (es.map .strategy) = pushedCmds es := by
  unfold pushes pushedCmds
  rw [List.filterMap_map]
  congr 1
  funext x
  cases x <;> rfl

/-- INTERNAL: only logon and logout move the session. -/
theorem sessionUp_append_of_no_session {h obs : List Obs}
    (hno : ∀ o ∈ obs, o ≠ .logon ∧ o ≠ .logout) : sessionUp (h ++ obs) = sessionUp h := by
  rw [sessionUp_append]
  induction obs generalizing h with
  | nil => rfl
  | cons o obs ih =>
    obtain ⟨hon, hout⟩ := hno o List.mem_cons_self
    rw [List.foldl_cons]
    have hrest := ih (h := h) fun o' ho' => hno o' (List.mem_cons_of_mem _ ho')
    cases o with
    | logon => exact absurd rfl hon
    | logout => exact absurd rfl hout
    | reported | quoted | strategy | enqueued | popped | checked | sent => exact hrest

/-- INTERNAL: a history keeps its checks honest when the events added to it hold no check, or
are one check of the session as it is. -/
theorem Gate.append {h obs : List Obs} (hg : Gate h)
    (hobs : ∀ c up, .checked c up ∈ obs → obs = [.checked c up] ∧ up = sessionUp h) :
    Gate (h ++ obs) := by
  intro earlier c up later heq
  rcases List.append_eq_append_iff.mp heq with ⟨mid, rfl, hmid⟩ | ⟨mid, rfl, hmid⟩
  · -- the check is among the new events
    obtain ⟨hone, hup⟩ := hobs c up (by rw [hmid]; simp)
    rw [hone] at hmid
    cases mid with
    | nil => rw [List.append_nil]; exact hup
    | cons o mid => simp at hmid
  · -- the check is an old one, or the first of the new events
    cases mid with
    | nil =>
      obtain ⟨-, hup⟩ := hobs c up (by rw [← List.nil_append obs, ← hmid]; simp)
      rw [List.append_nil] at hup
      exact hup
    | cons o mid =>
      obtain ⟨rfl, -⟩ := List.cons.inj hmid
      exact hg earlier c up mid rfl

/-- INTERNAL: **what a step has to show of its own events**: the ring and the sender's hands
pass on what comes in, in order. -/
theorem Relayed.extend {cfg : EngineConfig} {s t : Engine} {h obs : List Obs}
    (hs : Relayed cfg (s, h)) (hring : s.ordRing ++ pushes obs = pops obs ++ t.ordRing)
    (hhands : unchecked s.sender ++ pops obs =
      (checks obs).map Prod.fst ++ unchecked t.sender)
    (hgate : unsent s.sender ++ ((checks obs).filter Prod.snd).map Prod.fst =
      sends obs ++ unsent t.sender)
    (hmsg : ∀ c m, .sent c m ∈ obs → (FixApp.init cfg).sendOrderCmd c = some m)
    (hses : t.ses.loggedOn = sessionUp (h ++ obs))
    (hcheck : ∀ c up, .checked c up ∈ obs → obs = [.checked c up] ∧ up = s.ses.loggedOn) :
    Relayed cfg (t, h ++ obs) := by
  have hpopped := hs.popped
  have hchecked := hs.checked
  have hsent := hs.sent
  dsimp only at hpopped hchecked hsent
  refine ⟨?_, ?_, ?_, ?_, hses, ?_⟩
  · rw [pushes_append, pops_append, hpopped, List.append_assoc, List.append_assoc, hring]
  · rw [pops_append, checks_append, hchecked, List.map_append, List.append_assoc,
      List.append_assoc, hhands]
  · rw [checks_append, sends_append, List.filter_append, List.map_append, hsent,
      List.append_assoc, List.append_assoc, hgate]
  · intro c m hmem
    rcases List.mem_append.mp hmem with hmem | hmem
    · exact hs.message c m hmem
    · exact hmsg c m hmem
  · refine Gate.append hs.gate fun c up hmem => ?_
    obtain ⟨hone, hup⟩ := hcheck c up hmem
    exact ⟨hone, hup.trans hs.session⟩

/-- An event the sender has no part in. -/
def OffTrack : Obs → Prop
  | .reported _ _ _ | .quoted _ _ _ | .enqueued _ => True
  | .strategy _ => True
  | .popped _ | .checked _ _ | .sent _ _ | .logon | .logout => False

/-- INTERNAL: a step of the engine in which the sender and the session have no part. -/
theorem Relayed.offTrack {cfg : EngineConfig} {s t : Engine} {h obs : List Obs}
    (hs : Relayed cfg (s, h)) (hobs : ∀ o ∈ obs, OffTrack o)
    (hring : t.ordRing = s.ordRing ++ pushes obs) (hsender : t.sender = s.sender)
    (hses : t.ses.loggedOn = s.ses.loggedOn) : Relayed cfg (t, h ++ obs) := by
  have hpop : pops obs = [] := by
    refine List.filterMap_eq_nil_iff.mpr fun o ho => ?_
    have := hobs o ho
    cases o <;> first | rfl | exact absurd this (by simp [OffTrack])
  have hcheck : checks obs = [] := by
    refine List.filterMap_eq_nil_iff.mpr fun o ho => ?_
    have := hobs o ho
    cases o <;> first | rfl | exact absurd this (by simp [OffTrack])
  have hsend : sends obs = [] := by
    refine List.filterMap_eq_nil_iff.mpr fun o ho => ?_
    have := hobs o ho
    cases o <;> first | rfl | exact absurd this (by simp [OffTrack])
  apply hs.extend
  · rw [hpop, hring, List.nil_append]
  · rw [hpop, hcheck, hsender, List.append_nil, List.map_nil, List.nil_append]
  · rw [hcheck, hsend, hsender, List.filter_nil, List.map_nil, List.append_nil, List.nil_append]
  · exact fun c m hmem => absurd (hobs _ hmem) (by simp [OffTrack])
  · rw [hses, hs.session]
    refine (sessionUp_append_of_no_session fun o ho => ?_).symm
    have := hobs o ho
    constructor <;> rintro rfl <;> exact this
  · exact fun c up hmem => absurd (hobs _ hmem) (by simp [OffTrack])

/-- INTERNAL: **one step** of the engine relays.
SRCLINE: src/main.cpp:212-220 -/
theorem relayed_engineStep {cfg : EngineConfig} {s t : Engine} {h obs : List Obs} {a : EngineAct}
    (hs : Relayed cfg (s, h)) (hstep : EngineStep cfg s a t obs) : Relayed cfg (t, h ++ obs) := by
  cases hstep with
  | dropped msg now ses hses => exact hs.offTrack (by simp) (List.append_nil _).symm rfl hses
  | quoted m now ev seq ses hses =>
    exact hs.offTrack (by simp [OffTrack]) (List.append_nil _).symm rfl hses
  | reported => exact hs.offTrack (by simp [OffTrack]) (List.append_nil _).symm rfl rfl
  | execFault => exact hs.offTrack (by simp) (List.append_nil _).symm rfl rfl
  | exec => exact hs.offTrack (by simp [OffTrack]) (List.append_nil _).symm rfl rfl
  | fill e =>
    refine hs.offTrack ?_ ?_ rfl rfl
    · cases (offer tradeCap s.tradeRing e).2 <;> simp [OffTrack]
    · cases (offer tradeCap s.tradeRing e).2 <;> exact (List.append_nil _).symm
  | mdFault => exact hs.offTrack (by simp) (List.append_nil _).symm rfl rfl
  | persist => exact hs.offTrack (by simp) (List.append_nil _).symm rfl rfl
  | sendFault => exact hs.offTrack (by simp) (List.append_nil _).symm rfl rfl
  | md env ev rest m es hring hiter =>
    refine hs.offTrack ?_ ?_ rfl rfl
    · intro o ho
      obtain ⟨x, -, rfl⟩ := List.mem_map.mp ho
      trivial
    · rw [pushes_map_strategy]
  | pop c rest hidle hring =>
    refine hs.extend ?_ ?_ ?_ (by simp) ?_ (by simp)
    · rw [hring]
      simp [pushes, pops]
    · rw [hidle]
      simp [pops, checks, unchecked]
    · rw [hidle]
      simp [checks, sends, unsent]
    · exact hs.session.trans (sessionUp_append_of_no_session (by simp)).symm
  | check c hpop =>
    refine hs.extend ?_ ?_ ?_ (by simp) ?_ ?_
    · simp [pushes, pops]
    · rw [hpop]
      cases s.ses.loggedOn <;> simp [pops, checks, unchecked]
    · rw [hpop]
      cases s.ses.loggedOn <;> simp [checks, sends, unsent]
    · exact hs.session.trans (sessionUp_append_of_no_session (by simp)).symm
    · intro c' up hmem
      obtain ⟨rfl, rfl⟩ : c' = c ∧ up = s.ses.loggedOn := by simpa using hmem
      exact ⟨rfl, rfl⟩
  | send c m hclear hmsg =>
    refine hs.extend ?_ ?_ ?_ ?_ ?_ (by simp)
    · simp [pushes, pops]
    · rw [hclear]
      simp [pops, checks, unchecked]
    · rw [hclear]
      simp [checks, sends, unsent]
    · intro c' m' hmem
      obtain ⟨rfl, rfl⟩ := Obs.sent.inj (List.mem_singleton.mp hmem)
      exact hmsg
    · exact hs.session.trans (sessionUp_append_of_no_session (by simp)).symm
  | logon | logout =>
    refine hs.extend ?_ ?_ ?_ (by simp) ?_ (by simp)
    · simp [pushes, pops]
    · simp [pops, checks]
    · simp [checks, sends]
    · rw [sessionUp_append]
      rfl

/-! ## The slots that wait -/

/-- The command a slot in flight waits for: the order it holds, or the cancel of that order. -/
def WaitsFor (m : MarketMaker) (sym : Fin kMaxSymbols) (side : OrdSide) (c : OrderCmd) : Prop :=
  c.symbolId = sym ∧ c.side = side ∧
    (((m.slot sym side).state = .pendingNew ∧ c.type = .new ∧
        c.clOrdId = (m.slot sym side).clOrdId) ∨
      ((m.slot sym side).state = .pendingCancel ∧ c.type = .cancel ∧
        c.origClOrdId = (m.slot sym side).clOrdId))

/-- Every slot in flight waits for a command that was pushed. -/
def WaitsForPushed (m : MarketMaker) (h : List Effect) : Prop :=
  ∀ sym side, InFlight (m.slot sym side) → ∃ c, .pushed c ∈ h ∧ WaitsFor m sym side c

/-- INTERNAL: a slot that keeps its state and its id waits for what it waited for. -/
theorem WaitsForPushed.of_same {m m' : MarketMaker} {h h' : List Effect}
    (hw : WaitsForPushed m h) (hsub : ∀ x ∈ h, x ∈ h') {sym : Fin kMaxSymbols} {side : OrdSide}
    (hstate : (m'.slot sym side).state = (m.slot sym side).state)
    (hid : (m'.slot sym side).clOrdId = (m.slot sym side).clOrdId)
    (hfly : InFlight (m'.slot sym side)) : ∃ c, .pushed c ∈ h' ∧ WaitsFor m' sym side c := by
  unfold InFlight at hfly
  rw [hstate] at hfly
  obtain ⟨c, hc, hwait⟩ := hw sym side hfly
  refine ⟨c, hsub _ hc, ?_⟩
  unfold WaitsFor at *
  rw [hstate, hid]
  exact hwait

/-- INTERNAL: the strategy loop keeps it.
SRCLINE: src/strategy/market_maker.hpp:116-147, src/oms/order_manager.hpp:26-47 -/
theorem waitsForPushed_kept (cfg : EngineConfig) : Kept cfg WaitsForPushed where
  view := by
    intro m m' h homs _ hw sym side hfly
    have hslot := slot_of_oms homs sym side
    exact hw.of_same (fun x hx => hx) (by rw [hslot]) (by rw [hslot]) hfly
  quiet := by
    intro m h x _ hw sym side hfly
    exact hw.of_same (fun y hy => List.mem_append_left _ hy) rfl rfl hfly
  refused := by
    intro m h c hw sym side hfly
    exact hw.of_same (fun y hy => List.mem_append_left _ hy) rfl rfl hfly
  consumed := by
    intro m h e sym₀ _ hw sym side hfly
    rcases slot_takeExec m sym₀ e sym side with hs | ⟨rfl, -, hs⟩
    · exact hw.of_same (fun y hy => List.mem_append_left _ hy) (by rw [hs]) (by rw [hs]) hfly
    · -- of the reports the slot takes, only those that leave its state leave it in flight
      have hsame : (m.slot sym side).onExec e = m.slot sym side ∨ e.kind = .partFill := by
        rw [hs] at hfly
        unfold InFlight Quote.onExec at *
        cases hk : e.kind <;> simp_all
      rcases hsame with hsame | hk
      · rw [hsame] at hs
        exact hw.of_same (fun y hy => List.mem_append_left _ hy) (by rw [hs]) (by rw [hs]) hfly
      · refine hw.of_same (fun y hy => List.mem_append_left _ hy) ?_ ?_ hfly
        · rw [hs]
          simp [Quote.onExec, hk]
        · rw [hs]
          simp [Quote.onExec, hk]
  placed := by
    intro env m h sym₀ side₀ px tMd _ _ hw sym side hfly
    by_cases hslot : sym = sym₀ ∧ side = side₀
    · obtain ⟨rfl, rfl⟩ := hslot
      refine ⟨_, List.mem_append_right _ (List.mem_singleton.mpr rfl), rfl, rfl, Or.inl ?_⟩
      rw [slot_setSlot_self]
      exact ⟨rfl, rfl, rfl⟩
    · have hs : (m.bumpSeed.setSlot sym₀ side₀ (placedQuote m sym₀ side₀
          (newCmd cfg env m sym₀ side₀ px tMd))).slot sym side = m.slot sym side := by
        rw [slot_setSlot, if_neg hslot, slot_bumpSeed]
      exact hw.of_same (fun y hy => List.mem_append_left _ hy) (by rw [hs]) (by rw [hs]) hfly
  canceled := by
    intro env m h sym₀ side₀ tMd _ _ _ hw sym side hfly
    by_cases hslot : sym = sym₀ ∧ side = side₀
    · obtain ⟨rfl, rfl⟩ := hslot
      refine ⟨_, List.mem_append_right _ (List.mem_singleton.mpr rfl), rfl, rfl, Or.inr ?_⟩
      rw [slot_setSlot_self]
      exact ⟨rfl, rfl, rfl⟩
    · have hs : (m.bumpSeed.setSlot sym₀ side₀ { m.slot sym₀ side₀ with
          state := .pendingCancel }).slot sym side = m.slot sym side := by
        rw [slot_setSlot, if_neg hslot, slot_bumpSeed]
      exact hw.of_same (fun y hy => List.mem_append_left _ hy) (by rw [hs]) (by rw [hs]) hfly

/-- Where a pushed command can be: sent, in the ring, in the sender's hands, or discarded at a
check that found the session down. -/
def Accounted (s : Engine) (h : List Obs) (c : OrderCmd) : Prop :=
  c ∈ sends h ∨ c ∈ s.ordRing ∨ s.sender = .popped c ∨ s.sender = .cleared c ∨
    (c, false) ∈ checks h

/-- INTERNAL: every pushed command is accounted for. -/
theorem Relayed.accounted {cfg : EngineConfig} {s : Engine} {h : List Obs}
    (hs : Relayed cfg (s, h)) {c : OrderCmd} (hc : c ∈ pushes h) : Accounted s h c := by
  rw [hs.popped] at hc
  rcases List.mem_append.mp hc with hc | hc
  · rw [hs.checked] at hc
    rcases List.mem_append.mp hc with hc | hc
    · obtain ⟨⟨c', up⟩, hmem, rfl⟩ := List.mem_map.mp hc
      cases up with
      | false => exact Or.inr (Or.inr (Or.inr (Or.inr hmem)))
      | true =>
        have hsent : c' ∈ ((checks h).filter Prod.snd).map Prod.fst :=
          List.mem_map.mpr ⟨(c', true), List.mem_filter.mpr ⟨hmem, rfl⟩, rfl⟩
        rw [hs.sent] at hsent
        rcases List.mem_append.mp hsent with hsent | hsent
        · exact Or.inl hsent
        · cases hsend : s.sender with
          | idle => simp [hsend, unsent] at hsent
          | popped d => simp [hsend, unsent] at hsent
          | cleared d =>
            obtain rfl : c' = d := by simpa [hsend, unsent] using hsent
            exact Or.inr (Or.inr (Or.inr (Or.inl hsend)))
    · cases hsend : s.sender with
      | idle => simp [hsend, unchecked] at hc
      | cleared d => simp [hsend, unchecked] at hc
      | popped d =>
        obtain rfl : c = d := by simpa [hsend, unchecked] using hc
        exact Or.inr (Or.inr (Or.inl hsend))
  · exact Or.inr (Or.inl hc)

/-- INTERNAL: the commands of the history are those among the effects of the strategy. -/
theorem mem_pushes_of_effects {h : List Obs} {c : OrderCmd} (hc : .pushed c ∈ effects h) :
    c ∈ pushes h := by
  obtain ⟨o, ho, hx⟩ := List.mem_filterMap.mp hc
  cases o with
  | strategy x =>
    obtain rfl := Option.some.inj hx
    exact List.mem_filterMap.mpr ⟨_, ho, rfl⟩
  | _ => cases hx

/-- **What becomes of an accepted command**, over every interleaving of a fresh engine with
any logons and logouts.  The accepted commands are popped once each and in push order; the
popped ones are checked once each and in that order, against the session as it is at that
moment; those whose check finds it up are sent once each and in that order, as the message the
command asks for.  A slot in flight waits for a command that was sent, is on its way, or was
discarded because the session was down.
SRCLINE: src/main.cpp:212-220, src/strategy/market_maker.hpp:116-147 -/
theorem commands_relayed (cfg : EngineConfig) (tCtor tRun : ℤ) (as : List EngineAct) (s : Engine)
    (h : List Obs)
    (hrun : run (recorded (Engine.step cfg)) (Engine.init tCtor tRun, []) as = some (s, h)) :
    Relayed cfg (s, h) ∧
      ∀ sym side, InFlight (s.mm.slot sym side) →
        ∃ c ∈ pushes h, WaitsFor s.mm sym side c ∧ Accounted s h c := by
  have hinv : Relayed cfg (s, h) ∧ WaitsForPushed s.mm (effects h) := by
    refine run_invariant' (I := fun x => Relayed cfg x ∧ WaitsForPushed x.1.mm (effects x.2))
      ?_ ?_ hrun
    · rintro ⟨s, h⟩ a ⟨t, h'⟩ ⟨hr, hw⟩ ht
      obtain ⟨obs, hobs, rfl⟩ := recorded_eq_some.mp ht
      have hstep := (step_engineStep hobs).2
      exact ⟨relayed_engineStep hr hstep, (waitsForPushed_kept cfg).engineStep hstep hw⟩
    · refine ⟨⟨rfl, rfl, rfl, by simp, rfl, ?_⟩, ?_⟩
      · intro earlier c up later heq
        simp at heq
      · intro sym side hfly
        rcases hfly with hfly | hfly <;> cases hfly
  refine ⟨hinv.1, ?_⟩
  intro sym side hfly
  obtain ⟨c, hc, hwait⟩ := hinv.2 sym side hfly
  have hmem := mem_pushes_of_effects hc
  exact ⟨c, hmem, hwait, hinv.1.accounted hmem⟩

/-- The session is up, a snapshot makes the strategy quote both sides, and the sender sends the
first command. -/
theorem commands_relayed_one_send :
    ∃ s h, run (recorded (Engine.step { tickSize := 1 / 2, symbols := ["DLR".toList] }))
        (Engine.init 1000000000 0, [])
        [.logon, .recv (.marketData (twoSided "DLR".toList 99 101)) 0, .md quickEnv, .pop, .check,
          .send] = some (s, h) ∧
      Relayed { tickSize := 1 / 2, symbols := ["DLR".toList] } (s, h) ∧
      ∀ sym side, InFlight (s.mm.slot sym side) →
        ∃ c ∈ pushes h, WaitsFor s.mm sym side c ∧ Accounted s h c := by
  have hsome : (run (recorded (Engine.step { tickSize := 1 / 2, symbols := ["DLR".toList] }))
      (Engine.init 1000000000 0, [])
      [.logon, .recv (.marketData (twoSided "DLR".toList 99 101)) 0, .md quickEnv, .pop, .check,
        .send]).isSome = true := by
    decide +kernel
  obtain ⟨⟨s, h⟩, hrun⟩ := Option.isSome_iff_exists.mp hsome
  exact ⟨s, h, hrun, commands_relayed _ _ _ _ s h hrun⟩

/-- The session goes down after the strategy has quoted; the sender pops both commands, and
then the session comes up again. -/
def droppedSession : List EngineAct :=
  [.logon, .recv (.marketData (twoSided "DLR".toList 99 101)) 0, .md quickEnv, .logout,
    .pop, .check, .pop, .check, .logon]

/-- Both accepted commands are gone: the ring and the sender's hands are empty, nothing was
ever sent, and both slots wait in `PendingNew`. -/
theorem droppedSession_discards :
    ∃ s h, run (recorded (Engine.step { tickSize := 1 / 2, symbols := ["DLR".toList] }))
        (Engine.init 1000000000 0, []) droppedSession = some (s, h) ∧
      (pushes h).length = 2 ∧ sends h = [] ∧ s.ordRing = [] ∧ s.sender = .idle ∧
      (s.mm.slot 0 .buy).state = .pendingNew ∧ (s.mm.slot 0 .sell).state = .pendingNew := by
  have heval : ((run (recorded (Engine.step { tickSize := 1 / 2, symbols := ["DLR".toList] }))
      (Engine.init 1000000000 0, []) droppedSession).map fun x =>
        (((pushes x.2).length, sends x.2), (x.1.ordRing, x.1.sender),
          ((x.1.mm.slot 0 .buy).state, (x.1.mm.slot 0 .sell).state))) =
      some ((2, []), ([], .idle), (.pendingNew, .pendingNew)) := by
    decide +kernel
  obtain ⟨⟨s, h⟩, hrun, hx⟩ := Option.map_eq_some_iff.mp heval
  simp only [Prod.mk.injEq] at hx
  obtain ⟨⟨hpush, hsend⟩, ⟨hring, hidle⟩, hbuy, hsell⟩ := hx
  exact ⟨s, h, hrun, hpush, hsend, hring, hidle, hbuy, hsell⟩

end MmEngine.Analysis
