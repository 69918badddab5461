import MmEngine.Interface.OrderIds
import Mathlib.Data.List.Nodup
import Mathlib.Data.Nat.ModEq

/-!
# When two runs reuse an order id

The counter of a run starts at a thousand times the milliseconds of the clock at construction
("unique per day/run", market_maker.hpp:182) and goes up by one with every command decided,
accepted or not.  So the command of attempt `i` carries the seed plus `i`.  Within a run the
ids repeat only after `2 ^ 64` attempts.  Across runs nothing bounds the attempts by the clock:
two runs share an id exactly when an accepted attempt of the first lies as far behind an
accepted attempt of the second as the seeds are apart.
-/

set_option autoImplicit false

namespace MmEngine.Analysis

open MmEngine.Model MmEngine.Model.MarketMaker MmEngine.Interface MmEngine.Lib

/-- The commands a history decided, in order; `none` is one that was refused. -/
def attempts (h : List Effect) : List (Option OrderCmd) :=
  h.filterMap fun
    | .pushed c => some (some c)
    | .refused _ => some none
    | _ => none

/-- Attempt number `i` of the history was accepted. -/
def AcceptedAt (h : List Effect) (i : ℕ) : Prop := ∃ c, (attempts h)[i]? = some (some c)

/-- The ids of the commands a history pushed. -/
def pushedIds (h : List Effect) : List UInt64 := (pushedCmds h).map OrderCmd.clOrdId

theorem attempts_append (h h' : List Effect) : attempts (h ++ h') = attempts h ++ attempts h' :=
  List.filterMap_append

theorem attempts_concat_quiet (h : List Effect) {x : Effect} (hx : Quiet x) :
    attempts (h ++ [x]) = attempts h := by
  rw [attempts_append]
  cases x <;> first | exact List.append_nil _ | exact absurd hx (by simp [Quiet])

theorem length_attempts (h : List Effect) : (attempts h).length = spent h := by
  induction h with
  | nil => rfl
  | cons x h ih =>
    rw [← List.singleton_append, attempts_append, spent_append, List.length_append, ih]
    cases x <;> rfl

/-- INTERNAL: the pushed commands are the accepted attempts. -/
theorem pushedCmds_eq_attempts (h : List Effect) : pushedCmds h = (attempts h).filterMap id := by
  unfold pushedCmds attempts
  rw [List.filterMap_filterMap]
  apply List.filterMap_congr
  intro x _
  cases x <;> rfl

/-- The counter started at `n`, counts the attempts, and every accepted command carries the
value it had then. -/
structure Numbered (n : ℕ) (m : MarketMaker) (h : List Effect) : Prop where
  seed : m.clOrdSeed = UInt64.ofNat (n + (attempts h).length)
  ids : ∀ i c, (attempts h)[i]? = some (some c) → c.clOrdId = UInt64.ofNat (n + i)

namespace Numbered

variable {n : ℕ} {m m' : MarketMaker} {h : List Effect}

/-- INTERNAL: nothing was decided. -/
theorem same (hm : Numbered n m h) (hseed : m'.clOrdSeed = m.clOrdSeed) {h' : List Effect}
    (hh : attempts h' = attempts h) : Numbered n m' h' := by
  constructor
  · rw [hseed, hh]
    exact hm.seed
  · rw [hh]
    exact hm.ids

/-- INTERNAL: one more attempt, which carries the counter if it was accepted. -/
theorem next (hm : Numbered n m h) (hseed : m'.clOrdSeed = m.clOrdSeed + 1) {x : Effect}
    (d : Option OrderCmd) (hx : attempts [x] = [d]) (hd : ∀ c, d = some c → c.clOrdId = m.clOrdSeed) :
    Numbered n m' (h ++ [x]) := by
  constructor
  · rw [hseed, hm.seed, ofNat_succ, attempts_append, hx, List.length_append, List.length_singleton,
      Nat.add_assoc]
  · intro i c hi
    rw [attempts_append, hx] at hi
    by_cases hlt : i < (attempts h).length
    · rw [List.getElem?_append_left hlt] at hi
      exact hm.ids i c hi
    · have heq : i = (attempts h).length := by
        by_contra hne
        rw [List.getElem?_eq_none (by simp; omega)] at hi
        cases hi
      subst heq
      rw [List.getElem?_concat_length] at hi
      rw [hd c (Option.some.inj hi), hm.seed]

end Numbered

/-- INTERNAL: **the numbering is kept** by every turn of the loop.
SRCLINE: src/strategy/market_maker.hpp:120, 138, 164 -/
theorem numbered_kept (cfg : EngineConfig) (n : ℕ) : Kept cfg (Numbered n) where
  view := fun _ _ _ _ hseed hm => hm.same hseed rfl
  quiet := fun _ h _ hx hm => hm.same rfl (attempts_concat_quiet h hx)
  refused := fun _ _ _ hm => hm.next rfl none rfl (fun _ hc => (nomatch hc))
  placed := fun _ _ _ _ _ _ _ _ _ hm => hm.next rfl _ rfl (fun _ hc => by cases hc; rfl)
  canceled := fun _ _ _ _ _ _ _ _ _ hm => hm.next rfl _ rfl (fun _ hc => by cases hc; rfl)
  consumed := by
    intro m h e sym _ hm
    have hh : attempts (h ++ [.consumed e]) = attempts h := by
      rw [attempts_append]
      exact List.append_nil _
    have hseed : (takeExec m sym e).clOrdSeed = m.clOrdSeed := rfl
    exact hm.same hseed hh

/-- INTERNAL: **a run numbers its commands from its seed.** -/
theorem numbered_run {cfg : EngineConfig} {tCtor tRun : ℤ} {is : List Input} {m : MarketMaker}
    {h : List Effect}
    (hrun : run (recorded (strategyStep cfg)) (MarketMaker.init tCtor tRun, []) is = some (m, h)) :
    Numbered (MarketMaker.init tCtor tRun).clOrdSeed.toNat m h := by
  apply (numbered_kept cfg _).strategyRun hrun
  constructor
  · simp [attempts]
  · intro i c hi
    cases hi

theorem Numbered.mem_pushedIds {n : ℕ} {m : MarketMaker} {h : List Effect} (hm : Numbered n m h)
    (x : UInt64) : x ∈ pushedIds h ↔ ∃ i, AcceptedAt h i ∧ x = UInt64.ofNat (n + i) := by
  unfold pushedIds AcceptedAt
  rw [pushedCmds_eq_attempts]
  constructor
  · intro hx
    obtain ⟨c, hc, rfl⟩ := List.mem_map.mp hx
    obtain ⟨d, hd, hdc⟩ := List.mem_filterMap.mp hc
    obtain ⟨i, hi⟩ := List.mem_iff_getElem?.mp hd
    have hdc : d = some c := hdc
    subst hdc
    exact ⟨i, ⟨c, hi⟩, hm.ids i c hi⟩
  · rintro ⟨i, ⟨c, hc⟩, rfl⟩
    rw [← hm.ids i c hc]
    apply List.mem_map_of_mem
    exact List.mem_filterMap.mpr ⟨some c, List.mem_of_getElem? hc, rfl⟩

/-- INTERNAL: the ids of a run that does not go round the counter are distinct. -/
theorem Numbered.nodup {n : ℕ} {m : MarketMaker} {h : List Effect} (hm : Numbered n m h)
    (hlt : spent h < 2 ^ 64) : (pushedIds h).Nodup := by
  rw [← length_attempts] at hlt
  -- accepted attempts at different positions carry different counter values
  have hpair : (attempts h).Pairwise fun d d' =>
      ∀ c, d = some c → ∀ c', d' = some c' → c.clOrdId ≠ c'.clOrdId := by
    rw [List.pairwise_iff_getElem]
    intro i j hi hj hij c hc c' hc' heq
    have hidi := hm.ids i c (by rw [List.getElem?_eq_getElem hi, hc])
    have hidj := hm.ids j c' (by rw [List.getElem?_eq_getElem hj, hc'])
    rw [hidi, hidj] at heq
    have := (ofNat_eq_iff (n + i) (n + j) (by omega) (by omega)).mp heq
    omega
  unfold pushedIds List.Nodup
  rw [pushedCmds_eq_attempts, List.pairwise_map, List.pairwise_filterMap]
  apply hpair.imp
  intro d d' hne c hc c' hc'
  exact hne c hc c' hc'

/-- How far the seeds of two strategies constructed at the two clock readings are apart.
SRCLINE: src/strategy/market_maker.hpp:182 -/
def seedGap (t₁ t₂ : ℤ) : ℕ := 1000 * (t₂.tdiv 1000000 - t₁.tdiv 1000000).toNat

/-- INTERNAL: a later strategy starts `seedGap` ids further on. -/
theorem clOrdSeed_later {t₁ t₂ : ℤ} (h : t₁ ≤ t₂) (tRun₁ tRun₂ : ℤ) :
    (MarketMaker.init t₂ tRun₂).clOrdSeed =
      UInt64.ofNat ((MarketMaker.init t₁ tRun₁).clOrdSeed.toNat + seedGap t₁ t₂) := by
  have hle : t₁.tdiv 1000000 ≤ t₂.tdiv 1000000 := Int.tdiv_le_tdiv (by decide) h
  have hsplit : t₂.tdiv 1000000 =
      t₁.tdiv 1000000 + ((t₂.tdiv 1000000 - t₁.tdiv 1000000).toNat : ℤ) := by omega
  unfold MarketMaker.init seedGap
  dsimp only
  generalize (t₂.tdiv 1000000 - t₁.tdiv 1000000).toNat = k at *
  rw [hsplit, UInt64.ofNat_add, UInt64.ofNat_toNat, UInt64.ofNat_mul, UInt64.ofInt_add]
  have hk : UInt64.ofInt (k : ℤ) = UInt64.ofNat k := by
    apply UInt64.toNat_inj.mp
    unfold UInt64.ofInt
    rw [UInt64.toNat_ofNat', UInt64.toNat_ofNat']
    omega
  rw [hk]
  grind

/-- No accepted attempt of the first run lies as far behind an accepted attempt of the second
as the seeds are apart. -/
def NoOverrun (gap : ℕ) (h₁ h₂ : List Effect) : Prop :=
  ∀ i j, AcceptedAt h₁ i → AcceptedAt h₂ j → ¬ i ≡ gap + j [MOD 2 ^ 64]

/-- INTERNAL: two numberings meet exactly where an attempt of one overruns the other. -/
theorem disjoint_iff_noOverrun {n gap : ℕ} {m₁ m₂ : MarketMaker} {h₁ h₂ : List Effect}
    (hn₁ : Numbered n m₁ h₁) (hn₂ : Numbered ((n + gap) % 2 ^ 64) m₂ h₂) :
    (pushedIds h₁).Disjoint (pushedIds h₂) ↔ NoOverrun gap h₁ h₂ := by
  have hmeet : ∀ i j, UInt64.ofNat (n + i) = UInt64.ofNat ((n + gap) % 2 ^ 64 + j) ↔
      i ≡ gap + j [MOD 2 ^ 64] := by
    intro i j
    rw [← UInt64.toNat_inj, UInt64.toNat_ofNat', UInt64.toNat_ofNat']
    unfold Nat.ModEq
    omega
  rw [List.disjoint_left]
  constructor
  · intro hdisj i j hi hj hmod
    apply hdisj ((hn₁.mem_pushedIds _).mpr ⟨i, hi, rfl⟩)
    exact (hn₂.mem_pushedIds _).mpr ⟨j, hj, (hmeet i j).mpr hmod⟩
  · intro hno x hx₁ hx₂
    obtain ⟨i, hi, rfl⟩ := (hn₁.mem_pushedIds _).mp hx₁
    obtain ⟨j, hj, hij⟩ := (hn₂.mem_pushedIds _).mp hx₂
    exact hno i j hi hj ((hmeet i j).mp hij)

/-- INTERNAL: a first run that decides no more commands than the seeds are apart overruns
nothing, if the second does not go round the counter. -/
theorem noOverrun_of_spent_le {gap : ℕ} {h₁ h₂ : List Effect} (hle : spent h₁ ≤ gap)
    (hround : gap + spent h₂ ≤ 2 ^ 64) : NoOverrun gap h₁ h₂ := by
  rintro i j ⟨c, hi⟩ ⟨c', hj⟩ hmod
  have hilt : i < (attempts h₁).length := (List.getElem?_eq_some_iff.mp hi).1
  have hjlt : j < (attempts h₂).length := (List.getElem?_eq_some_iff.mp hj).1
  rw [length_attempts] at hilt hjlt
  unfold Nat.ModEq at hmod
  omega

/-- **Order ids are unique exactly when the first run does not overrun the seed of the
second.**  For two runs on one clock, the second constructed no earlier than the first: within
each run of fewer than `2 ^ 64` attempts all pushed ids are distinct, and the ids of the two runs
are disjoint, if and only if no accepted attempt of the first is congruent to the seed gap plus
an accepted attempt of the second.  At most a thousand attempts per millisecond between the
constructions are enough.
SRCLINE: src/strategy/market_maker.hpp:117-146, 164, 182 -/
theorem orderIds_unique_iff (cfg₁ cfg₂ : EngineConfig) (tCtor₁ tRun₁ tCtor₂ tRun₂ : ℤ)
    (hlater : tCtor₁ ≤ tCtor₂) (is₁ is₂ : List Input) (m₁ m₂ : MarketMaker) (h₁ h₂ : List Effect)
    (hrun₁ : run (recorded (strategyStep cfg₁)) (MarketMaker.init tCtor₁ tRun₁, []) is₁ =
      some (m₁, h₁))
    (hrun₂ : run (recorded (strategyStep cfg₂)) (MarketMaker.init tCtor₂ tRun₂, []) is₂ =
      some (m₂, h₂)) :
    ((spent h₁ < 2 ^ 64 → (pushedIds h₁).Nodup) ∧ (spent h₂ < 2 ^ 64 → (pushedIds h₂).Nodup) ∧
        (pushedIds h₁).Disjoint (pushedIds h₂) ↔ NoOverrun (seedGap tCtor₁ tCtor₂) h₁ h₂) ∧
      (spent h₁ ≤ seedGap tCtor₁ tCtor₂ → seedGap tCtor₁ tCtor₂ + spent h₂ ≤ 2 ^ 64 →
        NoOverrun (seedGap tCtor₁ tCtor₂) h₁ h₂) := by
  have hn₁ := numbered_run hrun₁
  have hn₂ := numbered_run hrun₂
  rw [clOrdSeed_later hlater tRun₁ tRun₂, UInt64.toNat_ofNat'] at hn₂
  have hdisj := disjoint_iff_noOverrun hn₁ hn₂
  refine ⟨?_, noOverrun_of_spent_le⟩
  constructor
  · exact fun h => hdisj.mp h.2.2
  · exact fun h => ⟨hn₁.nodup, hn₂.nodup, hdisj.mpr h⟩

/-- A wide market received, taken and answered a few hundred nanoseconds after `t`. -/
def quoteAfter (t : ℤ) : Input :=
  .md { topOfBook 0 99 101 with tRecvNs := t + 100 }
    { room := fun _ => true, now := fun _ => t + 300, tDeq := t + 200 }

/-- Two runs a second apart, one snapshot each. -/
theorem orderIds_unique_iff_second_apart :
    ∃ m₁ h₁ m₂ h₂,
      run (recorded (strategyStep {})) (MarketMaker.init 1000000000 1000000000, [])
        [quoteAfter 1000000000] =
        some (m₁, h₁) ∧
      run (recorded (strategyStep {})) (MarketMaker.init 2000000000 2000000000, [])
        [quoteAfter 2000000000] =
        some (m₂, h₂) ∧
      (pushedIds h₁).Disjoint (pushedIds h₂) := by
  have heval₁ : (run (recorded (strategyStep {})) (MarketMaker.init 1000000000 1000000000, [])
      [quoteAfter 1000000000]).map (fun x => spent x.2) = some 2 := by
    decide +kernel
  have heval₂ : (run (recorded (strategyStep {})) (MarketMaker.init 2000000000 2000000000, [])
      [quoteAfter 2000000000]).map (fun x => spent x.2) = some 2 := by
    decide +kernel
  obtain ⟨⟨m₁, h₁⟩, hrun₁, hs₁⟩ := Option.map_eq_some_iff.mp heval₁
  obtain ⟨⟨m₂, h₂⟩, hrun₂, hs₂⟩ := Option.map_eq_some_iff.mp heval₂
  dsimp only at hs₁ hs₂
  have hmain := orderIds_unique_iff {} {} _ _ _ _ (by decide) _ _ m₁ m₂ h₁ h₂ hrun₁ hrun₂
  have hgap : seedGap 1000000000 2000000000 = 1000000 := by decide
  have hno := hmain.2 (by rw [hs₁, hgap]; decide) (by rw [hs₂, hgap]; decide)
  exact ⟨m₁, h₁, m₂, h₂, hrun₁, hrun₂, (hmain.1.mpr hno).2.2⟩

/-- Two runs constructed in one millisecond push the same ids. -/
theorem orderIds_reused_in_one_millisecond :
    ∃ m₁ h₁ m₂ h₂,
      run (recorded (strategyStep {})) (MarketMaker.init 1000000000 1000000000, [])
        [quoteAfter 1000000000] =
        some (m₁, h₁) ∧
      run (recorded (strategyStep {})) (MarketMaker.init 1000000500 1000000500, [])
        [quoteAfter 1000000500] =
        some (m₂, h₂) ∧
      pushedIds h₁ = [1000000, 1000001] ∧ pushedIds h₂ = [1000000, 1000001] ∧
      ¬ (pushedIds h₁).Disjoint (pushedIds h₂) := by
  have heval₁ : (run (recorded (strategyStep {})) (MarketMaker.init 1000000000 1000000000, [])
      [quoteAfter 1000000000]).map (fun x => pushedIds x.2) = some [1000000, 1000001] := by
    decide +kernel
  have heval₂ : (run (recorded (strategyStep {})) (MarketMaker.init 1000000500 1000000500, [])
      [quoteAfter 1000000500]).map (fun x => pushedIds x.2) = some [1000000, 1000001] := by
    decide +kernel
  obtain ⟨⟨m₁, h₁⟩, hrun₁, hs₁⟩ := Option.map_eq_some_iff.mp heval₁
  obtain ⟨⟨m₂, h₂⟩, hrun₂, hs₂⟩ := Option.map_eq_some_iff.mp heval₂
  dsimp only at hs₁ hs₂
  refine ⟨m₁, h₁, m₂, h₂, hrun₁, hrun₂, hs₁, hs₂, ?_⟩
  rw [hs₁, hs₂]
  intro hdisj
  exact hdisj List.mem_cons_self List.mem_cons_self

end MmEngine.Analysis
