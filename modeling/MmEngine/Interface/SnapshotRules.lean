import MmEngine.Interface.FixRules

/-!
# The levels a snapshot message becomes

The entry loop of `onMessage(MarketDataSnapshotFullRefresh)` sorts an unbounded list of
entries of any type into two arrays of five.  `SideShows` says what one array holds of a list
of entries, `ReadsAs` says it of both sides of an event, and one entry read keeps it
(`readEntry_readsAs`).  By induction over the loop, a converted message shows the first five
bid and the first five offer entries, in message order (`onMarketData_readsAs`).  A price or a
size that an entry does not carry reads as `0`.
-/

set_option autoImplicit false

namespace MmEngine.Interface

open MmEngine.Model

/-- The value of an optional number, `0` when it is not there.
SRCLINE: src/fix/fix_app.hpp:127-129 -/
def numberOr0 : Model.Field ℚ → ℚ
  | .value p => p
  | _ => 0

/-- The entries of a type, in message order. -/
def entriesOf (t : Char) (gs : List MdEntry) : List MdEntry :=
  gs.filter fun g => g.mdEntryType = .value t

/-- The groups of the message the entry loop goes through.
SRCLINE: src/fix/fix_app.hpp:123 -/
def readGroups (msg : MarketDataSnapshot) : List MdEntry :=
  match msg.noMDEntries with
  | .value n => msg.entries.take n.toNat
  | _ => []

/-- A side of `n` levels holds the first `kMaxDepth` of the entries and zeros behind them. -/
structure SideShows (n : ℕ) (px qty : Fin kMaxDepth → ℚ) (gs : List MdEntry) : Prop where
  count : n = min kMaxDepth gs.length
  px : ∀ i : Fin kMaxDepth, px i = gs[i.val]?.elim 0 fun g => numberOr0 g.mdEntryPx
  qty : ∀ i : Fin kMaxDepth, qty i = gs[i.val]?.elim 0 fun g => numberOr0 g.mdEntrySize

/-- The event holds the bid and the offer entries among the groups read. -/
structure ReadsAs (ev : MdEvent) (gs : List MdEntry) : Prop where
  bids : SideShows ev.nBids ev.bidPx ev.bidQty (entriesOf '0' gs)
  asks : SideShows ev.nAsks ev.askPx ev.askQty (entriesOf '1' gs)

/-! ## One entry -/

section Sides

variable {n : ℕ} {px qty : Fin kMaxDepth → ℚ} {gs : List MdEntry}

/-- INTERNAL: a level written behind the others.  `f` is what the array keeps of an entry. -/
theorem update_level (f : MdEntry → ℚ) (g : MdEntry) (h : gs.length < kMaxDepth)
    (hpx : ∀ i : Fin kMaxDepth, px i = gs[i.val]?.elim 0 f) (i : Fin kMaxDepth) :
    Function.update px ⟨gs.length, h⟩ (f g) i = (gs ++ [g])[i.val]?.elim 0 f := by
  by_cases hi : i = ⟨gs.length, h⟩
  · subst hi
    simp
  · rw [Function.update_of_ne hi, hpx i]
    have hne : i.val ≠ gs.length := fun hc => hi (Fin.ext hc)
    by_cases hlt : i.val < gs.length
    · rw [List.getElem?_append_left hlt]
    · rw [List.getElem?_eq_none (by omega), List.getElem?_eq_none (by simp; omega)]

/-- INTERNAL: a side with room takes the entry as its next level. -/
theorem SideShows.push (hs : SideShows n px qty gs) (h : n < kMaxDepth) (g : MdEntry) :
    SideShows (n + 1) (Function.update px ⟨n, h⟩ (numberOr0 g.mdEntryPx))
      (Function.update qty ⟨n, h⟩ (numberOr0 g.mdEntrySize)) (gs ++ [g]) := by
  have hn : n = gs.length := by
    have := hs.count
    omega
  subst hn
  constructor
  · rw [List.length_append, List.length_singleton]
    omega
  · exact update_level (fun g => numberOr0 g.mdEntryPx) g h hs.px
  · exact update_level (fun g => numberOr0 g.mdEntrySize) g h hs.qty

theorem SideShows.full (hs : SideShows n px qty gs) (h : ¬ n < kMaxDepth) (g : MdEntry) :
    SideShows n px qty (gs ++ [g]) := by
  have hlen : kMaxDepth ≤ gs.length := by
    have := hs.count
    omega
  constructor
  · rw [hs.count, List.length_append]
    omega
  · intro i
    rw [hs.px i, List.getElem?_append_left (by omega)]
  · intro i
    rw [hs.qty i, List.getElem?_append_left (by omega)]

end Sides

theorem entriesOf_append (t : Char) (gs gs' : List MdEntry) :
    entriesOf t (gs ++ gs') = entriesOf t gs ++ entriesOf t gs' :=
  List.filter_append gs gs'

theorem entriesOf_self {t : Char} {g : MdEntry} (h : g.mdEntryType = .value t) :
    entriesOf t [g] = [g] := by
  simp [entriesOf, h]

theorem entriesOf_other {t u : Char} {g : MdEntry} (h : g.mdEntryType = .value u) (hne : u ≠ t) :
    entriesOf t [g] = [] := by
  simp [entriesOf, h, hne]

theorem getIfSet_eq_numberOr0 {f : Model.Field ℚ} {p : ℚ} (h : f.getIfSet 0 id = .ok p) :
    p = numberOr0 f := by
  cases f <;> cases h <;> rfl

theorem get_eq_ok {α : Type} {f : Model.Field α} {a : α} : f.get = .ok a ↔ f = .value a := by
  cases f <;> simp [Field.get]

/-- INTERNAL: **one entry.**  Reading an entry adds it to what the event holds.
SRCLINE: src/fix/fix_app.hpp:124-137 -/
theorem readEntry_readsAs {ev ev' : MdEvent} {g : MdEntry} {gs : List MdEntry}
    (h : readEntry ev g = .ok ev') (hev : ReadsAs ev gs) : ReadsAs ev' (gs ++ [g]) := by
  unfold readEntry at h
  obtain ⟨t, ht, h⟩ := except_bind_eq_ok.mp h
  obtain ⟨p, hp, h⟩ := except_bind_eq_ok.mp h
  obtain ⟨q, hq, h⟩ := except_bind_eq_ok.mp h
  have htype := get_eq_ok.mp ht
  obtain rfl := getIfSet_eq_numberOr0 hp
  obtain rfl := getIfSet_eq_numberOr0 hq
  by_cases hbid : t = '0'
  · rw [if_pos hbid] at h
    rw [hbid] at htype
    have hasks : entriesOf '1' (gs ++ [g]) = entriesOf '1' gs := by
      rw [entriesOf_append, entriesOf_other htype (by decide), List.append_nil]
    have hbids : entriesOf '0' (gs ++ [g]) = entriesOf '0' gs ++ [g] := by
      rw [entriesOf_append, entriesOf_self htype]
    split at h
    · next hlt =>
      cases h
      exact ⟨hbids ▸ hev.bids.push hlt g, hasks ▸ hev.asks⟩
    · next hfull =>
      cases h
      exact ⟨hbids ▸ hev.bids.full hfull g, hasks ▸ hev.asks⟩
  · rw [if_neg hbid] at h
    have hbids : entriesOf '0' (gs ++ [g]) = entriesOf '0' gs := by
      rw [entriesOf_append, entriesOf_other htype hbid, List.append_nil]
    by_cases hask : t = '1'
    · rw [if_pos hask] at h
      rw [hask] at htype
      have hasks : entriesOf '1' (gs ++ [g]) = entriesOf '1' gs ++ [g] := by
        rw [entriesOf_append, entriesOf_self htype]
      split at h
      · next hlt =>
        cases h
        exact ⟨hbids ▸ hev.bids, hasks ▸ hev.asks.push hlt g⟩
      · next hfull =>
        cases h
        exact ⟨hbids ▸ hev.bids, hasks ▸ hev.asks.full hfull g⟩
    · rw [if_neg hask] at h
      have hasks : entriesOf '1' (gs ++ [g]) = entriesOf '1' gs := by
        rw [entriesOf_append, entriesOf_other htype hask, List.append_nil]
      split at h
      · cases h
        exact ⟨hbids ▸ hev.bids, hasks ▸ hev.asks⟩
      · cases h
        exact ⟨hbids ▸ hev.bids, hasks ▸ hev.asks⟩

/-! ## The loop -/

/-- INTERNAL: **the entry loop** adds the groups it goes through.
SRCLINE: src/fix/fix_app.hpp:123-138 -/
theorem readEntries_readsAs {n : ℕ} {gs pre : List MdEntry} {ev ev' : MdEvent}
    (h : readEntries ev n gs = .ok ev') (hev : ReadsAs ev pre) :
    ReadsAs ev' (pre ++ gs.take n) := by
  induction n generalizing ev gs pre with
  | zero =>
    simp only [readEntries, Except.ok.injEq] at h
    rw [← h]
    simpa using hev
  | succ n ih =>
    cases gs with
    | nil => cases h
    | cons g gs =>
      obtain ⟨ev₁, hg, h⟩ := except_bind_eq_ok.mp h
      have := ih h (readEntry_readsAs hg hev)
      simpa using this

/-- INTERNAL: **a converted message** shows its first bid and offer entries.
SRCLINE: src/fix/fix_app.hpp:103-138 -/
theorem onMarketData_readsAs {app : FixApp} {seq : ℕ} {msg : MarketDataSnapshot} {now : ℤ}
    {ev : MdEvent} (h : app.onMarketData seq msg now = .ok (some ev)) :
    ReadsAs ev (readGroups msg) := by
  unfold FixApp.onMarketData at h
  obtain ⟨t, -, h⟩ := except_bind_eq_ok.mp h
  split at h
  · cases h
  · obtain ⟨count, hcount, h⟩ := except_bind_eq_ok.mp h
    obtain ⟨ev', hev, h⟩ := except_bind_eq_ok.mp h
    cases h
    unfold readGroups
    rw [get_eq_ok.mp hcount]
    have hempty : SideShows 0 (fun _ => 0) (fun _ => 0) [] := ⟨rfl, fun _ => rfl, fun _ => rfl⟩
    have hread : ReadsAs ev ([] ++ msg.entries.take count.toNat) :=
      readEntries_readsAs hev ⟨hempty, hempty⟩
    exact hread

end MmEngine.Interface
