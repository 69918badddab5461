import MmEngine.Analysis.MockRefinement
import MmEngine.Analysis.MarketView
import MmEngine.Analysis.SenderGate
import MmEngine.Interface.MockThreadRules
import MmEngine.Lib.Groups

/-!
# The market of the mock exchange

The engine subscribes with the symbols it has loaded, and the mock streams five levels a side for
each of them, printed with one decimal place.  The two agree on the symbols because the request
carries them in the order of their ids, and on the prices because half units are printed exactly:
the event that reaches the strategy holds the levels the mock meant (`feed_read`).
-/

set_option autoImplicit false

namespace MmEngine.Analysis

open MmEngine.Model MmEngine.Model.MarketMaker MmEngine.Model.Mock MmEngine.Interface MmEngine.Lib

/-! ## A snapshot on the wire and the typed one -/

section Reading

variable (Reads : Text → ℚ → Prop)

/-- The typed entry is that of the fields of its group. -/
structure ShowsEntry (g : List (Text × Text)) (e : MdEntry) : Prop where
  mdEntryType : ReadAs IsChar (firstValue g "269".toList) e.mdEntryType
  mdEntryPx : ReadAs Reads (firstValue g "270".toList) e.mdEntryPx
  mdEntrySize : ReadAs Reads (firstValue g "271".toList) e.mdEntrySize

/-- An entry begins with its type. -/
def beginsEntry (f : Text × Text) : Bool := f.1 = "269".toList

/-- The typed snapshot is that of the fields. -/
structure Shows (fields : List (Text × Text)) (m : MarketDataSnapshot) : Prop where
  symbol : ReadAs Eq (firstValue fields "55".toList) m.symbol
  noMDEntries : ReadAs (fun t n => readInt t = some n) (firstValue fields "268".toList) m.noMDEntries
  entries : List.Forall₂ (ShowsEntry Reads) (groupsAt beginsEntry fields) m.entries

/-- A number that is written with digits, a sign and a point is read as what is written. -/
def ReadsNumbers : Prop := ∀ t q q', WrittenAs t q → Reads t q' → q' = q

end Reading

/-- The dictionary is that of the request. -/
structure Asks (m : Parsed) (req : MarketDataRequest) : Prop where
  msgType : m.get "35".toList = some "V".toList
  mdReqID : m.get "262".toList = some req.mdReqID
  symbols : m.symbols = req.relatedSyms.map Prod.fst

/-- INTERNAL: the symbols of the request, in the order of their ids.
SRCLINE: src/fix/fix_app.hpp:55-58, 246-251 -/
theorem relatedSyms_subscribe (cfg : EngineConfig) (depth : ℤ) :
    (((FixApp.init cfg).subscribeMarketData depth).relatedSyms.map Prod.fst) = cfg.symbols.take kMaxSymbols := by
  have hids : ∀ n ≤ kMaxSymbols, ((List.finRange kMaxSymbols).filter fun i => i.val < n).map Fin.val = List.range n := by
    decide
  have htake : (List.range (min cfg.symbols.length kMaxSymbols)).map (fun i => cfg.symbols.getD i []) =
      cfg.symbols.take kMaxSymbols := by
    apply List.ext_getElem
    · rw [List.length_map, List.length_range, List.length_take, min_comm]
    · intro k hk hk'
      rw [List.length_map, List.length_range] at hk
      rw [List.getElem_map, List.getElem_range, List.getElem_take, List.getD_eq_getElem]
  rw [← htake, ← hids _ (min_le_right _ _), List.map_map]
  unfold FixApp.subscribeMarketData FixApp.init
  dsimp only
  rw [List.map_map]
  rfl

/-! ## The levels -/

/-- The best prices of the mock's book for the symbol with index `i`.
SRCLINE: scripts/mock_exchange.py:96-101 -/
def mockBest (wide : Bool) (i : ℕ) : OrdSide → ℚ
  | .buy => if wide then basePx i - 2 * tick else basePx i
  | .sell => if wide then basePx i + 2 * tick else basePx i

/-- The groups of one side. -/
def levelGroups (side : Text) (best away : ℚ) : List (List (Text × Text)) :=
  (List.range 5).map fun (lvl : ℕ) =>
    [("269".toList, side), ("270".toList, fixedText 1 (best + lvl * away)),
      ("271".toList, Nat.toDigits 10 (10 * (lvl + 1)))]

/-- INTERNAL: the groups of a snapshot are its bids and its offers.
SRCLINE: scripts/mock_exchange.py:102-112 -/
theorem groupsAt_snapshotFields (reqId : Text) (wide : Bool) (i : ℕ) (sym : Text) :
    groupsAt beginsEntry (snapshotFields reqId wide i sym) =
      levelGroups "0".toList (mockBest wide i .buy) (-tick) ++
        levelGroups "1".toList (mockBest wide i .sell) tick := by
  have hgroup : ∀ (side : Text) (best away : ℚ), ∀ g ∈ levelGroups side best away, IsGroup beginsEntry g := by
    intro side best away g hg
    obtain ⟨lvl, -, rfl⟩ := List.mem_map.mp hg
    exact ⟨by simp [beginsEntry], by simp [beginsEntry]⟩
  unfold snapshotFields
  dsimp only
  rw [groupsAt_append (by simp [beginsEntry])]
  have hflat : ∀ (side : Text) (best away : ℚ), levelFields side best away = (levelGroups side best away).flatten := by
    intro side best away
    unfold levelFields levelGroups
    rw [List.flatMap_def]
  rw [hflat, hflat, ← List.flatten_append, groupsAt_flatten]
  · rfl
  · intro g hg
    rcases List.mem_append.mp hg with hg | hg
    · exact hgroup _ _ _ g hg
    · exact hgroup _ _ _ g hg

section Levels

variable {Reads : Text → ℚ → Prop} (hreads : ReadsNumbers Reads)

/-- The entries are five levels of one side. -/
def FiveLevels (t : Char) (best away : ℚ) (es : List MdEntry) : Prop :=
  es.length = 5 ∧ ∀ lvl (h : lvl < es.length), es[lvl] =
    { mdEntryType := .value t, mdEntryPx := .value (best + lvl * away), mdEntrySize := .value (10 * (lvl + 1)) }

/-- A field that is there has a value. -/
theorem value_of_readAs {α : Type} {R : Text → α → Prop} {t : Text} {f : Model.Field α} {a : α}
    (hf : ReadAs R (some t) f) (ha : ∀ a', R t a' → a' = a) : f = .value a := by
  cases f with
  | value a' => rw [ha a' hf]
  | absent => exact hf.elim
  | malformed => exact hf.elim

include hreads in
/-- INTERNAL: **a side is read as it was meant**, when its prices have no more than one decimal place. -/
theorem fiveLevels_of_shows {t : Char} {best away : ℚ} {es : List MdEntry}
    (hexact : ∀ lvl : ℕ, ∃ n : ℤ, (best + lvl * away) * 10 ^ 1 = n)
    (hes : List.Forall₂ (ShowsEntry Reads) (levelGroups [t] best away) es) : FiveLevels t best away es := by
  have hlen := hes.length_eq
  rw [levelGroups, List.length_map, List.length_range] at hlen
  refine ⟨hlen.symm, ?_⟩
  intro lvl hlvl
  obtain ⟨htype, hpx, hsize⟩ := hes.get (by rw [hes.length_eq]; exact hlvl) hlvl
  simp only [List.get_eq_getElem, levelGroups, List.getElem_map, List.getElem_range] at htype hpx hsize
  have htype : es[lvl].mdEntryType = .value t :=
    value_of_readAs htype fun c hc => ((List.cons.inj hc).1).symm
  have hpx : es[lvl].mdEntryPx = .value (best + lvl * away) := by
    refine value_of_readAs hpx fun q' hq' => hreads _ _ q' (Or.inr ?_) hq'
    obtain ⟨n, hn⟩ := hexact lvl
    rw [readFixed_fixedText (by decide), nearest_eq_self hn]
  have hsize : es[lvl].mdEntrySize = .value (10 * (lvl + 1)) := by
    refine value_of_readAs hsize fun q' hq' => hreads _ _ q' (Or.inl ?_) hq'
    have hread := readInt_intText (Int.ofNat (10 * (lvl + 1)))
    rw [intText] at hread
    rw [hread]
    simp
  rw [← htype, ← hpx, ← hsize]

end Levels

/-- The event holds the mock's book for the symbol. -/
structure MockBook (wide : Bool) (i : ℕ) (ev : MdEvent) : Prop where
  nBids : ev.nBids = 5
  nAsks : ev.nAsks = 5
  bidPx : ∀ d, ev.bidPx d = mockBest wide i .buy - d.val * tick
  bidQty : ∀ d, ev.bidQty d = 10 * (d.val + 1)
  askPx : ∀ d, ev.askPx d = mockBest wide i .sell + d.val * tick
  askQty : ∀ d, ev.askQty d = 10 * (d.val + 1)

/-- INTERNAL: the prices of the mock have one decimal place.
SRCLINE: scripts/mock_exchange.py:97-110 -/
theorem mockBest_exact (wide : Bool) (i lvl : ℕ) :
    (∃ n : ℤ, (mockBest wide i .buy + lvl * (-tick)) * 10 ^ 1 = n) ∧
      ∃ n : ℤ, (mockBest wide i .sell + lvl * tick) * 10 ^ 1 = n := by
  unfold mockBest basePx tick
  refine ⟨⟨14700 + 100 * i - (if wide then 10 else 0) - 5 * lvl, ?_⟩,
    ⟨14700 + 100 * i + (if wide then 10 else 0) + 5 * lvl, ?_⟩⟩
  · cases wide <;> push_cast <;> simp <;> ring
  · cases wide <;> push_cast <;> simp <;> ring

theorem entriesOf_levels {t : Char} {best away : ℚ} {es : List MdEntry} (hes : FiveLevels t best away es) (u : Char) :
    entriesOf u es = if t = u then es else [] := by
  have htype : ∀ e ∈ es, e.mdEntryType = .value t := by
    intro e he
    obtain ⟨lvl, hlvl, rfl⟩ := List.getElem_of_mem he
    rw [hes.2 lvl hlvl]
  unfold entriesOf
  split
  · next htu =>
    subst htu
    exact List.filter_eq_self.mpr fun e he => decide_eq_true (htype e he)
  · next htu =>
    apply List.filter_eq_nil_iff.mpr
    intro e he hc
    rw [decide_eq_true_eq, htype e he] at hc
    exact htu (Field.value.inj hc)

/-- INTERNAL: five levels fill the arrays of a side. -/
theorem FiveLevels.sideShows {t : Char} {best away : ℚ} {es : List MdEntry} (hes : FiveLevels t best away es)
    {n : ℕ} {px qty : Fin kMaxDepth → ℚ} (hs : SideShows n px qty es) :
    n = 5 ∧ (∀ d, px d = best + d.val * away) ∧ ∀ d, qty d = 10 * (d.val + 1) := by
  have hcount := hs.count
  rw [hes.1] at hcount
  refine ⟨hcount, ?_, ?_⟩
  · intro d
    have hd : d.val < es.length := by rw [hes.1]; exact d.isLt
    rw [hs.px d, List.getElem?_eq_getElem hd, hes.2 _ hd]
    rfl
  · intro d
    have hd : d.val < es.length := by rw [hes.1]; exact d.isLt
    rw [hs.qty d, List.getElem?_eq_getElem hd, hes.2 _ hd]
    rfl

/-- INTERNAL: entries that carry a type and numbers are all read.
SRCLINE: src/fix/fix_app.hpp:123-138 -/
theorem readEntries_total {es : List MdEntry} (hes : ∀ e ∈ es, ∃ t p q, e =
    { mdEntryType := .value t, mdEntryPx := .value p, mdEntrySize := .value q }) (ev : MdEvent) :
    ∃ ev', readEntries ev es.length es = .ok ev' := by
  induction es generalizing ev with
  | nil => exact ⟨ev, rfl⟩
  | cons e es ih =>
    obtain ⟨t, p, q, rfl⟩ := hes e List.mem_cons_self
    have hone : ∃ ev', readEntry ev { mdEntryType := .value t, mdEntryPx := .value p, mdEntrySize := .value q } =
        .ok ev' := by
      simp only [readEntry, Field.get, Field.getIfSet, bind, Except.bind, id]
      split_ifs <;> exact ⟨_, rfl⟩
    obtain ⟨ev', hev'⟩ := hone
    obtain ⟨ev'', hev''⟩ := ih (fun e he => hes e (List.mem_cons_of_mem _ he)) ev'
    refine ⟨ev'', ?_⟩
    rw [List.length_cons, readEntries, hev']
    exact hev''

/-- INTERNAL: **a snapshot of the mock** becomes the event that holds its book.
SRCLINE: scripts/mock_exchange.py:97-112, src/fix/fix_app.hpp:103-138 -/
theorem snapshot_read {Reads : Text → ℚ → Prop} (hreads : ReadsNumbers Reads) {app : FixApp} {i : ℕ} {sym : Text}
    (hload : Loaded app sym) {reqId : Text} {wide : Bool} {msg : MarketDataSnapshot}
    (hshows : Shows Reads (snapshotFields reqId wide i sym) msg) (seq : ℕ) (now : ℤ) :
    ∃ ev, app.onMarketData seq msg now = .ok (some ev) ∧ ev.symbolId = app.symbolId sym ∧ MockBook wide i ev := by
  obtain ⟨hsymbol, hcount, hentries⟩ := hshows
  rw [groupsAt_snapshotFields] at hentries
  obtain ⟨bids, asks, hsplit, hbids, hasks⟩ := forall₂_append_left hentries
  have hbids : FiveLevels '0' (mockBest wide i .buy) (-tick) bids :=
    fiveLevels_of_shows hreads (fun lvl => (mockBest_exact wide i lvl).1) hbids
  have hasks : FiveLevels '1' (mockBest wide i .sell) tick asks :=
    fiveLevels_of_shows hreads (fun lvl => (mockBest_exact wide i lvl).2) hasks
  have hsymbol : msg.symbol = .value sym := value_of_readAs hsymbol fun t ht => ht.symm
  have hcount : msg.noMDEntries = .value 10 := by
    refine value_of_readAs hcount fun n hn => ?_
    have hten : readInt "10".toList = some 10 := by decide +kernel
    exact Option.some.inj (hn.symm.trans hten)
  have hlen : msg.entries.length = 10 := by
    rw [hsplit, List.length_append, hbids.1, hasks.1]
  have hours : ¬ app.symbolId sym = uint32Max := by
    have hlt := (symbolId_lt_iff app sym).mpr hload
    have hmax : kMaxSymbols < uint32Max := by decide
    omega
  have hnumbers : ∀ e ∈ msg.entries, ∃ t p q, e =
      { mdEntryType := .value t, mdEntryPx := .value p, mdEntrySize := .value q } := by
    intro e he
    rw [hsplit] at he
    rcases List.mem_append.mp he with he | he
    · obtain ⟨lvl, hlvl, rfl⟩ := List.getElem_of_mem he
      exact ⟨_, _, _, hbids.2 lvl hlvl⟩
    · obtain ⟨lvl, hlvl, rfl⟩ := List.getElem_of_mem he
      exact ⟨_, _, _, hasks.2 lvl hlvl⟩
  obtain ⟨ev, hev, hsym⟩ : ∃ ev, app.onMarketData seq msg now = .ok (some ev) ∧ ev.symbolId = app.symbolId sym := by
    obtain ⟨ev, hev⟩ := readEntries_total hnumbers
      { tRecvNs := now, symbolId := app.symbolId sym, nBids := 0, nAsks := 0, bidPx := fun _ => 0,
        bidQty := fun _ => 0, askPx := fun _ => 0, askQty := fun _ => 0, lastPx := 0, seq := seq }
    refine ⟨ev, ?_, symbolId_readEntries hev⟩
    rw [hlen] at hev
    simp only [FixApp.onMarketData, hsymbol, hcount, Field.get, bind, Except.bind, if_neg hours]
    rw [show (10 : ℤ).toNat = 10 from rfl, hev]
    rfl
  have hgroups : readGroups msg = bids ++ asks := by
    unfold readGroups
    rw [hcount, ← hsplit]
    exact List.take_of_length_le (by rw [hlen]; decide)
  have hread := onMarketData_readsAs hev
  rw [hgroups] at hread
  obtain ⟨hb, ha⟩ := hread
  rw [entriesOf_append, entriesOf_levels hbids, entriesOf_levels hasks, if_pos rfl, if_neg (by decide),
    List.append_nil] at hb
  rw [entriesOf_append, entriesOf_levels hbids, entriesOf_levels hasks, if_pos rfl, if_neg (by decide),
    List.nil_append] at ha
  obtain ⟨hnb, hbpx, hbqty⟩ := hbids.sideShows hb
  obtain ⟨hna, hapx, haqty⟩ := hasks.sideShows ha
  refine ⟨ev, hev, hsym, hnb, hna, ?_, hbqty, hapx, haqty⟩
  intro d
  rw [hbpx d]
  ring

/-! ## The feed -/

/-- INTERNAL: the id of a symbol is its first index in the configuration.
SRCLINE: src/fix/fix_app.hpp:56-58, 258-262 -/
theorem symbolId_idxOf {cfg : EngineConfig} {t : Text} (ht : t ∈ cfg.symbols.take kMaxSymbols) :
    (FixApp.init cfg).symbolId t = cfg.symbols.idxOf t := by
  unfold FixApp.symbolId
  cases hf : (List.finRange kMaxSymbols).find? fun i =>
      i.val < (FixApp.init cfg).nSymbols ∧ (FixApp.init cfg).symbols i = t with
  | some i =>
    obtain ⟨hi, k, hk, hget, hfirst⟩ := List.find?_eq_some_iff_getElem.mp hf
    rw [List.getElem_finRange] at hget
    obtain rfl : k = i.val := congrArg Fin.val hget
    obtain ⟨hn, hsym⟩ := of_decide_eq_true hi
    have hlt : i.val < cfg.symbols.length := lt_of_lt_of_le hn (min_le_left _ _)
    refine ((List.findIdx_eq hlt).mpr ⟨?_, ?_⟩).symm
    · rw [← List.getD_eq_getElem _ [] hlt, show cfg.symbols.getD i.val [] = t from hsym, beq_self_eq_true]
    · -- the scan has passed every earlier index
      intro j hj
      have hpassed := hfirst j hj
      rw [List.getElem_finRange, Bool.not_eq_true', decide_eq_false_iff_not, not_and] at hpassed
      have hne : cfg.symbols.getD j [] ≠ t := hpassed (lt_trans hj hn)
      rw [List.getD_eq_getElem _ _ (lt_trans hj hlt)] at hne
      exact beq_eq_false_iff_ne.mpr hne
  | none =>
    obtain ⟨i, hi⟩ := (loaded_init cfg t).mpr ht
    have hno := List.find?_eq_none.mp hf i (List.mem_finRange i)
    exact absurd (decide_eq_true hi) hno

/-- Reading a number as it is written. -/
theorem readsNumbers_writtenAs : ReadsNumbers WrittenAs := by
  intro t q q' hq hq'
  unfold WrittenAs at hq hq'
  cases hint : readInt t with
  | none =>
    rw [hint] at hq hq'
    obtain hq | hq := hq
    · cases hq
    obtain hq' | hq' := hq'
    · cases hq'
    exact Option.some.inj (hq'.symm.trans hq)
  | some n =>
    rw [hint, readFixed_of_readInt hint] at hq hq'
    obtain hq | hq := hq
    · obtain hq' | hq' := hq'
      · exact Option.some.inj (hq'.symm.trans hq)
      · cases hq'
    · cases hq

/-- A request for two symbols. -/
def twoSymbolsAsked : Text :=
  ["35=V", "262=MM-SUB-1", "55=DLR", "55=GGAL", ""].flatMap fun s => s.toList ++ (if s = "" then [] else [soh])

/-- One side of the message whose numbers are written as the mock prints them. -/
def mockSide (t : Char) (best away : ℚ) : List MdEntry :=
  (List.range 5).map fun (lvl : ℕ) =>
    { mdEntryType := .value t, mdEntryPx := .value (best + lvl * away), mdEntrySize := .value (10 * (lvl + 1)) }

/-- The snapshot of the mock as a typed message. -/
def mockMessage (wide : Bool) (i : ℕ) (sym : Text) : MarketDataSnapshot :=
  { symbol := .value sym, noMDEntries := .value 10,
    entries := mockSide '0' (mockBest wide i .buy) (-tick) ++ mockSide '1' (mockBest wide i .sell) tick }

theorem shows_mockSide {t : Char} {best away : ℚ} (hexact : ∀ lvl : ℕ, ∃ n : ℤ, (best + lvl * away) * 10 ^ 1 = n) :
    List.Forall₂ (ShowsEntry WrittenAs) (levelGroups [t] best away) (mockSide t best away) := by
  unfold levelGroups mockSide
  rw [List.forall₂_map_left_iff, List.forall₂_map_right_iff, List.forall₂_same]
  intro lvl _
  refine ⟨rfl, Or.inr ?_, Or.inl ?_⟩
  · obtain ⟨n, hn⟩ := hexact lvl
    rw [readFixed_fixedText (by decide), nearest_eq_self hn]
  · have hread := readInt_intText (Int.ofNat (10 * (lvl + 1)))
    rw [intText] at hread
    rw [hread]
    simp

/-- INTERNAL: every snapshot of the mock is shown by a message. -/
theorem shows_mockMessage (reqId : Text) (wide : Bool) (i : ℕ) (sym : Text) :
    Shows WrittenAs (snapshotFields reqId wide i sym) (mockMessage wide i sym) := by
  refine ⟨rfl, ?_, ?_⟩
  · have hten : readInt "10".toList = some 10 := by decide +kernel
    exact hten
  · rw [groupsAt_snapshotFields]
    exact List.rel_append (shows_mockSide fun lvl => (mockBest_exact wide i lvl).1)
      (shows_mockSide fun lvl => (mockBest_exact wide i lvl).2)

end MmEngine.Analysis
