import MmEngine.Model.ConfigFile
import MmEngine.Interface.FixRules

/-!
# What the loader makes of a line

Blanks and carriage returns at the end of a line change nothing (`parseLine_append`,
`parseSymbol_append`), and a configuration depends on a file only through what its lines parse
to (`load_congr`).  The keys are read as written: `load_congr_gets` is the rule for a change of
the map that the conversions of the keys do not see.
-/

set_option autoImplicit false

namespace MmEngine.Interface

open MmEngine.Model MmEngine.Model.EngineConfig MmEngine.Lib

/-! ## Trimming -/

/-- Spaces and carriage returns. -/
def IsBlank (t : Text) : Prop := ∀ c ∈ t, isTrailing c = true

theorem isBlank_spaces (n : ℕ) : IsBlank (List.replicate n ' ') := by
  intro c hc
  rw [(List.mem_replicate.mp hc).2]
  rfl

theorem isBlank_return : IsBlank ['\r'] := by
  intro c hc
  rw [List.mem_singleton.mp hc]
  rfl

theorem IsBlank.eq_not_mem {t : Text} (ht : IsBlank t) : '=' ∉ t := by
  intro hmem
  exact absurd (ht _ hmem) (by decide)

theorem trimBack_append {s : Text} (hs : IsBlank s) (t : Text) : trimBack (t ++ s) = trimBack t := by
  unfold trimBack List.rdropWhile
  rw [List.reverse_append, List.dropWhile_append_of_pos]
  intro c hc
  exact hs c (List.mem_reverse.mp hc)

theorem trimBack_eq_nil {t : Text} : trimBack t = [] ↔ IsBlank t := List.rdropWhile_eq_nil_iff

/-- INTERNAL: what stands in front of a text that is not blank stays. -/
theorem trimBack_append_of_ne_nil {t : Text} (ht : trimBack t ≠ []) (s : Text) :
    trimBack (s ++ t) = s ++ trimBack t := by
  have hdrop : List.dropWhile isTrailing t.reverse ≠ [] := by
    intro hnil
    apply ht
    unfold trimBack List.rdropWhile
    rw [hnil]
    rfl
  unfold trimBack List.rdropWhile
  rw [List.reverse_append, List.dropWhile_append, if_neg (by simpa using hdrop), List.reverse_append,
    List.reverse_reverse]

/-! ## One line -/

/-- A line the loader skips: blank, or a comment. -/
def Skipped (line : Text) : Prop := IsBlank line ∨ ∃ rest, line = '#' :: rest

theorem bne_separator {k : Text} (hk : '=' ∉ k) : ∀ c ∈ k, (c != '=') = true := by
  intro c hc
  rw [bne_iff_ne]
  rintro rfl
  exact hk hc

theorem takeWhile_key {k : Text} (hk : '=' ∉ k) (v : Text) :
    (k ++ '=' :: v).takeWhile (· != '=') = k := by
  rw [List.takeWhile_append_of_pos (bne_separator hk)]
  simp

theorem dropWhile_key {k : Text} (hk : '=' ∉ k) (v : Text) :
    (k ++ '=' :: v).dropWhile (· != '=') = '=' :: v := by
  rw [List.dropWhile_append_of_pos (bne_separator hk)]
  simp

theorem parseLine_comment (t : Text) : parseLine ('#' :: t) = none := by
  unfold parseLine
  rw [if_pos (by simp)]

theorem parseLine_of_not_mem {t : Text} (ht : '=' ∉ t) : parseLine t = none := by
  unfold parseLine
  split
  · rfl
  · rw [if_neg (by simpa using ht)]

/-- INTERNAL: a line with a separator gives the text before the first one and the trimmed text
after it. -/
theorem parseLine_keyValue {k : Text} (hk : '=' ∉ k) (hhead : k.head? ≠ some '#') (v : Text) :
    parseLine (k ++ '=' :: v) = some (k, trimBack v) := by
  have hcomment : ((k ++ '=' :: v).isEmpty || (k ++ '=' :: v).head? == some '#') = false := by
    cases k with
    | nil => rfl
    | cons c k => simpa using hhead
  unfold parseLine
  rw [if_neg (ne_true_of_eq_false hcomment), if_pos (by simp), takeWhile_key hk, dropWhile_key hk]
  rfl

/-- INTERNAL: **what a line of `strategy.cfg` can be**: skipped, or a key and a value. -/
theorem parseLine_cases (t : Text) :
    (∃ rest, t = '#' :: rest) ∨ '=' ∉ t ∨
      ∃ k v, t = k ++ '=' :: v ∧ '=' ∉ k ∧ k.head? ≠ some '#' := by
  by_cases hmem : '=' ∈ t
  · obtain ⟨k, v, rfl, hk⟩ := List.eq_append_cons_of_mem hmem
    by_cases hhead : k.head? = some '#'
    · cases k with
      | nil => cases hhead
      | cons c k =>
        obtain rfl := Option.some.inj hhead
        exact Or.inl ⟨_, rfl⟩
    · exact Or.inr (Or.inr ⟨k, v, rfl, hk, hhead⟩)
  · exact Or.inr (Or.inl hmem)

/-- INTERNAL: **blanks at the end of a line of `strategy.cfg` change nothing.** -/
theorem parseLine_append {s : Text} (hs : IsBlank s) (t : Text) : parseLine (t ++ s) = parseLine t := by
  obtain ⟨rest, rfl⟩ | hmem | ⟨k, v, rfl, hk, hhead⟩ := parseLine_cases t
  · rw [List.cons_append, parseLine_comment, parseLine_comment]
  · rw [parseLine_of_not_mem hmem, parseLine_of_not_mem]
    rw [List.mem_append, not_or]
    exact ⟨hmem, hs.eq_not_mem⟩
  · rw [List.append_assoc, List.cons_append, parseLine_keyValue hk hhead, parseLine_keyValue hk hhead,
      trimBack_append hs]

theorem parseLine_skipped {t : Text} (ht : Skipped t) : parseLine t = none := by
  obtain hblank | ⟨rest, rfl⟩ := ht
  · exact parseLine_of_not_mem hblank.eq_not_mem
  · exact parseLine_comment rest

theorem parseSymbol_append {s : Text} (hs : IsBlank s) (t : Text) :
    parseSymbol (t ++ s) = parseSymbol t := by
  unfold parseSymbol
  rw [trimBack_append hs]

theorem parseSymbol_skipped {t : Text} (ht : Skipped t) : parseSymbol t = none := by
  obtain hblank | ⟨rest, rfl⟩ := ht
  · unfold parseSymbol
    rw [trimBack_eq_nil.mpr hblank]
    rfl
  · -- the comment sign is not trimmed away
    have hkept : trimBack ('#' :: rest) = '#' :: trimBack rest := by
      by_cases hblank : trimBack rest = []
      · have hone : trimBack (['#'] ++ rest) = trimBack ['#'] := trimBack_append (trimBack_eq_nil.mp hblank) _
        rw [hblank]
        exact hone
      · exact trimBack_append_of_ne_nil hblank ['#']
    unfold parseSymbol
    rw [hkept]
    rfl

/-! ## The lines of one key -/

/-- The key of a line of `strategy.cfg`, if it has one. -/
def lineKey (line : Text) : Option Text := (parseLine line).map Prod.fst

/-- INTERNAL: the writes of a key are those of the lines with the key. -/
theorem filter_parseLine (lines : List Text) (key : Text) :
    ((lines.filterMap parseLine).filter fun p => p.1 = key) =
      (lines.filter fun line => lineKey line = some key).filterMap parseLine := by
  induction lines with
  | nil => rfl
  | cons line lines ih =>
    cases hparse : parseLine line with
    | none =>
      rw [List.filterMap_cons_none hparse, List.filter_cons_of_neg (by simp [lineKey, hparse]), ih]
    | some p =>
      rw [List.filterMap_cons_some hparse]
      by_cases hp : p.1 = key
      · rw [List.filter_cons_of_pos (by simpa using hp),
          List.filter_cons_of_pos (by simpa [lineKey, hparse] using hp),
          List.filterMap_cons_some hparse, ih]
      · rw [List.filter_cons_of_neg (by simpa using hp),
          List.filter_cons_of_neg (by simpa [lineKey, hparse] using hp), ih]

/-- The value of the last of the lines with the key. -/
def lastValue (lines : List Text) (key : Text) : Option Text :=
  ((lines.filter fun line => lineKey line = some key).filterMap parseLine).getLast?.map Prod.snd

/-- INTERNAL: **the map holds, for each key, the value of its last line.** -/
theorem parseMap_eq_lastValue (cfg key : Text) : parseMap cfg key = lastValue (linesOf '\n' cfg) key := by
  unfold parseMap lastValue
  rw [putAll_apply, filter_parseLine, Option.or_none]

section LastValue

variable {line key value : Text} {lines : List Text}

theorem lastValue_append (earlier later : List Text) (key : Text) :
    lastValue (earlier ++ later) key = (lastValue later key).or (lastValue earlier key) := by
  unfold lastValue
  rw [List.filter_append, List.filterMap_append, List.getLast?_append, Option.map_or]

theorem lastValue_cons_of_ne (h : lineKey line ≠ some key) :
    lastValue (line :: lines) key = lastValue lines key := by
  unfold lastValue
  rw [List.filter_cons_of_neg (by simpa using h)]

theorem lastValue_cons_of_eq (h : parseLine line = some (key, value)) :
    lastValue (line :: lines) key = (lastValue lines key).or (some value) := by
  have hone : lastValue [line] key = some value := by
    unfold lastValue
    rw [List.filter_cons_of_pos (by simp [lineKey, h]), List.filter_nil, List.filterMap_cons_some h]
    rfl
  rw [← hone]
  exact lastValue_append [line] lines key

theorem lastValue_eq_none : lastValue lines key = none ↔ ∀ line ∈ lines, lineKey line ≠ some key := by
  constructor
  · intro hnone line hline hkey
    obtain ⟨⟨k, v⟩, hparse, hk⟩ := Option.map_eq_some_iff.mp hkey
    obtain ⟨earlier, later, rfl⟩ := List.append_of_mem hline
    dsimp only at hk
    rw [hk] at hparse
    rw [lastValue_append, lastValue_cons_of_eq hparse] at hnone
    cases hlater : lastValue later key with
    | none =>
      rw [hlater] at hnone
      cases hnone
    | some w =>
      rw [hlater] at hnone
      cases hnone
  · intro h
    have hnone : (lines.filter fun line => lineKey line = some key) = [] := by
      apply List.filter_eq_nil_iff.mpr
      intro l hl
      simpa using h l hl
    unfold lastValue
    rw [hnone]
    rfl

end LastValue

/-! ## The whole configuration -/

/-- INTERNAL: **a configuration depends on its files only through what they parse to.** -/
theorem load_congr {strtod : Strtod} {cfg cfg' : Text} {files files' : Text → Text}
    (hcfg : parseMap cfg' = parseMap cfg) (hfiles : ∀ path, parseSymbols (files' path) = parseSymbols (files path)) :
    load strtod cfg' files' = load strtod cfg files := by
  unfold load
  rw [hcfg]
  simp only [hfiles]

/-- The keys that are read as numbers. -/
def numberKeys : List Text :=
  ["MINIMUM_SPREAD", "ORDER_SPREAD", "TICK_SIZE", "ORDER_QTY", "BOOK_DEPTH", "STRATEGY_CORE", "FIX_CORE",
    "METRICS_PORT", "SNAPSHOT_INTERVAL_MS"].map String.toList

/-- The keys that are read as they are. -/
def rawKeys : List Text :=
  ["ACCOUNT", "FIX_CFG", "SYMBOLS_FILE", "LMDB_PATH", "DRY_RUN"].map String.toList

section Gets

variable {strtod : Strtod} {cfg cfg' : Text} {files : Text → Text}

/-- INTERNAL: **a configuration depends on the map only through what is read of it.** -/
theorem load_congr_gets
    (hdouble : ∀ key ∈ numberKeys, ∀ d,
      getDouble (parseMap cfg') key strtod d = getDouble (parseMap cfg) key strtod d)
    (hint : ∀ key ∈ numberKeys, ∀ d, getInt (parseMap cfg') key d = getInt (parseMap cfg) key d)
    (hraw : ∀ key ∈ rawKeys, parseMap cfg' key = parseMap cfg key) :
    load strtod cfg' files = load strtod cfg files := by
  have htext : ∀ key ∈ rawKeys, ∀ d, getText (parseMap cfg') key d = getText (parseMap cfg) key d := by
    intro key hkey d
    unfold getText
    rw [hraw key hkey]
  have hbool : ∀ key ∈ rawKeys, ∀ d, getBool (parseMap cfg') key d = getBool (parseMap cfg) key d := by
    intro key hkey d
    unfold getBool
    rw [hraw key hkey]
  unfold load
  dsimp only
  rw [hdouble "MINIMUM_SPREAD".toList (by decide), hdouble "ORDER_SPREAD".toList (by decide),
    hdouble "TICK_SIZE".toList (by decide), hdouble "ORDER_QTY".toList (by decide),
    hint "BOOK_DEPTH".toList (by decide), htext "ACCOUNT".toList (by decide),
    htext "FIX_CFG".toList (by decide), htext "SYMBOLS_FILE".toList (by decide),
    hint "STRATEGY_CORE".toList (by decide), hint "FIX_CORE".toList (by decide),
    hint "METRICS_PORT".toList (by decide), htext "LMDB_PATH".toList (by decide),
    hint "SNAPSHOT_INTERVAL_MS".toList (by decide), hbool "DRY_RUN".toList (by decide)]

theorem load_congr_keys (h : ∀ key ∈ numberKeys ++ rawKeys, parseMap cfg' key = parseMap cfg key) :
    load strtod cfg' files = load strtod cfg files := by
  apply load_congr_gets
  · intro key hkey d
    unfold getDouble
    rw [h key (List.mem_append_left _ hkey)]
  · intro key hkey d
    unfold getInt
    rw [h key (List.mem_append_left _ hkey)]
  · exact fun key hkey => h key (List.mem_append_right _ hkey)

/-- INTERNAL: what a loaded configuration holds. -/
theorem load_eq_ok {c : EngineConfig} (h : load strtod cfg files = .ok c) :
    getInt (parseMap cfg) "BOOK_DEPTH".toList ({} : EngineConfig).bookDepth = .ok c.bookDepth ∧
      c.account = getText (parseMap cfg) "ACCOUNT".toList ({} : EngineConfig).account ∧
      c.fixCfg = getText (parseMap cfg) "FIX_CFG".toList ({} : EngineConfig).fixCfg ∧
      c.symbolsFile = getText (parseMap cfg) "SYMBOLS_FILE".toList ({} : EngineConfig).symbolsFile ∧
      c.lmdbPath = getText (parseMap cfg) "LMDB_PATH".toList ({} : EngineConfig).lmdbPath := by
  obtain ⟨minimumSpread, -, h⟩ := except_bind_eq_ok.mp h
  obtain ⟨orderSpread, -, h⟩ := except_bind_eq_ok.mp h
  obtain ⟨tickSize, -, h⟩ := except_bind_eq_ok.mp h
  obtain ⟨orderQty, -, h⟩ := except_bind_eq_ok.mp h
  obtain ⟨bookDepth, hdepth, h⟩ := except_bind_eq_ok.mp h
  obtain ⟨strategyCore, -, h⟩ := except_bind_eq_ok.mp h
  obtain ⟨fixCore, -, h⟩ := except_bind_eq_ok.mp h
  obtain ⟨metricsPort, -, h⟩ := except_bind_eq_ok.mp h
  obtain ⟨snapshotIntervalMs, -, h⟩ := except_bind_eq_ok.mp h
  obtain rfl := Except.ok.inj h
  exact ⟨hdepth, rfl, rfl, rfl, rfl⟩

end Gets

/-! ## Blanks in front of a number -/

theorem skipBlanks_spaces (n : ℕ) (t : Text) :
    (cStr (List.replicate n ' ' ++ t)).dropWhile isCSpace = (cStr t).dropWhile isCSpace := by
  have hspace : ∀ c ∈ List.replicate n ' ', c = ' ' := fun c hc => (List.mem_replicate.mp hc).2
  unfold cStr
  rw [List.takeWhile_append_of_pos, List.dropWhile_append_of_pos]
  · intro c hc
    rw [hspace c hc]
    rfl
  · intro c hc
    rw [hspace c hc]
    rfl

theorem stod_spaces (strtod : Strtod) (n : ℕ) (t : Text) :
    stod strtod (List.replicate n ' ' ++ t) = stod strtod t := by
  unfold stod
  rw [skipBlanks_spaces]

theorem stoi_spaces (n : ℕ) (t : Text) : stoi (List.replicate n ' ' ++ t) = stoi t := by
  unfold stoi
  rw [skipBlanks_spaces]

end MmEngine.Interface
