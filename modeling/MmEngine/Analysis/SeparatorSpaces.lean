import MmEngine.Analysis.ConfigLayout

/-!
# Spaces around the separator

The key of a line is the text before its `=` as it is written, and the value is the text after
it, trimmed at its end only (src/common/config.hpp:38-42).  A key with spaces is none the loader
looks up, so spaces before the `=` take the line out of the file.  Spaces after it are skipped by
`stod` and `stoi`, and the values that are read as text keep them (`separator_spaces`).
-/

set_option autoImplicit false

namespace MmEngine.Analysis

open MmEngine.Model MmEngine.Model.EngineConfig MmEngine.Lib MmEngine.Interface

/-- The text-valued fields, with their keys. -/
def textFields (c : EngineConfig) : List (Text × Text) :=
  [("ACCOUNT".toList, c.account), ("FIX_CFG".toList, c.fixCfg), ("SYMBOLS_FILE".toList, c.symbolsFile),
    ("LMDB_PATH".toList, c.lmdbPath)]

/-- A line with spaces before and after its separator. -/
def spacedLine (key value : Text) (before after : ℕ) : Text :=
  key ++ List.replicate before ' ' ++ '=' :: (List.replicate after ' ' ++ value)

/-! ## One line in the map -/

theorem lineKey_spacedLine {key : Text} (hkey : '=' ∉ key) (hhead : key.head? ≠ some '#') (value : Text)
    (before after : ℕ) : parseLine (spacedLine key value before after) =
      some (key ++ List.replicate before ' ', trimBack (List.replicate after ' ' ++ value)) := by
  apply parseLine_keyValue
  · rw [List.mem_append, not_or]
    exact ⟨hkey, (isBlank_spaces before).eq_not_mem⟩
  · cases key with
    | nil =>
      cases before with
      | zero => simp
      | succ n => simp [List.replicate_succ]
    | cons c key => exact hhead

/-- INTERNAL: a comment stays one. -/
theorem parseLine_spacedLine_comment {key : Text} (hhead : key.head? = some '#') (value : Text)
    (before after : ℕ) : parseLine (spacedLine key value before after) = none := by
  cases key with
  | nil => cases hhead
  | cons c key =>
    obtain rfl := Option.some.inj hhead
    exact parseLine_comment _

section Lines

variable {cfg cfg' line line' : Text} {earlier later : List Text}

/-- INTERNAL: a line counts for its own key only. -/
theorem parseMap_other_key (hcfg : linesOf '\n' cfg = earlier ++ line :: later)
    (hcfg' : linesOf '\n' cfg' = earlier ++ later) {k : Text} (hk : lineKey line ≠ some k) :
    parseMap cfg k = parseMap cfg' k := by
  rw [parseMap_eq_lastValue, parseMap_eq_lastValue, hcfg, hcfg', lastValue_append, lastValue_append,
    lastValue_cons_of_ne hk]

/-- INTERNAL: of two lines with the same key in one place, the value counts when no later line
sets the key. -/
theorem parseMap_replace {key v v' : Text} (hcfg : linesOf '\n' cfg = earlier ++ line :: later)
    (hcfg' : linesOf '\n' cfg' = earlier ++ line' :: later) (hline : parseLine line = some (key, v))
    (hline' : parseLine line' = some (key, v')) (k : Text) :
    parseMap cfg' k = parseMap cfg k ∨
      (k = key ∧ parseMap cfg k = some v ∧ parseMap cfg' k = some v' ∧ ∀ l ∈ later, lineKey l ≠ some key) := by
  rw [parseMap_eq_lastValue, parseMap_eq_lastValue, hcfg, hcfg', lastValue_append, lastValue_append]
  by_cases hk : k = key
  · rw [hk, lastValue_cons_of_eq hline, lastValue_cons_of_eq hline']
    cases hlater : lastValue later key with
    | some w => exact Or.inl rfl
    | none => exact Or.inr ⟨rfl, rfl, rfl, lastValue_eq_none.mp hlater⟩
  · have hne : lineKey line ≠ some k := by simpa [lineKey, hline] using Ne.symm hk
    have hne' : lineKey line' ≠ some k := by simpa [lineKey, hline'] using Ne.symm hk
    rw [lastValue_cons_of_ne hne, lastValue_cons_of_ne hne']
    exact Or.inl rfl

end Lines

/-! ## Spaces before and after -/

section Spaces

variable {strtod : Strtod} {files : Text → Text} {cfg cfg' key value : Text} {earlier later : List Text}
  {after : ℕ} (hkey : '=' ∉ key)
  (hcfg : linesOf '\n' cfg = earlier ++ (key ++ '=' :: value) :: later)
  (hcfg' : linesOf '\n' cfg' = earlier ++ spacedLine key value 0 after :: later)

include hkey in
/-- INTERNAL: **spaces before the separator take the line out of the file.** -/
theorem load_spaces_before {before : ℕ} (hbefore : 0 < before) {without : Text}
    (hspaced : linesOf '\n' cfg' = earlier ++ spacedLine key value before after :: later)
    (hwithout : linesOf '\n' without = earlier ++ later) :
    load strtod cfg' files = load strtod without files := by
  apply load_congr_keys
  intro k hk
  apply parseMap_other_key hspaced hwithout
  by_cases hhead : key.head? = some '#'
  · simp [lineKey, parseLine_spacedLine_comment hhead]
  · rw [lineKey, lineKey_spacedLine hkey hhead, Option.map_some, ne_eq, Option.some_inj]
    -- no key the loader looks up has a space in it
    have hnone : ∀ k ∈ numberKeys ++ rawKeys, ' ' ∉ k := by decide
    rintro rfl
    apply hnone _ hk
    rw [List.mem_append, List.mem_replicate]
    exact Or.inr ⟨by omega, rfl⟩

include hkey hcfg hcfg'

/-- INTERNAL: **spaces after the separator** change nothing but the value of the line's key, and
that only when it is not blank and no later line sets it. -/
theorem parseMap_spaces_after (k : Text) :
    parseMap cfg' k = parseMap cfg k ∨
      (k = key ∧ parseMap cfg k = some (trimBack value) ∧ ¬ IsBlank value ∧
        parseMap cfg' k = some (List.replicate after ' ' ++ trimBack value) ∧
        ∀ l ∈ later, lineKey l ≠ some key) := by
  by_cases hhead : key.head? = some '#'
  · left
    have hspaced := parseLine_spacedLine_comment hhead value 0 after
    have hline : parseLine (key ++ '=' :: value) = none := by
      have := parseLine_spacedLine_comment hhead value 0 0
      simpa [spacedLine] using this
    rw [parseMap_eq_lastValue, parseMap_eq_lastValue, hcfg, hcfg', lastValue_append, lastValue_append,
      lastValue_cons_of_ne (by simp [lineKey, hspaced]), lastValue_cons_of_ne (by simp [lineKey, hline])]
  · have hspaced := lineKey_spacedLine hkey hhead value 0 after
    rw [List.replicate_zero, List.append_nil] at hspaced
    obtain hsame | ⟨hk, hv, hv', hlater⟩ :=
      parseMap_replace hcfg hcfg' (parseLine_keyValue hkey hhead value) hspaced k
    · exact Or.inl hsame
    · by_cases hblank : IsBlank value
      · left
        rw [hv, hv', trimBack_append hblank, trimBack_eq_nil.mpr hblank, trimBack_eq_nil.mpr (isBlank_spaces _)]
      · rw [trimBack_append_of_ne_nil (trimBack_eq_nil.not.mpr hblank)] at hv'
        exact Or.inr ⟨hk, hv, hblank, hv', hlater⟩

/-- INTERNAL: a number is read past the spaces in front of it. -/
theorem load_spaces_after (h : key ∈ rawKeys → IsBlank value ∨ ∃ l ∈ later, lineKey l = some key) :
    load strtod cfg' files = load strtod cfg files := by
  apply load_congr_gets
  · intro k _ d
    unfold getDouble
    obtain hsame | ⟨-, hv, -, hv', -⟩ := parseMap_spaces_after hkey hcfg hcfg' k
    · rw [hsame]
    · rw [hv, hv']
      exact stod_spaces _ _ _
  · intro k _ d
    unfold getInt
    obtain hsame | ⟨-, hv, -, hv', -⟩ := parseMap_spaces_after hkey hcfg hcfg' k
    · rw [hsame]
    · rw [hv, hv']
      exact stoi_spaces _ _
  · intro k hk
    obtain hsame | ⟨rfl, -, hblank, -, hlater⟩ := parseMap_spaces_after hkey hcfg hcfg' k
    · exact hsame
    · rcases h hk with hb | ⟨l, hl, heq⟩
      · exact absurd hb hblank
      · exact absurd heq (hlater l hl)

omit hcfg in
/-- INTERNAL: a value that is read as text keeps the spaces. -/
theorem text_spaces_after (hblank : ¬ IsBlank value) (hlater : ∀ l ∈ later, lineKey l ≠ some key)
    {c : EngineConfig} (hload : load strtod cfg' files = .ok c) {t : Text} (ht : (key, t) ∈ textFields c) :
    t = List.replicate after ' ' ++ trimBack value := by
  unfold textFields at ht
  simp only [List.mem_cons, Prod.mk.injEq, List.not_mem_nil, or_false] at ht
  have hhead : key.head? ≠ some '#' := by
    obtain ⟨hk, -⟩ | ⟨hk, -⟩ | ⟨hk, -⟩ | ⟨hk, -⟩ := ht <;>
    · rw [hk]
      decide
  have hspaced := lineKey_spacedLine hkey hhead value 0 after
  rw [List.replicate_zero, List.append_nil, trimBack_append_of_ne_nil (trimBack_eq_nil.not.mpr hblank)] at hspaced
  have hmap := parseMap_last hcfg' hspaced hlater
  obtain ⟨-, haccount, hfixCfg, hsymbols, hlmdb⟩ := load_eq_ok hload
  obtain ⟨hk, rfl⟩ | ⟨hk, rfl⟩ | ⟨hk, rfl⟩ | ⟨hk, rfl⟩ := ht
  · rw [haccount, getText, ← hk, hmap]
    rfl
  · rw [hfixCfg, getText, ← hk, hmap]
    rfl
  · rw [hsymbols, getText, ← hk, hmap]
    rfl
  · rw [hlmdb, getText, ← hk, hmap]
    rfl

end Spaces

/-- **Spaces around the separator.**  For every `strategy.cfg` and every line of it with a key
and a value: spaces after the `=` change neither the configuration nor the exception, unless the
key is one whose value is taken as it is; a text-valued field keeps the spaces.  Spaces before the
`=` belong to the key, and the file loads as without the line.
SRCLINE: src/common/config.hpp:31-66 -/
theorem separator_spaces (strtod : Strtod) (files : Text → Text) (cfg cfg' key value : Text)
    (earlier later : List Text) (before after : ℕ) (hkey : '=' ∉ key)
    (hcfg : linesOf '\n' cfg = earlier ++ (key ++ '=' :: value) :: later)
    (hcfg' : linesOf '\n' cfg' = earlier ++ spacedLine key value before after :: later) :
    (before = 0 → (key ∈ rawKeys → IsBlank value ∨ ∃ l ∈ later, lineKey l = some key) →
      load strtod cfg' files = load strtod cfg files) ∧
    (before = 0 → ¬ IsBlank value → (∀ l ∈ later, lineKey l ≠ some key) →
      ∀ c, load strtod cfg' files = .ok c → ∀ t, (key, t) ∈ textFields c →
        t = List.replicate after ' ' ++ trimBack value) ∧
    (0 < before → ∀ without, linesOf '\n' without = earlier ++ later →
      load strtod cfg' files = load strtod without files) := by
  refine ⟨?_, ?_, ?_⟩
  · rintro rfl hraw
    exact load_spaces_after hkey hcfg hcfg' hraw
  · rintro rfl hblank hlater c hload t ht
    exact text_spaces_after hkey hcfg' hblank hlater hload ht
  · intro hbefore without hwithout
    exact load_spaces_before hkey hbefore hcfg' hwithout

/-- Reads the half, and nothing else. -/
def strtodHalf : Strtod := fun t => if t = "0.5".toList then .ok (1 / 2) else .error .invalidArgument

/-- A tick size is read past a space. -/
theorem separator_spaces_tickSize :
    load strtodHalf "TICK_SIZE= 0.5\n".toList (fun _ => []) =
        load strtodHalf "TICK_SIZE=0.5\n".toList (fun _ => []) :=
  (separator_spaces strtodHalf (fun _ => []) "TICK_SIZE=0.5\n".toList "TICK_SIZE= 0.5\n".toList
    "TICK_SIZE".toList "0.5".toList [] [] 0 1 (by decide) rfl rfl).1 rfl (fun hraw => absurd hraw (by decide))

/-- With a space on either side of its separator, `DRY_RUN=1` trades. -/
theorem dryRun_with_spaces_trades :
    (load strtodHalf "DRY_RUN=1\n".toList fun _ => []).map (·.dryRun) = .ok true ∧
      (load strtodHalf "DRY_RUN= 1\n".toList fun _ => []).map (·.dryRun) = .ok false ∧
      (load strtodHalf "DRY_RUN =1\n".toList fun _ => []).map (·.dryRun) = .ok false :=
  ⟨rfl, rfl, rfl⟩

end MmEngine.Analysis
