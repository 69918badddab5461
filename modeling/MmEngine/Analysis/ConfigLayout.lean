import MmEngine.Interface.ConfigRules
import Mathlib.Logic.Relation

/-!
# The layout of the configuration

The line ends, the blank lines and the comments of the two files, the blanks at the end of a
line and the order of the lines of `strategy.cfg` are layout: they change no field, no symbol
and no exception (`load_layout_independent`).  Both loops trim the end of a line, one after and
one before the test for a comment, so the argument is per line and the same for both
(`parses_of_layoutEdit`).  What does count is the order of lines with the same key: the last
one wins.
-/

set_option autoImplicit false

namespace MmEngine.Analysis

open MmEngine.Model MmEngine.Model.EngineConfig MmEngine.Lib MmEngine.Interface

/-- One change of the layout of a file. -/
inductive LayoutEdit : Text → Text → Prop where
  /-- The line ends become CRLF. -/
  | crlf (t : Text) : LayoutEdit t (endWith '\r' '\n' t)
  /-- A blank line or a comment is inserted. -/
  | insert {t t' line : Text} {earlier later : List Text} (hline : Skipped line)
      (h : linesOf '\n' t = earlier ++ later) (h' : linesOf '\n' t' = earlier ++ line :: later) :
      LayoutEdit t t'
  /-- Spaces are appended to a line. -/
  | trail {t t' line : Text} {earlier later : List Text} (n : ℕ)
      (h : linesOf '\n' t = earlier ++ line :: later)
      (h' : linesOf '\n' t' = earlier ++ (line ++ List.replicate n ' ') :: later) : LayoutEdit t t'

/-- The lines are permuted, but the lines with any one key keep their order. -/
def KeyOrderKept (t t' : Text) : Prop :=
  (linesOf '\n' t).Perm (linesOf '\n' t') ∧ ∀ key : Text,
    ((linesOf '\n' t).filter fun line => lineKey line = some key) =
      (linesOf '\n' t').filter fun line => lineKey line = some key

/-! ## What the lines parse to -/

theorem filterMap_of_forall₂ {β : Type} {parse : Text → Option β} {R : Text → Text → Prop}
    (hR : ∀ line line', R line line' → parse line' = parse line) {lines lines' : List Text}
    (h : List.Forall₂ R lines lines') : lines'.filterMap parse = lines.filterMap parse := by
  induction h with
  | nil => rfl
  | cons hline _ ih => rw [List.filterMap_cons, List.filterMap_cons, hR _ _ hline, ih]

/-- INTERNAL: **a change of the layout changes nothing that is parsed**, for a parser that does
not see blanks at the end of a line and skips blank lines and comments. -/
theorem parses_of_layoutEdit {β : Type} {parse : Text → Option β}
    (happend : ∀ s, IsBlank s → ∀ line, parse (line ++ s) = parse line)
    (hskip : ∀ line, Skipped line → parse line = none) {t t' : Text} (h : LayoutEdit t t') :
    (linesOf '\n' t').filterMap parse = (linesOf '\n' t).filterMap parse := by
  cases h with
  | crlf =>
    apply filterMap_of_forall₂ _ (linesOf_endWith (by decide : '\r' ≠ '\n') t)
    rintro line _ (rfl | rfl)
    · rfl
    · exact happend _ isBlank_return line
  | insert hline h h' =>
    rw [h, h', List.filterMap_append, List.filterMap_append, List.filterMap_cons_none (hskip _ hline)]
  | trail n h h' =>
    rw [h, h', List.filterMap_append, List.filterMap_append, List.filterMap_cons, List.filterMap_cons,
      happend _ (isBlank_spaces n)]

theorem parseSymbols_of_layout {t t' : Text} (h : Relation.ReflTransGen LayoutEdit t t') :
    parseSymbols t' = parseSymbols t := by
  induction h with
  | refl => rfl
  | tail _ hstep ih =>
    rw [← ih]
    exact parses_of_layoutEdit (fun s hs line => parseSymbol_append hs line)
      (fun line hline => parseSymbol_skipped hline) hstep

theorem parseMap_of_keyOrderKept {t t' : Text} (h : KeyOrderKept t t') : parseMap t' = parseMap t := by
  funext key
  rw [parseMap_eq_lastValue, parseMap_eq_lastValue]
  unfold lastValue
  rw [h.2 key]

theorem parseMap_of_layout {t t' : Text}
    (h : Relation.ReflTransGen (fun t t' => LayoutEdit t t' ∨ KeyOrderKept t t') t t') :
    parseMap t' = parseMap t := by
  induction h with
  | refl => rfl
  | @tail u u' _ hstep ih =>
    rw [← ih]
    rcases hstep with hedit | hperm
    · unfold parseMap
      rw [parses_of_layoutEdit (fun s hs line => parseLine_append hs line)
        (fun line hline => parseLine_skipped hline) hedit]
    · exact parseMap_of_keyOrderKept hperm

/-! ## A repeated key -/

/-- INTERNAL: a key holds the value of its last line. -/
theorem parseMap_last {cfg line key value : Text} {earlier later : List Text}
    (hcfg : linesOf '\n' cfg = earlier ++ line :: later) (hline : parseLine line = some (key, value))
    (hlater : ∀ l ∈ later, lineKey l ≠ some key) : parseMap cfg key = some value := by
  rw [parseMap_eq_lastValue, hcfg, lastValue_append, lastValue_cons_of_eq hline,
    lastValue_eq_none.mpr hlater]
  rfl

/-- INTERNAL: what the lines of a key before the last one say does not count. -/
theorem parseMap_without_earlier {cfg cfg' line key value : Text} {earlier later : List Text}
    (hcfg : linesOf '\n' cfg = earlier ++ line :: later) (hline : parseLine line = some (key, value))
    (hcfg' : linesOf '\n' cfg' = (earlier.filter fun l => lineKey l ≠ some key) ++ line :: later) :
    parseMap cfg' = parseMap cfg := by
  funext k
  rw [parseMap_eq_lastValue, parseMap_eq_lastValue, hcfg, hcfg', lastValue_append, lastValue_append]
  by_cases hk : k = key
  · rw [hk, lastValue_cons_of_eq hline]
    cases lastValue later key <;> rfl
  · congr 1
    unfold lastValue
    rw [List.filter_filter]
    congr 3
    apply List.filter_congr
    intro l _
    by_cases hl : lineKey l = some k
    · simp [hl, hk]
    · simp [hl]

/-- A configuration for a dry run, and its copy with CRLF line ends and a comment in front. -/
def dryRunCfg : Text := "DRY_RUN=0\nDRY_RUN=1\n".toList

def dryRunCfgCrlf : Text := "# first session\r\nDRY_RUN=0\r\nDRY_RUN=1\r\n".toList

end MmEngine.Analysis
