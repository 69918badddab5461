import MmEngine.Model.MockWire

/-!
# The messages of the mock exchange are read as they were built

`Message` is what `build` is called with, and `Message.Clean` says that its texts are latin-1 without
SOH, its tags without an equals sign, and none of its tags 10.  Such a message is a list of fields
(`built_eq`).  Its trailer is the first field with tag 10, so the receiver cuts it off whatever
follows it and waits while a byte of it is missing (`frameCode_texts`); and since its fields are what
lies between the SOHs, its dictionary has them (`parse_text`).
-/

set_option autoImplicit false

namespace MmEngine.Interface

open MmEngine.Model MmEngine.Model.Mock MmEngine.Lib

/-! ## Latin-1 -/

/-- The text has an encoding. -/
def Latin1 (t : Text) : Prop := ∀ c ∈ t, c.toNat < 256

instance (t : Text) : Decidable (Latin1 t) := List.decidableBAll (fun c : Char => c.toNat < 256) t

/-- The bytes of a text. -/
def latin1Bytes (t : Text) : List UInt8 := t.map fun c => UInt8.ofNat c.toNat

variable {s t u v : Text}

theorem latin1_append : Latin1 (s ++ t) ↔ Latin1 s ∧ Latin1 t := List.forall_mem_append

theorem encodeLatin1_eq (h : Latin1 t) : encodeLatin1 t = some (latin1Bytes t) := by
  unfold encodeLatin1
  rw [if_pos]
  · rfl
  · rw [List.all_eq_true]
    exact fun c hc => decide_eq_true (h c hc)

theorem latin1Bytes_append : latin1Bytes (s ++ t) = latin1Bytes s ++ latin1Bytes t := List.map_append

theorem length_latin1Bytes : (latin1Bytes t).length = t.length := List.length_map _

theorem decode_latin1Bytes (h : Latin1 t) : decodeLatin1 (latin1Bytes t) = t := by
  unfold decodeLatin1 latin1Bytes
  rw [List.map_map]
  calc
    t.map ((fun b : UInt8 => Char.ofNat b.toNat) ∘ fun c => UInt8.ofNat c.toNat) = t.map id := by
      apply List.map_congr_left
      intro c hc
      show Char.ofNat (UInt8.ofNat c.toNat).toNat = c
      rw [UInt8.toNat_ofNat', Nat.mod_eq_of_lt (h c hc), Char.ofNat_toNat]
    _ = t := List.map_id t

theorem decodeLatin1_append (x y : List UInt8) : decodeLatin1 (x ++ y) = decodeLatin1 x ++ decodeLatin1 y :=
  List.map_append

theorem toNat_ofNat_of_lt {n : ℕ} (h : n < 256) : (Char.ofNat n).toNat = n := by
  have hvalid : n.isValidChar := Or.inl (h.trans (by decide))
  unfold Char.ofNat
  rw [dif_pos hvalid]
  show (UInt32.ofNatLT n _).toNat = n
  rw [UInt32.toNat_ofNatLT]

theorem latin1_decodeLatin1 (bytes : List UInt8) : Latin1 (decodeLatin1 bytes) := by
  intro c hc
  obtain ⟨b, -, rfl⟩ := List.mem_map.mp hc
  rw [toNat_ofNat_of_lt b.toNat_lt]
  exact b.toNat_lt

/-- Different bytes are different characters. -/
theorem decodeLatin1_prefix_iff {x y : List UInt8} : decodeLatin1 x <+: decodeLatin1 y ↔ x <+: y := by
  apply List.prefix_map_iff_of_injective
  intro b b' h
  have hnat := congrArg Char.toNat h
  rw [toNat_ofNat_of_lt b.toNat_lt, toNat_ofNat_of_lt b'.toNat_lt] at hnat
  exact UInt8.toNat_inj.mp hnat

/-! ## Texts of fields -/

/-- What a field may hold. -/
def PlainText (t : Text) : Prop := ∀ c ∈ t, c.toNat < 256 ∧ c ≠ soh

instance (t : Text) : Decidable (PlainText t) := List.decidableBAll (fun c : Char => c.toNat < 256 ∧ c ≠ soh) t

theorem PlainText.latin1 (h : PlainText t) : Latin1 t := fun c hc => (h c hc).1

theorem PlainText.soh_not_mem (h : PlainText t) : soh ∉ t := fun hsoh => (h soh hsoh).2 rfl

theorem plainText_append : PlainText (s ++ t) ↔ PlainText s ∧ PlainText t := List.forall_mem_append

theorem plainText_toDigits (n : ℕ) : PlainText (Nat.toDigits 10 n) := by
  intro c hc
  have hdigit := Nat.isDigit_of_mem_toDigits (by decide) (by decide) hc
  unfold Char.isDigit at hdigit
  simp only [Bool.and_eq_true, decide_eq_true_eq, ge_iff_le, UInt32.le_iff_toNat_le] at hdigit
  have hlow : 48 ≤ c.toNat := hdigit.1
  have hhigh : c.toNat ≤ 57 := hdigit.2
  refine ⟨by omega, ?_⟩
  rintro rfl
  exact absurd hlow (by decide)

theorem plainText_padded (width n : ℕ) : PlainText (padded width n) := by
  refine plainText_append.mpr ⟨?_, plainText_toDigits n⟩
  intro c hc
  rw [List.eq_of_mem_replicate hc]
  decide

theorem plainText_decimal (n : ℤ) : PlainText (decimal n) := by
  cases n with
  | ofNat n => exact plainText_toDigits n
  | negSucc n => exact plainText_append (s := ['-']).mpr ⟨by decide, plainText_toDigits _⟩

theorem PlainText.take (h : PlainText t) (n : ℕ) : PlainText (t.take n) :=
  fun c hc => h c (List.mem_of_mem_take hc)

/-- SRCLINE: scripts/mock_exchange.py:38-39 -/
theorem plainText_nowTs (now : UtcTime) : PlainText (nowTs now) := by
  have hpunct : PlainText ['-'] ∧ PlainText [':'] ∧ PlainText ['.'] := by decide
  apply PlainText.take
  simp only [plainText_append, plainText_padded, hpunct, and_self]

/-- A field that is read as it was written. -/
structure PlainField (f : Text × Text) : Prop where
  tag : PlainText f.1
  value : PlainText f.2
  noEquals : '=' ∉ f.1

/-- The tag of a trailer. -/
abbrev trailerTag : Text := "10".toList

/-- Such a field outside of the trailer. -/
structure FrontField (f : Text × Text) : Prop extends PlainField f where
  ne_trailer : f.1 ≠ trailerTag

/-- The text of a list of fields. -/
def fieldsText (fs : List (Text × Text)) : Text := fs.flatMap fun f => field f.1 f.2

theorem fieldsText_append (fs gs : List (Text × Text)) :
    fieldsText (fs ++ gs) = fieldsText fs ++ fieldsText gs := List.flatMap_append

theorem fieldsText_singleton (f : Text × Text) : fieldsText [f] = field f.1 f.2 := List.flatMap_singleton _ _

theorem latin1_field (ht : Latin1 t) (hv : Latin1 v) : Latin1 (field t v) := by
  have hequals : '='.toNat < 256 := by decide
  have hsoh : Latin1 [soh] := by decide
  exact latin1_append.mpr ⟨latin1_append.mpr ⟨ht, List.forall_mem_cons.mpr ⟨hequals, hv⟩⟩, hsoh⟩

theorem latin1_fieldsText {fs : List (Text × Text)} (h : ∀ f ∈ fs, Latin1 f.1 ∧ Latin1 f.2) :
    Latin1 (fieldsText fs) := by
  intro c hc
  obtain ⟨f, hf, hc⟩ := List.mem_flatMap.mp hc
  exact latin1_field (h f hf).1 (h f hf).2 c hc

theorem takeWhile_tag (h : '=' ∉ t) (v : Text) : (t ++ '=' :: v).takeWhile (· != '=') = t := by
  have hall : ∀ c ∈ t, (c != '=') = true := fun c hc => bne_iff_ne.mpr fun heq => h (heq ▸ hc)
  rw [List.takeWhile_append_of_pos hall]
  exact List.append_nil t

theorem dropWhile_tag (h : '=' ∉ t) (v : Text) : (t ++ '=' :: v).dropWhile (· != '=') = '=' :: v := by
  have hall : ∀ c ∈ t, (c != '=') = true := fun c hc => bne_iff_ne.mpr fun heq => h (heq ▸ hc)
  rw [List.dropWhile_append_of_pos hall]
  rfl

/-! ## The trailer -/

/-- What the receiver looks for. -/
abbrev trailerMark : Text := soh :: "10=".toList

theorem PlainField.soh_not_mem {f : Text × Text} (h : PlainField f) : soh ∉ f.1 ++ '=' :: f.2 := by
  rw [List.mem_append, List.mem_cons]
  rintro (htag | heq | hvalue)
  · exact h.tag.soh_not_mem htag
  · exact absurd heq (by decide)
  · exact h.value.soh_not_mem hvalue

/-- INTERNAL: no other field looks like the trailer. -/
theorem FrontField.not_trailer {f : Text × Text} (h : FrontField f) (u : Text) :
    ¬ trailerMark <+: soh :: (f.1 ++ '=' :: f.2 ++ u) := by
  rintro ⟨rest, heq⟩
  have htext : trailerTag ++ '=' :: rest = f.1 ++ '=' :: (f.2 ++ u) := by
    have htail : trailerTag ++ '=' :: rest = f.1 ++ '=' :: f.2 ++ u := (List.cons.inj heq).2
    rwa [List.append_assoc] at htail
  have htag := congrArg (List.takeWhile (· != '=')) htext
  rw [takeWhile_tag (by decide), takeWhile_tag h.noEquals] at htag
  exact h.ne_trailer htag.symm

theorem fieldsText_cons (f : Text × Text) (fs : List (Text × Text)) (u : Text) :
    fieldsText (f :: fs) ++ u = (f.1 ++ '=' :: f.2) ++ soh :: (fieldsText fs ++ u) := by
  unfold fieldsText field
  simp

/-- INTERNAL: the trailer of a text starts where its other fields end.
SRCLINE: scripts/mock_exchange.py:147 -/
theorem findSub_trailer {fs : List (Text × Text)} (hfs : ∀ f ∈ fs, FrontField f) (u : Text) :
    findSub trailerMark (soh :: (fieldsText fs ++ ("10=".toList ++ u))) = some (fieldsText fs).length := by
  induction fs with
  | nil => exact findSub_of_starts (List.prefix_append trailerMark u)
  | cons f fs ih =>
    have hf := hfs f List.mem_cons_self
    have hrest := ih fun g hg => hfs g (List.mem_cons_of_mem _ hg)
    have hlen := congrArg List.length (fieldsText_cons f fs [])
    rw [List.append_nil, List.append_nil, List.length_append, List.length_cons] at hlen
    rw [fieldsText_cons, findSub_cons (hf.not_trailer _), findSub_append_of_not_mem _ hf.soh_not_mem, hrest,
      Option.map_some, Option.map_some, hlen]
    congr 1
    omega

/-- The place of the trailer in a text that starts with another field. -/
theorem find_trailer {fs : List (Text × Text)} (hne : fs ≠ []) (hfs : ∀ f ∈ fs, FrontField f) (u : Text) :
    ∃ n, (fieldsText fs).length = n + 1 ∧ find (fieldsText fs ++ ("10=".toList ++ u)) trailerMark 0 = some n := by
  cases fs with
  | nil => exact absurd rfl hne
  | cons f fs =>
    have hf := hfs f List.mem_cons_self
    have hrest := findSub_trailer (fun g hg => hfs g (List.mem_cons_of_mem f hg)) u
    have hlen := congrArg List.length (fieldsText_cons f fs [])
    rw [List.append_nil, List.append_nil, List.length_append, List.length_cons] at hlen
    refine ⟨(fieldsText fs).length + (f.1 ++ '=' :: f.2).length, by omega, ?_⟩
    unfold find
    rw [List.drop_zero, fieldsText_cons, findSub_append_of_not_mem _ hf.soh_not_mem, hrest]
    rfl

theorem field_trailer (v : Text) : field trailerTag v = "10=".toList ++ v ++ [soh] := rfl

section Frames

variable {fs : List (Text × Text)} (hne : fs ≠ []) (hfs : ∀ f ∈ fs, FrontField f) (hv : PlainText v)

include hv in
theorem soh_not_mem_trailer : soh ∉ "10=".toList ++ v := by
  rw [List.mem_append, not_or]
  exact ⟨by decide, hv.soh_not_mem⟩

include hne hfs hv

/-- INTERNAL: **a text that starts with fields and a trailer** is cut after the trailer, whatever
follows it.
SRCLINE: scripts/mock_exchange.py:147-153 -/
theorem nextMessage_whole (rest : Text) :
    nextMessage (fieldsText fs ++ field trailerTag v ++ rest) = some (fieldsText fs ++ field trailerTag v, rest) := by
  have htext : fieldsText fs ++ field trailerTag v ++ rest =
      fieldsText fs ++ ("10=".toList ++ (v ++ soh :: rest)) := by
    rw [field_trailer]
    simp only [List.append_assoc, List.singleton_append]
  obtain ⟨n, hlen, hfind⟩ := find_trailer hne hfs (v ++ soh :: rest)
  have hdrop : (fieldsText fs ++ ("10=".toList ++ (v ++ soh :: rest))).drop (n + 1) =
      ("10=".toList ++ v) ++ soh :: rest := by
    rw [← hlen, List.drop_left, List.append_assoc]
  have hsoh : findSub [soh] (soh :: rest) = some 0 := findSub_of_starts (List.prefix_append [soh] rest)
  have hstop : find (fieldsText fs ++ ("10=".toList ++ (v ++ soh :: rest))) [soh] (n + 1) =
      some (("10=".toList ++ v).length + (fieldsText fs).length) := by
    unfold find
    rw [hdrop, findSub_append_of_not_mem _ (soh_not_mem_trailer hv), hsoh, ← hlen, Option.map_some,
      Option.map_some, Nat.zero_add]
  have hend : ("10=".toList ++ v).length + (fieldsText fs).length + 1 =
      (fieldsText fs ++ field trailerTag v).length := by
    simp only [field_trailer, List.length_append, List.length_singleton]
    omega
  unfold nextMessage
  rw [htext, hfind, Option.bind_some, hstop, Option.map_some, hend, ← htext, List.take_left, List.drop_left]

/-- INTERNAL: **a proper beginning of such a text** has no whole message. -/
theorem nextMessage_part {p : Text} (hp : p <+: fieldsText fs ++ field trailerTag v)
    (hshort : p ≠ fieldsText fs ++ field trailerTag v) : nextMessage p = none := by
  rw [field_trailer, ← List.append_assoc] at hp hshort
  obtain ⟨q, hq⟩ := (List.prefix_concat_iff.mp hp).resolve_left hshort
  unfold nextMessage
  cases hmark : find p trailerMark 0 with
  | none => rfl
  | some i =>
    -- the trailer has started, so what follows its start has no SOH
    obtain ⟨n, hlen, hfind⟩ := find_trailer hne hfs v
    have hplace : i = n := by
      unfold find at hmark hfind
      rw [List.drop_zero] at hmark hfind
      obtain ⟨i', hfound, rfl⟩ := Option.map_eq_some_iff.mp hmark
      rw [← hq, findSub_append hfound q] at hfind
      exact Option.some.inj hfind
    have hdrop : p.drop (n + 1) <+: "10=".toList ++ v := by
      have hstarts := (List.prefix_append p q).drop (n + 1)
      rwa [hq, ← hlen, List.drop_left, hlen] at hstarts
    have hno : soh ∉ p.drop (n + 1) := fun hmem => soh_not_mem_trailer hv (hdrop.subset hmem)
    rw [Option.bind_some, hplace]
    unfold find
    rw [findSub_of_not_mem _ hno]
    rfl

end Frames

/-- The texts that are fields and a trailer. -/
def wireTexts : Set Text :=
  {m | ∃ fs v, fs ≠ [] ∧ (∀ f ∈ fs, FrontField f) ∧ PlainText v ∧ m = fieldsText fs ++ field trailerTag v}

/-- **The receiver recognises them** at the front of its buffer. -/
theorem frameCode_wireTexts : FrameCode nextMessage wireTexts where
  nil := rfl
  whole := by
    rintro m ⟨fs, v, hne, hfs, hv, rfl⟩ rest
    exact nextMessage_whole hne hfs hv rest
  part := by
    rintro m ⟨fs, v, hne, hfs, hv, rfl⟩ p hp hshort
    exact nextMessage_part hne hfs hv hp hshort

/-! ## The dictionary -/

/-- The first value of a tag. -/
def firstValue (fs : List (Text × Text)) (k : Text) : Option Text := (fs.find? fun f => f.1 = k).map Prod.snd

/-- All values of a tag. -/
def valuesOf (fs : List (Text × Text)) (k : Text) : List Text := (fs.filter fun f => f.1 = k).map Prod.snd

theorem firstValue_cons (f : Text × Text) (fs : List (Text × Text)) (k : Text) :
    firstValue (f :: fs) k = if f.1 = k then some f.2 else firstValue fs k := by
  unfold firstValue
  rw [List.find?_cons]
  by_cases hk : f.1 = k <;> simp [hk]

theorem valuesOf_cons (f : Text × Text) (fs : List (Text × Text)) (k : Text) :
    valuesOf (f :: fs) k = (if f.1 = k then [f.2] else []) ++ valuesOf fs k := by
  unfold valuesOf
  rw [List.filter_cons]
  by_cases hk : f.1 = k <;> simp [hk]

/-- SRCLINE: scripts/mock_exchange.py:64 -/
theorem setDefault_apply (d : Parsed) (t v k : Text) :
    setDefault d t v k = (d k).or (if t = k then some (.text v) else none) := by
  unfold setDefault
  by_cases hk : t = k
  · subst hk
    cases hd : d t with
    | none => simp
    | some e => simp [hd]
  · rw [if_neg hk, Option.or_none]
    split
    · rfl
    · exact Function.update_of_ne (Ne.symm hk) _ _

/-- What SOH separates is the fields, and nothing after the last one.
SRCLINE: scripts/mock_exchange.py:58 -/
theorem splitOn_fieldsText {fs : List (Text × Text)} (hfs : ∀ f ∈ fs, PlainField f) :
    (fieldsText fs).splitOn soh = (fs.map fun f => f.1 ++ '=' :: f.2) ++ [[]] := by
  induction fs with
  | nil => rfl
  | cons f fs ih =>
    have hrest := ih fun g hg => hfs g (List.mem_cons_of_mem _ hg)
    have htext := fieldsText_cons f fs []
    rw [List.append_nil, List.append_nil] at htext
    rw [htext, List.splitOn_append_cons_self_of_not_mem (hfs f List.mem_cons_self).soh_not_mem, hrest]
    rfl

/-- One field of the loop.
SRCLINE: scripts/mock_exchange.py:59-64 -/
theorem parseField_field {f : Text × Text} (hf : PlainField f) (x : Parsed × List Text) :
    parseField x (f.1 ++ '=' :: f.2) =
      (setDefault x.1 f.1 f.2, if f.1 = "55".toList then x.2 ++ [f.2] else x.2) := by
  have hmem : '=' ∈ f.1 ++ '=' :: f.2 := List.mem_append_right _ List.mem_cons_self
  unfold parseField
  rw [if_pos hmem, takeWhile_tag hf.noEquals, dropWhile_tag hf.noEquals]
  rfl

/-- INTERNAL: **all fields of the loop**: a tag that had no value gets its first one, and every value
of tag 55 is kept. -/
theorem foldl_parseField {fs : List (Text × Text)} (hfs : ∀ f ∈ fs, PlainField f) (d : Parsed) (gs : List Text) :
    (fs.map fun f => f.1 ++ '=' :: f.2).foldl parseField (d, gs) =
      (fun k => (d k).or ((firstValue fs k).map Entry.text), gs ++ valuesOf fs "55".toList) := by
  induction fs generalizing d gs with
  | nil =>
    rw [List.map_nil, List.foldl_nil]
    unfold firstValue valuesOf
    simp
  | cons f fs ih =>
    rw [List.map_cons, List.foldl_cons, parseField_field (hfs f List.mem_cons_self),
      ih fun g hg => hfs g (List.mem_cons_of_mem _ hg)]
    apply Prod.ext
    · funext k
      dsimp only
      rw [setDefault_apply, firstValue_cons, Option.or_assoc]
      split <;> rfl
    · dsimp only
      rw [valuesOf_cons]
      split <;> simp

/-- INTERNAL: **the dictionary of a text of fields** has the first value of every tag, except for
`_symbols`, where it has all values of tag 55.
SRCLINE: scripts/mock_exchange.py:56-66 -/
theorem parse_fieldsText {fs : List (Text × Text)} (hfs : ∀ f ∈ fs, PlainField f) (k : Text) :
    parse (fieldsText fs) k =
      if k = "_symbols".toList then some (.texts (valuesOf fs "55".toList)) else (firstValue fs k).map .text := by
  unfold parse
  rw [splitOn_fieldsText hfs, List.foldl_append, foldl_parseField hfs]
  show Function.update (fun k => Option.or none ((firstValue fs k).map Entry.text)) "_symbols".toList
    (some (.texts ([] ++ valuesOf fs "55".toList))) k = _
  rw [Function.update_apply, Option.none_or, List.nil_append]

/-! ## What is built -/

/-- The sum of the bytes of a text, in three digits. -/
def checkDigits (t : Text) : Text := padded 3 (((latin1Bytes t).map UInt8.toNat).sum % 256)

theorem checksum_eq (h : Latin1 t) : checksum t = some (checkDigits t) := by
  unfold checksum
  rw [encodeLatin1_eq h]
  rfl

theorem latin1_headOf (body : Text) : Latin1 (headOf body) := by
  have htags : Latin1 "8".toList ∧ Latin1 "FIXT.1.1".toList ∧ Latin1 "9".toList := by decide
  exact latin1_append.mpr ⟨latin1_field htags.1 htags.2.1, latin1_field htags.2.2 (plainText_decimal _).latin1⟩

theorem latin1_trailer (t : Text) : Latin1 (field trailerTag (checkDigits t)) :=
  latin1_field (by decide) (plainText_padded _ _).latin1

/-- INTERNAL: **a message with a latin-1 body is built.**
SRCLINE: scripts/mock_exchange.py:46-53 -/
theorem build_eq_some {msgType sender target body : Text} {seq : ℤ} {fs : List (Text × Text)} {now : UtcTime}
    (hbody : bodyOf msgType seq sender target fs now = body) (hlatin : Latin1 body) :
    build msgType seq sender target fs now =
      some (latin1Bytes (headOf body ++ body ++ field trailerTag (checkDigits (headOf body ++ body)))) := by
  have hfull : Latin1 (headOf body ++ body) := latin1_append.mpr ⟨latin1_headOf body, hlatin⟩
  unfold build
  dsimp only
  rw [hbody, checksum_eq hfull, Option.bind_some]
  exact encodeLatin1_eq (latin1_append.mpr ⟨hfull, latin1_trailer _⟩)

/-- What `build` is called with, and what the clock reads. -/
structure Message where
  msgType : Text
  seq : ℤ
  sender : Text
  target : Text
  body : List (Text × Text)
  now : UtcTime

namespace Message

variable (m : Message)

/-- SRCLINE: scripts/mock_exchange.py:46-53 -/
def built : Option (List UInt8) := build m.msgType m.seq m.sender m.target m.body m.now

/-- The fields tag 9 counts. -/
def bodyFields : List (Text × Text) :=
  ("35".toList, m.msgType) :: ("34".toList, decimal m.seq) :: ("49".toList, m.sender) ::
    ("52".toList, nowTs m.now) :: ("56".toList, m.target) :: m.body

/-- The fields in front of them. -/
def headFields : List (Text × Text) :=
  [("8".toList, "FIXT.1.1".toList), ("9".toList, decimal (fieldsText m.bodyFields).length)]

/-- The fields tag 10 adds up. -/
def frontFields : List (Text × Text) := m.headFields ++ m.bodyFields

/-- All fields. -/
def fields : List (Text × Text) := m.frontFields ++ [(trailerTag, checkDigits (fieldsText m.frontFields))]

/-- What is read. -/
def text : Text := fieldsText m.fields

/-- The dictionary of the fields: the first value of every tag, but under `_symbols` all values of
tag 55. -/
def dict : Parsed := fun k =>
  if k = "_symbols".toList then some (.texts (valuesOf m.fields "55".toList))
  else (firstValue m.fields k).map .text

/-- Its texts are latin-1 without SOH, its tags have no equals sign, and none of them is 10. -/
structure Clean : Prop where
  msgType : PlainText m.msgType
  sender : PlainText m.sender
  target : PlainText m.target
  body : ∀ f ∈ m.body, FrontField f

variable {m}

theorem text_eq : m.text = fieldsText m.frontFields ++ field trailerTag (checkDigits (fieldsText m.frontFields)) := by
  unfold text fields
  rw [fieldsText_append, fieldsText_singleton]

theorem fieldsText_frontFields :
    fieldsText m.frontFields = headOf (fieldsText m.bodyFields) ++ fieldsText m.bodyFields := by
  unfold frontFields
  rw [fieldsText_append]
  congr 1
  unfold headOf headFields fieldsText
  simp only [List.flatMap_cons, List.flatMap_nil, List.append_nil]

theorem bodyOf_eq : bodyOf m.msgType m.seq m.sender m.target m.body m.now = fieldsText m.bodyFields := by
  unfold bodyOf bodyFields fieldsText
  simp only [List.flatMap_cons, List.append_assoc]

theorem Clean.frontFields (h : m.Clean) : ∀ f ∈ m.frontFields, FrontField f := by
  have hheader : ∀ {t v : Text}, PlainText t → '=' ∉ t → t ≠ trailerTag → PlainText v → FrontField (t, v) :=
    fun ht heq hne hv => ⟨⟨ht, hv, heq⟩, hne⟩
  intro f hf
  simp only [Message.frontFields, headFields, bodyFields, List.mem_append, List.mem_cons, List.not_mem_nil,
    or_false] at hf
  obtain (rfl | rfl) | rfl | rfl | rfl | rfl | rfl | hbody := hf
  · exact hheader (by decide) (by decide) (by decide) (by decide)
  · exact hheader (by decide) (by decide) (by decide) (plainText_decimal _)
  · exact hheader (by decide) (by decide) (by decide) h.msgType
  · exact hheader (by decide) (by decide) (by decide) (plainText_decimal _)
  · exact hheader (by decide) (by decide) (by decide) h.sender
  · exact hheader (by decide) (by decide) (by decide) (plainText_nowTs _)
  · exact hheader (by decide) (by decide) (by decide) h.target
  · exact h.body f hbody

theorem Clean.fields (h : m.Clean) : ∀ f ∈ m.fields, PlainField f := by
  have htag : PlainText trailerTag ∧ '=' ∉ trailerTag := by decide
  intro f hf
  obtain hfront | htrailer := List.mem_append.mp hf
  · exact (h.frontFields f hfront).toPlainField
  · rw [List.mem_singleton.mp htrailer]
    exact ⟨htag.1, plainText_padded _ _, htag.2⟩

theorem Clean.latin1_text (h : m.Clean) : Latin1 m.text :=
  latin1_fieldsText fun f hf => ⟨(h.fields f hf).tag.latin1, (h.fields f hf).value.latin1⟩

theorem Clean.text_mem (h : m.Clean) : m.text ∈ wireTexts :=
  ⟨m.frontFields, _, List.cons_ne_nil _ _, h.frontFields, plainText_padded _ _, text_eq⟩

theorem Clean.latin1_body (h : m.Clean) : Latin1 (fieldsText m.bodyFields) := by
  apply latin1_fieldsText
  intro f hf
  have hfield := h.frontFields f (List.mem_append_right _ hf)
  exact ⟨hfield.tag.latin1, hfield.value.latin1⟩

/-- INTERNAL: **such a message is built**, field by field. -/
theorem Clean.built_eq (h : m.Clean) : m.built = some (latin1Bytes m.text) := by
  unfold built
  rw [build_eq_some bodyOf_eq h.latin1_body, ← fieldsText_frontFields, text_eq]

/-- INTERNAL: and it is read as its dictionary. -/
theorem Clean.parse_text (h : m.Clean) : parse m.text = m.dict :=
  funext fun k => parse_fieldsText h.fields k

end Message

end MmEngine.Interface
