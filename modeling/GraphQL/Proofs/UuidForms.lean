import GraphQL.Proofs.Uuid
import Mathlib.Data.List.Induction

/-!
# The forms of UUIDs

A UUID has 32 hexadecimal digits, in letters of either case. They are written one after the other,
or in five groups with hyphens between them, and then perhaps in braces or behind `urn:uuid:`
(`Uuid.Written`). Whatever the form, a text denotes the UUID whose bits are the value of the digits
(`Uuid.Denotes`). The forms differ in length, so that no two of them compete for a text.

A number is written with digits in lower case, so a UUID that has been read is written with the
digits of its text in lower case, and two texts that denote it are written alike. Scalars are
brought into this form on the way in and on the way out.

Results:
* `Text.paddedHex_hexValue`: digits are written again in lower case.
* `Uuid.hyphenated_iff`, `Uuid.braced?_eq_some_iff`, `Uuid.urn?_eq_some_iff`: the forms.
* `Uuid.ofText?_eq_some_iff`: what is read is what is denoted.
* `Uuid.HasDigits.canonical`: the text of a UUID has the digits of any text that denotes it.
* `ScalarCodec.uuid_decode_eq_ok_iff`: what is read as a scalar, and as what.
* `uuids_canonical`: reading and writing UUIDs as scalars.
-/

namespace GraphQL

/-! ## Digits -/

namespace Text

/-- The hexadecimal digits in lower case. -/
def lowerHexDigits : List Char := "0123456789abcdef".toList

theorem toNat_lt_of_isHex {c : Char} (h : isHex c = true) : c.toNat < 128 := by
  have hbelow (last : Char) (hlast : last.toNat < 128) (hc : c ≤ last) : c.toNat < 128 :=
    Nat.lt_of_le_of_lt (Char.le_def.mp hc) hlast
  unfold isHex hexDigit? at h
  split at h
  · next hdecimal => exact hbelow '9' (by decide) hdecimal.2
  · split at h
    · next hlower => exact hbelow 'f' (by decide) hlower.2
    · split at h
      · next hupper => exact hbelow 'F' (by decide) hupper.2
      · cases h

/-- What holds of the hexadecimal digits among the ASCII characters holds of all of them. -/
theorem forall_isHex {P : Char → Prop}
    (h : ∀ n < 128, isHex (Char.ofNat n) = true → P (Char.ofNat n)) {c : Char}
    (hc : isHex c = true) : P c := by
  have hchar : Char.ofNat c.toNat = c := Char.ofNat_toNat c
  have hcase := h c.toNat (toNat_lt_of_isHex hc)
  rw [hchar] at hcase
  exact hcase hc

/-- The value of a digit does not tell upper from lower case, and is written in lower case. -/
theorem exists_hexDigit? {c : Char} (h : isHex c = true) :
    ∃ d < 16, hexDigit? c = some d ∧ d.digitChar = c.toLower :=
  forall_isHex (P := fun c => ∃ d < 16, hexDigit? c = some d ∧ d.digitChar = c.toLower)
    (by decide) h

theorem toLower_mem_lowerHexDigits {c : Char} (h : isHex c = true) :
    c.toLower ∈ lowerHexDigits :=
  forall_isHex (P := fun c => c.toLower ∈ lowerHexDigits) (by decide) h

/-- With one more digit behind it, a number is written with that digit behind it. -/
theorem paddedHex_concat {width d : Nat} (hwidth : 0 < width) (n : Nat) (hd : d < 16) :
    paddedHex (width + 1) (16 * n + d) = paddedHex width n ++ [d.digitChar] := by
  by_cases hn : n = 0
  · have hdigit : hexDigits d = [d.digitChar] := Nat.toDigits_of_lt_base hd
    have hzeros : List.replicate width '0' = List.replicate (width - 1) '0' ++ ['0'] := by
      rw [← List.replicate_succ', Nat.sub_add_cancel hwidth]
    rw [hn, Nat.mul_zero, Nat.zero_add, paddedHex, hdigit, List.length_singleton,
      Nat.add_sub_cancel, hzeros]
    rfl
  · have hdigits : hexDigits (16 * n + d) = hexDigits n ++ [d.digitChar] := by
      have hdiv : (16 * n + d) / 16 = n := by omega
      have hmod : (16 * n + d) % 16 = d := by omega
      rw [hexDigits, Nat.toDigits_of_base_le (by decide) (by omega), hdiv, hmod, hexDigits]
    rw [paddedHex, hdigits, List.length_append, List.length_singleton, Nat.add_sub_add_right,
      paddedHex, List.append_assoc]

/-- Digits that are read and written again are the same digits in lower case. -/
theorem paddedHex_hexValue {digits : List Char} (hne : digits ≠ [])
    (hhex : ∀ c ∈ digits, isHex c = true) :
    paddedHex digits.length (hexValue digits) = digits.map Char.toLower := by
  induction digits using List.reverseRecOn with
  | nil => exact absurd rfl hne
  | append_singleton digits c ih =>
    rw [List.forall_mem_append, List.forall_mem_singleton] at hhex
    obtain ⟨d, hd, hdigit, hlower⟩ := exists_hexDigit? hhex.2
    rw [hexValue_concat, hdigit, Option.getD_some, List.length_append, List.length_singleton,
      List.map_append, List.map_singleton, ← hlower]
    cases digits with
    | nil =>
      have hfirst : hexDigits d = [d.digitChar] := Nat.toDigits_of_lt_base hd
      show paddedHex 1 (16 * 0 + d) = _
      rw [Nat.mul_zero, Nat.zero_add, paddedHex, hfirst]
      rfl
    | cons first rest =>
      have hlength : 0 < (first :: rest).length := Nat.succ_pos _
      rw [paddedHex_concat hlength _ hd, ih (List.cons_ne_nil _ _) hhex.1]

theorem hexValue_lt {digits : List Char} (hhex : ∀ c ∈ digits, isHex c = true) :
    hexValue digits < 16 ^ digits.length := by
  induction digits using List.reverseRecOn with
  | nil => decide
  | append_singleton digits c ih =>
    rw [List.forall_mem_append, List.forall_mem_singleton] at hhex
    obtain ⟨d, hd, hdigit, -⟩ := exists_hexDigit? hhex.2
    have hrest : hexValue digits < 16 ^ digits.length := ih hhex.1
    rw [hexValue_concat, hdigit, Option.getD_some, List.length_append, List.length_singleton,
      Nat.pow_succ]
    omega

end Text

/-! ## Forms -/

namespace Uuid

/-- The digits stand in groups of 8, 4, 4, 4 and 12, with hyphens between them. -/
def Hyphenated (digits text : List Char) : Prop :=
  ∃ groups : List (List Char), groups.map List.length = [8, 4, 4, 4, 12] ∧
    groups.flatten = digits ∧ ['-'].intercalate groups = text

/-- The text is one of the four forms of 32 digits. -/
inductive Written (digits : List Char) : List Char → Prop where
  | simple (hlength : digits.length = 32) : Written digits digits
  | hyphenated {text : List Char} (h : Hyphenated digits text) : Written digits text
  | braced {text : List Char} (h : Hyphenated digits text) :
    Written digits ('\x7b' :: (text ++ ['\x7d']))
  | urn {mark text : List Char} (hmark : mark.map Char.toLower = "urn:uuid:".toList)
    (h : Hyphenated digits text) : Written digits (mark ++ text)

/-- The digits are hexadecimal and have the bits of the UUID for their value. -/
structure HasDigits (id : Uuid) (digits : List Char) : Prop where
  hex : ∀ c ∈ digits, Text.isHex c = true
  value : id.bits.toNat = Text.hexValue digits

/-- The text is one of the forms of the UUID. -/
def Denotes (text : List Char) (id : Uuid) : Prop :=
  ∃ digits, Written digits text ∧ id.HasDigits digits

theorem intercalate_groups (first second third fourth last : List Char) :
    ['-'].intercalate [first, second, third, fourth, last] =
      first ++ '-' :: (second ++ '-' :: (third ++ '-' :: (fourth ++ '-' :: last))) := by
  simp only [List.intercalate_cons_cons, List.intercalate_singleton, List.append_assoc,
    List.singleton_append]

/-- Hyphens are put between groups of the right sizes. -/
theorem hyphenate_append {first second third fourth : List Char} (hfirst : first.length = 8)
    (hsecond : second.length = 4) (hthird : third.length = 4) (hfourth : fourth.length = 4)
    (last : List Char) :
    hyphenate (first ++ (second ++ (third ++ (fourth ++ last)))) =
      ['-'].intercalate [first, second, third, fourth, last] := by
  have h12 : (first ++ (second ++ (third ++ (fourth ++ last)))).drop (8 + 4) =
      third ++ (fourth ++ last) := by
    rw [← List.drop_drop, List.drop_left' hfirst, List.drop_left' hsecond]
  have h16 : (first ++ (second ++ (third ++ (fourth ++ last)))).drop (12 + 4) =
      fourth ++ last := by
    rw [← List.drop_drop, h12, List.drop_left' hthird]
  have h20 : (first ++ (second ++ (third ++ (fourth ++ last)))).drop (16 + 4) = last := by
    rw [← List.drop_drop, h16, List.drop_left' hfourth]
  rw [hyphenate, List.take_left' hfirst, List.drop_left' hfirst, h12, h16, h20,
    List.take_left' hsecond, List.take_left' hthird, List.take_left' hfourth, intercalate_groups]

theorem hyphenated_iff {digits text : List Char} :
    Hyphenated digits text ↔ digits.length = 32 ∧ hyphenate digits = text := by
  constructor
  · rintro ⟨groups, hsizes, rfl, rfl⟩
    obtain ⟨first, groups, rfl, hfirst, hsizes⟩ := List.map_eq_cons_iff.mp hsizes
    obtain ⟨second, groups, rfl, hsecond, hsizes⟩ := List.map_eq_cons_iff.mp hsizes
    obtain ⟨third, groups, rfl, hthird, hsizes⟩ := List.map_eq_cons_iff.mp hsizes
    obtain ⟨fourth, groups, rfl, hfourth, hsizes⟩ := List.map_eq_cons_iff.mp hsizes
    obtain ⟨last, groups, rfl, hlast, hsizes⟩ := List.map_eq_cons_iff.mp hsizes
    obtain rfl := List.map_eq_nil_iff.mp hsizes
    simp only [List.flatten_cons, List.flatten_nil, List.append_nil]
    refine ⟨?_, hyphenate_append hfirst hsecond hthird hfourth last⟩
    simp only [List.length_append, hfirst, hsecond, hthird, hfourth, hlast]
  · rintro ⟨hlength, rfl⟩
    refine ⟨[digits.take 8, (digits.drop 8).take 4, (digits.drop 12).take 4,
      (digits.drop 16).take 4, digits.drop 20], ?_, ?_, intercalate_groups ..⟩
    · simp [hlength]
    · simp only [List.flatten_cons, List.flatten_nil, List.append_nil]
      exact groups_append digits

theorem Hyphenated.length_digits {digits text : List Char} (h : Hyphenated digits text) :
    digits.length = 32 :=
  (hyphenated_iff.mp h).1

theorem Hyphenated.length_text {digits text : List Char} (h : Hyphenated digits text) :
    text.length = 36 := by
  obtain ⟨hlength, rfl⟩ := hyphenated_iff.mp h
  exact length_hyphenate hlength

/-- Every form has 32 digits. -/
theorem Written.length_digits {digits text : List Char} (h : Written digits text) :
    digits.length = 32 := by
  cases h with
  | simple hlength => exact hlength
  | hyphenated h | braced h | urn _ h => exact h.length_digits

/-! ## Reading -/

/-- Numbers of 32 digits fit 128 bits. -/
theorem ofDigits_eq_iff {digits : List Char} {id : Uuid} (hlength : digits.length = 32)
    (hhex : ∀ c ∈ digits, Text.isHex c = true) :
    ofDigits digits = id ↔ id.HasDigits digits := by
  have hlt : Text.hexValue digits < 2 ^ 128 := by
    have h := Text.hexValue_lt hhex
    rw [hlength] at h
    exact Nat.lt_of_lt_of_eq h (by decide)
  have hbits : (ofDigits digits).bits.toNat = Text.hexValue digits := by
    rw [ofDigits, BitVec.toNat_ofNat, Nat.mod_eq_of_lt hlt]
  constructor
  · rintro rfl
    exact ⟨hhex, hbits⟩
  · intro h
    obtain ⟨bits⟩ := id
    exact congrArg Uuid.mk (BitVec.eq_of_toNat_eq (hbits.trans h.value.symm))

theorem simple?_eq_some_iff {cs : List Char} {id : Uuid} :
    simple? cs = some id ↔ cs.length = 32 ∧ id.HasDigits cs := by
  rw [simple?, Option.ite_none_right_eq_some, List.all_eq_true, Option.some.injEq]
  constructor
  · rintro ⟨⟨hlength, hhex⟩, hid⟩
    exact ⟨hlength, (ofDigits_eq_iff hlength hhex).mp hid⟩
  · rintro ⟨hlength, hdigits⟩
    exact ⟨⟨hlength, hdigits.hex⟩, (ofDigits_eq_iff hlength hdigits.hex).mpr hdigits⟩

theorem hyphenated?_eq_some_iff {cs : List Char} {id : Uuid} :
    hyphenated? cs = some id ↔ ∃ digits, Hyphenated digits cs ∧ id.HasDigits digits := by
  constructor
  · intro h
    unfold hyphenated? at h
    rw [Option.ite_none_right_eq_some, List.all_eq_true] at h
    obtain ⟨⟨hlength, hhex, htext⟩, hid⟩ := h
    exact ⟨_, hyphenated_iff.mpr ⟨hlength, htext.symm⟩,
      (ofDigits_eq_iff hlength hhex).mp (Option.some.inj hid)⟩
  · rintro ⟨digits, hform, hdigits⟩
    obtain ⟨hlength, rfl⟩ := hyphenated_iff.mp hform
    rw [hyphenated?_hyphenate hlength (List.all_eq_true.mpr hdigits.hex),
      (ofDigits_eq_iff hlength hdigits.hex).mpr hdigits]

theorem braced?_eq_some_iff {cs inside : List Char} :
    braced? cs = some inside ↔ cs = '\x7b' :: (inside ++ ['\x7d']) := by
  constructor
  · intro h
    unfold braced? at h
    split at h
    · next rest =>
      split at h
      · next reversed hrest =>
        cases h
        rw [← List.reverse_reverse rest, hrest, List.reverse_cons]
      · cases h
    · cases h
  · rintro rfl
    simp only [braced?, List.reverse_append, List.reverse_singleton, List.singleton_append,
      List.reverse_reverse]

theorem urn?_eq_some_iff {cs inside : List Char} :
    urn? cs = some inside ↔
      ∃ mark, mark.map Char.toLower = "urn:uuid:".toList ∧ cs = mark ++ inside := by
  rw [urn?, Option.ite_none_right_eq_some, Option.some.injEq]
  constructor
  · rintro ⟨hmark, rfl⟩
    exact ⟨cs.take 9, hmark, (List.take_append_drop 9 cs).symm⟩
  · rintro ⟨mark, hmark, rfl⟩
    have hlength : mark.length = 9 := by
      rw [← List.length_map Char.toLower, hmark]
      rfl
    rw [List.take_left' hlength, List.drop_left' hlength]
    exact ⟨hmark, rfl⟩

/-- The forms differ in length, so each reader passes over the texts of the others. -/
theorem simple?_eq_none {cs : List Char} (h : cs.length ≠ 32) : simple? cs = none :=
  Option.eq_none_iff_forall_ne_some.mpr fun _ hid => h (simple?_eq_some_iff.mp hid).1

theorem hyphenated?_eq_none {cs : List Char} (h : cs.length ≠ 36) : hyphenated? cs = none := by
  refine Option.eq_none_iff_forall_ne_some.mpr fun id hid => ?_
  obtain ⟨digits, hform, -⟩ := hyphenated?_eq_some_iff.mp hid
  exact h hform.length_text

theorem bind_braced?_eq_none {cs : List Char} (h : cs.length ≠ 38) :
    (braced? cs).bind hyphenated? = none := by
  refine Option.eq_none_iff_forall_ne_some.mpr fun id hid => ?_
  obtain ⟨inside, hbraced, hid⟩ := Option.bind_eq_some_iff.mp hid
  obtain ⟨digits, hform, -⟩ := hyphenated?_eq_some_iff.mp hid
  rw [braced?_eq_some_iff.mp hbraced] at h
  simp [hform.length_text] at h

/-- What is read from a text is what it denotes. -/
theorem ofText?_eq_some_iff {cs : List Char} {id : Uuid} :
    ofText? cs = some id ↔ Denotes cs id := by
  unfold ofText?
  constructor
  · intro h
    obtain h | ⟨-, h⟩ := Option.or_eq_some_iff.mp h
    · obtain ⟨hlength, hdigits⟩ := simple?_eq_some_iff.mp h
      exact ⟨cs, .simple hlength, hdigits⟩
    obtain h | ⟨-, h⟩ := Option.or_eq_some_iff.mp h
    · obtain ⟨digits, hform, hdigits⟩ := hyphenated?_eq_some_iff.mp h
      exact ⟨digits, .hyphenated hform, hdigits⟩
    obtain h | ⟨-, h⟩ := Option.or_eq_some_iff.mp h
    · obtain ⟨inside, hbraced, h⟩ := Option.bind_eq_some_iff.mp h
      obtain ⟨digits, hform, hdigits⟩ := hyphenated?_eq_some_iff.mp h
      obtain rfl := braced?_eq_some_iff.mp hbraced
      exact ⟨digits, .braced hform, hdigits⟩
    · obtain ⟨inside, hurn, h⟩ := Option.bind_eq_some_iff.mp h
      obtain ⟨digits, hform, hdigits⟩ := hyphenated?_eq_some_iff.mp h
      obtain ⟨mark, hmark, rfl⟩ := urn?_eq_some_iff.mp hurn
      exact ⟨digits, .urn hmark hform, hdigits⟩
  · rintro ⟨digits, hwritten, hdigits⟩
    cases hwritten with
    | simple hlength =>
      rw [simple?_eq_some_iff.mpr ⟨hlength, hdigits⟩, Option.some_or]
    | hyphenated hform =>
      have hlength : cs.length = 36 := hform.length_text
      rw [simple?_eq_none (by omega), Option.none_or,
        hyphenated?_eq_some_iff.mpr ⟨digits, hform, hdigits⟩, Option.some_or]
    | @braced text hform =>
      have hlength : ('\x7b' :: (text ++ ['\x7d'])).length = 38 := by simp [hform.length_text]
      rw [simple?_eq_none (by omega), Option.none_or, hyphenated?_eq_none (by omega),
        Option.none_or, braced?_eq_some_iff.mpr rfl, Option.bind_some,
        hyphenated?_eq_some_iff.mpr ⟨digits, hform, hdigits⟩, Option.some_or]
    | @urn mark text hmark hform =>
      have hlength : (mark ++ text).length = 45 := by
        rw [List.length_append, hform.length_text, ← List.length_map Char.toLower, hmark]
        rfl
      rw [simple?_eq_none (by omega), Option.none_or, hyphenated?_eq_none (by omega),
        Option.none_or, bind_braced?_eq_none (by omega), Option.none_or,
        urn?_eq_some_iff.mpr ⟨mark, hmark, rfl⟩, Option.bind_some,
        hyphenated?_eq_some_iff.mpr ⟨digits, hform, hdigits⟩]

theorem read_eq_ok_iff {s : String} {id : Uuid} : read s = .ok id ↔ Denotes s.toList id := by
  rw [← ofText?_eq_some_iff, read]
  cases ofText? s.toList <;> simp

/-! ## Canonical texts -/

/-- The digits of a canonical text are in lower case and stand in groups, 36 characters in all. -/
structure Canonical (digits : List Char) (text : String) : Prop where
  length : text.length = 36
  lower : ∀ c ∈ digits, c ∈ Text.lowerHexDigits
  grouped : Hyphenated digits text.toList

/-- A UUID is written with its digits in lower case. -/
theorem HasDigits.digits_eq {digits : List Char} {id : Uuid} (h : id.HasDigits digits)
    (hlength : digits.length = 32) : id.digits = digits.map Char.toLower := by
  have hne : digits ≠ [] := List.ne_nil_of_length_pos (by omega)
  rw [Uuid.digits, h.value, ← Text.paddedHex_hexValue hne h.hex, hlength]

/-- Whatever form a UUID is given in, its text is the canonical one with the same digits. -/
theorem HasDigits.canonical {digits text : List Char} {id : Uuid} (h : id.HasDigits digits)
    (hwritten : Written digits text) : Canonical (digits.map Char.toLower) id.text where
  length := by
    rw [Uuid.text, String.length_ofList, length_hyphenate id.length_digits]
  lower := by
    intro c hc
    obtain ⟨digit, hdigit, rfl⟩ := List.mem_map.mp hc
    exact Text.toLower_mem_lowerHexDigits (h.hex digit hdigit)
  grouped := by
    rw [hyphenated_iff, Uuid.text, String.toList_ofList, ← h.digits_eq hwritten.length_digits]
    exact ⟨id.length_digits, rfl⟩

theorem text_injective {one other : Uuid} (h : one.text = other.text) : one = other := by
  have hread : read one.text = .ok other := h ▸ read_text other
  exact Except.ok.inj ((read_text one).symm.trans hread)

theorem denotes_text (id : Uuid) : Denotes id.text.toList id :=
  read_eq_ok_iff.mp (read_text id)

end Uuid

/-! ## The scalar -/

namespace ScalarCodec

/-- What is read are the texts that denote a UUID, and they are read as its own text. -/
theorem uuid_decode_eq_ok_iff {raw value : Value} :
    uuid.decode raw = .ok value ↔
      ∃ s id, raw = .string s ∧ Uuid.Denotes s.toList id ∧ value = .string id.text := by
  constructor
  · intro h
    simp only [uuid] at h
    split at h
    · next s =>
      split at h
      · next id hread =>
        cases h
        exact ⟨s, id, rfl, Uuid.read_eq_ok_iff.mp hread, rfl⟩
      · cases h
    · cases h
  · rintro ⟨s, id, rfl, hid, rfl⟩
    simp only [uuid, Uuid.read_eq_ok_iff.mpr hid]

theorem uuid_decode_of_denotes {s : String} {id : Uuid} (h : Uuid.Denotes s.toList id) :
    uuid.decode (.string s) = .ok (.string id.text) :=
  uuid_decode_eq_ok_iff.mpr ⟨s, id, rfl, h, rfl⟩

theorem uuid_encode_of_denotes {s : String} {id : Uuid} (h : Uuid.Denotes s.toList id) :
    uuid.encode (.string s) = .string id.text := by
  simp only [uuid, Uuid.read_eq_ok_iff.mpr h]

/-- What cannot be read is written as it is. -/
theorem uuid_encode_of_decode_eq_error {value : Value} {reason : String}
    (h : uuid.decode value = .error reason) : uuid.encode value = value := by
  cases value with
  | string s =>
    simp only [uuid] at h ⊢
    split at h
    · cases h
    · rfl
  | _ => rfl

/-- What has been written is written as it is. -/
theorem uuid_encode_encode (value : Value) :
    uuid.encode (uuid.encode value) = uuid.encode value := by
  cases hdecode : uuid.decode value with
  | error reason =>
    have hkept : uuid.encode value = value := uuid_encode_of_decode_eq_error hdecode
    rw [hkept, hkept]
  | ok decoded =>
    obtain ⟨s, id, rfl, hid, -⟩ := uuid_decode_eq_ok_iff.mp hdecode
    rw [uuid_encode_of_denotes hid, uuid_encode_of_denotes id.denotes_text]

end ScalarCodec

/-- A text that is read as a UUID is read as the canonical text with the same digits, which is read
    as itself, and which is also what the text is written as. Writing changes nothing that has been
    written and nothing that cannot be read. The texts that can be read are those that denote a UUID
    in one of the forms, and two of them are read as the same value just if they denote the same
    bits. -/
theorem uuids_canonical :
    (∀ s value, ScalarCodec.uuid.decode (.string s) = .ok value →
      ∃ digits text, value = .string text ∧ Uuid.Written digits s.toList ∧
        Uuid.Canonical (digits.map Char.toLower) text ∧
        ScalarCodec.uuid.decode value = .ok value ∧
        ScalarCodec.uuid.encode (.string s) = value) ∧
    (∀ value, ScalarCodec.uuid.encode (ScalarCodec.uuid.encode value) =
      ScalarCodec.uuid.encode value) ∧
    (∀ value reason, ScalarCodec.uuid.decode value = .error reason →
      ScalarCodec.uuid.encode value = value) ∧
    (∀ s, (∃ value, ScalarCodec.uuid.decode (.string s) = .ok value) ↔
      ∃ id, Uuid.Denotes s.toList id) ∧
    ∀ s t one other, Uuid.Denotes s.toList one → Uuid.Denotes t.toList other →
      (ScalarCodec.uuid.decode (.string s) = ScalarCodec.uuid.decode (.string t) ↔
        one.bits = other.bits) := by
  refine ⟨fun s value h => ?_, ScalarCodec.uuid_encode_encode,
    fun value reason => ScalarCodec.uuid_encode_of_decode_eq_error, fun s => ⟨?_, ?_⟩, ?_⟩
  · obtain ⟨_, id, ⟨⟩, hid, rfl⟩ := ScalarCodec.uuid_decode_eq_ok_iff.mp h
    have hencode := ScalarCodec.uuid_encode_of_denotes hid
    obtain ⟨digits, hwritten, hdigits⟩ := hid
    exact ⟨digits, id.text, rfl, hwritten, hdigits.canonical hwritten,
      ScalarCodec.uuid_decode_of_denotes id.denotes_text, hencode⟩
  · rintro ⟨value, h⟩
    obtain ⟨_, id, ⟨⟩, hid, -⟩ := ScalarCodec.uuid_decode_eq_ok_iff.mp h
    exact ⟨id, hid⟩
  · rintro ⟨id, hid⟩
    exact ⟨.string id.text, ScalarCodec.uuid_decode_of_denotes hid⟩
  · intro s t one other hone hother
    rw [ScalarCodec.uuid_decode_of_denotes hone, ScalarCodec.uuid_decode_of_denotes hother,
      Except.ok.injEq, Value.string.injEq]
    exact ⟨fun h => congrArg Uuid.bits (Uuid.text_injective h),
      fun h => congrArg (fun bits => Uuid.text ⟨bits⟩) h⟩

namespace Sample

def shipId : Uuid := ⟨0x67e5504410b1426f9247bb680e5fe0c8⟩

end Sample

/-- The same UUID in two forms, and a number, which is none. -/
theorem uuids_canonical_ship :
    (∃ digits, Uuid.Written digits "URN:UUID:67E55044-10b1-426F-9247-BB680E5FE0C8".toList ∧
      Uuid.Canonical (digits.map Char.toLower) "67e55044-10b1-426f-9247-bb680e5fe0c8") ∧
    ScalarCodec.uuid.decode (.string "URN:UUID:67E55044-10b1-426F-9247-BB680E5FE0C8") =
      ScalarCodec.uuid.decode (.string "\x7b67e55044-10B1-426f-9247-bb680e5fe0c8\x7d") ∧
    ScalarCodec.uuid.encode (.int 4) = .int 4 := by
  obtain ⟨hread, -, hkept, -, hsame⟩ := uuids_canonical
  have hurn : Uuid.Denotes "URN:UUID:67E55044-10b1-426F-9247-BB680E5FE0C8".toList
    Sample.shipId := Uuid.ofText?_eq_some_iff.mp rfl
  have hbraced : Uuid.Denotes "\x7b67e55044-10B1-426f-9247-bb680e5fe0c8\x7d".toList
    Sample.shipId := Uuid.ofText?_eq_some_iff.mp rfl
  refine ⟨?_, (hsame _ _ _ _ hurn hbraced).mpr rfl, hkept _ _ rfl⟩
  obtain ⟨digits, text, hvalue, hwritten, hcanonical, -⟩ := hread _ _
    (ScalarCodec.uuid_decode_of_denotes hurn)
  obtain rfl : "67e55044-10b1-426f-9247-bb680e5fe0c8" = text := Value.string.inj hvalue
  exact ⟨digits, hwritten, hcanonical⟩

end GraphQL
