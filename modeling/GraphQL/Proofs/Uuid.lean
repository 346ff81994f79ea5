import GraphQL.Scalar
import Mathlib.Data.Nat.Digits.Defs

/-!
# UUIDs are read as they are written

The canonical text of a UUID has 32 hexadecimal digits in five groups. Reading takes the hyphens out
of such a text and the digits for a number again, which is the one that was written: the digits of a
number have its value, and zeros in front do not change it.

Results:
* `Text.hexValue_paddedHex`, `Text.length_paddedHex`: digits in a width that suffices.
* `Uuid.hyphenated?_hyphenate`: 32 digits are found between the hyphens.
* `Uuid.read_text`: reading the text of a UUID gives the UUID.
-/

namespace GraphQL

namespace Text

theorem hexDigit?_digitChar {d : Nat} (h : d < 16) : hexDigit? d.digitChar = some d := by
  revert d
  decide

theorem hexValue_concat (digits : List Char) (c : Char) :
    hexValue (digits ++ [c]) = 16 * hexValue digits + (hexDigit? c).getD 0 := by
  simp only [hexValue, List.foldl_append, List.foldl_cons, List.foldl_nil]

/-- The digits of a number have its value. -/
theorem hexValue_hexDigits (n : Nat) : hexValue (hexDigits n) = n := by
  induction n using Nat.strongRecOn with
  | ind n ih =>
    have hlast : n % 16 < 16 := Nat.mod_lt n (by decide)
    by_cases hsmall : n < 16
    · rw [hexDigits, Nat.toDigits_of_lt_base hsmall, hexValue, List.foldl_cons, List.foldl_nil,
        hexDigit?_digitChar hsmall, Option.getD_some]
      omega
    · have hrest : hexValue (hexDigits (n / 16)) = n / 16 := ih (n / 16) (by omega)
      rw [hexDigits, Nat.toDigits_of_base_le (by decide) (by omega), ← hexDigits, hexValue_concat,
        hrest, hexDigit?_digitChar hlast, Option.getD_some]
      omega

theorem isHex_of_mem_hexDigits {n : Nat} {c : Char} (h : c ∈ hexDigits n) : isHex c = true := by
  induction n using Nat.strongRecOn with
  | ind n ih =>
    by_cases hsmall : n < 16
    · rw [hexDigits, Nat.toDigits_of_lt_base hsmall] at h
      rw [List.mem_singleton.mp h, isHex, hexDigit?_digitChar hsmall]
      rfl
    · rw [hexDigits, Nat.toDigits_of_base_le (by decide) (by omega), ← hexDigits] at h
      rcases List.mem_append.mp h with hm | hm
      · exact ih (n / 16) (by omega) hm
      · rw [List.mem_singleton.mp hm, isHex, hexDigit?_digitChar (Nat.mod_lt n (by decide))]
        rfl

theorem hexValue_zeros (width : Nat) (digits : List Char) :
    hexValue (List.replicate width '0' ++ digits) = hexValue digits := by
  induction width with
  | zero => rfl
  | succ width ih => exact ih

/-- Zeros in front do not change the value. -/
theorem hexValue_paddedHex (width n : Nat) : hexValue (paddedHex width n) = n := by
  rw [paddedHex, hexValue_zeros, hexValue_hexDigits]

theorem length_paddedHex {width n : Nat} (hpos : 0 < width) (h : n < 16 ^ width) :
    (paddedHex width n).length = width := by
  have hle : (hexDigits n).length ≤ width := Nat.toDigits_length 16 n width hpos h
  rw [paddedHex, List.length_append, List.length_replicate]
  omega

theorem all_isHex_paddedHex (width n : Nat) : (paddedHex width n).all isHex = true := by
  rw [List.all_eq_true]
  intro c hc
  rcases List.mem_append.mp hc with hzero | hdigit
  · rw [List.eq_of_mem_replicate hzero]
    decide
  · exact isHex_of_mem_hexDigits hdigit

end Text

namespace Uuid

theorem length_digits (id : Uuid) : id.digits.length = 32 :=
  Text.length_paddedHex (by decide) (Nat.lt_of_lt_of_eq id.bits.isLt (by decide))

theorem ofDigits_digits (id : Uuid) : ofDigits id.digits = id := by
  rw [ofDigits, digits, Text.hexValue_paddedHex, BitVec.ofNat_toNat, BitVec.setWidth_eq]

theorem length_hyphenate {digits : List Char} (h : digits.length = 32) :
    (hyphenate digits).length = 36 := by
  simp [hyphenate, h]

/-- The groups of digits make up the digits. -/
theorem groups_append (digits : List Char) :
    digits.take 8 ++ ((digits.drop 8).take 4 ++ ((digits.drop 12).take 4 ++
      ((digits.drop 16).take 4 ++ digits.drop 20))) = digits := by
  have hjoin (start size : Nat) :
      (digits.drop start).take size ++ digits.drop (start + size) = digits.drop start := by
    rw [← List.drop_drop, List.take_append_drop]
  rw [hjoin 16 4, hjoin 12 4, hjoin 8 4, List.take_append_drop]

/-- What stands between the hyphens are the digits. -/
theorem groups_hyphenate {digits : List Char} (h : digits.length = 32) :
    (hyphenate digits).take 8 ++ (((hyphenate digits).drop 9).take 4 ++
      (((hyphenate digits).drop 14).take 4 ++ (((hyphenate digits).drop 19).take 4 ++
        (hyphenate digits).drop 24))) = digits := by
  calc _ = digits.take 8 ++ ((digits.drop 8).take 4 ++ ((digits.drop 12).take 4 ++
        ((digits.drop 16).take 4 ++ digits.drop 20))) := by
        simp [hyphenate, List.drop_append, List.drop_take, h]
    _ = digits := groups_append digits

/-- 32 digits are found between the hyphens. -/
theorem hyphenated?_hyphenate {digits : List Char} (hlength : digits.length = 32)
    (hhex : digits.all Text.isHex = true) :
    hyphenated? (hyphenate digits) = some (ofDigits digits) := by
  unfold hyphenated?
  dsimp only
  rw [groups_hyphenate hlength, if_pos ⟨hlength, hhex, rfl⟩]

/-- Reading the text of a UUID gives the UUID. -/
theorem read_text (id : Uuid) : read id.text = .ok id := by
  have hsimple : simple? (hyphenate id.digits) = none := by
    rw [simple?, length_hyphenate id.length_digits, if_neg (by simp)]
  have hread : ofText? (hyphenate id.digits) = some id := by
    rw [ofText?, hsimple, hyphenated?_hyphenate id.length_digits (Text.all_isHex_paddedHex 32 _),
      ofDigits_digits]
    rfl
  rw [read, text, String.toList_ofList, hread]

end Uuid

end GraphQL
