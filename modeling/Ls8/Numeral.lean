/-!
# Numerals

Numbers as text: padded to a number of digits in a base, as bits, hexadecimal digits, and as the
decimal line that a print instruction writes.
-/

namespace Ls8.Numeral

/-- The digits of `n` in `base`, most significant first, with zeros in front up to `width`. -/
def padded (base width n : Nat) : List Char :=
  (Nat.toDigits base n).leftpad width '0'

def bits (byte : UInt8) : String :=
  String.ofList (padded 2 8 byte.toNat)

/-- A number as at least two lower-case hexadecimal digits. -/
def hexLower (n : Nat) : String :=
  String.ofList (padded 16 2 n)

/-- A number as at least two upper-case hexadecimal digits. -/
def hexUpper (n : Nat) : String :=
  String.ofList ((padded 16 2 n).map Char.toUpper)

/-- The line that shows a value: its decimal digits and a newline, in ASCII. -/
def decimalLine (value : UInt8) : List UInt8 :=
  (Nat.toDigits 10 value.toNat).map Char.toUInt8 ++ ['\n'.toUInt8]

/-- The line is the text of the number, with a newline after it. -/
theorem decimalLine_eq (value : UInt8) :
    decimalLine value = ((toString value.toNat).toList ++ ['\n']).map Char.toUInt8 := by
  rw [decimalLine, Nat.toString_eq_ofList_toDigits, String.toList_ofList, List.map_append]
  rfl

theorem ofUInt8_toUInt8 {c : Char} (h : c.toNat < 256) : Char.ofUInt8 c.toUInt8 = c := by
  apply Char.ext
  apply UInt32.toNat_inj.1
  show c.val.toUInt8.toUInt32.toNat = c.val.toNat
  rw [UInt8.toNat_toUInt32, UInt32.toNat_toUInt8]
  exact Nat.mod_eq_of_lt h

/-- Read as characters, the line that shows a value is the decimal text of it. -/
theorem map_decimalLine (value : UInt8) :
    (decimalLine value).map Char.ofUInt8 = (toString value.toNat).toList ++ ['\n'] := by
  have hdigit : ∀ c ∈ Nat.toDigits 10 value.toNat, Char.ofUInt8 c.toUInt8 = c := by
    intro c hc
    have hascii : c.isDigit = true := Nat.isDigit_of_mem_toDigits (by decide) (by decide) hc
    apply ofUInt8_toUInt8
    simp only [Char.isDigit, ge_iff_le, UInt32.le_iff_toNat_le, Bool.and_eq_true,
      decide_eq_true_eq] at hascii
    have hnine : c.toNat ≤ 57 := hascii.2
    omega
  have hdigits : (Nat.toDigits 10 value.toNat).map (Char.ofUInt8 ∘ Char.toUInt8) =
      Nat.toDigits 10 value.toNat :=
    (List.map_congr_left hdigit).trans (List.map_id' _)
  rw [decimalLine, List.map_append, List.map_map, hdigits, Nat.toString_eq_ofList_toDigits,
    String.toList_ofList]
  rfl

end Ls8.Numeral
