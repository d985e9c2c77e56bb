/-!
# White space

The characters with the Unicode property `White_Space`, and trimming text of them at both ends.
-/

namespace Ls8.WhiteSpace

/-- The code points with the property, as first and last of each range. -/
def ranges : List (Nat × Nat) :=
  [(0x0009, 0x000D), (0x0020, 0x0020), (0x0085, 0x0085), (0x00A0, 0x00A0), (0x1680, 0x1680),
    (0x2000, 0x200A), (0x2028, 0x2029), (0x202F, 0x202F), (0x205F, 0x205F), (0x3000, 0x3000)]

def isWhiteSpace (c : Char) : Bool :=
  ranges.any fun range => range.1 ≤ c.toNat && c.toNat ≤ range.2

def trimLeft (text : List Char) : List Char :=
  text.dropWhile isWhiteSpace

def trimRight (text : List Char) : List Char :=
  (trimLeft text.reverse).reverse

def trim (text : List Char) : List Char :=
  trimRight (trimLeft text)

/-- Text that starts with another character is kept whole. -/
theorem trimLeft_of_head {c : Char} (h : isWhiteSpace c = false) (rest : List Char) :
    trimLeft (c :: rest) = c :: rest := by
  simp [trimLeft, h]

end Ls8.WhiteSpace
