import Ls8.WhiteSpace

/-!
# Listings

A listing holds one binary literal a line. What follows a `#` is a comment, white space around a
literal does not count, and lines that hold nothing else are skipped. Lines are numbered from one,
the skipped ones included.
-/

namespace Ls8.Listing

/-- A line that is not skipped: its number and its text. -/
structure Entry where
  line : Nat
  text : List Char
  deriving DecidableEq, Repr

/-- What a line says once the comment is cut off and white space trimmed. -/
def code (line : List Char) : List Char :=
  WhiteSpace.trim (line.takeWhile (· ≠ '#'))

def lines (listing : List Char) : List (List Char) :=
  listing.splitOn '\n'

/-- The lines that are not skipped, when the first line has number `first`. -/
def entriesFrom (first : Nat) (lines : List (List Char)) : List Entry :=
  ((lines.zipIdx first).map fun (line, number) => ⟨number, code line⟩).filter (·.text ≠ [])

def entries (listing : List Char) : List Entry :=
  entriesFrom 1 (lines listing)

def isBit (c : Char) : Bool :=
  c = '0' || c = '1'

/-- The digits of a literal: a single plus sign may stand in front. -/
def digits : List Char → List Char
  | '+' :: rest => rest
  | text => text

def value (text : List Char) : Nat :=
  Nat.ofDigitChars 2 (digits text) 0

/-- The byte that a literal writes: at least one binary digit, and a value below 256. -/
def literal? (text : List Char) : Option UInt8 :=
  if digits text ≠ [] ∧ (digits text).all isBit ∧ value text < 256 then
    some (UInt8.ofNat (value text))
  else none

/-- A skipped line only moves the numbers of the lines after it. -/
theorem entriesFrom_cons (first : Nat) (line : List Char) (rest : List (List Char)) :
    entriesFrom first (line :: rest) =
      if code line = [] then entriesFrom (first + 1) rest
      else ⟨first, code line⟩ :: entriesFrom (first + 1) rest := by
  by_cases h : code line = [] <;> simp [entriesFrom, h]

/-- Listings one after the other: the second goes on with the numbers where the first stops. -/
theorem entriesFrom_append (first : Nat) (before after : List (List Char)) :
    entriesFrom first (before ++ after) =
      entriesFrom first before ++ entriesFrom (first + before.length) after := by
  simp [entriesFrom, List.zipIdx_append]

/-- The lines of two listings joined by a newline are those of the first, then those of the
second. -/
theorem lines_join (before after : List Char) :
    lines (before ++ '\n' :: after) = lines before ++ lines after :=
  List.splitOn_append_cons_self before after

/-- A literal has at least one digit, all binary, and the value of its byte. -/
theorem literal?_eq_some_iff {text : List Char} {byte : UInt8} :
    literal? text = some byte ↔
      digits text ≠ [] ∧ (digits text).all isBit = true ∧ value text = byte.toNat := by
  unfold literal?
  constructor
  · intro h
    split at h
    · next hok =>
      obtain ⟨hne, hbits, hlt⟩ := hok
      refine ⟨hne, hbits, ?_⟩
      rw [← Option.some.inj h, UInt8.toNat_ofNat_of_lt' hlt]
    · cases h
  · rintro ⟨hne, hbits, hvalue⟩
    have hlt : value text < 256 := hvalue ▸ byte.toNat_lt
    rw [if_pos ⟨hne, hbits, hlt⟩, hvalue, UInt8.ofNat_toNat]

end Ls8.Listing
