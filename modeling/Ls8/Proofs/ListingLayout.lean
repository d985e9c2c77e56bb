import Ls8.Proofs.FreshStart
import Ls8.Proofs.ListingGrammar

/-!
# Listings that write given bytes

The ways in which one writes bytes in a listing: how many digits a byte gets, what stands around it,
what is said beside it, which lines are left out, and how lines end. Main statement: whatever way is
chosen, reading the listing and loading what was read comes to the same as loading the bytes, also if
there are too many of them (`load_listing_eq_load_bytes`).
-/

namespace Ls8

namespace Listing

/-- How a byte is written: its binary digits, with zeros in front up to a number of digits, perhaps
after a plus sign. -/
structure Spelling where
  byte : UInt8
  width : Nat := 8
  signed : Bool := false

def Spelling.chars (spelling : Spelling) : List Char :=
  (if spelling.signed then ['+'] else []) ++ Numeral.padded 2 spelling.width spelling.byte.toNat

/-- White space that stays on its line. -/
structure Blank where
  chars : List Char
  white : ∀ c ∈ chars, WhiteSpace.isWhiteSpace c = true
  unbroken : '\n' ∉ chars

/-- Characters as white space, if a check of each of them says so. -/
def Blank.checked (chars : List Char)
    (h : chars.all (fun c => WhiteSpace.isWhiteSpace c && c != '\n') = true) : Blank where
  chars := chars
  white c hc := (Bool.and_eq_true_iff.1 (List.all_eq_true.1 h c hc)).1
  unbroken hc := by simpa using (Bool.and_eq_true_iff.1 (List.all_eq_true.1 h '\n' hc)).2

def Blank.empty : Blank := .checked [] rfl

/-- A comment, without the mark that it starts with. -/
structure Remark where
  chars : List Char
  unbroken : '\n' ∉ chars

/-- A line: perhaps a byte, with white space around it, and perhaps a comment. -/
structure Line where
  left : Blank
  spelling : Option Spelling
  right : Blank
  remark : Option Remark

inductive LineEnd where
  | lf
  | crlf

/-- What stands in front of the newline that ends a line. -/
def LineEnd.carriage : LineEnd → List Char
  | lf => []
  | crlf => ['\r']

/-- What is written on a line beside white space and comment. -/
def Line.text (line : Line) : List Char :=
  match line.spelling with
  | some spelling => spelling.chars
  | none => []

def Line.comment (line : Line) : List Char :=
  match line.remark with
  | some remark => '#' :: remark.chars
  | none => []

def Line.chars (line : Line) : List Char :=
  line.left.chars ++ line.text ++ line.right.chars ++ line.comment

/-- The lines of a listing. No newline ends the last one, which is empty if the listing ends with a
newline. -/
structure Layout where
  lines : List (Line × LineEnd)
  last : Line

namespace Layout

def chars (layout : Layout) : List Char :=
  (layout.lines.flatMap fun (line, ending) => line.chars ++ ending.carriage ++ ['\n']) ++
    layout.last.chars

/-- The listing. -/
def listing (layout : Layout) : String :=
  String.ofList layout.chars

/-- The bytes that are written, in order. -/
def bytes (layout : Layout) : List UInt8 :=
  (layout.lines.map Prod.fst ++ [layout.last]).filterMap fun line =>
    line.spelling.map Spelling.byte

end Layout

/-! ## Spelling a byte -/

theorem isBit_digitChar {n : Nat} (h : n < 2) : isBit n.digitChar = true := by
  have hcases : n = 0 ∨ n = 1 := by omega
  rcases hcases with rfl | rfl <;> rfl

theorem isBit_of_mem_toDigits (n : Nat) : ∀ c ∈ Nat.toDigits 2 n, isBit c = true := by
  induction n using Nat.strongRecOn with
  | ind n ih =>
    intro c hc
    rw [Nat.toDigits_eq_if (by decide)] at hc
    split at hc
    · next hlt =>
      rw [List.mem_singleton.1 hc]
      exact isBit_digitChar hlt
    · next hge =>
      rcases List.mem_append.1 hc with hc | hc
      · exact ih (n / 2) (by omega) c hc
      · rw [List.mem_singleton.1 hc]
        exact isBit_digitChar (Nat.mod_lt n (by decide))

theorem isBit_of_mem_padded (width n : Nat) : ∀ c ∈ Numeral.padded 2 width n, isBit c = true := by
  intro c hc
  rw [Numeral.padded, List.leftpad, List.mem_append] at hc
  rcases hc with hc | hc
  · rw [List.eq_of_mem_replicate hc]
    rfl
  · exact isBit_of_mem_toDigits n c hc

/-- Zeros in front do not change the value. -/
theorem ofDigitChars_padded (width n : Nat) :
    Nat.ofDigitChars 2 (Numeral.padded 2 width n) 0 = n := by
  rw [Numeral.padded, List.leftpad, Nat.ofDigitChars_append, Nat.ofDigitChars_replicate_zero,
    Nat.mul_zero, Nat.ofDigitChars_toDigits (by decide) (by decide)]

/-- However a byte is written, it is read back. -/
theorem literal_chars (spelling : Spelling) : Literal spelling.chars spelling.byte := by
  obtain ⟨bits, hbits⟩ := all_isBit_iff.1 (List.all_eq_true.2
    (isBit_of_mem_padded spelling.width spelling.byte.toNat))
  have hvalue := ofDigitChars_padded spelling.width spelling.byte.toNat
  rw [hbits, ofDigitChars_map_digit, Nat.zero_mul, Nat.zero_add] at hvalue
  have hne : bits ≠ [] := by
    rintro rfl
    have hlength := congrArg List.length hbits
    have hpos := @Nat.length_toDigits_pos 2 spelling.byte.toNat
    simp only [Numeral.padded, List.length_leftpad, List.map_nil, List.length_nil] at hlength
    omega
  rw [Spelling.chars, hbits]
  cases spelling.signed with
  | false => exact .unsigned hne hvalue
  | true => exact .signed hne hvalue

/-! ## Lines -/

/-- A literal has no character that could be taken for something else on its line. -/
theorem Literal.plain {text : List Char} {byte : UInt8} (h : Literal text byte) :
    text ≠ [] ∧ ∀ c ∈ text, WhiteSpace.isWhiteSpace c = false ∧ c ≠ '#' ∧ c ≠ '\n' := by
  have hdigits : ∀ bits : List Bool, ∀ c ∈ bits.map digit,
      WhiteSpace.isWhiteSpace c = false ∧ c ≠ '#' ∧ c ≠ '\n' := by
    intro bits c hc
    obtain ⟨bit, _, rfl⟩ := List.mem_map.1 hc
    cases bit <;> decide
  cases h with
  | unsigned hne _ => exact ⟨mt List.map_eq_nil_iff.1 hne, hdigits _⟩
  | signed hne _ =>
    refine ⟨List.cons_ne_nil _ _, ?_⟩
    intro c hc
    rcases List.mem_cons.1 hc with rfl | hc
    · decide
    · exact hdigits _ c hc

theorem Line.text_plain (line : Line) :
    ∀ c ∈ line.text, WhiteSpace.isWhiteSpace c = false ∧ c ≠ '#' ∧ c ≠ '\n' := by
  unfold Line.text
  cases line.spelling with
  | none => simp
  | some spelling => exact (literal_chars spelling).plain.2

theorem Line.newline_not_mem (line : Line) (ending : LineEnd) :
    '\n' ∉ line.chars ++ ending.carriage := by
  have htext : '\n' ∉ line.text := fun h => (line.text_plain _ h).2.2 rfl
  have hcomment : '\n' ∉ line.comment := by
    unfold Line.comment
    cases line.remark with
    | none => simp
    | some remark => simpa using remark.unbroken
  have hcarriage : '\n' ∉ ending.carriage := by cases ending <;> decide
  simp [Line.chars, htext, hcomment, hcarriage, line.left.unbroken, line.right.unbroken]

/-- A line says its text. A carriage return is white space, or the end of the comment. -/
theorem lineSays_chars (line : Line) (ending : LineEnd) :
    LineSays (line.chars ++ ending.carriage) line.text := by
  have htight : WhiteSpace.Tight line.text := by
    refine ⟨?_, ?_⟩
    · intro c hc
      exact (line.text_plain c (List.mem_of_mem_head? hc)).1
    · intro c hc
      exact (line.text_plain c (List.mem_of_mem_getLast? hc)).1
  have hhash : '#' ∉ line.text := fun h => (line.text_plain _ h).2.1 rfl
  cases hremark : line.remark with
  | none =>
    have hright : ∀ c ∈ line.right.chars ++ ending.carriage,
        WhiteSpace.isWhiteSpace c = true := by
      intro c hc
      rcases List.mem_append.1 hc with hc | hc
      · exact line.right.white c hc
      · cases ending with
        | lf => cases hc
        | crlf =>
          rw [List.mem_singleton.1 hc]
          decide
    have hsays := LineSays.mk line.left.chars line.text _ [] line.left.white hright htight hhash
      (.inl rfl)
    simpa [Line.chars, Line.comment, hremark] using hsays
  | some remark =>
    have hsays := LineSays.mk line.left.chars line.text line.right.chars
      ('#' :: (remark.chars ++ ending.carriage)) line.left.white line.right.white htight hhash
      (.inr ⟨_, rfl⟩)
    simpa [Line.chars, Line.comment, hremark] using hsays

theorem code_chars (line : Line) (ending : LineEnd) :
    code (line.chars ++ ending.carriage) = line.text :=
  code_of_lineSays (lineSays_chars line ending)

/-! ## The whole listing -/

/-- Read line by line, a layout says the texts that it was made of. -/
theorem map_code_lines (layout : Layout) :
    (lines layout.chars).map code = (layout.lines.map Prod.fst ++ [layout.last]).map Line.text := by
  obtain ⟨pieces, last⟩ := layout
  induction pieces with
  | nil =>
    have hcode := code_chars last .lf
    have hunbroken := last.newline_not_mem .lf
    rw [LineEnd.carriage, List.append_nil] at hcode hunbroken
    have hlines : lines last.chars = [last.chars] := List.splitOn_eq_singleton hunbroken
    simp [Layout.chars, hlines, hcode]
  | cons piece rest ih =>
    obtain ⟨line, ending⟩ := piece
    have hsplit : Layout.chars ⟨(line, ending) :: rest, last⟩ =
        (line.chars ++ ending.carriage) ++ '\n' :: Layout.chars ⟨rest, last⟩ := by
      simp [Layout.chars]
    have hlines : lines (line.chars ++ ending.carriage) = [line.chars ++ ending.carriage] :=
      List.splitOn_eq_singleton (line.newline_not_mem ending)
    rw [hsplit, lines_join, hlines, List.map_append, ih, List.map_singleton, code_chars]
    rfl

theorem forall₂_literal_texts (lines : List Line) :
    List.Forall₂ Literal ((lines.map Line.text).filter (· ≠ []))
      (lines.filterMap fun line => line.spelling.map Spelling.byte) := by
  induction lines with
  | nil => exact .nil
  | cons line rest ih =>
    cases hspelling : line.spelling with
    | none =>
      have htext : line.text = [] := by rw [Line.text, hspelling]
      simpa [htext, hspelling] using ih
    | some spelling =>
      have htext : line.text = spelling.chars := by rw [Line.text, hspelling]
      have hliteral := literal_chars spelling
      simpa [htext, hspelling, hliteral.plain.1] using List.Forall₂.cons hliteral ih

end Listing

namespace Program

open Listing

/-- Of a listing whose texts are all literals, only the number of them can be wrong. -/
theorem parse_of_literals {chars : List Char} {bytes : List UInt8}
    (h : List.Forall₂ Literal (((lines chars).map code).filter (· ≠ [])) bytes) :
    parse (String.ofList chars) =
      if bytes.length ≤ 256 then .ok ⟨bytes⟩ else .error (.tooLarge bytes.length) := by
  rw [← map_text_entriesFrom 1, ← mapM_byte_eq_ok_iff] at h
  rw [parse, String.toList_ofList, entries, h]
  rfl

theorem parse_listing (layout : Layout) : parse layout.listing =
    if layout.bytes.length ≤ 256 then .ok ⟨layout.bytes⟩
    else .error (.tooLarge layout.bytes.length) := by
  apply parse_of_literals
  rw [map_code_lines]
  exact forall₂_literal_texts _

/-- A program that was read, be it from a file, is never too large. -/
theorem size_le_of_read {p : Program} (h : (∃ listing, parse listing = .ok p) ∨
    ∃ read path, fromFile read path = .ok p) : p.size ≤ 256 := by
  rcases h with ⟨listing, hparse⟩ | ⟨read, path, hfile⟩
  · exact size_le_of_parse hparse
  · unfold fromFile at hfile
    split at hfile
    · exact size_le_of_parse hfile
    · cases hfile

end Program

namespace Machine

/-- However bytes are written in a listing, and whatever the machine has been through, reading the
listing and loading what was read is loading the bytes, and leaves a machine as just switched on with
them in its memory. Both are refused with the same words if there are too many bytes, and only then: a
program that was read is always loaded. -/
theorem load_listing_eq_load_bytes (layout : Listing.Layout) (m : Machine) :
    (layout.bytes.length ≤ 256 → ∃ loaded,
      Program.parse layout.listing = .ok ⟨layout.bytes⟩ ∧
      m.load (⟨layout.bytes⟩ : Program) = .ok loaded ∧
      m.load layout.bytes = .ok loaded ∧ m.load layout.bytes.toArray = .ok loaded ∧
      loaded.HoldsOnly layout.bytes ∧ loaded.out = m.out) ∧
    (256 < layout.bytes.length →
      Program.parse layout.listing = .error (.tooLarge layout.bytes.length) ∧
      m.load (⟨layout.bytes⟩ : Program) =
        .error ⟨.programTooLarge layout.bytes.length, m⟩ ∧
      (LoadError.tooLarge layout.bytes.length).message =
        (Error.programTooLarge layout.bytes.length).message) ∧
    ∀ p : Program, ((∃ listing, Program.parse listing = .ok p) ∨
        ∃ read path, Program.fromFile read path = .ok p) →
      ∃ loaded, m.load p = .ok loaded ∧ loaded.HoldsOnly p.bytes ∧ loaded.out = m.out := by
  have hparse := Program.parse_listing layout
  refine ⟨?_, ?_, ?_⟩
  · intro hle
    rw [if_pos hle] at hparse
    have hvec : m.load layout.bytes.toArray = m.load layout.bytes := by
      rw [load_eq, load_eq]
      rfl
    have hload : m.load layout.bytes = .ok { toCpu := Cpu.booted layout.bytes, out := m.out } :=
      m.load_of_fits hle
    exact ⟨_, hparse, m.load_of_fits hle, hload, hvec.trans hload, holdsOnly_booted _ _, rfl⟩
  · intro hlt
    rw [if_neg (Nat.not_le.2 hlt)] at hparse
    exact ⟨hparse, m.load_of_too_large hlt, rfl⟩
  · intro p hread
    exact ⟨_, m.load_of_fits (Program.size_le_of_read hread), holdsOnly_booted _ _, rfl⟩

/-- Two bytes with a comment line between them, one written with more digits than it has bits and the
other with fewer. -/
def fiveAndOne : Listing.Layout where
  lines :=
    [({ left := .checked [' ', ' '] (by decide)
        spelling := some { byte := 5, width := 10 }
        right := .checked ['\t'] (by decide)
        remark := some ⟨"five".toList, by decide⟩ }, .crlf),
      ({ left := .empty
         spelling := none
         right := .empty
         remark := some ⟨[], by decide⟩ }, .lf)]
  last :=
    { left := .empty
      spelling := some { byte := 1, width := 0, signed := true }
      right := .empty
      remark := none }

/-- The same line, as often as one likes. -/
def repeated (n : Nat) : Listing.Layout where
  lines := List.replicate n (fiveAndOne.last, .lf)
  last := fiveAndOne.last

theorem length_bytes_repeated (n : Nat) : (repeated n).bytes.length = n + 1 := by
  have hspelling : fiveAndOne.last.spelling = some { byte := 1, width := 0, signed := true } := rfl
  simp [repeated, Listing.Layout.bytes, hspelling]

/-- Two bytes are loaded from their listing as from a list, also if nothing can be printed; one more
than memory has are refused. -/
theorem load_listing_eq_load_bytes_fiveAndOne :
    fiveAndOne.listing = "  0000000101\t#five\r\n#\n+1" ∧ fiveAndOne.bytes = [5, 1] ∧
      (∃ loaded, Program.parse fiveAndOne.listing = .ok ⟨[5, 1]⟩ ∧
        new.load (⟨[5, 1]⟩ : Program) = .ok loaded ∧ new.load [5, (1 : UInt8)] = .ok loaded ∧
        loaded.HoldsOnly [5, 1]) ∧
      Program.parse (repeated 256).listing = .error (.tooLarge 257) ∧
      ∃ loaded, (withOutput (.limitedTo 0)).load (⟨[5, 1]⟩ : Program) = .ok loaded ∧
        loaded.HoldsOnly [5, 1] ∧ loaded.out = .limitedTo 0 := by
  have hbytes : fiveAndOne.bytes = [5, 1] := by decide
  have hmany : (repeated 256).bytes.length = 257 := length_bytes_repeated 256
  have hsmall := (load_listing_eq_load_bytes fiveAndOne new).1
  have hlarge := (load_listing_eq_load_bytes (repeated 256) new).2.1
  have hread := (load_listing_eq_load_bytes fiveAndOne (withOutput (.limitedTo 0))).2.2
  rw [hbytes] at hsmall
  rw [hmany] at hlarge
  obtain ⟨loaded, hparse, hprogram, hlist, _, hholds, _⟩ := hsmall (by decide)
  exact ⟨by decide, hbytes, ⟨loaded, hparse, hprogram, hlist, hholds⟩, (hlarge (by decide)).1,
    hread _ (.inl ⟨_, hparse⟩)⟩

end Machine

end Ls8
