import Ls8.Program
import Mathlib.Data.List.Forall2
import Mathlib.Data.List.TakeWhile
import Mathlib.Tactic.Ring

/-!
# The grammar of listings

How a listing is written, said without how it is read: lines between newlines, each of them white
space, a text, white space and a comment, and each text that is not empty a binary literal. Main
statement: a listing is read exactly when it is written like this with at most 256 literals, and
gives the values of its literals in order (`parse_eq_ok_iff`).
-/

namespace Ls8

/-! ## White space at the ends -/

namespace WhiteSpace

/-- Text that neither starts nor ends with white space. -/
structure Tight (text : List Char) : Prop where
  head : ∀ c ∈ text.head?, isWhiteSpace c = false
  last : ∀ c ∈ text.getLast?, isWhiteSpace c = false

theorem trimLeft_append {blank : List Char} (h : ∀ c ∈ blank, isWhiteSpace c = true)
    (rest : List Char) : trimLeft (blank ++ rest) = trimLeft rest :=
  List.dropWhile_append_of_pos h

theorem trimLeft_of_blank {blank : List Char} (h : ∀ c ∈ blank, isWhiteSpace c = true) :
    trimLeft blank = [] :=
  List.dropWhile_eq_nil_iff.2 h

/-- Text that starts with no white space is kept whole, whatever follows. -/
theorem trimLeft_append_of_head {text : List Char} (hne : text ≠ [])
    (h : ∀ c ∈ text.head?, isWhiteSpace c = false) (rest : List Char) :
    trimLeft (text ++ rest) = text ++ rest := by
  cases text with
  | nil => exact absurd rfl hne
  | cons c more => exact trimLeft_of_head (h c rfl) (more ++ rest)

theorem trimRight_append_of_last {text blank : List Char} (hne : text ≠ [])
    (h : ∀ c ∈ text.getLast?, isWhiteSpace c = false)
    (hblank : ∀ c ∈ blank, isWhiteSpace c = true) : trimRight (text ++ blank) = text := by
  have hreversed : ∀ c ∈ blank.reverse, isWhiteSpace c = true := fun c hc =>
    hblank c (List.mem_reverse.1 hc)
  have hhead : ∀ c ∈ text.reverse.head?, isWhiteSpace c = false := by
    rw [List.head?_reverse]
    exact h
  have hkept := trimLeft_append_of_head (mt List.reverse_eq_nil_iff.1 hne) hhead []
  rw [List.append_nil] at hkept
  rw [trimRight, List.reverse_append, trimLeft_append hreversed, hkept, List.reverse_reverse]

/-- White space around a text is taken off. -/
theorem trim_eq {left text right : List Char} (hleft : ∀ c ∈ left, isWhiteSpace c = true)
    (htight : Tight text) (hright : ∀ c ∈ right, isWhiteSpace c = true) :
    trim (left ++ text ++ right) = text := by
  rw [trim, List.append_assoc, trimLeft_append hleft]
  by_cases hne : text = []
  · rw [hne, List.nil_append, trimLeft_of_blank hright]
    rfl
  · rw [trimLeft_append_of_head hne htight.head, trimRight_append_of_last hne htight.last hright]

theorem exists_trimLeft (text : List Char) : ∃ blank, (∀ c ∈ blank, isWhiteSpace c = true) ∧
    blank ++ trimLeft text = text ∧ ∀ c ∈ (trimLeft text).head?, isWhiteSpace c = false := by
  refine ⟨text.takeWhile isWhiteSpace, fun c hc => List.mem_takeWhile_imp hc,
    List.takeWhile_append_dropWhile, ?_⟩
  intro c hc
  have hstop := List.head?_dropWhile_not isWhiteSpace text
  rw [trimLeft] at hc
  rw [Option.mem_def.1 hc] at hstop
  exact hstop

/-- Trimming takes off nothing but white space, and all of it. -/
theorem exists_trim (text : List Char) : ∃ left right, (∀ c ∈ left, isWhiteSpace c = true) ∧
    (∀ c ∈ right, isWhiteSpace c = true) ∧ left ++ trim text ++ right = text ∧
      Tight (trim text) := by
  obtain ⟨left, hleft, htext, hhead⟩ := exists_trimLeft text
  obtain ⟨right, hright, hrest, hlast⟩ := exists_trimLeft (trimLeft text).reverse
  have hsplit : trim text ++ right.reverse = trimLeft text := by
    rw [trim, trimRight, ← List.reverse_append, hrest, List.reverse_reverse]
  refine ⟨left, right.reverse, hleft, fun c hc => hright c (List.mem_reverse.1 hc), ?_, ?_, ?_⟩
  · rw [List.append_assoc, hsplit, htext]
  · intro c hc
    apply hhead c
    rw [← hsplit, List.head?_append, Option.mem_def.1 hc]
    rfl
  · intro c hc
    apply hlast c
    rwa [trim, trimRight, List.getLast?_reverse] at hc

end WhiteSpace

namespace Listing

/-! ## Lines -/

/-- A text divided into lines at its newlines: at least one line, and one more for each newline. -/
structure DividedInto (chars : List Char) (lines : List (List Char)) : Prop where
  nonempty : lines ≠ []
  joined : ['\n'].intercalate lines = chars
  unbroken : ∀ line ∈ lines, '\n' ∉ line

/-- A line as it is written: a text, perhaps white space around it, and perhaps a comment. -/
inductive LineSays : List Char → List Char → Prop
  | mk (left text right comment : List Char) :
      (∀ c ∈ left, WhiteSpace.isWhiteSpace c = true) →
      (∀ c ∈ right, WhiteSpace.isWhiteSpace c = true) →
      WhiteSpace.Tight text → '#' ∉ text →
      (comment = [] ∨ ∃ remark, comment = '#' :: remark) →
      LineSays (left ++ text ++ right ++ comment) text

theorem newline_not_mem_lines (chars : List Char) : ∀ line ∈ lines chars, '\n' ∉ line := by
  induction chars with
  | nil => simp [lines]
  | cons c rest ih =>
    rw [lines, List.splitOn_cons_eq_if_modifyHead]
    split
    · simpa [lines] using ih
    · next hc =>
      have hnewline : '\n' ≠ c := fun e => hc (beq_iff_eq.2 e.symm)
      rw [lines] at ih
      cases hlines : rest.splitOn '\n' with
      | nil => simp
      | cons first more =>
        rw [hlines] at ih
        obtain ⟨hfirst, hmore⟩ := List.forall_mem_cons.1 ih
        refine List.forall_mem_cons.2 ⟨?_, hmore⟩
        exact List.not_mem_cons_of_ne_of_not_mem hnewline hfirst

theorem dividedInto_iff {chars : List Char} {pieces : List (List Char)} :
    DividedInto chars pieces ↔ lines chars = pieces := by
  constructor
  · rintro ⟨hne, rfl, hunbroken⟩
    exact List.splitOn_intercalate '\n' hunbroken hne
  · rintro rfl
    exact ⟨List.splitOn_ne_nil _ _, List.intercalate_splitOn '\n', newline_not_mem_lines chars⟩

theorem hash_not_mem_of_blank {blank : List Char}
    (h : ∀ c ∈ blank, WhiteSpace.isWhiteSpace c = true) : '#' ∉ blank := by
  intro hmem
  have hwhite := h '#' hmem
  exact absurd hwhite (by decide)

theorem lineSays_code (line : List Char) : LineSays line (code line) := by
  obtain ⟨left, right, hleft, hright, hsplit, htight⟩ :=
    WhiteSpace.exists_trim (line.takeWhile (· ≠ '#'))
  have hbefore : '#' ∉ line.takeWhile (· ≠ '#') := by
    intro hmem
    simpa using List.mem_takeWhile_imp hmem
  have hhash : '#' ∉ code line := by
    intro hmem
    apply hbefore
    rw [← hsplit]
    exact List.mem_append_left _ (List.mem_append_right _ hmem)
  have hcomment : line.dropWhile (· ≠ '#') = [] ∨
      ∃ remark, line.dropWhile (· ≠ '#') = '#' :: remark := by
    have hstop := List.head?_dropWhile_not (· ≠ '#') line
    cases hrest : line.dropWhile (· ≠ '#') with
    | nil => exact .inl rfl
    | cons c remark =>
      rw [hrest] at hstop
      exact .inr ⟨remark, by simpa using hstop⟩
  have hline : left ++ code line ++ right ++ line.dropWhile (· ≠ '#') = line := by
    rw [code, hsplit, List.takeWhile_append_dropWhile]
  have hcode := LineSays.mk left (code line) right _ hleft hright htight hhash hcomment
  rwa [hline] at hcode

theorem code_of_lineSays {line text : List Char} (h : LineSays line text) : code line = text := by
  cases h with
  | mk left _ right comment hleft hright htight hhash hcomment =>
    have hbefore : ∀ c ∈ left ++ text ++ right, decide (c ≠ '#') = true := by
      intro c hc
      apply decide_eq_true
      rintro rfl
      rcases List.mem_append.1 hc with hc | hc
      · rcases List.mem_append.1 hc with hc | hc
        · exact hash_not_mem_of_blank hleft hc
        · exact hhash hc
      · exact hash_not_mem_of_blank hright hc
    have hcut : comment.takeWhile (· ≠ '#') = [] := by
      rcases hcomment with rfl | ⟨remark, rfl⟩
      · rfl
      · simp
    rw [code, List.takeWhile_append_of_pos hbefore, hcut, List.append_nil]
    exact WhiteSpace.trim_eq hleft htight hright

theorem lineSays_iff {line text : List Char} : LineSays line text ↔ code line = text :=
  ⟨code_of_lineSays, fun h => h ▸ lineSays_code line⟩

theorem forall₂_lineSays_iff {lines texts : List (List Char)} :
    List.Forall₂ LineSays lines texts ↔ lines.map code = texts := by
  have hcode : LineSays = fun line text => code line = text :=
    funext fun line => funext fun text => propext lineSays_iff
  rw [hcode, ← List.forall₂_map_left_iff (R := Eq), List.forall₂_eq_eq_eq]

/-! ## Literals -/

/-- The digit that writes a bit. -/
def digit (bit : Bool) : Char :=
  if bit then '1' else '0'

/-- The value of bits, the highest one first. -/
def positional : List Bool → Nat
  | [] => 0
  | bit :: rest => bit.toNat * 2 ^ rest.length + positional rest

/-- A literal and the byte it stands for: one or more binary digits, perhaps after a plus sign. -/
inductive Literal : List Char → UInt8 → Prop
  | unsigned {bits : List Bool} {byte : UInt8} :
      bits ≠ [] → positional bits = byte.toNat → Literal (bits.map digit) byte
  | signed {bits : List Bool} {byte : UInt8} :
      bits ≠ [] → positional bits = byte.toNat → Literal ('+' :: bits.map digit) byte

theorem isBit_iff {c : Char} : isBit c = true ↔ ∃ bit, c = digit bit := by
  simp [isBit, digit]

theorem all_isBit_iff {text : List Char} :
    text.all isBit = true ↔ ∃ bits : List Bool, text = bits.map digit := by
  induction text with
  | nil => simp
  | cons c rest ih =>
    rw [List.all_cons, Bool.and_eq_true, isBit_iff, ih]
    constructor
    · rintro ⟨⟨bit, rfl⟩, bits, rfl⟩
      exact ⟨bit :: bits, rfl⟩
    · rintro ⟨bits, hbits⟩
      cases bits with
      | nil => cases hbits
      | cons bit more =>
        cases hbits
        exact ⟨⟨bit, rfl⟩, more, rfl⟩

theorem ofDigitChars_map_digit (bits : List Bool) (init : Nat) :
    Nat.ofDigitChars 2 (bits.map digit) init = init * 2 ^ bits.length + positional bits := by
  induction bits generalizing init with
  | nil => simp [positional]
  | cons bit rest ih =>
    have hdigit : (digit bit).toNat - '0'.toNat = bit.toNat := by cases bit <;> rfl
    rw [List.map_cons, Nat.ofDigitChars_cons, ih, hdigit, positional, List.length_cons,
      Nat.pow_succ]
    ring

/-- What the digits of a literal are, once a plus sign in front is taken off. -/
theorem digits_eq_iff {text : List Char} {bits : List Bool} (hne : bits ≠ []) :
    digits text = bits.map digit ↔ text = bits.map digit ∨ text = '+' :: bits.map digit := by
  obtain ⟨bit, more, rfl⟩ := List.exists_cons_of_ne_nil hne
  have hplus : digit bit ≠ '+' := by cases bit <;> decide
  cases text with
  | nil => simp [digits]
  | cons c rest =>
    by_cases hc : c = '+'
    · simp [digits, hc, Ne.symm hplus]
    · simp [digits, hc]

theorem literal?_eq_some_iff_literal {text : List Char} {byte : UInt8} :
    literal? text = some byte ↔ Literal text byte := by
  rw [literal?_eq_some_iff]
  constructor
  · rintro ⟨hne, hbits, hvalue⟩
    obtain ⟨bits, hbits⟩ := all_isBit_iff.1 hbits
    have hbitsne : bits ≠ [] := by
      rintro rfl
      exact hne hbits
    have hpositional : positional bits = byte.toNat := by
      rw [← hvalue, value, hbits, ofDigitChars_map_digit, Nat.zero_mul, Nat.zero_add]
    rcases (digits_eq_iff hbitsne).1 hbits with rfl | rfl
    · exact .unsigned hbitsne hpositional
    · exact .signed hbitsne hpositional
  · intro h
    have hdigits : ∃ bits, bits ≠ [] ∧ positional bits = byte.toNat ∧
        digits text = bits.map digit := by
      cases h with
      | unsigned hne hvalue => exact ⟨_, hne, hvalue, (digits_eq_iff hne).2 (.inl rfl)⟩
      | signed hne hvalue => exact ⟨_, hne, hvalue, (digits_eq_iff hne).2 (.inr rfl)⟩
    obtain ⟨bits, hne, hvalue, hdigits⟩ := hdigits
    refine ⟨?_, ?_, ?_⟩
    · rw [hdigits]
      exact mt List.map_eq_nil_iff.1 hne
    · exact all_isBit_iff.2 ⟨bits, hdigits⟩
    · rw [value, hdigits, ofDigitChars_map_digit, Nat.zero_mul, Nat.zero_add, hvalue]

/-! ## Entries -/

theorem map_text_entriesFrom (first : Nat) (lines : List (List Char)) :
    (entriesFrom first lines).map Entry.text = (lines.map code).filter (· ≠ []) := by
  induction lines generalizing first with
  | nil => rfl
  | cons line rest ih =>
    rw [entriesFrom_cons, List.map_cons]
    by_cases hcode : code line = []
    · rw [if_pos hcode, ih, hcode]
      rfl
    · rw [if_neg hcode, List.map_cons, ih, List.filter_cons_of_pos (by simpa using hcode)]

theorem Entry.byte_eq_ok_iff {entry : Entry} {byte : UInt8} :
    entry.byte = .ok byte ↔ Literal entry.text byte := by
  rw [← literal?_eq_some_iff_literal, Entry.byte]
  cases literal? entry.text <;> simp

theorem mapM_byte_eq_ok_iff {entries : List Entry} {bytes : List UInt8} :
    entries.mapM Entry.byte = .ok bytes ↔ List.Forall₂ Literal (entries.map Entry.text) bytes := by
  induction entries generalizing bytes with
  | nil => simp [pure, Except.pure, eq_comm]
  | cons entry rest ih =>
    rw [List.mapM_cons, List.map_cons, List.forall₂_cons_left_iff]
    simp only [← Entry.byte_eq_ok_iff, ← ih]
    cases entry.byte with
    | error refused => simp [bind, Except.bind]
    | ok byte =>
      cases rest.mapM Entry.byte with
      | error refused => simp [bind, Except.bind]
      | ok others => simp [bind, Except.bind, pure, Except.pure, eq_comm]

end Listing

namespace Program

open Listing

theorem parse_eq_ok_iff_mapM {listing : String} {p : Program} : parse listing = .ok p ↔
    (entries listing.toList).mapM Entry.byte = .ok p.bytes ∧ p.size ≤ 256 := by
  rw [parse, size]
  cases (entries listing.toList).mapM Entry.byte with
  | error refused => simp [bind, Except.bind]
  | ok bytes =>
    obtain ⟨held⟩ := p
    by_cases hsize : bytes.length ≤ Memory.size
    · simp only [bind, Except.bind, hsize, if_true, Except.ok.injEq, Program.mk.injEq]
      exact ⟨fun h => ⟨h, h ▸ hsize⟩, And.left⟩
    · simp only [bind, Except.bind, hsize, if_false, reduceCtorEq, Except.ok.injEq, false_iff]
      rintro ⟨rfl, hheld⟩
      exact hsize hheld

/-- A listing is read exactly when each of its lines is blank, a comment or a literal and there are
no more literals than memory has bytes. The program holds the bytes of the literals, in order. -/
theorem parse_eq_ok_iff {listing : String} {p : Program} :
    parse listing = .ok p ↔ ∃ lines texts, DividedInto listing.toList lines ∧
      List.Forall₂ LineSays lines texts ∧ List.Forall₂ Literal (texts.filter (· ≠ [])) p.bytes ∧
      p.size = (texts.filter (· ≠ [])).length ∧ p.size ≤ 256 := by
  have htexts : (entries listing.toList).map Entry.text =
      ((lines listing.toList).map code).filter (· ≠ []) := map_text_entriesFrom 1 _
  rw [parse_eq_ok_iff_mapM, mapM_byte_eq_ok_iff, htexts]
  constructor
  · rintro ⟨hliterals, hsize⟩
    exact ⟨_, _, dividedInto_iff.2 rfl, forall₂_lineSays_iff.2 rfl, hliterals,
      hliterals.length_eq.symm, hsize⟩
  · rintro ⟨pieces, texts, hlines, hcode, hliterals, _, hsize⟩
    rw [dividedInto_iff.1 hlines, forall₂_lineSays_iff.1 hcode]
    exact ⟨hliterals, hsize⟩

end Program

end Ls8
