import Ls8.Proofs.ListingGrammar

/-!
# Listings that are rejected

Two things can be wrong with a listing: a line says something that is no literal, or there are too
many literals. The lines are read from the first to the last and the literals are counted after the
last, so the first such line is reported, and the number only where there is none. Main statement:
`parse_eq_error_iff`.
-/

namespace Ls8

namespace Listing

/-! ## Faults -/

/-- What a line must not say: something, but no literal. -/
def Faulty (text : List Char) : Prop :=
  text ≠ [] ∧ ∀ byte, ¬ Literal text byte

/-- The place of the first faulty text, counted from zero, and what it is. -/
structure FirstFault (texts : List (List Char)) (index : Nat) (text : List Char) : Prop where
  getElem?_eq : texts[index]? = some text
  faulty : Faulty text
  earlier : ∀ k < index, ∀ before, texts[k]? = some before → ¬ Faulty before

/-- What is said of a listing that is rejected, going by the texts of all of its lines. -/
inductive Rejected (texts : List (List Char)) : LoadError → Prop
  | invalidLiteral {index : Nat} {text : List Char} : FirstFault texts index text →
      Rejected texts (.invalidLiteral (index + 1) (String.ofList text))
  | tooLarge : (∀ text ∈ texts, ¬ Faulty text) → 256 < (texts.filter (· ≠ [])).length →
      Rejected texts (.tooLarge (texts.filter (· ≠ [])).length)

theorem not_faulty_nil : ¬ Faulty [] :=
  fun h => h.1 rfl

theorem not_faulty_of_literal {text : List Char} {byte : UInt8} (h : Literal text byte) :
    ¬ Faulty text :=
  fun hfaulty => hfaulty.2 byte h

theorem exists_literal_of_not_faulty {text : List Char} (hne : text ≠ []) (h : ¬ Faulty text) :
    ∃ byte, Literal text byte := by
  by_contra hnone
  exact h ⟨hne, not_exists.1 hnone⟩

theorem faulty_iff_literal? {text : List Char} :
    Faulty text ↔ text ≠ [] ∧ literal? text = none := by
  rw [Faulty, Option.eq_none_iff_forall_ne_some]
  simp only [ne_eq, literal?_eq_some_iff_literal]

theorem FirstFault.mem {texts : List (List Char)} {index : Nat} {text : List Char}
    (h : FirstFault texts index text) : text ∈ texts :=
  List.mem_of_getElem? h.getElem?_eq

/-- The first fault is in front, or it is the first one of the rest. -/
theorem firstFault_cons_iff {head : List Char} {rest : List (List Char)} {index : Nat}
    {text : List Char} : FirstFault (head :: rest) index text ↔
      (index = 0 ∧ text = head ∧ Faulty head) ∨
        ∃ k, index = k + 1 ∧ ¬ Faulty head ∧ FirstFault rest k text := by
  constructor
  · rintro ⟨hat, hfaulty, hearlier⟩
    cases index with
    | zero =>
      obtain rfl : head = text := Option.some.inj hat
      exact .inl ⟨rfl, rfl, hfaulty⟩
    | succ k =>
      have hhead := hearlier 0 (Nat.succ_pos k) head rfl
      refine .inr ⟨k, rfl, hhead, hat, hfaulty, ?_⟩
      intro j hj before hbefore
      exact hearlier (j + 1) (Nat.succ_lt_succ hj) before hbefore
  · rintro (⟨rfl, rfl, hfaulty⟩ | ⟨k, rfl, hhead, hat, hfaulty, hearlier⟩)
    · exact ⟨rfl, hfaulty, fun k hk => absurd hk (Nat.not_lt_zero k)⟩
    · refine ⟨hat, hfaulty, ?_⟩
      intro j hj before hbefore
      cases j with
      | zero =>
        obtain rfl : head = before := Option.some.inj hbefore
        exact hhead
      | succ j => exact hearlier j (Nat.lt_of_succ_lt_succ hj) before hbefore

/-! ## Reading the lines in order -/

section Lines

variable {first : Nat} {line : List Char} {rest : List (List Char)} {error : LoadError}

theorem mapM_byte_of_faulty (h : Faulty (code line)) :
    (entriesFrom first (line :: rest)).mapM Entry.byte =
      .error (.invalidLiteral first (String.ofList (code line))) := by
  obtain ⟨hne, hnone⟩ := faulty_iff_literal?.1 h
  rw [entriesFrom_cons, if_neg hne, List.mapM_cons, Entry.byte, hnone]
  rfl

/-- A blank line and a literal both leave it to the lines after them what goes wrong. -/
theorem mapM_byte_of_not_faulty (h : ¬ Faulty (code line)) :
    (entriesFrom first (line :: rest)).mapM Entry.byte = .error error ↔
      (entriesFrom (first + 1) rest).mapM Entry.byte = .error error := by
  rw [entriesFrom_cons]
  by_cases hne : code line = []
  · rw [if_pos hne]
  · obtain ⟨byte, hbyte⟩ := exists_literal_of_not_faulty hne h
    have hread : Entry.byte ⟨first, code line⟩ = .ok byte := Entry.byte_eq_ok_iff.2 hbyte
    rw [if_neg hne, List.mapM_cons, hread]
    cases (entriesFrom (first + 1) rest).mapM Entry.byte with
    | error refused => rfl
    | ok others => simp [bind, Except.bind, pure, Except.pure]

end Lines

/-- What is reported is the first faulty text, with the number of its line among all lines. -/
theorem mapM_byte_eq_error_iff {first : Nat} {lines : List (List Char)} {error : LoadError} :
    (entriesFrom first lines).mapM Entry.byte = .error error ↔
      ∃ index text, FirstFault (lines.map code) index text ∧
        error = .invalidLiteral (first + index) (String.ofList text) := by
  induction lines generalizing first with
  | nil =>
    constructor
    · intro h
      cases h
    · rintro ⟨index, text, hfirst, _⟩
      exact absurd hfirst.mem List.not_mem_nil
  | cons line rest ih =>
    rw [List.map_cons]
    simp only [firstFault_cons_iff]
    by_cases hfaulty : Faulty (code line)
    · rw [mapM_byte_of_faulty hfaulty]
      constructor
      · rintro ⟨⟩
        exact ⟨0, _, .inl ⟨rfl, rfl, hfaulty⟩, rfl⟩
      · rintro ⟨index, text, ⟨rfl, rfl, _⟩ | ⟨k, _, hnot, _⟩, rfl⟩
        · rfl
        · exact absurd hfaulty hnot
    · have hnumber : ∀ k, first + 1 + k = first + (k + 1) := Nat.add_right_comm first 1
      rw [mapM_byte_of_not_faulty hfaulty, ih]
      simp only [hnumber]
      constructor
      · rintro ⟨k, text, hfirst, rfl⟩
        exact ⟨k + 1, text, .inr ⟨k, rfl, hfaulty, hfirst⟩, rfl⟩
      · rintro ⟨index, text, ⟨_, _, hnot⟩ | ⟨k, rfl, _, hfirst⟩, rfl⟩
        · exact absurd hnot hfaulty
        · exact ⟨k, text, hfirst, rfl⟩

/-- Without a faulty text, and only then, every text that is not empty stands for a byte. -/
theorem exists_forall₂_literal_iff {texts : List (List Char)} :
    (∃ bytes, List.Forall₂ Literal (texts.filter (· ≠ [])) bytes) ↔
      ∀ text ∈ texts, ¬ Faulty text := by
  induction texts with
  | nil => simp
  | cons text rest ih =>
    rw [List.forall_mem_cons, ← ih]
    by_cases hne : text = []
    · subst hne
      simp [not_faulty_nil]
    · rw [List.filter_cons_of_pos (by simpa using hne)]
      constructor
      · rintro ⟨bytes, hbytes⟩
        cases hbytes with
        | cons hliteral hothers => exact ⟨not_faulty_of_literal hliteral, _, hothers⟩
      · rintro ⟨hnot, others, hothers⟩
        obtain ⟨byte, hbyte⟩ := exists_literal_of_not_faulty hne hnot
        exact ⟨byte :: others, .cons hbyte hothers⟩

theorem lineSays_self {text : List Char} (htight : WhiteSpace.Tight text) (hhash : '#' ∉ text) :
    LineSays text text := by
  have hnone : ∀ c ∈ ([] : List Char), WhiteSpace.isWhiteSpace c = true := fun c hc =>
    absurd hc List.not_mem_nil
  have hsays := LineSays.mk [] text [] [] hnone hnone htight hhash (.inl rfl)
  simpa using hsays

end Listing

namespace Program

open Listing

variable {listing : String} {error : LoadError}

theorem parse_eq_error_iff_mapM : parse listing = .error error ↔
    (entries listing.toList).mapM Entry.byte = .error error ∨
      ∃ bytes, (entries listing.toList).mapM Entry.byte = .ok bytes ∧ 256 < bytes.length ∧
        error = .tooLarge bytes.length := by
  rw [parse]
  cases (entries listing.toList).mapM Entry.byte with
  | error refused => simp [bind, Except.bind]
  | ok bytes =>
    by_cases hsize : bytes.length ≤ Memory.size
    · have hfits : ¬ 256 < bytes.length := Nat.not_lt.2 hsize
      simp [bind, Except.bind, hsize, hfits]
    · have hlarge : 256 < bytes.length := Nat.not_le.1 hsize
      simp [bind, Except.bind, hsize, hlarge, eq_comm]

theorem parse_eq_error_iff_rejected :
    parse listing = .error error ↔ Rejected ((lines listing.toList).map code) error := by
  have htexts : (entries listing.toList).map Entry.text =
      ((lines listing.toList).map code).filter (· ≠ []) := map_text_entriesFrom 1 _
  rw [parse_eq_error_iff_mapM]
  simp only [mapM_byte_eq_ok_iff, htexts]
  rw [entries, mapM_byte_eq_error_iff]
  constructor
  · rintro (⟨index, text, hfirst, rfl⟩ | ⟨bytes, hliterals, hlarge, rfl⟩)
    · rw [Nat.add_comm]
      exact .invalidLiteral hfirst
    · rw [← hliterals.length_eq] at hlarge ⊢
      exact .tooLarge (exists_forall₂_literal_iff.1 ⟨bytes, hliterals⟩) hlarge
  · rintro (hfirst | ⟨hnone, hlarge⟩)
    · exact .inl ⟨_, _, hfirst, by rw [Nat.add_comm]⟩
    · obtain ⟨bytes, hliterals⟩ := exists_forall₂_literal_iff.2 hnone
      rw [hliterals.length_eq] at hlarge ⊢
      exact .inr ⟨bytes, hliterals, hlarge, rfl⟩

/-- A faulty text is a listing of its own with the same fault. -/
theorem parse_of_faulty {text : List Char} (hfaulty : Faulty text)
    (htight : WhiteSpace.Tight text) (hhash : '#' ∉ text) (hunbroken : '\n' ∉ text) :
    parse (String.ofList text) = .error (.invalidLiteral 1 (String.ofList text)) := by
  have hlines : lines text = [text] := List.splitOn_eq_singleton hunbroken
  have hcode : code text = text := code_of_lineSays (lineSays_self htight hhash)
  have hfirst : FirstFault [text] 0 text := firstFault_cons_iff.2 (.inl ⟨rfl, rfl, hfaulty⟩)
  rw [parse_eq_error_iff_rejected, String.toList_ofList, hlines, List.map_singleton, hcode]
  exact .invalidLiteral hfirst

/-- If a line says something that is no literal, the first such line is reported, whatever stands
before and after it, and however many literals there are; if none does, the number of literals is
reported. What the reported line says can be shown in a message as it is, and is reported again when
it is read alone. -/
theorem parse_eq_error_iff (listing : String) :
    (∀ error, parse listing = .error error ↔ ∃ lines texts,
      DividedInto listing.toList lines ∧ List.Forall₂ LineSays lines texts ∧
        Rejected texts error) ∧
    ∀ line text, parse listing = .error (.invalidLiteral line text) →
      text.toList ≠ [] ∧ '#' ∉ text.toList ∧ '\n' ∉ text.toList ∧
        WhiteSpace.Tight text.toList ∧ parse text = .error (.invalidLiteral 1 text) := by
  refine ⟨?_, ?_⟩
  · intro error
    simp only [dividedInto_iff, forall₂_lineSays_iff]
    rw [parse_eq_error_iff_rejected]
    constructor
    · intro hrejected
      exact ⟨_, _, rfl, rfl, hrejected⟩
    · rintro ⟨_, _, rfl, rfl, hrejected⟩
      exact hrejected
  · intro number reported hparse
    cases parse_eq_error_iff_rejected.1 hparse with
    | @invalidLiteral _ text hfirst =>
      obtain ⟨line, hline, hcode⟩ := List.mem_map.1 hfirst.mem
      have hunbroken : '\n' ∉ line := newline_not_mem_lines _ line hline
      -- the text is a part of the line it is on, so it has what that line has
      cases lineSays_iff.2 hcode with
      | mk left _ right comment _ _ htight hhash _ =>
        have hnewline : '\n' ∉ text := by
          intro hmem
          apply hunbroken
          exact List.mem_append_left _ (List.mem_append_left _ (List.mem_append_right _ hmem))
        rw [String.toList_ofList]
        exact ⟨hfirst.faulty.1, hhash, hnewline, htight,
          parse_of_faulty hfirst.faulty htight hhash hnewline⟩

/-- As many literals as one likes, and a last line. -/
def onesThen (n : Nat) (last : List Char) : List (List Char) :=
  List.replicate n ['1'] ++ [last]

theorem dividedInto_onesThen (n : Nat) {last : List Char} (h : '\n' ∉ last) :
    DividedInto (['\n'].intercalate (onesThen n last)) (onesThen n last) := by
  refine ⟨List.append_ne_nil_of_right_ne_nil _ (List.cons_ne_nil last []), rfl, ?_⟩
  intro line hline
  rcases List.mem_append.1 hline with hline | hline
  · rw [List.eq_of_mem_replicate hline]
    decide
  · rwa [List.mem_singleton.1 hline]

theorem forall₂_lineSays_onesThen (n : Nat) (last : List Char) :
    List.Forall₂ LineSays (onesThen n last) (onesThen n (code last)) := by
  have hone : code ['1'] = ['1'] := by decide
  rw [forall₂_lineSays_iff, onesThen, List.map_append, List.map_replicate, hone]
  rfl

theorem not_faulty_one : ¬ Faulty ['1'] := by
  rw [faulty_iff_literal?]
  decide

theorem rejected_onesThen_nil {n : Nat} (h : 256 < n) :
    Rejected (onesThen n []) (.tooLarge n) := by
  have hliterals : (onesThen n []).filter (· ≠ []) = List.replicate n ['1'] := by
    simp [onesThen]
  have hnone : ∀ text ∈ onesThen n [], ¬ Faulty text := by
    intro text htext
    rcases List.mem_append.1 htext with htext | htext
    · rw [List.eq_of_mem_replicate htext]
      exact not_faulty_one
    · rw [List.mem_singleton.1 htext]
      exact not_faulty_nil
  have hlarge := Rejected.tooLarge hnone
  rw [hliterals, List.length_replicate] at hlarge
  exact hlarge h

theorem rejected_onesThen_of_faulty (n : Nat) {text : List Char} (h : Faulty text) :
    Rejected (onesThen n text) (.invalidLiteral (n + 1) (String.ofList text)) := by
  refine .invalidLiteral ⟨?_, h, ?_⟩
  · simp [onesThen]
  · intro k hk before hbefore
    rw [onesThen, List.getElem?_append_left (by simpa using hk), List.getElem?_replicate,
      if_pos hk] at hbefore
    cases hbefore
    exact not_faulty_one

/-- More literals than fit are counted; with a line after them that is no literal, that line is
reported, without its comment. -/
theorem parse_eq_error_iff_onesThen :
    parse (String.ofList (['\n'].intercalate (onesThen 300 []))) = .error (.tooLarge 300) ∧
      parse (String.ofList (['\n'].intercalate (onesThen 300 " 12 # x".toList))) =
        .error (.invalidLiteral 301 "12") ∧
      parse "12" = .error (.invalidLiteral 1 "12") := by
  have hread : ∀ last, '\n' ∉ last → ∀ error, Rejected (onesThen 300 (code last)) error →
      parse (String.ofList (['\n'].intercalate (onesThen 300 last))) = .error error := by
    intro last hunbroken error hrejected
    have hdivided := dividedInto_onesThen 300 hunbroken
    rw [← String.toList_ofList (l := ['\n'].intercalate (onesThen 300 last))] at hdivided
    exact ((parse_eq_error_iff _).1 error).2
      ⟨_, _, hdivided, forall₂_lineSays_onesThen 300 last, hrejected⟩
  have hfaulty : Faulty ['1', '2'] := by
    rw [faulty_iff_literal?]
    decide
  have hcode : code " 12 # x".toList = ['1', '2'] := by decide
  have hfirst := hread " 12 # x".toList (by decide) (.invalidLiteral 301 "12")
    (hcode ▸ rejected_onesThen_of_faulty 300 hfaulty)
  refine ⟨hread [] List.not_mem_nil _ (rejected_onesThen_nil (by decide)), hfirst, ?_⟩
  exact ((parse_eq_error_iff _).2 301 "12" hfirst).2.2.2.2

end Program

end Ls8
