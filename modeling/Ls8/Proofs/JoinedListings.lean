import Ls8.Proofs.RejectedListing

/-!
# Listings one after the other

Two listings joined by a newline. No line reaches from the one into the other, so each of them says
what it says alone; only the lines of the second have moved down, and the literals of both share one
memory. Main statement: what the whole comes to follows from what its parts come to
(`parse_join_eq_iff`).
-/

namespace Ls8

namespace Program

/-- What reading a listing comes to. -/
abbrev Reading := Except LoadError Program

/-- A listing without a faulty line has so many literals, by what reading it comes to. -/
inductive Reading.Counts : Reading → Nat → Prop
  | read (p : Program) : Counts (.ok p) p.size
  | tooLarge (size : Nat) : Counts (.error (.tooLarge size)) size

/-- What two listings come to, one after the other, when the second starts so many lines further
down than it would alone: the first fault there is, or else the literals of both, if they fit. -/
inductive Reading.Joined (lines : Nat) : Reading → Reading → Reading → Prop
  | firstFault {second : Reading} {line : Nat} {text : String} :
      Joined lines (.error (.invalidLiteral line text)) second
        (.error (.invalidLiteral line text))
  | secondFault {first : Reading} {count line : Nat} {text : String} : first.Counts count →
      Joined lines first (.error (.invalidLiteral line text))
        (.error (.invalidLiteral (line + lines) text))
  | tooLarge {first second : Reading} {a b : Nat} : first.Counts a → second.Counts b →
      256 < a + b → Joined lines first second (.error (.tooLarge (a + b)))
  | read {p q : Program} : p.size + q.size ≤ 256 →
      Joined lines (.ok p) (.ok q) (.ok ⟨p.bytes ++ q.bytes⟩)

theorem Reading.Counts.unique {reading : Reading} {a b : Nat} (h : reading.Counts a)
    (h' : reading.Counts b) : a = b := by
  cases h <;> cases h' <;> rfl

/-- What two listings come to alone leaves nothing open of what they come to together. -/
theorem Reading.Joined.unique {lines : Nat} {first second whole other : Reading}
    (h : Joined lines first second whole) (h' : Joined lines first second other) :
    whole = other := by
  cases h with
  | firstFault =>
    cases h' with
    | firstFault => rfl
    | secondFault hfirst => cases hfirst
    | tooLarge hfirst _ _ => cases hfirst
  | secondFault hfirst =>
    cases h' with
    | firstFault => cases hfirst
    | secondFault _ => rfl
    | tooLarge _ hsecond _ => cases hsecond
  | tooLarge hfirst hsecond hlarge =>
    cases h' with
    | firstFault => cases hfirst
    | secondFault _ => cases hsecond
    | tooLarge hfirst' hsecond' _ => rw [hfirst.unique hfirst', hsecond.unique hsecond']
    | read hfits =>
      cases hfirst
      cases hsecond
      exact absurd hfits (Nat.not_le_of_lt hlarge)
  | read hfits =>
    cases h' with
    | tooLarge hfirst hsecond hlarge =>
      cases hfirst
      cases hsecond
      exact absurd hfits (Nat.not_le_of_lt hlarge)
    | read _ => rfl

end Program

namespace Listing

/-- There is one more line than there are newlines. -/
theorem length_lines (chars : List Char) : (lines chars).length = chars.count '\n' + 1 := by
  induction chars with
  | nil => rfl
  | cons c rest ih =>
    rw [lines] at ih ⊢
    rw [List.splitOn_cons_eq_if_modifyHead, List.count_cons]
    by_cases hc : c = '\n'
    · simp [hc, ih]
    · simp [hc, ih]

theorem entries_join (first second : List Char) : entries (first ++ '\n' :: second) =
    entries first ++ entriesFrom (1 + (first.count '\n' + 1)) (lines second) := by
  rw [entries, lines_join, entriesFrom_append, length_lines, entries]

/-- The bytes of literals are the same wherever their lines stand. -/
theorem mapM_byte_of_moved {first later : Nat} {lines : List (List Char)} {bytes : List UInt8}
    (h : (entriesFrom first lines).mapM Entry.byte = .ok bytes) :
    (entriesFrom later lines).mapM Entry.byte = .ok bytes := by
  rw [mapM_byte_eq_ok_iff, map_text_entriesFrom] at h ⊢
  exact h

/-- A fault is reported with a number that moves down with its line. -/
theorem mapM_byte_error_of_moved {first line count : Nat} {lines : List (List Char)}
    {text : String}
    (h : (entriesFrom first lines).mapM Entry.byte = .error (.invalidLiteral line text)) :
    (entriesFrom (first + count) lines).mapM Entry.byte =
      .error (.invalidLiteral (line + count) text) := by
  obtain ⟨index, fault, hfirst, heq⟩ := mapM_byte_eq_error_iff.1 h
  cases heq
  rw [mapM_byte_eq_error_iff]
  exact ⟨index, fault, hfirst, by rw [Nat.add_right_comm]⟩

end Listing

namespace Program

open Listing

variable {listing : String}

/-- A listing with a fault is refused for it. -/
theorem exists_fault_of_mapM_error {error : LoadError}
    (h : (entries listing.toList).mapM Entry.byte = .error error) :
    parse listing = .error error ∧ ∃ line text, error = .invalidLiteral line text := by
  obtain ⟨index, fault, _, rfl⟩ := mapM_byte_eq_error_iff.1 h
  exact ⟨parse_eq_error_iff_mapM.2 (.inl h), _, _, rfl⟩

theorem parse_of_mapM_ok {bytes : List UInt8}
    (h : (entries listing.toList).mapM Entry.byte = .ok bytes) : parse listing =
      if bytes.length ≤ 256 then .ok ⟨bytes⟩ else .error (.tooLarge bytes.length) := by
  rw [parse, h]
  rfl

theorem counts_of_mapM_ok {bytes : List UInt8}
    (h : (entries listing.toList).mapM Entry.byte = .ok bytes) :
    Reading.Counts (parse listing) bytes.length := by
  rw [parse_of_mapM_ok h]
  split
  · exact .read ⟨bytes⟩
  · exact .tooLarge bytes.length

theorem joined_parse (first second : String) :
    Reading.Joined (first.toList.count '\n' + 1) (parse first) (parse second)
      (parse (first ++ "\n" ++ second)) := by
  have hchars : (first ++ "\n" ++ second).toList = first.toList ++ '\n' :: second.toList := by
    simp
  have hentries := entries_join first.toList second.toList
  rw [← hchars] at hentries
  have hjoin := congrArg (List.mapM Entry.byte) hentries
  rw [List.mapM_append] at hjoin
  cases hfirst : (entries first.toList).mapM Entry.byte with
  | error error =>
    obtain ⟨hparse, line, text, rfl⟩ := exists_fault_of_mapM_error hfirst
    rw [hfirst] at hjoin
    rw [hparse, (exists_fault_of_mapM_error hjoin).1]
    exact .firstFault
  | ok bytes =>
    have hcounts := counts_of_mapM_ok hfirst
    cases hsecond : (entries second.toList).mapM Entry.byte with
    | error error =>
      obtain ⟨hparse, line, text, rfl⟩ := exists_fault_of_mapM_error hsecond
      rw [hfirst, mapM_byte_error_of_moved hsecond] at hjoin
      rw [hparse, (exists_fault_of_mapM_error hjoin).1]
      exact .secondFault hcounts
    | ok others =>
      rw [hfirst, mapM_byte_of_moved hsecond] at hjoin
      have hboth := parse_of_mapM_ok hjoin
      rw [List.length_append] at hboth
      rw [hboth]
      by_cases hfits : bytes.length + others.length ≤ 256
      · have hshort : bytes.length ≤ 256 := Nat.le_trans (Nat.le_add_right _ _) hfits
        have hshort' : others.length ≤ 256 := Nat.le_trans (Nat.le_add_left _ _) hfits
        rw [if_pos hfits, parse_of_mapM_ok hfirst, if_pos hshort, parse_of_mapM_ok hsecond,
          if_pos hshort']
        exact .read (p := ⟨bytes⟩) (q := ⟨others⟩) hfits
      · rw [if_neg hfits]
        exact .tooLarge hcounts (counts_of_mapM_ok hsecond) (Nat.lt_of_not_le hfits)

/-- Two listings joined by a newline come to the first fault of the first one; or else to that of the
second one, as many lines further down as the first one has; or else to the bytes of both, if there
are no more than memory has. -/
theorem parse_join_eq_iff (first second : String) (whole : Reading) :
    parse (first ++ "\n" ++ second) = whole ↔
      Reading.Joined (first.toList.count '\n' + 1) (parse first) (parse second) whole := by
  constructor
  · rintro rfl
    exact joined_parse first second
  · exact (joined_parse first second).unique

end Program

end Ls8
