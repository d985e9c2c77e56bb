import Ls8.Proofs.History
import Ls8.Proofs.Lockstep

/-!
# What the output tells

Only prints write to the output, and each writes one line. Main statement: whatever is asked of a
machine whose sink takes everything, what that gains is a line of decimal digits for each value
printed, in the order of the prints, from which the values can be read back
(`output_records_prints`).
-/

namespace Ls8

/-- The number that digits write in decimal, without a zero in front of others. -/
def Numeral.decimal? (digits : List Char) : Option Nat :=
  if digits ≠ [] ∧ digits.all Char.isDigit ∧ (digits.head? = some '0' → digits.length = 1) then
    some (Nat.ofDigitChars 10 digits 0)
  else none

/-- The value that an event prints, if it prints. -/
def Event.printed : Event → Option UInt8
  | executed c i => i.printed c.registers
  | loaded _ | wrote _ _ => none

/-- The values that were printed, in the order in which they were. The latest event comes first. -/
def printedValues (events : List Event) : List UInt8 :=
  events.reverse.filterMap Event.printed

/-- What shows values, a line for each: its decimal digits and a newline. -/
def printout (values : List UInt8) : List Char :=
  values.flatMap fun value => (toString value.toNat).toList ++ ['\n']

/-! ## Reading values back -/

namespace Numeral

theorem head?_toDigits_ne {n : Nat} (h : 0 < n) : (Nat.toDigits 10 n).head? ≠ some '0' := by
  induction n using Nat.strongRecOn with
  | ind n ih =>
    by_cases hlt : n < 10
    · have hdigit : ∀ d < 10, 0 < d → [Nat.digitChar d].head? ≠ some '0' := by decide
      rw [Nat.toDigits_of_lt_base hlt]
      exact hdigit n hlt h
    · have hle := Nat.not_lt.1 hlt
      have hfront := ih (n / 10) (Nat.div_lt_self h (by decide)) (Nat.div_pos hle (by decide))
      obtain ⟨first, rest, hdigits⟩ :=
        List.exists_cons_of_ne_nil (Nat.toDigits_ne_nil (n := n / 10) (b := 10))
      rw [Nat.toDigits_of_base_le (by decide) hle]
      rw [hdigits] at hfront ⊢
      exact hfront

/-- A number is read back from its decimal digits. -/
theorem decimal?_toString (n : Nat) : decimal? (toString n).toList = some n := by
  rw [Nat.toString_eq_ofList_toDigits, String.toList_ofList, decimal?, if_pos,
    Nat.ofDigitChars_ten_toDigits]
  refine ⟨Nat.toDigits_ne_nil, ?_, ?_⟩
  · rw [List.all_eq_true]
    exact fun c => Nat.isDigit_of_mem_toDigits (by decide) (by decide)
  · intro hzero
    cases n with
    | zero => rw [Nat.toDigits_zero, List.length_singleton]
    | succ n => exact absurd hzero (head?_toDigits_ne (Nat.succ_pos n))

theorem newline_not_mem_toString (n : Nat) : '\n' ∉ (toString n).toList := by
  rw [Nat.toString_eq_ofList_toDigits, String.toList_ofList]
  intro hmem
  have hdigit : '\n'.isDigit = true := Nat.isDigit_of_mem_toDigits (by decide) (by decide) hmem
  cases hdigit

end Numeral

theorem printout_cons (value : UInt8) (rest : List UInt8) :
    printout (value :: rest) = (toString value.toNat).toList ++ '\n' :: printout rest := by
  rw [printout, List.flatMap_cons, List.append_assoc]
  rfl

/-- The pieces between the newlines are the numerals of the values, and nothing follows the last. -/
theorem splitOn_printout (values : List UInt8) : (printout values).splitOn '\n' =
    values.map (fun value => (toString value.toNat).toList) ++ [[]] := by
  induction values with
  | nil => rfl
  | cons value rest ih =>
    have hline : (toString value.toNat).toList.splitOn '\n' = [(toString value.toNat).toList] :=
      List.splitOn_eq_singleton (Numeral.newline_not_mem_toString _)
    rw [printout_cons, List.splitOn_append_cons_self, hline, ih]
    rfl

theorem map_decimal?_toString (values : List UInt8) :
    (values.map fun value => (toString value.toNat).toList).map Numeral.decimal? =
      values.map fun value => some value.toNat := by
  rw [List.map_map]
  exact List.map_congr_left fun value _ => Numeral.decimal?_toString _

theorem printout_inj {first second : List UInt8} (h : printout first = printout second) :
    first = second := by
  have hpieces := congrArg (List.splitOn '\n') h
  rw [splitOn_printout, splitOn_printout, List.append_cancel_right_eq] at hpieces
  have hnumbers := congrArg (List.map Numeral.decimal?) hpieces
  rw [map_decimal?_toString, map_decimal?_toString] at hnumbers
  refine (List.map_inj_right ?_).1 hnumbers
  intro a b hab
  exact UInt8.toNat_inj.1 (Option.some.inj hab)

/-! ## What a machine prints -/

theorem printedValues_cons (event : Event) (earlier : List Event) :
    printedValues (event :: earlier) = printedValues earlier ++ event.printed.toList := by
  rw [printedValues, List.reverse_cons, List.filterMap_append]
  cases hprinted : event.printed <;> simp [hprinted, printedValues]

/-- The lines of values, as bytes. -/
def lineBytes (values : List UInt8) : List UInt8 :=
  values.flatMap Numeral.decimalLine

theorem map_lineBytes (values : List UInt8) :
    (lineBytes values).map Char.ofUInt8 = printout values := by
  simp only [lineBytes, List.map_flatMap, printout, Numeral.map_decimalLine]

theorem lineBytes_append_toList (values : List UInt8) (printed : Option UInt8) :
    lineBytes (values ++ printed.toList) = lineBytes values ++ Machine.text printed := by
  rw [lineBytes, List.flatMap_append]
  cases printed <;> simp [Machine.text, lineBytes]

/-- The output has gained the lines of what was printed since the start, and nothing else. -/
def History.Recorded (start : Machine) (h : History) : Prop :=
  h.machine.out = start.out.gain (lineBytes (printedValues h.events))

namespace History.Recorded

variable {start : Machine} {h : History}

theorem refl (start : Machine) : Recorded start (.start start) :=
  (Sink.gain_nil _).symm

/-- What happens without a print changes neither the output nor what was printed. -/
theorem of_silent {next : Machine} {event : Event} (hP : Recorded start h)
    (hout : next.out = h.machine.out) (hsilent : event.printed = none) :
    Recorded start ⟨next, event :: h.events⟩ := by
  rw [Recorded, printedValues_cons, hsilent, Option.toList_none, List.append_nil]
  exact hout.trans hP

theorem fits (hlimit : start.out.limit = none) (hP : Recorded start h) (line : List UInt8) :
    h.machine.out.fits line = true := by
  refine Sink.fits_of_limit_eq_none ?_ line
  rw [hP, Sink.limit_gain, hlimit]

theorem executed (hlimit : start.out.limit = none) (i : Instruction) (next : Machine)
    (hP : Recorded start h) (hi : h.machine.memory.HoldsAt h.machine.pc i.encode)
    (hstep : h.machine.step = .ok next) :
    Recorded start ⟨next, .executed h.machine.toCpu i :: h.events⟩ := by
  rw [Recorded, printedValues_cons, lineBytes_append_toList, ← Sink.gain_gain, ← hP]
  exact (Machine.out_of_step hstep hi).trans (Sink.put_of_fits (hP.fits hlimit _))

theorem failed (hlimit : start.out.limit = none) (failure : Failure) (hP : Recorded start h)
    (hstep : h.machine.step = .error failure) : Recorded start ⟨failure.machine, h.events⟩ := by
  rcases Machine.step_eq_error hstep with ⟨_, rfl⟩ | ⟨_, ⟨_, hmachine⟩ | ⟨i, _, hfull, _⟩⟩
  · exact hP
  · rw [hmachine]
    exact hP
  · rw [hP.fits hlimit] at hfull
    cases hfull

theorem calls {asked : List Call} (hlimit : start.out.limit = none)
    (hcalls : (History.start start).calls asked = some h) : Recorded start h := by
  refine History.invariant (fun _ => executed hlimit) (fun _ => failed hlimit) ?_ ?_ hcalls
    (refl start)
  · intro h bytes next _ hP hload
    obtain ⟨_, rfl⟩ := Machine.load_eq_ok hload
    exact hP.of_silent rfl rfl
  · intro h address value _ hP
    exact hP.of_silent rfl rfl

/-- It is so too part of the way through a run, which need not end. -/
theorem stepUpTo (hlimit : start.out.limit = none) (hP : Recorded start h) (n : Nat) :
    Recorded start ⟨(h.machine.stepUpTo n).machine, h.machine.executedUpTo n ++ h.events⟩ :=
  History.stepUpTo_preserves (fun _ => executed hlimit) (fun _ => failed hlimit) n hP

theorem since_eq (hP : Recorded start h) :
    h.machine.out.since start.out = lineBytes (printedValues h.events) := by
  rw [hP, Sink.since_gain]

theorem map_since_eq (hP : Recorded start h) :
    (h.machine.out.since start.out).map Char.ofUInt8 = printout (printedValues h.events) := by
  rw [hP.since_eq, map_lineBytes]

end History.Recorded

namespace Machine

variable {start : Machine} {asked : List Call} {h : History}

/-- Whatever is asked of a machine whose sink takes everything, and whatever that comes to, the output
only grows at its end. What it gains are the decimal digits, without zeros in front, of the value of
each print that succeeded and a newline after them, in the order of the prints; in a run this is so
after every step. Between the newlines these values can be read, so what was gained is the same just
when the values are. -/
theorem output_records_prints (hlimit : start.out.limit = none)
    (hcalls : (History.start start).calls asked = some h) :
    h.machine.out.taken.toList = start.out.taken.toList ++ h.machine.out.since start.out ∧
    (h.machine.out.since start.out).map Char.ofUInt8 = printout (printedValues h.events) ∧
    (∀ n, ((h.machine.stepUpTo n).machine.out.since start.out).map Char.ofUInt8 =
      printout (printedValues (h.machine.executedUpTo n ++ h.events))) ∧
    (∃ pieces : List (List Char),
      ((h.machine.out.since start.out).map Char.ofUInt8).splitOn '\n' = pieces ++ [[]] ∧
      pieces.map Numeral.decimal? = (printedValues h.events).map fun value => some value.toNat) ∧
    ∀ {start' : Machine} {asked' : List Call} {h' : History}, start'.out.limit = none →
      (History.start start').calls asked' = some h' →
      (h.machine.out.since start.out = h'.machine.out.since start'.out ↔
        printedValues h.events = printedValues h'.events) := by
  have hrecorded := History.Recorded.calls hlimit hcalls
  refine ⟨?_, hrecorded.map_since_eq, ?_, ⟨_, ?_, map_decimal?_toString _⟩, ?_⟩
  · rw [hrecorded.since_eq, hrecorded, Sink.toList_taken_gain]
  · intro n
    exact (hrecorded.stepUpTo hlimit n).map_since_eq
  · rw [hrecorded.map_since_eq, splitOn_printout]
  · intro start' asked' h' hlimit' hcalls'
    have hrecorded' := History.Recorded.calls hlimit' hcalls'
    constructor
    · intro hsame
      apply printout_inj
      rw [← hrecorded.map_since_eq, hsame, hrecorded'.map_since_eq]
    · intro hsame
      rw [hrecorded.since_eq, hrecorded'.since_eq, hsame]

/-- Prints a value of three digits, then zero, and has no instruction after that. -/
def twoPrints : List UInt8 :=
  [0b10000010, 0, 200, 0b01000111, 0, 0b10000010, 0, 0, 0b01000111, (0 : UInt8)]

/-- A run that fails, a print written behind the program, and a load that is refused. -/
def twoPrintsCalls : List Call :=
  [.load twoPrints, .run, .write 10 0b01000111, .step, .load (List.replicate 257 0), .step]

/-- A machine of which this has been asked. -/
def twoPrinted : History :=
  (History.start new).after twoPrintsCalls

theorem output_records_prints_twoPrinted :
    (History.start new).calls twoPrintsCalls = some twoPrinted ∧
      printedValues twoPrinted.events = [200, 0, 0] ∧
      (twoPrinted.machine.out.since new.out).map Char.ofUInt8 = "200\n0\n0\n".toList := by
  have hcalls : (History.start new).calls twoPrintsCalls = some twoPrinted :=
    History.calls_eq_after (by decide +kernel)
  have hvalues : printedValues twoPrinted.events = [200, 0, 0] := by decide +kernel
  obtain ⟨_, htext, _⟩ := output_records_prints rfl hcalls
  refine ⟨hcalls, hvalues, ?_⟩
  rw [htext, hvalues]
  decide +kernel

end Machine

end Ls8
