import Ls8.Proofs.FailedStep
import Ls8.Proofs.RunEnding

/-!
# Output that is cut off

Two machines that are the same but for their sinks: one takes any number of bytes, the other has a
limit. Main statement: they do the same until a line is too long for the limit, and at that line the
limited machine stops, having printed just what the limit lets through (`limit_cuts_short`).
-/

namespace Ls8

/-- The machine that a step leaves, whatever the step comes to. -/
def Machine.stepped (m : Machine) : Machine :=
  m.step.machine

/-- The machine is about to print a line of more than `room` bytes. -/
def Machine.Overflows (m : Machine) (room : Nat) : Prop :=
  m.halted = false ∧ ∃ a : Register, m.memory.HoldsAt m.pc (Instruction.prn a).encode ∧
    room < (Numeral.decimalLine (m.register a)).length

/-- Two machines that differ in their sinks only. Both have printed the same; one prints as much as
it likes, the other up to `limit` bytes in all. -/
structure Machine.Twins (limit : Nat) (free limited : Machine) : Prop where
  toCpu_eq : limited.toCpu = free.toCpu
  taken_eq : limited.out.taken = free.out.taken
  free_limit : free.out.limit = none
  limited_limit : limited.out.limit = some limit
  size_le : free.out.taken.size ≤ limit

/-- What a limit makes of an outcome: nothing if all that was printed is within the limit, and else a
failure with as much printed as the limit lets through. -/
structure Outcome.CutShort (limit : Nat) (free limited : Outcome) : Prop where
  kept : free.machine.out.taken.size ≤ limit →
    limited.error? = free.error? ∧ Machine.Twins limit free.machine limited.machine
  cut : limit < free.machine.out.taken.size → ∃ left, limited = .error ⟨.output .full, left⟩ ∧
    left.out.taken.toList = free.machine.out.taken.toList.take limit

namespace Outcome

variable {limit : Nat} {free limited : Outcome}

theorem CutShort.of_kept (herror : limited.error? = free.error?)
    (h : Machine.Twins limit free.machine limited.machine) : CutShort limit free limited where
  kept := fun _ => ⟨herror, h⟩
  cut := fun hlt => absurd h.size_le (Nat.not_le.2 hlt)

theorem CutShort.of_cut {left : Machine} (hlt : limit < free.machine.out.taken.size)
    (htaken : left.out.taken.toList = free.machine.out.taken.toList.take limit) :
    CutShort limit free (.error ⟨.output .full, left⟩) where
  kept := fun hle => absurd hle (Nat.not_le.2 hlt)
  cut := fun _ => ⟨left, rfl, htaken⟩

theorem CutShort.ended_iff (h : CutShort limit free limited)
    (hle : free.machine.out.taken.size ≤ limit) : limited.Ended ↔ free.Ended := by
  obtain ⟨herror, htwins⟩ := h.kept hle
  exact ended_iff_of_eq herror htwins.toCpu_eq

theorem CutShort.ended (h : CutShort limit free limited) (hended : free.Ended) :
    limited.Ended := by
  rcases Nat.lt_or_ge limit free.machine.out.taken.size with hlt | hle
  · obtain ⟨left, rfl, _⟩ := h.cut hlt
    exact True.intro
  · exact (h.ended_iff hle).2 hended

end Outcome

namespace Machine

open Outcome (CutShort)

/-! ## Steps after the end -/

/-- A machine that has ended is changed by no further step. -/
theorem machine_stepUpTo (n : Nat) : ∀ m : Machine, (m.stepUpTo n).machine = stepped^[n] m := by
  induction n with
  | zero =>
    intro m
    rfl
  | succ n ih =>
    intro m
    rw [Function.iterate_succ_apply]
    cases hhalted : m.halted with
    | true =>
      have hfixed : stepped m = m := congrArg Outcome.machine (step_of_halted hhalted)
      rw [stepUpTo_of_halted hhalted, hfixed, Function.iterate_fixed hfixed]
      rfl
    | false =>
      rw [stepUpTo_succ hhalted, stepped]
      cases hstep : m.step with
      | error failure =>
        have hfixed : stepped failure.machine = failure.machine :=
          congrArg Outcome.machine (step_again hstep)
        exact (Function.iterate_fixed hfixed n).symm
      | ok next => exact ih next

theorem taken_isPrefix_stepUpTo (m : Machine) (n : Nat) :
    m.out.taken.toList <+: (m.stepUpTo n).machine.out.taken.toList := by
  refine stepUpTo_preserves (P := fun later => m.out.taken.toList <+: later.out.taken.toList) ?_ n m
    List.prefix_rfl
  intro later hlater
  exact hlater.trans later.taken_isPrefix_step

section Twins

variable {limit : Nat} {free limited : Machine}

/-! ## Printing a line -/

theorem Twins.room_limited (h : Twins limit free limited) :
    limited.out.room = some (limit - limited.out.taken.size) := by
  rw [Sink.room, h.limited_limit]
  rfl

/-- A line that the limit leaves room for is printed by both. -/
theorem Twins.print_of_le (h : Twins limit free limited) {line : List UInt8} (next : Cpu)
    (hle : line.length ≤ limit - limited.out.taken.size) :
    (limited.print line next).error? = (free.print line next).error? ∧
      Twins limit (free.print line next).machine (limited.print line next).machine := by
  have hfits : limited.out.fits line = true := by
    rw [Sink.fits_iff]
    intro room hroom
    rw [h.room_limited] at hroom
    cases hroom
    exact hle
  rw [print_of_limitless h.free_limit, print, if_pos hfits, Sink.put_of_fits hfits]
  refine ⟨rfl, rfl, ?_, h.free_limit, h.limited_limit, ?_⟩
  · show limited.out.taken ++ line = free.out.taken ++ line
    rw [h.taken_eq]
  · have hsize := h.size_le
    rw [h.taken_eq] at hle
    rw [Outcome.machine, Sink.size_taken_gain]
    omega

/-- A longer line is printed up to the limit. -/
theorem Twins.print_of_lt (h : Twins limit free limited) {line : List UInt8} (next : Cpu)
    (hlt : limit - limited.out.taken.size < line.length) :
    limit < (free.out.gain line).taken.size ∧ ∃ left,
      limited.print line next = .error ⟨.output .full, left⟩ ∧ left.toCpu = limited.toCpu ∧
      left.out.taken.toList = (free.out.gain line).taken.toList.take limit := by
  have hfull : limited.out.fits line = false := Sink.not_fits_iff.2 ⟨_, h.room_limited, hlt⟩
  have hput : limited.out.put line = limited.out.gain (line.take (limit - limited.out.taken.size)) :=
    Sink.put_of_room_eq_some h.room_limited
  have hsize := h.size_le
  refine ⟨?_, { limited with out := limited.out.put line }, ?_, rfl, ?_⟩
  · rw [h.taken_eq] at hlt
    rw [Sink.size_taken_gain]
    omega
  · rw [print, if_neg (Bool.eq_false_iff.1 hfull)]
  · have hwhole : free.out.taken.toList.take limit = free.out.taken.toList :=
      List.take_of_length_le (Array.length_toList.trans_le hsize)
    rw [hput, Sink.toList_taken_gain, Sink.toList_taken_gain, h.taken_eq, List.take_append, hwhole,
      Array.length_toList]

/-! ## A step -/

/-- What a step offers to the sink is no longer than a line that the machine is about to print. -/
theorem length_text_le {room : Nat} {next : Cpu} {printed : Option UInt8}
    (hstep : free.toCpu.step = .ok (next, printed)) (h : ¬ free.Overflows room) :
    (text printed).length ≤ room := by
  obtain ⟨hactive, i, hdecode, _, rfl⟩ := Cpu.step_eq_ok_iff.1 hstep
  apply Nat.le_of_not_lt
  intro hlt
  cases i with
  | prn a => exact h ⟨hactive, a, Cpu.decode_eq_ok_iff.1 hdecode, hlt⟩
  | _ => exact absurd hlt (Nat.not_lt_zero room)

theorem Twins.step_of_not_overflows (h : Twins limit free limited)
    (hroom : ¬ free.Overflows (limit - limited.out.taken.size)) :
    limited.step.error? = free.step.error? ∧ Twins limit free.step.machine limited.step.machine := by
  rw [step_eq, step_eq, h.toCpu_eq]
  cases hstep : free.toCpu.step with
  | error error => exact ⟨rfl, h⟩
  | ok done =>
    obtain ⟨next, printed⟩ := done
    rw [follow_ok, follow_ok]
    exact h.print_of_le next (length_text_le hstep hroom)

theorem Twins.step_of_overflows (h : Twins limit free limited)
    (hover : free.Overflows (limit - limited.out.taken.size)) :
    ∃ next left, free.step = .ok next ∧ limit < next.out.taken.size ∧
      limited.step = .error ⟨.output .full, left⟩ ∧ left.toCpu = free.toCpu ∧
      left.out.taken.toList = next.out.taken.toList.take limit := by
  obtain ⟨hactive, a, hprn, hlt⟩ := hover
  have hstep : free.toCpu.step = .ok (free.toCpu.advance .prn, some (free.register a)) :=
    Cpu.step_eq_ok_iff.2 ⟨hactive, .prn a, Cpu.decode_eq_ok_iff.2 hprn, rfl, rfl⟩
  have hfree := print_of_limitless h.free_limit (Numeral.decimalLine (free.register a))
    (free.toCpu.advance .prn)
  obtain ⟨hlimit, left, hlimited, hcpu, htaken⟩ := h.print_of_lt (free.toCpu.advance .prn) hlt
  rw [step_eq, step_eq, h.toCpu_eq, hstep, follow_ok, follow_ok]
  exact ⟨_, left, hfree, hlimit, hlimited, hcpu.trans h.toCpu_eq, htaken⟩

/-! ## Any number of steps -/

/-- Steps after the cut add to what the free machine has printed, but not within the limit. -/
theorem cutShort_stepUpTo {next left : Machine} (hlt : limit < next.out.taken.size)
    (htaken : left.out.taken.toList = next.out.taken.toList.take limit) (n : Nat) :
    CutShort limit (next.stepUpTo n) (.error ⟨.output .full, left⟩) := by
  obtain ⟨more, hmore⟩ := next.taken_isPrefix_stepUpTo n
  have hle : limit ≤ next.out.taken.toList.length := by
    rw [Array.length_toList]
    exact Nat.le_of_lt hlt
  apply CutShort.of_cut
  · rw [← Array.length_toList, ← hmore, List.length_append, Array.length_toList]
    omega
  · rw [htaken, ← hmore, List.take_append_of_le_length hle]

theorem stepUpTo_cutShort (n : Nat) : ∀ {free limited : Machine}, Twins limit free limited →
    CutShort limit (free.stepUpTo n) (limited.stepUpTo n) := by
  induction n with
  | zero =>
    intro free limited h
    exact .of_kept rfl h
  | succ n ih =>
    intro free limited h
    have hhalted : limited.halted = free.halted := congrArg Cpu.halted h.toCpu_eq
    cases hactive : free.halted with
    | true =>
      rw [stepUpTo_of_halted hactive, stepUpTo_of_halted (hhalted.trans hactive)]
      exact .of_kept rfl h
    | false =>
      rw [stepUpTo_succ hactive, stepUpTo_succ (hhalted.trans hactive)]
      by_cases hover : free.Overflows (limit - limited.out.taken.size)
      · obtain ⟨next, left, hfree, hlt, hlimited, _, htaken⟩ := h.step_of_overflows hover
        rw [hfree, hlimited]
        exact cutShort_stepUpTo hlt htaken n
      · obtain ⟨herror, htwins⟩ := h.step_of_not_overflows hover
        cases hfree : free.step with
        | error failure =>
          rw [hfree] at herror htwins
          rw [Outcome.eq_error_of_error? herror]
          exact .of_kept rfl htwins
        | ok next =>
          rw [hfree] at herror htwins
          rw [Outcome.eq_ok_of_error? herror]
          exact ih htwins

/-- As long as no line is too long, the steps of the two come to the same. -/
theorem Twins.iterate (h : Twins limit free limited) (n : Nat)
    (hroom : ∀ k < n,
      ¬ (stepped^[k] free).Overflows (limit - (stepped^[k] limited).out.taken.size)) :
    Twins limit (stepped^[n] free) (stepped^[n] limited) := by
  induction n with
  | zero => exact h
  | succ n ih =>
    have hbefore := ih fun k hk => hroom k (Nat.lt_succ_of_lt hk)
    rw [Function.iterate_succ_apply', Function.iterate_succ_apply']
    exact (hbefore.step_of_not_overflows (hroom n (Nat.lt_succ_self n))).2

end Twins

/-- Two machines that differ in the limit of one of them only. They are the same after any number of
steps, and every step comes to the same, until a line is longer than the room that the limit leaves.
There the limited machine fails, where it is, with the start of what the other one has printed after
that line. So a run comes to the same or is cut short, one that never ends is stopped by a limit
that it passes, and goes on for ever within one that it does not. -/
theorem limit_cuts_short {limit : Nat} {free limited : Machine} (h : Twins limit free limited) :
    (∀ n, (∀ k < n,
        ¬ (stepped^[k] free).Overflows (limit - (stepped^[k] limited).out.taken.size)) →
      Twins limit (stepped^[n] free) (stepped^[n] limited) ∧
      (∀ k < n, (stepped^[k] limited).step.error? = (stepped^[k] free).step.error?) ∧
      ((stepped^[n] free).Overflows (limit - (stepped^[n] limited).out.taken.size) →
        ∃ left, (stepped^[n] limited).step = .error ⟨.output .full, left⟩ ∧
          left.toCpu = (stepped^[n] free).toCpu ∧
          limit < (stepped^[n + 1] free).out.taken.size ∧
          left.out.taken.toList = (stepped^[n + 1] free).out.taken.toList.take limit)) ∧
    (∀ o, free.run = some o → ∃ o', limited.run = some o' ∧ CutShort limit o o') ∧
    (free.run = none →
      (∀ n, limit < (stepped^[n] free).out.taken.size →
        ∃ left, limited.run = some (.error ⟨.output .full, left⟩) ∧
          left.out.taken.toList = (stepped^[n] free).out.taken.toList.take limit) ∧
      ((∀ n, (stepped^[n] free).out.taken.size ≤ limit) → limited.run = none)) := by
  refine ⟨?_, ?_, ?_⟩
  · intro n hroom
    have htwins := h.iterate n hroom
    refine ⟨htwins, ?_, ?_⟩
    · intro k hk
      have hbefore := h.iterate k fun j hj => hroom j (Nat.lt_trans hj hk)
      exact (hbefore.step_of_not_overflows (hroom k hk)).1
    · intro hover
      obtain ⟨next, left, hfree, hlt, hlimited, hcpu, htaken⟩ := htwins.step_of_overflows hover
      have hnext : stepped^[n + 1] free = next := by
        rw [Function.iterate_succ_apply', stepped, hfree, Outcome.machine]
      rw [hnext]
      exact ⟨left, hlimited, hcpu, hlt, htaken⟩
  · intro o hrun
    obtain ⟨hended, n, rfl⟩ := run_eq_some_iff.1 hrun
    have hcut := stepUpTo_cutShort n h
    exact ⟨_, run_eq_some_iff.2 ⟨hcut.ended hended, n, rfl⟩, hcut⟩
  · intro hrun
    refine ⟨?_, ?_⟩
    · intro n hlt
      rw [← machine_stepUpTo] at hlt ⊢
      obtain ⟨left, hleft, htaken⟩ := (stepUpTo_cutShort n h).cut hlt
      exact ⟨left, run_eq_some_iff.2 ⟨True.intro, n, hleft⟩, htaken⟩
    · intro hsize
      rw [run_eq_none_iff] at hrun ⊢
      intro n hended
      have hle := hsize n
      rw [← machine_stepUpTo] at hle
      exact hrun n (((stepUpTo_cutShort n h).ended_iff hle).1 hended)

/-- A machine about to print a number of three digits, to a given sink. -/
def printingTwoHundred (out : Sink) : Machine :=
  { toCpu := Cpu.booted [0b10000010, 0, 200, 0b01000111, 0, 1], out := out }

/-- A limit of two bytes cuts the number short, one of four lets the machine halt. -/
theorem limit_cuts_short_printingTwoHundred :
    Twins 2 (printingTwoHundred .unlimited) (printingTwoHundred (.limitedTo 2)) ∧
      Twins 4 (printingTwoHundred .unlimited) (printingTwoHundred (.limitedTo 4)) ∧
      (∃ left, (printingTwoHundred (.limitedTo 2)).run = some (.error ⟨.output .full, left⟩) ∧
        left.out.taken.toList = "20".toUTF8.toList) ∧
      ∃ last, (printingTwoHundred (.limitedTo 4)).run = some last ∧ last.error? = none ∧
        last.machine.out.taken.toList = "200\n".toUTF8.toList := by
  have hcut : Twins 2 (printingTwoHundred .unlimited) (printingTwoHundred (.limitedTo 2)) :=
    ⟨rfl, rfl, rfl, rfl, Nat.zero_le 2⟩
  have hkept : Twins 4 (printingTwoHundred .unlimited) (printingTwoHundred (.limitedTo 4)) :=
    ⟨rfl, rfl, rfl, rfl, Nat.zero_le 4⟩
  have hsteps : ((printingTwoHundred .unlimited).stepUpTo 3).error? = none ∧
      ((printingTwoHundred .unlimited).stepUpTo 3).machine.halted = true ∧
      ((printingTwoHundred .unlimited).stepUpTo 3).machine.out.taken.toList =
        "200\n".toUTF8.toList := by decide +kernel
  obtain ⟨herror, hhalted, htaken⟩ := hsteps
  have hrun : (printingTwoHundred .unlimited).run =
      some ((printingTwoHundred .unlimited).stepUpTo 3) := by
    refine run_eq_some_iff.2 ⟨?_, 3, rfl⟩
    rw [Outcome.eq_ok_of_error? herror]
    exact hhalted
  have hsize : ((printingTwoHundred .unlimited).stepUpTo 3).machine.out.taken.size = 4 := by
    rw [← Array.length_toList, htaken]
    decide +kernel
  obtain ⟨last, hlimited, hshort⟩ := (limit_cuts_short hcut).2.1 _ hrun
  obtain ⟨other, hroomy, hlong⟩ := (limit_cuts_short hkept).2.1 _ hrun
  obtain ⟨left, rfl, hleft⟩ := hshort.cut (by rw [hsize]; decide)
  obtain ⟨hother, htwins⟩ := hlong.kept (by rw [hsize])
  refine ⟨hcut, hkept, ⟨left, hlimited, ?_⟩, other, hroomy, hother.trans herror, ?_⟩
  · rw [hleft, htaken]
    decide +kernel
  · rw [htwins.taken_eq, htaken]

end Machine

end Ls8
