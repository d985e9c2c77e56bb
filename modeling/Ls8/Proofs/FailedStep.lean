import Ls8.Proofs.Reachable

/-!
# Steps that fail

What a failed step leaves behind, and what the machine goes on answering after it. Main statement:
nothing has changed but the start of a line that a full sink took, and every further try comes to
the same as long as nobody writes to memory or loads an image that fits (`step_error_lasting`).
-/

namespace Ls8

/-- The calls that do not help a machine that is stuck. -/
inductive Retry where
  | step
  | run
  | load (bytes : List UInt8) (tooLarge : Memory.size < bytes.length)

def Retry.call : Retry → Call
  | .step => .step
  | .run => .run
  | .load bytes _ => .load bytes

/-- What calls come to that are made one after the other, each on the machine that the one before it
left. No call is made after one that never ends. -/
def Call.outcomes (m : Machine) : List Call → List (Option Outcome)
  | [] => []
  | call :: rest =>
    match call.perform m with
    | none => [none]
    | some outcome => some outcome :: outcomes outcome.machine rest

namespace Failure

/-- A failure that leaves the machine as it was, but for the output of a line that was cut short. -/
structure Atomic (failure : Failure) (m : Machine) : Prop where
  toCpu_eq : failure.machine.toCpu = m.toCpu
  limit_eq : failure.machine.out.limit = m.out.limit
  out_eq : (∀ cause, failure.error ≠ .output cause) → failure.machine.out = m.out
  cut_line : ∀ cause, failure.error = .output cause → ∃ a : Register,
    m.memory.HoldsAt m.pc (Instruction.prn a).encode ∧ ∃ part,
      part <+: Numeral.decimalLine (m.register a) ∧ part ≠ Numeral.decimalLine (m.register a) ∧
      failure.machine.out.taken.toList = m.out.taken.toList ++ part

/-- What the machine that a failed step left answers to every retry. -/
def answer (failure : Failure) : Retry → Outcome
  | .step => .error failure
  | .run => if failure.machine.halted then .ok failure.machine else .error failure
  | .load bytes _ => .error ⟨.programTooLarge bytes.length, failure.machine⟩

theorem machine_answer (failure : Failure) (retry : Retry) :
    (failure.answer retry).machine = failure.machine := by
  cases retry with
  | step => rfl
  | run =>
    rw [answer]
    split <;> rfl
  | load bytes tooLarge => rfl

/-- A failure in which the machine kept all that it had. -/
theorem Atomic.of_same {m : Machine} {error : Error} (h : ∀ cause, error ≠ .output cause) :
    Atomic ⟨error, m⟩ m where
  toCpu_eq := rfl
  limit_eq := rfl
  out_eq := fun _ => rfl
  cut_line := fun cause hcause => absurd hcause (h cause)

end Failure

namespace Machine

variable {m : Machine} {failure : Failure}

/-! ## What a failed step leaves -/

/-- The text that a sink did not take whole is the line of a print instruction. -/
theorem prn_of_not_fits {i : Instruction} {values : Registers}
    (h : m.out.fits (text (i.printed values)) = false) :
    ∃ a, i = .prn a ∧ text (i.printed values) = Numeral.decimalLine (values.read a) := by
  cases i with
  | prn a => exact ⟨a, rfl, rfl⟩
  | _ => simp [Instruction.printed, text] at h

theorem atomic_of_step_error (h : m.step = .error failure) : failure.Atomic m := by
  obtain ⟨error, left⟩ := failure
  rcases step_eq_error h with ⟨_, hfailure⟩ | ⟨_, ⟨hrefusal, rfl⟩ | ⟨i, hdecode, hfull, hfailure⟩⟩
  · cases hfailure
    apply Failure.Atomic.of_same
    intro cause hcause
    cases hcause
  · apply Failure.Atomic.of_same
    intro cause hcause
    subst hcause
    cases hrefusal
  · obtain ⟨a, rfl, hline⟩ := prn_of_not_fits hfull
    cases hfailure
    rw [hline] at hfull ⊢
    refine ⟨rfl, rfl, ?_, ?_⟩
    · intro hnot
      exact absurd rfl (hnot _)
    · intro cause _
      have hpart := m.out.accepted_isPrefix (Numeral.decimalLine (m.registers.read a))
      have hshort := Sink.length_accepted_lt hfull
      refine ⟨a, Cpu.decode_eq_ok_iff.1 hdecode, _, hpart, ?_, Sink.toList_taken_put _ _⟩
      intro hwhole
      exact Nat.ne_of_lt hshort (congrArg List.length hwhole)

/-! ## Trying again -/

/-- A sink that refused a line is full, and refuses it again without taking anything of it. -/
theorem follow_again {answer : Except Error (Cpu × Option UInt8)}
    (h : m.follow answer = .error failure) : failure.machine.follow answer = .error failure := by
  cases answer with
  | error error =>
    cases h
    rfl
  | ok done =>
    obtain ⟨next, printed⟩ := done
    rw [follow_ok, print] at h
    split at h
    · cases h
    · next hfull =>
      cases h
      -- the first try has used up the room, so the second one takes nothing
      have hroom := Sink.room_put_of_not_fits (Bool.not_eq_true _ ▸ hfull)
      have hline : ¬ (text printed).isEmpty = true := by
        intro hempty
        rw [List.isEmpty_iff.1 hempty, Sink.fits_nil] at hfull
        exact hfull rfl
      rw [follow_ok, print, Sink.fits_of_room_eq_zero hroom, Sink.put_of_room_eq_zero hroom,
        if_neg hline]

theorem step_again (h : m.step = .error failure) : failure.machine.step = .error failure := by
  rw [step_eq, toCpu_of_step_error h]
  rw [step_eq] at h
  exact follow_again h

theorem perform_retry (h : m.step = .error failure) (retry : Retry) :
    retry.call.perform failure.machine = some (failure.answer retry) := by
  have hstep := step_again h
  cases retry with
  | step => rw [Retry.call, Call.perform, hstep, Failure.answer]
  | run =>
    rw [Retry.call, Call.perform, Failure.answer]
    by_cases hhalted : failure.machine.halted = true
    · rw [if_pos hhalted, run_of_halted hhalted]
    · rw [if_neg hhalted, run_of_step_error (Bool.not_eq_true _ ▸ hhalted) hstep]
  | load bytes tooLarge => rw [Retry.call, Call.perform, load_of_too_large _ tooLarge]; rfl

/-- A failed step is atomic, and any number of retries comes to the same: a step and a run that is
not over fail as before and print nothing. -/
theorem step_error_lasting (h : m.step = .error failure) :
    failure.Atomic m ∧ (m.halted = true ↔ failure.error = .machineHalted) ∧
      ∀ retries : List Retry, Call.outcomes failure.machine (retries.map Retry.call) =
        retries.map fun retry => some (failure.answer retry) := by
  refine ⟨atomic_of_step_error h, halted_iff_of_step_error h, ?_⟩
  intro retries
  -- a retry leaves the machine that it found, so the next one starts there as well
  induction retries with
  | nil => rfl
  | cons retry rest ih =>
    rw [List.map_cons, List.map_cons, Call.outcomes, perform_retry h retry]
    show _ :: Call.outcomes (failure.answer retry).machine _ = _
    rw [failure.machine_answer retry, ih]

/-- A machine about to print a digit and a newline to a sink that takes one byte. -/
def crampedPrint : Machine :=
  ((withOutput (.limitedTo 1)).load [0b01000111, (0 : UInt8)]).machine

/-- The digit is taken once, however often it is printed. -/
theorem step_error_lasting_crampedPrint :
    crampedPrint.step.error? = some (.output .full) ∧
      crampedPrint.step.machine.out.taken = #['0'.toUInt8] ∧
      Call.outcomes crampedPrint.step.machine [.step, .run, .step] =
        [some crampedPrint.step, some crampedPrint.step, some crampedPrint.step] := by
  have herror : crampedPrint.step.error? = some (.output .full) := by decide +kernel
  have htaken : crampedPrint.step.machine.out.taken = #['0'.toUInt8] := by decide +kernel
  have hhalted : crampedPrint.step.machine.halted = false := by decide +kernel
  obtain ⟨failure, hstep⟩ : ∃ failure, crampedPrint.step = .error failure :=
    ⟨_, Outcome.eq_error_of_error? herror⟩
  have hretries := (step_error_lasting hstep).2.2 [.step, .run, .step]
  refine ⟨herror, htaken, ?_⟩
  rw [hstep, Outcome.machine] at hhalted ⊢
  simpa [Retry.call, Failure.answer, hhalted] using hretries

end Machine

end Ls8
