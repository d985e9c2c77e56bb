import Ls8.Machine.Run

/-!
# Reachable machines

The machines that can come about: one just switched on, and what any call leaves of one that can.
Main statements: what holds at the start and is kept by every call holds of all of them
(`Reachable.invariant`), and a run that fails does so in a step that a reachable machine takes
(`exists_step_of_run_error`).
-/

namespace Ls8

/-- What can be asked of a machine that changes it. -/
inductive Call where
  | load (bytes : List UInt8)
  | step
  | run
  | write (address value : UInt8)
  deriving DecidableEq, Repr

/-- What a call comes to; `none` if it never ends. -/
def Call.perform (m : Machine) : Call → Option Outcome
  | .load bytes => some (m.load bytes)
  | .step => some m.step
  | .run => m.run
  | .write address value => some (.ok (m.write address value))

/-- Any number of calls lead here from a machine just switched on, whatever they came to. -/
inductive Reachable : Machine → Prop
  | start (out : Sink) : Reachable (Machine.withOutput out)
  | call {m : Machine} {outcome : Outcome} (call : Call) :
      Reachable m → call.perform m = some outcome → Reachable outcome.machine

namespace Machine

/-- A property that steps keep is kept by any number of them. -/
theorem stepUpTo_preserves {P : Machine → Prop} (hstep : ∀ m, P m → P m.step.machine) (n : Nat) :
    ∀ m : Machine, P m → P (m.stepUpTo n).machine := by
  induction n with
  | zero => intro m hm; exact hm
  | succ n ih =>
    intro m hm
    have hnext := hstep m hm
    rw [stepUpTo]
    split
    · exact hm
    · split
      · next failure h => rw [h] at hnext; exact hnext
      · next next h => rw [h] at hnext; exact ih next hnext

/-- Steps that end in a failure fail in the last of them, and not because the machine had halted. -/
theorem exists_step_of_stepUpTo_error {P : Machine → Prop} (hstep : ∀ m, P m → P m.step.machine)
    (n : Nat) {failure : Failure} : ∀ m : Machine, P m → m.stepUpTo n = .error failure →
      ∃ before, P before ∧ before.halted = false ∧ before.step = .error failure := by
  induction n with
  | zero => intro m _ h; cases h
  | succ n ih =>
    intro m hm h
    have hnext := hstep m hm
    rw [stepUpTo] at h
    split at h
    · cases h
    · next hactive =>
      split at h
      · next found hfound =>
        cases h
        exact ⟨m, hm, Bool.not_eq_true _ ▸ hactive, hfound⟩
      · next next hfound =>
        rw [hfound] at hnext
        exact ih next hnext h

end Machine

namespace Reachable

theorem load {m : Machine} (h : Reachable m) (bytes : List UInt8) :
    Reachable (m.load bytes).machine :=
  h.call (.load bytes) rfl

theorem step {m : Machine} (h : Reachable m) : Reachable m.step.machine :=
  h.call .step rfl

theorem write {m : Machine} (h : Reachable m) (address value : UInt8) :
    Reachable (m.write address value) :=
  h.call (.write address value) rfl

/-- What holds of a machine just switched on and is kept by loading, by a step and by a write from
outside holds of every reachable machine: a run is nothing but steps. -/
theorem invariant {P : Machine → Prop} (hstart : ∀ out, P (Machine.withOutput out))
    (hload : ∀ (m : Machine) (bytes : List UInt8), P m → P (m.load bytes).machine)
    (hstep : ∀ m : Machine, P m → P m.step.machine)
    (hwrite : ∀ (m : Machine) (address value : UInt8), P m → P (m.write address value))
    {m : Machine} (h : Reachable m) : P m := by
  induction h with
  | start out => exact hstart out
  | @call m outcome call _ hperform ih =>
    cases call with
    | load bytes => cases hperform; exact hload m bytes ih
    | step => cases hperform; exact hstep m ih
    | run =>
      rw [← Machine.stepUpTo_of_run hperform]
      exact Machine.stepUpTo_preserves hstep _ m ih
    | write address value => cases hperform; exact hwrite m address value ih

/-- A run of a reachable machine that fails does so in a step of a reachable machine. -/
theorem exists_step_of_run_error {m : Machine} (h : Reachable m) {failure : Failure}
    (hrun : m.run = some (.error failure)) :
    ∃ before, Reachable before ∧ before.halted = false ∧ before.step = .error failure :=
  Machine.exists_step_of_stepUpTo_error (fun _ => Reachable.step) _ m h
    (Machine.stepUpTo_of_run hrun)

/-- The program counter is inside memory or just past its end. -/
theorem pc_le {m : Machine} (h : Reachable m) : m.pc ≤ 256 := by
  refine h.invariant (P := fun m => m.pc ≤ 256) ?_ ?_ ?_ ?_
  · intro out
    exact Nat.zero_le _
  · intro m bytes hm
    rw [Machine.load_eq, Machine.placed]
    split
    · exact Nat.zero_le _
    · exact hm
  · intro m hm
    exact Machine.pc_step_le hm
  · intro m address value hm
    exact hm

end Reachable

end Ls8
