import Ls8.Machine.Step

/-!
# Running

Steps until the machine halts or a step fails. A processor has finitely many configurations, so one
that goes on for longer than there are configurations has come back to one of them and goes on for
ever; it can only be stopped from outside, by a sink that gets full. A run therefore has a number of
steps after which it has either ended or never ends.
-/

namespace Ls8

/-- Number of configurations that a processor can go through before it halts: program counter (past
the end of memory included), memory, registers and flags. -/
def Cpu.configurations : Nat :=
  257 * Nat.pow 256 256 * Nat.pow 256 8 * Nat.pow 2 3

namespace Machine

/-- Takes up to `n` steps, fewer if the machine halts or a step fails. -/
def stepUpTo : Nat → Machine → Outcome
  | 0, m => .ok m
  | n + 1, m =>
    if m.halted then .ok m
    else match m.step with
      | .error failure => .error failure
      | .ok next => stepUpTo n next

/-- What `visit` makes of the machine after each of up to `n` steps that succeed, added to what has
been seen before. -/
def visited {β : Type} (visit : Machine → β) : Nat → Array β → Machine → Array β
  | 0, seen, _ => seen
  | n + 1, seen, m =>
    if m.halted then seen
    else match m.step with
      | .error _ => seen
      | .ok next => visited visit n (seen.push (visit next)) next

/-- Takes up to `n` steps and looks at the machine after each of them. -/
def visitUpTo {β : Type} (visit : Machine → β) (n : Nat) (seen : Array β) (m : Machine) :
    Array β × Outcome :=
  (visited visit n seen m, m.stepUpTo n)

/-- A number of steps after which the machine has ended or never ends. Between two prints it goes
through no configuration twice unless it never ends, and each print takes room in the sink. -/
def stepBound (m : Machine) : Nat :=
  match m.out.room with
  | none => Cpu.configurations
  | some room => Cpu.configurations * (room + 1)

/-- Steps until the machine halts or a step fails; `none` if that never happens. -/
def run (m : Machine) : Option Outcome :=
  match m.stepUpTo m.stepBound with
  | .error failure => some (.error failure)
  | .ok last => if last.halted then some (.ok last) else none

theorem stepUpTo_of_halted {m : Machine} (h : m.halted = true) (n : Nat) :
    m.stepUpTo n = .ok m := by
  cases n <;> simp [stepUpTo, h]

theorem stepUpTo_of_step_error {m : Machine} {failure : Failure} (hactive : m.halted = false)
    (h : m.step = .error failure) (n : Nat) : m.stepUpTo (n + 1) = .error failure := by
  simp [stepUpTo, hactive, h]

theorem stepBound_pos (m : Machine) : 0 < m.stepBound := by
  have hconfigurations : 0 < Cpu.configurations := by decide +kernel
  unfold stepBound
  split
  · exact hconfigurations
  · exact Nat.mul_pos hconfigurations (Nat.succ_pos _)

theorem run_of_halted {m : Machine} (h : m.halted = true) : m.run = some (.ok m) := by
  simp [run, stepUpTo_of_halted h, h]

theorem run_of_step_error {m : Machine} {failure : Failure} (hactive : m.halted = false)
    (h : m.step = .error failure) : m.run = some (.error failure) := by
  obtain ⟨n, hn⟩ := Nat.exists_eq_succ_of_ne_zero (Nat.ne_of_gt m.stepBound_pos)
  rw [run, hn, stepUpTo_of_step_error hactive h]

theorem stepUpTo_of_run {m : Machine} {outcome : Outcome} (h : m.run = some outcome) :
    m.stepUpTo m.stepBound = outcome := by
  unfold run at h
  split at h
  · next failure hsteps => rw [hsteps]; exact Option.some.inj h
  · next last hsteps =>
    split at h
    · rw [hsteps]; exact Option.some.inj h
    · cases h

/-- A run that succeeds leaves the machine halted. -/
theorem halted_of_run_ok {m last : Machine} (h : m.run = some (.ok last)) :
    last.halted = true := by
  unfold run at h
  split at h
  · cases h
  · split at h
    · next hhalted => cases h; exact hhalted
    · cases h

/-- Steps can be taken in two goes. -/
theorem stepUpTo_add (m : Machine) (n k : Nat) :
    m.stepUpTo (n + k) = match m.stepUpTo n with
      | .error failure => .error failure
      | .ok next => next.stepUpTo k := by
  induction n generalizing m with
  | zero => simp [stepUpTo]
  | succ n ih =>
    rw [Nat.succ_add]
    simp only [stepUpTo]
    split
    · next h => simp [stepUpTo_of_halted h]
    · split
      · rfl
      · exact ih _

end Machine

end Ls8
