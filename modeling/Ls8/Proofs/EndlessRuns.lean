import Ls8.Proofs.FreshStart
import Ls8.Proofs.RunSteps

/-!
# Runs without end

How a machine goes on is decided by its configuration: program counter, memory, registers and flags.
Main statement: if its sink takes everything, a run never ends just when the machine comes back to a
configuration that it has been in, and from there on it goes round for ever, printing the same in
every round (`run_eq_none_iff_returns`). What has been printed before makes no difference.
-/

namespace Ls8

namespace Machine

/-- Two machines in the same configuration, whatever they have printed. -/
structure SameConfiguration (m₁ m₂ : Machine) : Prop where
  pc_eq : m₁.pc = m₂.pc
  memory_eq : m₁.memory = m₂.memory
  registers_eq : m₁.registers = m₂.registers
  flags_eq : m₁.flags = m₂.flags

/-- A machine is at `first` after `i` steps, and after more of them, `j` in all, at `second` in the
same configuration, without having halted. -/
structure Returns (m : Machine) (i j : Nat) (first second : Machine) : Prop where
  lt : i < j
  first_steps : Steps i m first
  second_steps : Steps j m second
  active : second.halted = false
  same : SameConfiguration first second

variable {m m₁ m₂ last first second : Machine} {i j n : Nat}

theorem SameConfiguration.toCpu_eq (h : SameConfiguration m₁ m₂) (h₁ : m₁.halted = false)
    (h₂ : m₂.halted = false) : m₁.toCpu = m₂.toCpu := by
  obtain ⟨⟨pc₁, memory₁, registers₁, flags₁, halted₁⟩, out₁⟩ := m₁
  obtain ⟨⟨pc₂, memory₂, registers₂, flags₂, halted₂⟩, out₂⟩ := m₂
  obtain ⟨rfl, rfl, rfl, rfl⟩ := h
  have hhalted : halted₁ = halted₂ := h₁.trans h₂.symm
  rw [hhalted]

/-! ## Going round -/

/-- Another machine with the same processor and the same room can take the same steps, and prints the
same in them. -/
theorem Steps.alike (h : Steps n m₁ last) (hactive : last.halted = false)
    (hcpu : m₂.toCpu = m₁.toCpu) (hroom : m₂.out.room = m₁.out.room) :
    ∃ right, Steps n m₂ right ∧ right.toCpu = last.toCpu ∧
      right.out = m₂.out.gain (last.out.since m₁.out) := by
  have halike := stepUpTo_alike n hcpu (.inl hroom)
  rw [h.stepUpTo_eq] at halike
  have hgoing : ¬ (m₂.stepUpTo n).Ended := mt halike.ended_iff.1 (Bool.eq_false_iff.1 hactive)
  obtain ⟨right, hright, _⟩ := steps_of_not_ended n hgoing
  rw [hright.stepUpTo_eq] at halike
  have hsince : right.out.since m₂.out = last.out.since m₁.out := halike.since_eq
  obtain ⟨bytes, hout, _⟩ := halike.out_eq
  have hgained : right.out = m₂.out.gain bytes := hout
  refine ⟨right, hright, halike.toCpu_eq, ?_⟩
  rw [← hsince, hgained, Sink.since_gain]

section Round

variable {period : Nat} (hlimit : first.out.limit = none) (hround : Steps period first second)
  (hactive : first.halted = false) (hcpu : second.toCpu = first.toCpu)

include hlimit hround hactive hcpu

/-- What has gone round once goes round any number of times, and prints the same each time. -/
theorem exists_rounds (n : Nat) : ∃ later, Steps (n * period) first later ∧
    later.toCpu = first.toCpu ∧
    later.out = first.out.gain (List.replicate n (second.out.since first.out)).flatten := by
  induction n with
  | zero =>
    refine ⟨first, ?_, rfl, (Sink.gain_nil _).symm⟩
    rw [Nat.zero_mul]
    exact .zero first
  | succ n ih =>
    obtain ⟨later, hlater, hsame, hout⟩ := ih
    have hroom : later.out.room = first.out.room := by
      rw [hout, Sink.room_gain_of_limit_eq_none hlimit]
    have hsecond : second.halted = false := (congrArg Cpu.halted hcpu).trans hactive
    obtain ⟨right, hright, hback, hprinted⟩ := hround.alike hsecond hsame hroom
    refine ⟨right, ?_, hback.trans hcpu, ?_⟩
    · rw [Nat.succ_mul]
      exact hlater.trans hright
    · rw [hprinted, hout, Sink.gain_gain, List.replicate_succ', List.flatten_append,
        List.flatten_singleton]

theorem run_eq_none_of_round (hperiod : 0 < period) : first.run = none := by
  rw [run_eq_none_iff]
  intro n
  obtain ⟨later, hlater, hsame, _⟩ := exists_rounds hlimit hround hactive hcpu n
  have hgoing : ¬ (first.stepUpTo (n * period)).Ended := by
    rw [hlater.stepUpTo_eq]
    exact Bool.eq_false_iff.1 ((congrArg Cpu.halted hsame).trans hactive)
  -- a round is at least one step, so `n` of them are at least `n` steps
  exact not_ended_of_le hgoing (Nat.le_mul_of_pos_right n hperiod)

end Round

namespace Returns

theorem first_active (h : m.Returns i j first second) : first.halted = false :=
  h.second_steps.active_of_lt h.lt h.first_steps

theorem toCpu_eq (h : m.Returns i j first second) : second.toCpu = first.toCpu :=
  (h.same.toCpu_eq h.first_active h.active).symm

theorem round (h : m.Returns i j first second) : Steps (j - i) first second := by
  refine h.first_steps.rest ?_
  rw [Nat.add_sub_cancel' (Nat.le_of_lt h.lt)]
  exact h.second_steps

theorem first_limit (h : m.Returns i j first second) (hlimit : m.out.limit = none) :
    first.out.limit = none := by
  have hkept := (m.room_stepUpTo_le i).1
  rw [h.first_steps.stepUpTo_eq] at hkept
  exact hkept.trans hlimit

theorem run_first_eq_none (h : m.Returns i j first second) (hlimit : m.out.limit = none) :
    first.run = none :=
  run_eq_none_of_round (h.first_limit hlimit) h.round h.first_active h.toCpu_eq
    (Nat.sub_pos_of_lt h.lt)

/-- Any number of rounds later the machine goes on as it did the first time. -/
theorem exists_again (h : m.Returns i j first second) (hlimit : m.out.limit = none) (n k : Nat) :
    ∃ left right, Steps (i + k) m left ∧ Steps (i + n * (j - i) + k) m right ∧
      left.halted = false ∧ right.toCpu = left.toCpu ∧
      right.out = first.out.gain ((List.replicate n (second.out.since first.out)).flatten ++
        left.out.since first.out) := by
  have hfirst := h.first_limit hlimit
  obtain ⟨left, hleft, hactive⟩ := run_eq_none_iff_steps.1 (h.run_first_eq_none hlimit) k
  obtain ⟨later, hlater, hsame, hout⟩ :=
    exists_rounds hfirst h.round h.first_active h.toCpu_eq n
  have hroom : later.out.room = first.out.room := by
    rw [hout, Sink.room_gain_of_limit_eq_none hfirst]
  obtain ⟨right, hright, halike, hprinted⟩ := hleft.alike hactive hsame hroom
  refine ⟨left, right, h.first_steps.trans hleft, (h.first_steps.trans hlater).trans hright,
    hactive, halike, ?_⟩
  rw [hprinted, hout, Sink.gain_gain]

end Returns

/-- A run that never ends comes back to a configuration, as there are only so many. -/
theorem exists_returns (h : m.run = none) : ∃ i j first second, m.Returns i j first second := by
  have hgoing := run_eq_none_iff.1 h
  obtain ⟨i, j, hlt, _, hcpu, _⟩ := exists_repeat (hgoing m.stepBound)
  have hactive := Outcome.active_of_not_ended (hgoing j)
  exact ⟨i, j, _, _, hlt, steps_stepUpTo (hgoing i), steps_stepUpTo (hgoing j), hactive,
    congrArg Cpu.pc hcpu, congrArg Cpu.memory hcpu, congrArg Cpu.registers hcpu,
    congrArg Cpu.flags hcpu⟩

/-- If the sink takes everything, a run never ends just when the machine, after steps that neither fail
nor halt it, is again in a configuration that it was in before. From then on it goes for ever through
the same processors, round by round, and prints the same in each round. Whether a run ends, how it
ends and what it prints do not depend on what the sink holds at first. -/
theorem run_eq_none_iff_returns (hlimit : m.out.limit = none) :
    (m.run = none ↔ ∃ i j first second, m.Returns i j first second) ∧
    (∀ {i j first second}, m.Returns i j first second → ∀ n k, ∃ left right,
      Steps (i + k) m left ∧ Steps (i + n * (j - i) + k) m right ∧
      left.halted = false ∧ right.toCpu = left.toCpu ∧
      right.out = first.out.gain ((List.replicate n (second.out.since first.out)).flatten ++
        left.out.since first.out)) ∧
    ∀ out : Sink, out.limit = none →
      PerformAlike m { m with out := out } m.run ({ m with out := out } : Machine).run := by
  refine ⟨⟨exists_returns, ?_⟩, fun h => h.exists_again hlimit, ?_⟩
  · rintro ⟨i, j, first, second, h⟩
    rw [← run_of_steps h.first_steps]
    exact h.run_first_eq_none hlimit
  · intro out hout
    refine run_alike rfl (.inl ?_)
    rw [Sink.room_of_limit_eq_none hlimit, Sink.room_of_limit_eq_none hout]

/-- A machine that sets its stack pointer and prints it again and again. -/
def repeating : Machine where
  toCpu := Cpu.booted [0b10000010, 7, 3, 0b01000111, 7, 0b01010100, 7]

/-- That machine where its loop starts, with what it has printed so far. -/
def repeatingWith (out : Sink) : Machine where
  toCpu := (repeating.toCpu.setRegister Register.sp 3).advance .ldi
  out := out

theorem step_repeating : repeating.step = .ok (repeatingWith Sink.unlimited) := by
  have hload : repeating.memory.HoldsAt repeating.pc (Instruction.ldi Register.sp 3).encode := by
    decide +kernel
  exact step_of_execute rfl hload rfl rfl

theorem steps_repeatingWith {out : Sink} (h : out.limit = none) :
    Steps 2 (repeatingWith out) (repeatingWith (out.gain (Numeral.decimalLine 3))) := by
  have hloop : repeating.memory.HoldsAt 3 (Instruction.prn Register.sp).encode ∧
      repeating.memory.HoldsAt 5 (Instruction.jmp Register.sp).encode := by decide +kernel
  have hprint : (repeatingWith out).step = .ok
      { toCpu := (repeatingWith out).toCpu.advance .prn, out := out.gain (Numeral.decimalLine 3) } := by
    have hexecuted : (repeatingWith out).step = (repeatingWith out).carriedOut (.prn Register.sp) :=
      step_of_holdsAt rfl hloop.1
    rw [hexecuted]
    exact print_of_limitless (m := repeatingWith out) h (Numeral.decimalLine 3) _
  exact .succ hprint (.succ (step_of_execute rfl hloop.2 rfl rfl) (.zero _))

/-- Each round of the loop prints the value once more. -/
theorem run_eq_none_iff_returns_repeating :
    repeating.out.limit = none ∧
      repeating.Returns 1 3 (repeatingWith Sink.unlimited)
        (repeatingWith (Sink.unlimited.gain (Numeral.decimalLine 3))) ∧
      repeating.run = none ∧
      ∀ n, ∃ later, Steps (1 + n * 2) repeating later ∧
        later.out.taken.toList = (List.replicate n "3\n".toUTF8.toList).flatten := by
  have hfirst : Steps 1 repeating (repeatingWith Sink.unlimited) := .succ step_repeating (.zero _)
  have hreturns : repeating.Returns 1 3 (repeatingWith Sink.unlimited)
      (repeatingWith (Sink.unlimited.gain (Numeral.decimalLine 3))) :=
    ⟨by decide, hfirst, hfirst.trans (steps_repeatingWith rfl), rfl, rfl, rfl, rfl, rfl⟩
  have htext : Numeral.decimalLine 3 = "3\n".toUTF8.toList := by decide +kernel
  obtain ⟨hnever, hagain, _⟩ := run_eq_none_iff_returns (m := repeating) rfl
  refine ⟨rfl, hreturns, hnever.2 ⟨1, 3, _, _, hreturns⟩, ?_⟩
  intro n
  obtain ⟨left, later, hleft, hlater, _, _, hout⟩ := hagain hreturns n 0
  refine ⟨later, hlater, ?_⟩
  have hprinted : (repeatingWith (Sink.unlimited.gain (Numeral.decimalLine 3))).out.since
      (repeatingWith Sink.unlimited).out = Numeral.decimalLine 3 := Sink.since_gain _ _
  rw [hleft.unique hfirst, Sink.since_self, List.append_nil, hprinted, htext] at hout
  rw [hout, Sink.toList_taken_gain]
  rfl

end Machine

end Ls8
