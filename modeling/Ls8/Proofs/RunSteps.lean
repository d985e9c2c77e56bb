import Ls8.Proofs.RunEnding

/-!
# Runs step by step

A run does nothing but take one step after the other. Main statement: it ends as its steps do, in
the first halt or the first failure, and never if there is neither; steps that are taken before it
make no difference (`run_iff_steps`).
-/

namespace Ls8

namespace Machine

/-- So many steps, none of which fails, lead from one machine to another. -/
inductive Steps : Nat → Machine → Machine → Prop
  | zero (m : Machine) : Steps 0 m m
  | succ {m next last : Machine} {n : Nat} : m.step = .ok next → Steps n next last →
      Steps (n + 1) m last

variable {m next last : Machine} {n k : Nat}

theorem active_of_step (h : m.step = .ok next) : m.halted = false :=
  (step_eq_ok_iff.1 h).1

namespace Steps

theorem trans (hfirst : Steps n m next) (hsecond : Steps k next last) : Steps (n + k) m last := by
  induction hfirst with
  | zero m =>
    rw [Nat.zero_add]
    exact hsecond
  | succ hstep _ ih =>
    rw [Nat.succ_add]
    exact .succ hstep (ih hsecond)

theorem snoc (h : Steps n m next) (hstep : next.step = .ok last) : Steps (n + 1) m last :=
  h.trans (.succ hstep (.zero last))

/-- A machine whose step leads back to itself takes any number of steps. -/
theorem of_circle (h : m.step = .ok m) : ∀ n, Steps n m m
  | 0 => .zero m
  | n + 1 => .succ h (of_circle h n)

/-- After some of the steps come the others. -/
theorem rest (hfirst : Steps n m next) (h : Steps (n + k) m last) : Steps k next last := by
  induction hfirst with
  | zero m =>
    rwa [Nat.zero_add] at h
  | succ hstep _ ih =>
    rw [Nat.succ_add] at h
    cases h with
    | succ hstep' hrest =>
      rw [hstep] at hstep'
      cases hstep'
      exact ih hrest

/-- There is only one machine to which so many steps lead. -/
theorem unique {other : Machine} (h : Steps n m last) (h' : Steps n m other) : last = other := by
  have hnone : Steps 0 last other := h.rest h'
  cases hnone
  rfl

/-- No machine on the way has halted, as it could not have gone on. -/
theorem active_of_lt (h : Steps n m last) (hk : k < n) (h' : Steps k m next) :
    next.halted = false := by
  obtain ⟨left, rfl⟩ := Nat.exists_eq_add_of_lt hk
  have hmore : Steps (left + 1) next last := h'.rest h
  cases hmore with
  | succ hstep _ => exact active_of_step hstep

/-- Bounded steps go on from where the first of them lead. -/
theorem stepUpTo_add (h : Steps n m next) (k : Nat) : m.stepUpTo (n + k) = next.stepUpTo k := by
  induction h with
  | zero m => rw [Nat.zero_add]
  | succ hstep _ ih =>
    rw [Nat.succ_add, stepUpTo_succ (active_of_step hstep), hstep]
    exact ih

theorem stepUpTo_eq (h : Steps n m last) : m.stepUpTo n = .ok last :=
  h.stepUpTo_add 0

end Steps

/-- Steps that have not ended the machine were all taken. -/
theorem steps_of_not_ended (n : Nat) : ∀ {m : Machine}, ¬ (m.stepUpTo n).Ended →
    ∃ last, Steps n m last ∧ last.halted = false := by
  induction n with
  | zero =>
    intro m h
    exact ⟨m, .zero m, Bool.eq_false_iff.2 h⟩
  | succ n ih =>
    intro m h
    have hactive : m.halted = false := Bool.eq_false_iff.2 (not_ended_of_le h (Nat.zero_le _))
    rw [stepUpTo_succ hactive] at h
    cases hstep : m.step with
    | error failure =>
      rw [hstep] at h
      exact absurd True.intro h
    | ok next =>
      rw [hstep] at h
      obtain ⟨last, hsteps, hlast⟩ := ih h
      exact ⟨last, .succ hstep hsteps, hlast⟩

theorem steps_stepUpTo (h : ¬ (m.stepUpTo n).Ended) : Steps n m (m.stepUpTo n).machine := by
  obtain ⟨last, hsteps, _⟩ := steps_of_not_ended n h
  rw [hsteps.stepUpTo_eq]
  exact hsteps

/-- Steps that end a machine do so with the last one that is taken. -/
theorem last_step_of_ended (n : Nat) : ∀ {m : Machine}, m.halted = false →
    (m.stepUpTo n).Ended → ∃ k < n, ∃ last, Steps k m last ∧ last.halted = false ∧
      last.step = m.stepUpTo n := by
  induction n with
  | zero =>
    intro m hactive h
    exact absurd h (Bool.eq_false_iff.1 hactive)
  | succ n ih =>
    intro m hactive h
    rw [stepUpTo_succ hactive] at h ⊢
    cases hstep : m.step with
    | error failure => exact ⟨0, Nat.succ_pos n, m, .zero m, hactive, hstep⟩
    | ok next =>
      rw [hstep] at h
      cases hhalted : next.halted with
      | true =>
        refine ⟨0, Nat.succ_pos n, m, .zero m, hactive, ?_⟩
        rw [hstep]
        exact (stepUpTo_of_halted hhalted n).symm
      | false =>
        obtain ⟨k, hk, last, hsteps, hlast, heq⟩ := ih hhalted h
        exact ⟨k + 1, Nat.succ_lt_succ hk, last, .succ hstep hsteps, hlast, heq⟩

/-- A run of a machine that has not halted comes to what the last of its steps comes to, which is
taken before the run is given up. -/
theorem last_step_of_run {o : Outcome} (hactive : m.halted = false) (h : m.run = some o) :
    o.Ended ∧ ∃ k < m.stepBound, ∃ last, Steps k m last ∧ last.halted = false ∧ last.step = o := by
  have hended := (run_eq_some_iff.1 h).1
  have hbound := stepUpTo_of_run h
  subst hbound
  exact ⟨hended, last_step_of_ended _ hactive hended⟩

/-- A halted machine's run does not fail. -/
theorem active_of_run_error {failure : Failure} (h : m.run = some (.error failure)) :
    m.halted = false := by
  apply Bool.eq_false_iff.2
  intro hhalted
  rw [run_of_halted hhalted] at h
  cases h

theorem run_of_steps_halted (h : Steps n m last) (hhalted : last.halted = true) :
    m.run = some (.ok last) :=
  run_eq_some_iff.2 ⟨hhalted, n, h.stepUpTo_eq⟩

/-- A run comes to what a step comes to that ends the machine. -/
theorem run_of_last_step (h : Steps n m last) (hactive : last.halted = false)
    (hended : last.step.Ended) : m.run = some last.step :=
  run_eq_some_iff.2 ⟨hended, n + 1, stepUpTo_succ_eq_step h.stepUpTo_eq hactive⟩

theorem steps_of_run_ok (h : m.run = some (.ok last)) : ∃ n, Steps n m last := by
  cases hhalted : m.halted with
  | true =>
    rw [run_of_halted hhalted] at h
    cases h
    exact ⟨0, .zero _⟩
  | false =>
    obtain ⟨_, k, _, before, hsteps, _, hstep⟩ := last_step_of_run hhalted h
    exact ⟨k + 1, hsteps.snoc hstep⟩

theorem run_eq_none_iff_steps :
    m.run = none ↔ ∀ n, ∃ last, Steps n m last ∧ last.halted = false := by
  rw [run_eq_none_iff]
  constructor
  · intro h n
    exact steps_of_not_ended n (h n)
  · intro h n hended
    obtain ⟨last, hsteps, hactive⟩ := h n
    rw [hsteps.stepUpTo_eq] at hended
    exact Bool.eq_false_iff.1 hactive hended

/-- Steps taken beforehand are steps that the run need not take. -/
theorem run_of_steps (h : Steps n m next) : next.run = m.run := by
  cases hrun : next.run with
  | some o =>
    obtain ⟨hended, k, rfl⟩ := run_eq_some_iff.1 hrun
    exact (run_eq_some_iff.2 ⟨hended, n + k, h.stepUpTo_add k⟩).symm
  | none =>
    refine (run_eq_none_iff.2 fun k hended => ?_).symm
    have hlater := stepUpTo_of_ended hended (Nat.le_add_left k n)
    rw [h.stepUpTo_add] at hlater
    exact run_eq_none_iff.1 hrun k (hlater ▸ hended)

/-- A run halts if steps lead to a first halted machine, and then there; it fails if, before there is
one, a step fails, and then as this step does; and it never ends if any number of steps can be taken
and there still is none. Steps taken beforehand change nothing of what it comes to and has printed
in the end. -/
theorem run_iff_steps (m : Machine) :
    (∀ last, m.run = some (.ok last) ↔ ∃ n, Steps n m last ∧ last.halted = true ∧
      ∀ k < n, ∀ before, Steps k m before → before.halted = false) ∧
    (∀ failure, m.run = some (.error failure) ↔ ∃ n last, Steps n m last ∧
      (∀ k ≤ n, ∀ before, Steps k m before → before.halted = false) ∧
      last.step = .error failure) ∧
    (m.run = none ↔ ∀ n, ∃ last, Steps n m last ∧ last.halted = false) ∧
    (m.halted = true → m.run = some (.ok m)) ∧
    ∀ k later, Steps k m later → later.run = m.run := by
  refine ⟨?_, ?_, run_eq_none_iff_steps, run_of_halted, fun k later => run_of_steps⟩
  · intro last
    constructor
    · intro h
      obtain ⟨n, hsteps⟩ := steps_of_run_ok h
      exact ⟨n, hsteps, halted_of_run_ok h, fun k hk before => hsteps.active_of_lt hk⟩
    · rintro ⟨n, hsteps, hhalted, _⟩
      exact run_of_steps_halted hsteps hhalted
  · intro failure
    constructor
    · intro h
      cases hhalted : m.halted with
      | true =>
        rw [run_of_halted hhalted] at h
        cases h
      | false =>
        obtain ⟨_, n, _, last, hsteps, hactive, hstep⟩ := last_step_of_run hhalted h
        refine ⟨n, last, hsteps, ?_, hstep⟩
        intro k hk before hbefore
        rcases Nat.lt_or_eq_of_le hk with hlt | rfl
        · exact hsteps.active_of_lt hlt hbefore
        · rw [hbefore.unique hsteps]
          exact hactive
    · rintro ⟨n, last, hsteps, hactive, hstep⟩
      have hlast := hactive n (Nat.le_refl n) last hsteps
      rw [← hstep]
      exact run_of_last_step hsteps hlast (hstep ▸ True.intro)

/-- A machine that jumps to where it is, again and again. -/
def circling : Machine where
  toCpu := Cpu.booted [0b01010100, 0]

/-- A machine about to load a value and to halt. -/
def settingAndHalting : Machine where
  toCpu := Cpu.booted [0b10000010, 0, 5, 1]

/-- A machine about to pop a value, after which there is no instruction. -/
def poppingAndFailing : Machine where
  toCpu := Cpu.booted [0b01000110, 0]

/-- One machine never ends, one halts after two steps, one fails in its second step, and what they
come to can be told after the first step as well. -/
theorem run_iff_steps_circling :
    circling.run = none ∧
      settingAndHalting.run = some (.ok settingAndHalting.step.machine.step.machine) ∧
      (poppingAndFailing.run.bind Outcome.error?) = some (.illegalInstruction 0 2) ∧
      poppingAndFailing.step.machine.run = poppingAndFailing.run := by
  have hjump : circling.memory.HoldsAt circling.pc (Instruction.jmp 0).encode := by decide +kernel
  have hcircle : circling.step = .ok circling := step_of_execute rfl hjump rfl rfl
  have hround : ∀ n, Steps n circling circling := by
    intro n
    induction n with
    | zero => exact .zero _
    | succ n ih => exact .succ hcircle ih
  have hset : settingAndHalting.step = .ok settingAndHalting.step.machine :=
    Outcome.eq_ok_of_error? (by decide +kernel)
  have hhalt : settingAndHalting.step.machine.step =
      .ok settingAndHalting.step.machine.step.machine :=
    Outcome.eq_ok_of_error? (by decide +kernel)
  have htwo : Steps 2 settingAndHalting settingAndHalting.step.machine.step.machine :=
    .succ hset (.succ hhalt (.zero _))
  have hpop : poppingAndFailing.step = .ok poppingAndFailing.step.machine :=
    Outcome.eq_ok_of_error? (by decide +kernel)
  have hone : Steps 1 poppingAndFailing poppingAndFailing.step.machine := .succ hpop (.zero _)
  have herror : poppingAndFailing.step.machine.step.error? = some (.illegalInstruction 0 2) := by
    decide +kernel
  have hfail := Outcome.eq_error_of_error? herror
  have hactive : ∀ k ≤ 1, ∀ before, Steps k poppingAndFailing before → before.halted = false := by
    intro k hk before hbefore
    rcases Nat.lt_or_eq_of_le hk with hlt | rfl
    · exact hone.active_of_lt hlt hbefore
    · rw [hbefore.unique hone]
      decide +kernel
  obtain ⟨_, _, hnever, _, _⟩ := run_iff_steps circling
  obtain ⟨hhalts, _, _, _, _⟩ := run_iff_steps settingAndHalting
  obtain ⟨_, hfails, _, _, hlater⟩ := run_iff_steps poppingAndFailing
  refine ⟨?_, ?_, ?_, hlater 1 _ hone⟩
  · exact hnever.2 fun n => ⟨circling, hround n, rfl⟩
  · exact (hhalts _).2 ⟨2, htwo, by decide +kernel, fun k hk before => htwo.active_of_lt hk⟩
  · rw [(hfails _).2 ⟨1, _, hone, hactive, hfail⟩]
    rfl

end Machine

end Ls8
