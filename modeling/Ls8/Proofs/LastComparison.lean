import Ls8.Proofs.History

/-!
# The last comparison

The flags are written by comparisons and cleared by loading, and by nothing else. Main statement:
whatever has happened to a machine since it was switched on, its flags tell how the last comparison
since the last load came out, and the two conditional jumps go by that (`flags_tell_last_outcome`).
-/

namespace Ls8

/-- How two bytes compared that were compared last, as numbers; `none` if none were since the last
image was loaded. The latest event comes first. -/
def lastOutcome : List Event → Option Ordering
  | [] => none
  | .loaded _ :: _ => none
  | .executed c (.cmp a b) :: _ => some (compare (c.register a).toNat (c.register b).toNat)
  | _ :: earlier => lastOutcome earlier

namespace Flags

/-- The flags that tell how a comparison came out: one of them, or none if there was no comparison. -/
def telling (outcome : Option Ordering) : Flags where
  less := outcome = some .lt
  greater := outcome = some .gt
  equal := outcome = some .eq

theorem ofComparison_eq_telling (left right : UInt8) :
    ofComparison left right = telling (some (compare left.toNat right.toNat)) := by
  simp [ofComparison, telling, UInt8.lt_iff_toNat_lt, Nat.compare_eq_lt, Nat.compare_eq_gt,
    UInt8.toNat_inj]

theorem bits_telling (outcome : Option Ordering) : (telling outcome).bits =
    match outcome with
    | none => 0b000
    | some .eq => 0b001
    | some .gt => 0b010
    | some .lt => 0b100 := by
  rcases outcome with _ | outcome
  · rfl
  · cases outcome <;> rfl

end Flags

namespace Cpu

variable {c next : Cpu} {i : Instruction} {a : Register}

/-- No instruction but a comparison writes the flags. -/
theorem flags_of_execute (h : c.execute i = .ok next) : next.flags =
    match i with
    | .cmp a b => .ofComparison (c.register a) (c.register b)
    | _ => c.flags := by
  cases i with
  | ret =>
    obtain ⟨_, rfl⟩ := execute_ret_eq_ok h
    rfl
  | push a =>
    obtain ⟨_, rfl⟩ := execute_push_eq_ok h
    rfl
  | pop a =>
    obtain ⟨_, rfl⟩ := execute_pop_eq_ok h
    rfl
  | call a =>
    obtain ⟨_, back, _, rfl⟩ := execute_call_eq_ok h
    rfl
  | jeq _ | jne _ =>
    cases h
    show (if _ then _ else _ : Cpu).flags = _
    split <;> rfl
  | hlt | prn _ | jmp _ | ldi _ _ | add _ _ | mul _ _ | cmp _ _ =>
    cases h
    rfl

theorem pc_of_jeq (h : c.execute (.jeq a) = .ok next) :
    next.pc = if c.flags.equal then (c.register a).toNat else c.pc + 2 := by
  cases h
  show (if _ then _ else _ : Cpu).pc = _
  split <;> rfl

theorem pc_of_jne (h : c.execute (.jne a) = .ok next) :
    next.pc = if c.flags.equal then c.pc + 2 else (c.register a).toNat := by
  cases h
  show (if _ then _ else _ : Cpu).pc = _
  split <;> rfl

end Cpu

namespace Machine

variable {out : Sink} {asked : List Call} {h : History}

theorem flags_eq_telling (hcalls : (History.start (withOutput out)).calls asked = some h) :
    h.machine.flags = .telling (lastOutcome h.events) := by
  refine History.invariant (P := fun h => h.machine.flags = .telling (lastOutcome h.events))
    ?_ ?_ ?_ ?_ hcalls rfl
  · intro h i next hP hi hstep
    -- a comparison becomes the last one, and any other instruction leaves flags and last outcome
    have hflags := Cpu.flags_of_execute (execute_of_step hstep hi)
    show next.flags = _
    rw [hflags]
    cases i with
    | cmp a b => exact Flags.ofComparison_eq_telling _ _
    | _ => exact hP
  · intro h failure hP hstep
    show failure.machine.flags = _
    rw [toCpu_of_step_error hstep]
    exact hP
  · intro h bytes next _ _ hload
    obtain ⟨_, rfl⟩ := load_eq_ok hload
    rfl
  · intro h address value _ hP
    exact hP

/-- Whatever has been asked of a machine since it was switched on, and whatever that came to: its
flags are clear if it has not compared since the last load, and otherwise the one is set that tells how
the last comparison came out, when that was made. So a jump on equal that succeeds is taken just when
there was a comparison since then and the last one was of equal bytes, and a jump on not equal just
when it is not so. -/
theorem flags_tell_last_outcome
    (hcalls : (History.start (withOutput out)).calls asked = some h) :
    h.machine.flags = .telling (lastOutcome h.events) ∧
    (h.machine.flags.bits = match lastOutcome h.events with
      | none => 0b000
      | some .eq => 0b001
      | some .gt => 0b010
      | some .lt => 0b100) ∧
    ∀ (a : Register) (next : Machine), h.machine.step = .ok next →
      (h.machine.memory.HoldsAt h.machine.pc (Instruction.jeq a).encode →
        next.pc = if lastOutcome h.events = some .eq then (h.machine.register a).toNat
          else h.machine.pc + 2) ∧
      (h.machine.memory.HoldsAt h.machine.pc (Instruction.jne a).encode →
        next.pc = if lastOutcome h.events = some .eq then h.machine.pc + 2
          else (h.machine.register a).toNat) := by
  have hflags := flags_eq_telling hcalls
  have hequal : h.machine.flags.equal = true ↔ lastOutcome h.events = some .eq := by
    rw [hflags]
    exact decide_eq_true_iff
  refine ⟨hflags, hflags ▸ Flags.bits_telling _, fun a next hstep => ⟨?_, ?_⟩⟩
  · intro hjeq
    simp only [Cpu.pc_of_jeq (execute_of_step hstep hjeq), hequal]
  · intro hjne
    simp only [Cpu.pc_of_jne (execute_of_step hstep hjne), hequal]

/-- Compares two equal bytes, changes one of them, and jumps on equal. -/
def changedMind : List UInt8 :=
  [0b10000010, 0, 5, 0b10000010, 1, 5, 0b10100111, 0, 1, 0b10000010, 1, 6, 0b01010101, (2 : UInt8)]

/-- A load that is refused and a write come between the comparison and the jump. -/
def changedMindCalls : List Call :=
  [.load changedMind, .step, .step, .step, .load (List.replicate 257 0), .write 200 7, .step]

/-- The machine is about to jump. -/
def mindChanged : History :=
  (History.start new).after changedMindCalls

/-- The two registers differ by now, and the jump is taken all the same. -/
theorem flags_tell_last_outcome_mindChanged :
    (History.start new).calls changedMindCalls = some mindChanged ∧
      mindChanged.machine.register 0 ≠ mindChanged.machine.register 1 ∧
      mindChanged.machine.flags.bits = 0b001 ∧ mindChanged.machine.pc = 12 ∧
      mindChanged.machine.step.machine.pc = 0 := by
  have hcalls : (History.start new).calls changedMindCalls = some mindChanged :=
    History.calls_eq_after (by decide +kernel)
  have houtcome : lastOutcome mindChanged.events = some .eq := by decide +kernel
  have hjeq : mindChanged.machine.memory.HoldsAt mindChanged.machine.pc
      (Instruction.jeq 2).encode := by decide +kernel
  have hstep : mindChanged.machine.step = .ok mindChanged.machine.step.machine :=
    Outcome.eq_ok_of_error? (by decide +kernel)
  have hzero : mindChanged.machine.register 2 = 0 := by decide +kernel
  obtain ⟨_, hbits, hjumps⟩ := flags_tell_last_outcome hcalls
  have hpc := (hjumps 2 _ hstep).1 hjeq
  rw [houtcome] at hbits hpc
  exact ⟨hcalls, by decide +kernel, hbits, by decide +kernel, by rw [hpc, if_pos rfl, hzero]; rfl⟩

end Machine

end Ls8
