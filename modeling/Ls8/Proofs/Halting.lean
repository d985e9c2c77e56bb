import Ls8.Proofs.History
import Ls8.Proofs.UnreadBytes

/-!
# Halting

A machine halts by executing a halt, stays where it is, and goes on only when a new image is loaded.
Main statement: whatever has happened to it, it is halted just when it has executed a halt since the
last load, and as long as it is, nothing that is asked of it comes to more than the bytes that are
written from outside (`halted_iff_executed_hlt`).
-/

namespace Ls8

/-- Whether a halt has been executed since the last image was loaded. The latest event comes first. -/
def executedHlt : List Event → Bool
  | [] => false
  | .loaded _ :: _ => false
  | .executed _ .hlt :: _ => true
  | _ :: earlier => executedHlt earlier

/-- Whether a byte has been written from outside since the last halt, or at all if there was none. -/
def writtenSinceHlt : List Event → Bool
  | [] => false
  | .executed _ .hlt :: _ => false
  | .wrote _ _ :: _ => true
  | _ :: earlier => writtenSinceHlt earlier

/-- The bytes that a call writes from outside. -/
def Call.writes : Call → List (UInt8 × UInt8)
  | write address value => [(address, value)]
  | load _ | step | run => []

/-! ## Calls of a halted machine -/

section Halted

variable {m : Machine} {h : History} {more : List Call}

/-- A call of a halted machine ends, and changes nothing but what it writes, unless it is a load that
fits. -/
theorem Call.perform_of_halted (hhalted : m.halted = true) (call : Call)
    (hrefused : ∀ bytes, call = .load bytes → Memory.size < bytes.length) :
    ∃ outcome, call.perform m = some outcome ∧ outcome.machine = m.writeAll call.writes := by
  cases call with
  | load bytes =>
    refine ⟨_, rfl, ?_⟩
    rw [m.load_of_too_large (hrefused bytes rfl)]
    rfl
  | step =>
    refine ⟨_, rfl, ?_⟩
    rw [Machine.step_of_halted hhalted]
    rfl
  | run => exact ⟨_, Machine.run_of_halted hhalted, rfl⟩
  | write address value => exact ⟨_, rfl, rfl⟩

theorem Machine.halted_writeAll (m : Machine) (writes : List (UInt8 × UInt8)) :
    (m.writeAll writes).halted = m.halted := by
  have hsame : AgreeOutside Set.univ m (m.writeAll writes) :=
    m.agreeOutside_writeAll fun _ _ => Set.mem_univ _
  exact hsame.halted_eq.symm

/-- As long as no load fits, all that calls change are the bytes that they write. -/
theorem History.calls_of_halted (hhalted : h.machine.halted = true)
    (hrefused : ∀ bytes, .load bytes ∈ more → Memory.size < bytes.length) :
    ∃ later, h.calls more = some later ∧
      later.machine = h.machine.writeAll (more.flatMap Call.writes) := by
  induction more generalizing h with
  | nil => exact ⟨h, rfl, rfl⟩
  | cons first rest ih =>
    obtain ⟨outcome, hperform, hmachine⟩ := first.perform_of_halted hhalted
      fun bytes hload => hrefused bytes (hload ▸ List.mem_cons_self)
    have hnext : h.call first = some ⟨outcome.machine, first.events h.machine ++ h.events⟩ := by
      rw [History.call, hperform]
      rfl
    have hstill : outcome.machine.halted = true := by
      rw [hmachine, Machine.halted_writeAll, hhalted]
    obtain ⟨later, hcalls, hlater⟩ := ih
      (h := ⟨outcome.machine, first.events h.machine ++ h.events⟩) hstill
      fun bytes hload => hrefused bytes (List.mem_cons_of_mem _ hload)
    refine ⟨later, ?_, ?_⟩
    · rw [History.calls, List.foldlM_cons, hnext]
      exact hcalls
    · rw [hlater, hmachine, List.flatMap_cons, Machine.writeAll, Machine.writeAll, Machine.writeAll,
        List.foldl_append]

end Halted

namespace Machine

variable {out : Sink} {asked : List Call} {h : History}

/-! ## How a machine came to be halted -/

theorem halted_eq_executedHlt (hcalls : (History.start (withOutput out)).calls asked = some h) :
    h.machine.halted = executedHlt h.events := by
  refine History.invariant (P := fun h => h.machine.halted = executedHlt h.events)
    ?_ ?_ ?_ ?_ hcalls rfl
  · intro h i next hP hi hstep
    have hexecute := execute_of_step hstep hi
    show next.halted = _
    cases i with
    | hlt => exact (halted_iff_of_step_ok hstep hi).2 rfl
    | _ => exact (Cpu.halted_of_execute hexecute nofun).trans hP
  · intro h failure hP hstep
    show failure.machine.halted = _
    rw [toCpu_of_step_error hstep]
    exact hP
  · intro h bytes next _ _ hload
    obtain ⟨_, rfl⟩ := load_eq_ok hload
    rfl
  · intro h address value _ hP
    exact hP

/-- The last thing that has happened to a halted machine is the halt, unless it was written to. -/
theorem executed_of_halted (hcalls : (History.start (withOutput out)).calls asked = some h)
    (hhalted : h.machine.halted = true) (hunwritten : writtenSinceHlt h.events = false) :
    ∃ c earlier, h.events = .executed c .hlt :: earlier ∧
      h.machine.toCpu = { c with halted := true } ∧
      c.memory.HoldsAt c.pc Instruction.hlt.encode := by
  refine History.invariant (P := fun h => h.machine.halted = true →
    writtenSinceHlt h.events = false → ∃ c earlier, h.events = .executed c .hlt :: earlier ∧
      h.machine.toCpu = { c with halted := true } ∧
      c.memory.HoldsAt c.pc Instruction.hlt.encode)
    ?_ ?_ ?_ ?_ hcalls ?_ hhalted hunwritten
  · intro h i next _ hi hstep hhalted _
    obtain rfl := (halted_iff_of_step_ok hstep hi).1 hhalted
    exact ⟨_, _, rfl, toCpu_of_step_hlt hstep hi, hi⟩
  · intro h failure hP hstep
    show failure.machine.halted = true → _
    rw [toCpu_of_step_error hstep]
    exact hP
  · intro h bytes next _ _ hload hhalted
    obtain ⟨_, rfl⟩ := load_eq_ok hload
    cases hhalted
  · intro h address value _ _ _ hwritten
    cases hwritten
  · intro hhalted
    cases hhalted

/-- Whatever has been asked of a machine since it was switched on, and whatever that came to: it is
halted just when it has executed a halt since the last load. While it is, a step is refused, a run
ends at once, a load that does not fit is refused, and neither these nor writes, in any number and
order, change anything but the bytes written. Until the first of those writes the program counter is
where the halt was executed, and the byte there is the halt. -/
theorem halted_iff_executed_hlt
    (hcalls : (History.start (withOutput out)).calls asked = some h) :
    (h.machine.halted = true ↔ executedHlt h.events = true) ∧
    (h.machine.halted = true →
      h.machine.step = .error ⟨.machineHalted, h.machine⟩ ∧
      h.machine.run = some (.ok h.machine) ∧
      (∀ bytes : List UInt8, Memory.size < bytes.length →
        h.machine.load bytes = .error ⟨.programTooLarge bytes.length, h.machine⟩) ∧
      ∀ more : List Call, (∀ bytes, .load bytes ∈ more → Memory.size < bytes.length) →
        ∃ later, h.calls more = some later ∧
          later.machine = h.machine.writeAll (more.flatMap Call.writes) ∧
          AgreeOutside {address | ∃ value, .write address value ∈ more} h.machine later.machine) ∧
    (h.machine.halted = true → writtenSinceHlt h.events = false →
      h.machine.memory.fetch? h.machine.pc = some Opcode.hlt.byte ∧
      ∃ c earlier, h.events = .executed c .hlt :: earlier ∧
        h.machine.toCpu = { c with halted := true }) := by
  refine ⟨by rw [halted_eq_executedHlt hcalls], fun hhalted => ⟨step_of_halted hhalted,
    run_of_halted hhalted, fun bytes hlarge => h.machine.load_of_too_large hlarge, ?_⟩, ?_⟩
  · intro more hrefused
    obtain ⟨later, hlater, hmachine⟩ := History.calls_of_halted hhalted hrefused
    refine ⟨later, hlater, hmachine, hmachine ▸ h.machine.agreeOutside_writeAll ?_⟩
    intro write hwrite
    obtain ⟨call, hcall, hmem⟩ := List.mem_flatMap.1 hwrite
    cases call with
    | write address value =>
      obtain rfl := List.mem_singleton.1 hmem
      exact ⟨value, hcall⟩
    | load _ | step | run => cases hmem
  · intro hhalted hunwritten
    obtain ⟨c, earlier, hevents, hcpu, hhlt⟩ := executed_of_halted hcalls hhalted hunwritten
    refine ⟨?_, c, earlier, hevents, hcpu⟩
    rw [hcpu]
    exact hhlt.1

/-- Pushes a halt behind itself and jumps there. -/
def pushedHlt : List UInt8 :=
  [0b10000010, 7, 20, 0b10000010, 0, 1, 0b01000101, 0, 0b10000010, 1, 19, 0b01010100, (1 : UInt8)]

/-- A step and a load are refused after the halt. -/
def pushedHltCalls : List Call :=
  [.load pushedHlt, .run, .step, .load (List.replicate 257 0), .run]

/-- A machine of which this has been asked. -/
def atPushedHlt : History :=
  (History.start new).after pushedHltCalls

/-- The byte where the machine has halted is the one that was pushed, and when it is overwritten the
machine stays halted there. -/
theorem halted_iff_executed_hlt_atPushedHlt :
    (History.start new).calls pushedHltCalls = some atPushedHlt ∧
      Reachable atPushedHlt.machine ∧ atPushedHlt.machine.halted = true ∧
      atPushedHlt.machine.pc = 19 ∧ atPushedHlt.machine.memory.fetch? 19 = some 1 ∧
      ∃ later, atPushedHlt.calls [.write 19 0, .step, .run] = some later ∧
        later.machine.halted = true ∧ later.machine.pc = 19 := by
  have hends : ((History.start new).calls pushedHltCalls).isSome = true ∧
      executedHlt atPushedHlt.events = true ∧ writtenSinceHlt atPushedHlt.events = false ∧
      atPushedHlt.machine.pc = 19 := by decide +kernel
  obtain ⟨hends, hexecuted, hunwritten, hpc⟩ := hends
  have hcalls : (History.start new).calls pushedHltCalls = some atPushedHlt :=
    History.calls_eq_after hends
  obtain ⟨hiff, hwhile, hwhere⟩ := halted_iff_executed_hlt hcalls
  have hhalted := hiff.2 hexecuted
  obtain ⟨hbyte, _⟩ := hwhere hhalted hunwritten
  obtain ⟨_, _, _, hmore⟩ := hwhile hhalted
  obtain ⟨later, hlater, _, hsame⟩ := hmore [.write 19 0, .step, .run] (by simp)
  rw [hpc] at hbyte
  exact ⟨hcalls, reachable_iff_history.2 ⟨_, _, _, hcalls, rfl⟩, hhalted, hpc, hbyte, later,
    hlater, hsame.halted_eq ▸ hhalted, hsame.pc_eq ▸ hpc⟩

end Machine

end Ls8
