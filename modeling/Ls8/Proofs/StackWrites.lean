import Ls8.Proofs.History
import Ls8.Proofs.Subroutine

/-!
# What the stack leaves in memory

A machine that is left alone writes to memory by pushes and calls only, each time the one byte just
below the stack pointer. Main statement: after any steps and runs, an address holds what was last
stored there, or what it held at first, and a program that the stack has not come down to is still
there and was executed as it was loaded (`memory_of_stack_writes`).
-/

namespace Ls8

/-- The byte that an event stores at an address. Only a push or a call stores one, executed while the
stack pointer is one above the address. -/
def Event.stored (address : UInt8) : Event → Option UInt8
  | .executed c i =>
    match c.stackMove i with
    | .put byte => if c.sp.toNat = address.toNat + 1 then some byte else none
    | .take | .stay => none
  | .loaded _ | .wrote _ _ => none

/-- The byte that was stored last at an address, if any was. -/
def lastStored (address : UInt8) (events : List Event) : Option UInt8 :=
  events.findSome? (Event.stored address)

namespace Event

/-- The event stores nothing where a program of so many bytes stands at the start of memory: a push or
a call was executed with the stack pointer above its end. -/
def Spares (size : Nat) : Event → Prop
  | executed c i => i.stores = true → size < c.sp.toNat
  | loaded _ | wrote _ _ => True

instance decidableSpares (size : Nat) : ∀ event : Event, Decidable (event.Spares size)
  | executed c i => inferInstanceAs (Decidable (i.stores = true → size < c.sp.toNat))
  | loaded _ | wrote _ _ => isTrue trivial

/-- As far as the instruction lay where a program stands at the start of memory, its bytes were those
of the program. -/
def AsLoaded (bytes : List UInt8) : Event → Prop
  | executed c i => ∀ k < i.width, c.pc + k < bytes.length → i.encode[k]? = bytes[c.pc + k]?
  | loaded _ | wrote _ _ => True

end Event

namespace Cpu

variable {c next : Cpu} {i : Instruction}

theorem eq_sub_one_iff {sp address : UInt8} (h : sp ≠ 0) :
    address = sp - 1 ↔ sp.toNat = address.toNat + 1 := by
  have hpos : sp.toNat ≠ 0 := fun e => h (UInt8.toNat_inj.1 e)
  rw [← UInt8.toNat_inj, toNat_sub_one h]
  omega

/-- What stores a byte finds room for it. -/
theorem sp_ne_zero_of_stores (h : c.execute i = .ok next) (hstores : i.stores = true) :
    c.sp ≠ 0 := by
  cases i with
  | push a => exact (execute_push_eq_ok h).1
  | call a => exact (execute_call_eq_ok h).1
  | _ => cases hstores

/-- After an instruction an address holds what that has stored there, or what it held before. -/
theorem read_eq_stored (h : c.execute i = .ok next) (address : UInt8) :
    next.memory.read address =
      ((Event.executed c i).stored address).getD (c.memory.read address) := by
  rw [memory_of_execute h, Event.stored]
  cases hmove : c.stackMove i with
  | put byte =>
    have hsp := sp_ne_zero_of_stores h (stores_of_stackMove hmove)
    simp only [memoryAfter, Memory.read_write, eq_sub_one_iff hsp]
    split <;> rfl
  | take => rfl
  | stay => rfl

/-- An instruction stores at one address at most. -/
theorem read_of_ne_sub_one (h : c.execute i = .ok next) {address : UInt8}
    (hne : address ≠ c.sp - 1) : next.memory.read address = c.memory.read address := by
  rw [memory_of_execute h]
  cases c.stackMove i with
  | put byte => exact Memory.read_write_of_ne c.memory hne byte
  | take => rfl
  | stay => rfl

end Cpu

/-- There is no stack pointer from which the last address could be reached. -/
theorem lastStored_last (events : List Event) : lastStored 255 events = none := by
  rw [lastStored, List.findSome?_eq_none_iff]
  intro event _
  cases event with
  | loaded _ => rfl
  | wrote _ _ => rfl
  | executed c i =>
    have hne : c.sp.toNat ≠ (255 : UInt8).toNat + 1 := Nat.ne_of_lt c.sp.toNat_lt
    rw [Event.stored]
    cases c.stackMove i with
    | put byte => exact if_neg hne
    | take => rfl
    | stay => rfl

namespace Machine

/-- Whatever a step comes to, it changes one byte at most. -/
theorem exists_step_changes (m : Machine) :
    ∃ changed, ∀ address, address ≠ changed → m.step.machine.read address = m.read address := by
  refine ⟨m.sp - 1, fun address hne => ?_⟩
  cases hstep : m.step with
  | error failure =>
    rw [Outcome.machine, read, toCpu_of_step_error hstep]
    rfl
  | ok next =>
    obtain ⟨_, i, _, hexecute, _⟩ := step_eq_ok_iff.1 hstep
    exact Cpu.read_of_ne_sub_one hexecute hne

variable {start : Machine} {asked : List Call} {later : History}

theorem read_eq_lastStored (hown : ∀ call ∈ asked, call = .step ∨ call = .run)
    (h : (History.start start).calls asked = some later) (address : UInt8) :
    later.machine.read address = (lastStored address later.events).getD (start.read address) := by
  refine History.invariant_of_own (P := fun h =>
    h.machine.read address = (lastStored address h.events).getD (start.read address))
    ?_ ?_ hown h rfl
  · intro h i next hP hi hstep
    have hread := Cpu.read_eq_stored (execute_of_step hstep hi) address
    show next.memory.read address = _
    rw [hread, lastStored, List.findSome?_cons]
    cases (Event.executed h.machine.toCpu i).stored address with
    | some byte => rfl
    | none => exact hP
  · intro h failure hP hstep
    show failure.machine.memory.read address = _
    rw [toCpu_of_step_error hstep]
    exact hP

/-- An instruction within a program that still stands in memory is made of bytes of the program. -/
theorem asLoaded_of_holdsAt {bytes : List UInt8} {c : Cpu} {i : Instruction}
    (hi : c.memory.HoldsAt c.pc i.encode) (hholds : c.memory.HoldsAt 0 bytes) :
    (Event.executed c i).AsLoaded bytes := by
  intro k hk hinside
  rw [← i.length_encode] at hk
  have hbyte := hi.fetch?_add k hk
  have hprogram := hholds.fetch?_add (c.pc + k) hinside
  rw [Nat.zero_add, hbyte] at hprogram
  rw [List.getElem?_eq_getElem hk, List.getElem?_eq_getElem hinside, hprogram]

/-- A program still stands in memory after an instruction that spares it. -/
theorem holdsAt_of_spares {bytes : List UInt8} {c next : Cpu} {i : Instruction}
    (h : c.execute i = .ok next) (hholds : c.memory.HoldsAt 0 bytes)
    (hspares : (Event.executed c i).Spares bytes.length) : next.memory.HoldsAt 0 bytes := by
  rw [Cpu.memory_of_execute h]
  cases hmove : c.stackMove i with
  | put byte =>
    have hstores := Cpu.stores_of_stackMove hmove
    have hsp : bytes.length < c.sp.toNat := hspares hstores
    refine hholds.write_of_ge ?_ byte
    rw [Cpu.toNat_sub_one (Cpu.sp_ne_zero_of_stores h hstores)]
    omega
  | take => exact hholds
  | stay => exact hholds

/-- A program stays where it was loaded until the stack comes down to it. -/
theorem holdsAt_of_spared {bytes : List UInt8} (hown : ∀ call ∈ asked, call = .step ∨ call = .run)
    (h : (History.start start).calls asked = some later) (hstart : start.memory.HoldsAt 0 bytes)
    (hspared : ∀ event ∈ later.events, event.Spares bytes.length) :
    later.machine.memory.HoldsAt 0 bytes ∧ ∀ event ∈ later.events, event.AsLoaded bytes := by
  revert hspared
  refine History.invariant_of_own (P := fun h =>
    (∀ event ∈ h.events, event.Spares bytes.length) →
      h.machine.memory.HoldsAt 0 bytes ∧ ∀ event ∈ h.events, event.AsLoaded bytes)
    ?_ ?_ hown h ?_
  · intro h i next hP hi hstep hspared
    obtain ⟨hspares, hearlier⟩ := List.forall_mem_cons.1 hspared
    obtain ⟨hholds, hloaded⟩ := hP hearlier
    exact ⟨holdsAt_of_spares (execute_of_step hstep hi) hholds hspares,
      List.forall_mem_cons.2 ⟨asLoaded_of_holdsAt hi hholds, hloaded⟩⟩
  · intro h failure hP hstep hspared
    rw [toCpu_of_step_error hstep]
    exact hP hspared
  · intro _
    exact ⟨hstart, fun event hmem => absurd hmem List.not_mem_nil⟩

/-- After steps and runs, whether they succeed or fail, an address holds the byte that the last push
or call with the stack pointer just above it has stored there, or else what it held at first; the last
address is never written, and each further step changes one byte at most. A program that was loaded
is all there as long as no push or call was executed with the stack pointer at or below its end, and
what was executed within it is what was loaded. -/
theorem memory_of_stack_writes (hown : ∀ call ∈ asked, call = .step ∨ call = .run)
    (h : (History.start start).calls asked = some later) :
    (∀ address, later.machine.read address =
      (lastStored address later.events).getD (start.read address)) ∧
    later.machine.read 255 = start.read 255 ∧
    (∃ changed, ∀ address, address ≠ changed →
      later.machine.step.machine.read address = later.machine.read address) ∧
    ∀ (before : Machine) (bytes : List UInt8), before.load bytes = .ok start →
      (∀ event ∈ later.events, event.Spares bytes.length) →
        later.machine.memory.HoldsAt 0 bytes ∧ ∀ event ∈ later.events, event.AsLoaded bytes := by
  have hread := read_eq_lastStored hown h
  refine ⟨hread, ?_, exists_step_changes _, ?_⟩
  · rw [hread 255, lastStored_last, Option.getD_none]
  · intro before bytes hload
    refine holdsAt_of_spared hown h ?_
    obtain ⟨hfits, rfl⟩ := load_eq_ok hload
    exact Memory.holdsAt_ofImage hfits

/-- A program that pushes the instruction to halt to just behind itself, where it goes on. -/
def haltPusher : List UInt8 :=
  [0b10000010, 7, 9, 0b10000010, 0, 1, 0b01000101, 0]

def pushingHalt : Machine :=
  (new.load haltPusher).machine

/-- That machine after a run and a step, which is refused. -/
def pushedHalt : History :=
  (History.start pushingHalt).after [.run, .step]

/-- The byte behind the program is the one that was pushed, the program is all there, and the last
byte of memory is as it was. -/
theorem memory_of_stack_writes_pushingHalt :
    (History.start pushingHalt).calls [.run, .step] = some pushedHalt ∧
      pushedHalt.machine.halted = true ∧ pushedHalt.machine.read 8 = 1 ∧
      pushedHalt.machine.read 255 = 0 ∧ pushedHalt.machine.memory.HoldsAt 0 haltPusher := by
  have hcalls : (History.start pushingHalt).calls [.run, .step] = some pushedHalt :=
    History.calls_eq_after (by decide +kernel)
  have hown : ∀ call ∈ [Call.run, .step], call = .step ∨ call = .run := by decide
  have hload : new.load haltPusher = .ok pushingHalt :=
    Outcome.eq_ok_of_error? (by decide +kernel)
  have hstored : lastStored 8 pushedHalt.events = some 1 := by decide +kernel
  have hspared : ∀ event ∈ pushedHalt.events, event.Spares haltPusher.length := by
    decide +kernel
  have hlast : pushingHalt.read 255 = 0 := by decide +kernel
  obtain ⟨hread, hkept, _, hprogram⟩ :=
    memory_of_stack_writes hown hcalls
  refine ⟨hcalls, by decide +kernel, ?_, hkept.trans hlast, (hprogram new _ hload hspared).1⟩
  rw [hread 8, hstored, Option.getD_some]

end Machine

end Ls8
