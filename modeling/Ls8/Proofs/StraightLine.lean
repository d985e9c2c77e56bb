import Ls8.Proofs.RunEnding

/-!
# Programs without jumps

Instructions that always go on with the next one can be carried out in the order in which they are
listed, without a program counter and without the bytes that write them. Main statement: a machine
that runs the bytes of such a program, with a halt after them, does just that, as long as the program
pushes nothing onto these bytes (`run_straight`).
-/

namespace Ls8

/-- The instructions that always go on with the next one. -/
inductive Straight where
  | ldi (a : Register) (value : UInt8)
  | add (a b : Register)
  | mul (a b : Register)
  | cmp (a b : Register)
  | prn (a : Register)
  | push (a : Register)
  | pop (a : Register)
  deriving DecidableEq, Repr

namespace Straight

def toInstruction : Straight → Instruction
  | ldi a value => .ldi a value
  | add a b => .add a b
  | mul a b => .mul a b
  | cmp a b => .cmp a b
  | prn a => .prn a
  | push a => .push a
  | pop a => .pop a

def pushes : Straight → Bool
  | push _ => true
  | _ => false

/-- The bytes of a program: its instructions one after the other. -/
def bytes (program : List Straight) : List UInt8 :=
  program.flatMap fun i => i.toInstruction.encode

/-- A program as it is placed in memory, with a halt at its end. -/
def image (program : List Straight) : List UInt8 :=
  bytes program ++ Instruction.hlt.encode

/-- The sum of the widths of some instructions, which is where the one after them stands. -/
def width : List Straight → Nat
  | [] => 0
  | i :: rest => i.toInstruction.width + width rest

variable {first second rest : List Straight} {i : Straight}

theorem bytes_cons : bytes (i :: rest) = i.toInstruction.encode ++ bytes rest :=
  List.flatMap_cons

theorem bytes_append : bytes (first ++ second) = bytes first ++ bytes second :=
  List.flatMap_append

theorem length_bytes (program : List Straight) : (bytes program).length = width program := by
  induction program with
  | nil => rfl
  | cons i rest ih => rw [bytes_cons, List.length_append, Instruction.length_encode, ih, width]

theorem length_image (program : List Straight) :
    (image program).length = (bytes program).length + 1 := List.length_append

/-- Where a program stands, its first instruction does. -/
theorem holdsAt_of_image_cons {memory : Memory} {position : Nat}
    (h : memory.HoldsAt position (image (i :: rest))) :
    memory.HoldsAt position i.toInstruction.encode := by
  rw [image, bytes_cons, List.append_assoc] at h
  exact (Memory.holdsAt_append.1 h).1

end Straight

/-- What such a program works on. A program counter is no part of it. -/
structure Workspace where
  registers : Registers
  flags : Flags
  memory : Memory
  output : List UInt8
  deriving DecidableEq, Repr

namespace Workspace

/-- What a program finds when it has just been placed in memory. -/
def fresh (program : List Straight) (out : Sink) : Workspace where
  registers := Registers.powerOn
  flags := Flags.clear
  memory := Memory.ofImage (Straight.image program)
  output := out.taken.toList

def value (w : Workspace) (a : Register) : UInt8 :=
  w.registers.read a

def sp (w : Workspace) : UInt8 :=
  w.value Register.sp

def set (w : Workspace) (a : Register) (value : UInt8) : Workspace :=
  { w with registers := w.registers.write a value }

/-- A register is put just below the stack pointer, which is lowered before the register is read. -/
def push (w : Workspace) (a : Register) : Except Error Workspace :=
  let lowered := w.set Register.sp (w.sp - 1)
  if w.sp = 0 then .error .stackOverflow
  else .ok { lowered with memory := w.memory.write lowered.sp (lowered.value a) }

/-- A register is given what the stack pointer points at, which is raised once the register is
written. -/
def pop (w : Workspace) (a : Register) : Except Error Workspace :=
  let given := w.set a (w.memory.read w.sp)
  if given.sp = 255 then .error .stackUnderflow
  else .ok (given.set Register.sp (given.sp + 1))

/-- How two registers compare, as unsigned numbers. -/
def comparison (w : Workspace) (a b : Register) : Flags where
  less := decide ((w.value a).toNat < (w.value b).toNat)
  greater := decide ((w.value b).toNat < (w.value a).toNat)
  equal := decide ((w.value a).toNat = (w.value b).toNat)

/-- A register as decimal text in ASCII, and a newline. -/
def line (w : Workspace) (a : Register) : List UInt8 :=
  ((toString (w.value a).toNat).toList ++ ['\n']).map Char.toUInt8

/-- Carries out one instruction. -/
def perform (w : Workspace) : Straight → Except Error Workspace
  | .ldi a value => .ok (w.set a value)
  | .add a b => .ok (w.set a (w.value a + w.value b))
  | .mul a b => .ok (w.set a (w.value a * w.value b))
  | .cmp a b => .ok { w with flags := w.comparison a b }
  | .prn a => .ok { w with output := w.output ++ w.line a }
  | .push a => w.push a
  | .pop a => w.pop a

/-- Carries out a program up to the first error. -/
def performAll (w : Workspace) (program : List Straight) : Except Error Workspace :=
  program.foldlM perform w

/-- Whatever a program pushes is put at an address from `limit` on. -/
def PushesFrom (limit : Nat) (w : Workspace) : List Straight → Prop
  | [] => True
  | i :: rest =>
    match w.perform i with
    | .error _ => True
    | .ok next => (i.pushes = true → limit ≤ next.sp.toNat) ∧ PushesFrom limit next rest

instance PushesFrom.decidable (limit : Nat) :
    ∀ (w : Workspace) (program : List Straight), Decidable (PushesFrom limit w program)
  | _, [] => isTrue trivial
  | w, i :: rest =>
    match h : w.perform i with
    | .error _ => isTrue (by simp [PushesFrom, h])
    | .ok next =>
      have := PushesFrom.decidable limit next rest
      decidable_of_iff ((i.pushes = true → limit ≤ next.sp.toNat) ∧ PushesFrom limit next rest)
        (by simp [PushesFrom, h])

/-- The machine that is about to execute what stands at a position, and whose sink takes all. -/
def machineAt (w : Workspace) (pc : Nat) : Machine where
  pc := pc
  memory := w.memory
  registers := w.registers
  flags := w.flags
  out := { taken := w.output.toArray }

/-- All but the memory, with the flags as bits. -/
def seen (w : Workspace) : List UInt8 × UInt8 × List UInt8 :=
  (w.registers.toList, w.flags.bits, w.output)

variable {w next last : Workspace} {i : Straight} {program first second rest : List Straight}

/-! ## Carrying out a program -/

theorem performAll_cons_of_ok (h : w.perform i = .ok next) :
    w.performAll (i :: rest) = next.performAll rest := by
  rw [performAll, List.foldlM_cons, h]
  rfl

theorem performAll_cons_of_error {error : Error} (h : w.perform i = .error error) :
    w.performAll (i :: rest) = .error error := by
  rw [performAll, List.foldlM_cons, h]
  rfl

/-- A program that cannot be carried out fails at one of its instructions, in the workspace that the
ones before it leave. -/
theorem exists_of_performAll_eq_error {error : Error} (h : w.performAll program = .error error) :
    ∃ done i rest before, program = done ++ i :: rest ∧ w.performAll done = .ok before ∧
      before.perform i = .error error := by
  induction program generalizing w with
  | nil => cases h
  | cons i rest ih =>
    cases hperform : w.perform i with
    | error found =>
      rw [performAll_cons_of_error hperform] at h
      cases h
      exact ⟨[], i, rest, w, rfl, rfl, hperform⟩
    | ok next =>
      rw [performAll_cons_of_ok hperform] at h
      obtain ⟨done, j, after, before, rfl, hdone, hfailed⟩ := ih h
      exact ⟨i :: done, j, after, before, rfl, (performAll_cons_of_ok hperform).trans hdone, hfailed⟩

theorem PushesFrom.cons_of_ok {limit : Nat} (h : PushesFrom limit w (i :: rest))
    (hperform : w.perform i = .ok next) :
    (i.pushes = true → limit ≤ next.sp.toNat) ∧ PushesFrom limit next rest := by
  rwa [PushesFrom, hperform] at h

theorem PushesFrom.of_append {limit : Nat} (h : PushesFrom limit w (first ++ second)) :
    PushesFrom limit w first := by
  induction first generalizing w with
  | nil => trivial
  | cons i rest ih =>
    unfold PushesFrom
    split
    · trivial
    · next next hperform =>
      obtain ⟨hpush, hrest⟩ := h.cons_of_ok hperform
      exact ⟨hpush, ih hrest⟩

theorem memory_of_push {a : Register} (h : w.push a = .ok next) :
    ∃ byte, next.memory = w.memory.write next.sp byte := by
  unfold push at h
  split at h
  · cases h
  · cases h
    exact ⟨_, rfl⟩

theorem memory_of_pop {a : Register} (h : w.pop a = .ok next) : next.memory = w.memory := by
  dsimp only [pop] at h
  split at h
  · cases h
  · cases h
    rfl

/-- Bytes in front of all that an instruction pushes stand where they stood. -/
theorem holdsAt_of_perform {limit position : Nat} {bytes : List UInt8}
    (hperform : w.perform i = .ok next) (hpush : i.pushes = true → limit ≤ next.sp.toNat)
    (hlimit : position + bytes.length ≤ limit) (h : w.memory.HoldsAt position bytes) :
    next.memory.HoldsAt position bytes := by
  cases i with
  | push a =>
    obtain ⟨byte, hmemory⟩ := memory_of_push hperform
    rw [hmemory]
    exact h.write_of_ge (Nat.le_trans hlimit (hpush rfl)) byte
  | pop a =>
    rw [memory_of_pop hperform]
    exact h
  | ldi _ _ | add _ _ | mul _ _ | cmp _ _ | prn _ =>
    cases hperform
    exact h

/-! ## Running its bytes -/

/-- Where its bytes stand, an instruction is executed as it is carried out. -/
theorem step_machineAt {pc : Nat} (h : w.memory.HoldsAt pc i.toInstruction.encode) :
    (w.machineAt pc).step = match w.perform i with
      | .ok next => .ok (next.machineAt (pc + i.toInstruction.width))
      | .error error => .error ⟨error, w.machineAt pc⟩ := by
  rw [Machine.step_of_holdsAt rfl h]
  cases i with
  | ldi _ _ | add _ _ | mul _ _ => rfl
  | cmp a b =>
    have hcomparison : w.comparison a b = .ofComparison (w.value a) (w.value b) :=
      (Flags.ofComparison_eq _ _).symm
    rw [perform, hcomparison]
    rfl
  | prn a =>
    have hline : w.line a = Numeral.decimalLine (w.value a) := (Numeral.decimalLine_eq _).symm
    have hprint := Machine.print_of_limitless (m := w.machineAt pc) rfl (w.line a)
      ((w.machineAt pc).toCpu.advance .prn)
    have hgain : (w.machineAt pc).out.gain (w.line a) =
        { taken := (w.output ++ w.line a).toArray } := by
      simp [Sink.gain, machineAt]
    rw [hgain, hline] at hprint
    rw [perform, hline]
    exact hprint
  | push a =>
    have hlower : (w.machineAt pc).lowerStack = if w.sp = 0 then .error .stackOverflow
      else .ok ((w.machineAt pc).setRegister Register.sp (w.sp - 1)) := rfl
    simp only [Machine.carriedOut, Straight.toInstruction, Cpu.execute, Cpu.pushed, hlower, perform,
      push]
    split <;> rfl
  | pop a =>
    have hraise : ((w.machineAt pc).setRegister a (w.machineAt pc).top).raiseStack =
        if (w.set a (w.memory.read w.sp)).sp = 255 then .error .stackUnderflow
        else .ok (((w.machineAt pc).setRegister a (w.memory.read w.sp)).setRegister Register.sp
          ((w.set a (w.memory.read w.sp)).sp + 1)) := rfl
    simp only [Machine.carriedOut, Straight.toInstruction, Cpu.execute, hraise, perform, pop]
    split <;> rfl

/-- From where the bytes of a program stand, as many steps as it has instructions lead to where they
end, and what stands there still does. -/
theorem stepUpTo_machineAt {limit pc : Nat} {tail : List UInt8}
    (hholds : w.memory.HoldsAt pc (Straight.bytes program ++ tail))
    (hlimit : pc + (Straight.bytes program ++ tail).length ≤ limit)
    (hpushes : PushesFrom limit w program) (hperform : w.performAll program = .ok last) :
    (w.machineAt pc).stepUpTo program.length =
        .ok (last.machineAt (pc + (Straight.bytes program).length)) ∧
      last.memory.HoldsAt (pc + (Straight.bytes program).length) tail := by
  induction program generalizing w pc with
  | nil =>
    cases hperform
    exact ⟨rfl, hholds⟩
  | cons i rest ih =>
    rw [Straight.bytes_cons, List.append_assoc] at hholds hlimit
    obtain ⟨hfirst, hrest⟩ := Memory.holdsAt_append.1 hholds
    rw [List.length_append, ← Nat.add_assoc] at hlimit
    have hafter : pc + (Straight.bytes (i :: rest)).length =
        pc + i.toInstruction.encode.length + (Straight.bytes rest).length := by
      rw [Straight.bytes_cons, List.length_append, Nat.add_assoc]
    cases hnext : w.perform i with
    | error error =>
      rw [performAll_cons_of_error hnext] at hperform
      cases hperform
    | ok next =>
      rw [performAll_cons_of_ok hnext] at hperform
      obtain ⟨hpush, hlater⟩ := hpushes.cons_of_ok hnext
      have hstep := step_machineAt hfirst
      rw [hnext, ← Instruction.length_encode] at hstep
      rw [List.length_cons, Machine.stepUpTo_succ rfl, hstep, hafter]
      -- what is pushed lies behind all that is still to be executed
      exact ih (holdsAt_of_perform hnext hpush hlimit hrest) hlimit hlater hperform

theorem step_machineAt_hlt {pc : Nat} (h : w.memory.HoldsAt pc Instruction.hlt.encode) :
    (w.machineAt pc).step = .ok { w.machineAt pc with halted := true } := by
  rw [Machine.step_of_holdsAt rfl h]
  rfl

/-- A machine that has just loaded a program, if it has no limit to what it prints. -/
theorem machineAt_fresh {out : Sink} (h : out.limit = none) :
    (fresh program out).machineAt 0 =
      { toCpu := Cpu.booted (Straight.image program), out := out } := by
  obtain ⟨taken, limit⟩ := out
  cases h
  rfl

/-- Part of the way through a program, the machine is where that part ends, and the rest still stands
there. -/
theorem stepUpTo_fresh {out : Sink} {done : List Straight} (hprogram : program = done ++ rest)
    (hfits : (Straight.image program).length ≤ 256)
    (hpushes : PushesFrom (Straight.image program).length (fresh program out) program)
    (hdone : (fresh program out).performAll done = .ok next) :
    ((fresh program out).machineAt 0).stepUpTo done.length =
        .ok (next.machineAt (Straight.width done)) ∧
      next.memory.HoldsAt (Straight.width done) (Straight.image rest) := by
  have himage : Straight.image program = Straight.bytes done ++ Straight.image rest := by
    rw [hprogram, Straight.image, Straight.bytes_append, List.append_assoc, Straight.image]
  have hholds : (fresh program out).memory.HoldsAt 0 (Straight.image program) :=
    Memory.holdsAt_ofImage hfits
  have hparts : PushesFrom (Straight.image program).length (fresh program out) (done ++ rest) := by
    rw [← hprogram]
    exact hpushes
  rw [himage] at hholds
  have hlimit : 0 + (Straight.bytes done ++ Straight.image rest).length ≤
      (Straight.image program).length := by
    rw [Nat.zero_add, ← himage]
  have hsteps := stepUpTo_machineAt hholds hlimit hparts.of_append hdone
  rwa [Nat.zero_add, Straight.length_bytes] at hsteps

end Workspace

namespace Machine

open Straight (image width)
open Workspace (fresh PushesFrom seen)

/-- A program without jumps, with a halt after it, is run in the order in which it is listed, if it
pushes nothing onto its own bytes. Each instruction is read where the ones before it end, and finds
the workspace that they leave. The run ends at the halt, or at the first instruction that would move
the stack pointer out of memory. -/
theorem run_straight {m : Machine} {program : List Straight}
    (hfits : (image program).length ≤ 256) (hsink : m.out.limit = none)
    (hpushes : PushesFrom (image program).length (fresh program m.out) program) :
    ∃ loaded, m.load (image program) = .ok loaded ∧
      (∀ done i rest before, program = done ++ i :: rest →
        (fresh program m.out).performAll done = .ok before →
          loaded.stepUpTo done.length = .ok (before.machineAt (width done)) ∧
          (before.machineAt (width done)).decode = .ok i.toInstruction) ∧
      (∀ last, (fresh program m.out).performAll program = .ok last →
        loaded.run =
          some (.ok { last.machineAt ((image program).length - 1) with halted := true })) ∧
      ∀ error, (fresh program m.out).performAll program = .error error →
        ∃ done i rest before, program = done ++ i :: rest ∧
          (fresh program m.out).performAll done = .ok before ∧ before.perform i = .error error ∧
          loaded.run = some (.error ⟨error, before.machineAt (width done)⟩) := by
  have hload : m.load (image program) = .ok ((fresh program m.out).machineAt 0) := by
    rw [Workspace.machineAt_fresh hsink]
    exact m.load_of_fits hfits
  refine ⟨_, hload, ?_, ?_, ?_⟩
  · intro done i rest before hprogram hdone
    obtain ⟨hsteps, hholds⟩ := Workspace.stepUpTo_fresh hprogram hfits hpushes hdone
    exact ⟨hsteps, Cpu.decode_eq_ok_iff.2 (Straight.holdsAt_of_image_cons hholds)⟩
  · intro last hlast
    obtain ⟨hsteps, hholds⟩ :=
      Workspace.stepUpTo_fresh (List.append_nil program).symm hfits hpushes hlast
    have hend : (image program).length - 1 = width program := by
      rw [Straight.length_image, Nat.add_sub_cancel, Straight.length_bytes]
    refine run_eq_some_iff.2 ⟨rfl, program.length + 1, ?_⟩
    rw [stepUpTo_succ_eq_step hsteps rfl, Workspace.step_machineAt_hlt hholds, hend]
  · intro error herror
    obtain ⟨done, i, rest, before, hprogram, hdone, hfailed⟩ :=
      Workspace.exists_of_performAll_eq_error herror
    obtain ⟨hsteps, hholds⟩ := Workspace.stepUpTo_fresh hprogram hfits hpushes hdone
    have hstep := Workspace.step_machineAt (Straight.holdsAt_of_image_cons hholds)
    rw [hfailed] at hstep
    refine ⟨done, i, rest, before, hprogram, hdone, hfailed, ?_⟩
    refine run_eq_some_iff.2 ⟨trivial, done.length + 1, ?_⟩
    rw [stepUpTo_succ_eq_step hsteps rfl, hstep]

/-- A program with the bytes of a halt, of a print and of a push among its operands. -/
def misleading (a b c d : Register) : List Straight :=
  [.ldi a 0b00000001, .push a, .ldi b 0b01000111, .ldi c 0b01000101, .pop d, .cmp d c, .add d b,
    .prn d]

/-- A program that runs out of stack after it has printed. -/
def overflowing (a : Register) : List Straight :=
  [.ldi Register.sp 0, .prn Register.sp, .push a]

/-- Of its instructions, only the last can fail. -/
theorem eq_of_overflowing {a : Register} {done rest : List Straight} {i : Straight}
    {before : Workspace} {error : Error} (h : overflowing a = done ++ i :: rest)
    (hfailed : before.perform i = .error error) :
    done = [.ldi Register.sp 0, .prn Register.sp] := by
  rcases done with _ | ⟨first, _ | ⟨second, _ | ⟨third, more⟩⟩⟩
  · cases h
    cases hfailed
  · cases h
    cases hfailed
  · cases h
    rfl
  · have hlength := congrArg List.length h
    simp [overflowing] at hlength

/-- The operands of the one are not executed, and the other is run up to its last instruction. -/
theorem run_straight_misleading :
    (∃ loaded last, new.load (image (misleading 1 2 4 3)) = .ok loaded ∧
      loaded.run = some (.ok last) ∧ last.pc = 21 ∧ last.halted = true ∧
      last.registers.toList = [0, 1, 71, 72, 69, 0, 0, 0xF3] ∧ last.flags.bits = 0b100 ∧
      last.out.taken.toList = "72\n".toUTF8.toList) ∧
    ∃ loaded left, new.load (image (overflowing 0)) = .ok loaded ∧
      loaded.run = some (.error ⟨.stackOverflow, left⟩) ∧ left.pc = 5 ∧ left.halted = false ∧
      left.registers.toList = [0, 0, 0, 0, 0, 0, 0, 0] ∧ left.flags.bits = 0 ∧
      left.out.taken.toList = "0\n".toUTF8.toList := by
  obtain ⟨halting, hhalting, _, hlast, _⟩ :=
    @run_straight new (misleading 1 2 4 3) (by decide) rfl (by decide +kernel)
  obtain ⟨failing, hfailing, _, _, herror⟩ :=
    @run_straight new (overflowing 0) (by decide) rfl (by decide +kernel)
  have hperformed : ((fresh (misleading 1 2 4 3) new.out).performAll
      (misleading 1 2 4 3)).toOption.map seen =
        some ([0, 1, 71, 72, 69, 0, 0, 0xF3], 0b100, "72\n".toUTF8.toList) := by decide +kernel
  have hprinted : ((fresh (overflowing 0) new.out).performAll
      [.ldi Register.sp 0, .prn Register.sp]).toOption.map seen =
        some ([0, 0, 0, 0, 0, 0, 0, 0], 0, "0\n".toUTF8.toList) := by decide +kernel
  have hoverflow : (fresh (overflowing 0) new.out).performAll (overflowing 0) =
      .error .stackOverflow := by decide +kernel
  obtain ⟨done, i, rest, before, hprogram, hdone, hfailed, hfailure⟩ := herror _ hoverflow
  obtain rfl := eq_of_overflowing hprogram hfailed
  rw [hdone] at hprinted
  obtain ⟨hregisters, hrest⟩ := Prod.mk.inj (Option.some.inj hprinted)
  obtain ⟨hflags, houtput⟩ := Prod.mk.inj hrest
  cases hperform : (fresh (misleading 1 2 4 3) new.out).performAll (misleading 1 2 4 3) with
  | error error =>
    rw [hperform] at hperformed
    cases hperformed
  | ok last =>
    rw [hperform] at hperformed
    obtain ⟨hregisters', hrest'⟩ := Prod.mk.inj (Option.some.inj hperformed)
    obtain ⟨hflags', houtput'⟩ := Prod.mk.inj hrest'
    exact ⟨⟨halting, _, hhalting, hlast last hperform, rfl, rfl, hregisters', hflags', houtput'⟩,
      failing, _, hfailing, hfailure, rfl, rfl, hregisters, hflags, houtput⟩

end Machine

end Ls8
