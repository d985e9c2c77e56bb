import Ls8.Machine.Step
import Mathlib.Logic.Function.Basic

/-!
# The instruction table

What each instruction does, written out on plain numbers: every register and every byte of memory
is a natural number, and a row of the table names all that changes. Main statement: a step that
succeeds does what the row of the instruction at the program counter says (`contents_of_step`).
-/

namespace Ls8

/-- All that a machine holds, as numbers and characters. -/
structure Contents where
  pc : Nat
  register : Register → Nat
  byte : Nat → Nat
  /-- The bits `00000LGE`. -/
  flags : Nat
  halted : Bool
  output : List Char
  /-- How many characters the output takes in all. -/
  limit : Option Nat

namespace Contents

def sp (s : Contents) : Nat :=
  s.register Register.sp

def setRegister (s : Contents) (r : Register) (value : Nat) : Contents :=
  { s with register := Function.update s.register r value }

def setByte (s : Contents) (address value : Nat) : Contents :=
  { s with byte := Function.update s.byte address value }

def goTo (s : Contents) (position : Nat) : Contents :=
  { s with pc := position }

/-- The table. Each row tells its changes in the order in which they are read, so that a row that
changes the stack pointer first reads the register it names after that. -/
def effect (s : Contents) : Instruction → Contents
  | .hlt => { s with halted := true }
  | .ret => (s.setRegister 7 (s.sp + 1)).goTo (s.byte s.sp)
  | .push a =>
    let lowered := s.setRegister 7 (s.sp - 1)
    (lowered.setByte (s.sp - 1) (lowered.register a)).goTo (s.pc + 2)
  | .pop a =>
    let popped := s.setRegister a (s.byte s.sp)
    (popped.setRegister 7 (popped.sp + 1)).goTo (s.pc + 2)
  | .prn a =>
    { s with output := s.output ++ (toString (s.register a)).toList ++ ['\n'], pc := s.pc + 2 }
  | .call a =>
    let lowered := s.setRegister 7 (s.sp - 1)
    (lowered.setByte (s.sp - 1) (s.pc + 2)).goTo (lowered.register a)
  | .jmp a => s.goTo (s.register a)
  | .jeq a => s.goTo (if s.flags % 2 = 1 then s.register a else s.pc + 2)
  | .jne a => s.goTo (if s.flags % 2 = 1 then s.pc + 2 else s.register a)
  | .ldi a value => (s.setRegister a value.toNat).goTo (s.pc + 3)
  | .add a b => (s.setRegister a ((s.register a + s.register b) % 256)).goTo (s.pc + 3)
  | .mul a b => (s.setRegister a (s.register a * s.register b % 256)).goTo (s.pc + 3)
  | .cmp a b =>
    { s with
      flags := if s.register a = s.register b then 1 else if s.register b < s.register a then 2 else 4
      pc := s.pc + 3 }

end Contents

namespace Flags

theorem bits_mod_two (flags : Flags) : flags.bits.toNat % 2 = 1 ↔ flags.equal = true := by
  obtain ⟨less, greater, equal⟩ := flags
  cases less <;> cases greater <;> cases equal <;> decide

theorem bits_ofComparison (left right : UInt8) : (ofComparison left right).bits.toNat =
    if left.toNat = right.toNat then 1 else if right.toNat < left.toNat then 2 else 4 := by
  rcases Nat.lt_trichotomy left.toNat right.toNat with hlt | heq | hgt
  · have hne : left ≠ right := fun e => Nat.ne_of_lt hlt (congrArg UInt8.toNat e)
    have hnot : ¬ right.toNat < left.toNat := Nat.lt_asymm hlt
    simp [ofComparison, bits, UInt8.lt_iff_toNat_lt, hlt, hne, hnot, Nat.ne_of_lt hlt]
  · have he : left = right := UInt8.toNat_inj.1 heq
    simp [ofComparison, bits, he]
  · have hne : left ≠ right := fun e => Nat.ne_of_gt hgt (congrArg UInt8.toNat e)
    have hnot : ¬ left.toNat < right.toNat := Nat.lt_asymm hgt
    simp [ofComparison, bits, UInt8.lt_iff_toNat_lt, hgt, hne, hnot, Nat.ne_of_gt hgt]

end Flags

namespace Cpu

variable (c : Cpu) (out : Sink)

/-- What a processor holds, and what has been printed. -/
def contents : Contents where
  pc := c.pc
  register r := (c.register r).toNat
  byte address := (c.byteAt address).toNat
  flags := c.flags.bits.toNat
  halted := c.halted
  output := out.taken.toList.map Char.ofUInt8
  limit := out.limit

theorem sp_contents : (c.contents out).sp = c.sp.toNat := rfl

theorem byte_sp_contents : (c.contents out).byte c.sp.toNat = c.top.toNat := by
  show (c.byteAt c.sp.toNat).toNat = _
  rw [byteAt, Memory.fetch?_toNat, Option.getD_some, top]

theorem contents_setRegister (r : Register) (value : UInt8) :
    (c.setRegister r value).contents out = (c.contents out).setRegister r value.toNat := by
  have hregister : (fun s => ((c.setRegister r value).register s).toNat) =
      Function.update (fun s => (c.register s).toNat) r value.toNat := by
    funext s
    rw [register_setRegister, Function.update_apply]
    split <;> rfl
  rw [contents, hregister]
  rfl

theorem contents_store (address value : UInt8) :
    (c.store address value).contents out =
      (c.contents out).setByte address.toNat value.toNat := by
  have hbyte : (fun x => ((c.store address value).byteAt x).toNat) =
      Function.update (fun x => (c.byteAt x).toNat) address.toNat value.toNat := by
    funext x
    rw [Function.update_apply, byteAt, store, Memory.fetch?_write]
    split <;> rfl
  rw [contents, hbyte]
  rfl

theorem contents_jump (target : UInt8) :
    (c.jump target).contents out = (c.contents out).goTo target.toNat := rfl

theorem contents_advance (op : Opcode) :
    (c.advance op).contents out = (c.contents out).goTo (c.pc + op.width) := rfl

theorem register_contents (r : Register) : (c.contents out).register r = (c.register r).toNat := rfl

/-- A row that prints nothing tells what the processor does. -/
theorem contents_of_execute_silent {c next : Cpu} {i : Instruction} (h : c.execute i = .ok next)
    (hsilent : i.printed c.registers = none) : next.contents out = (c.contents out).effect i := by
  have hbit : (c.contents out).flags % 2 = 1 ↔ c.flags.equal = true := Flags.bits_mod_two c.flags
  cases i with
  | prn a => cases hsilent
  | hlt =>
    cases h
    rfl
  | ret =>
    obtain ⟨hsp, rfl⟩ := execute_ret_eq_ok h
    rw [contents_jump, contents_setRegister, toNat_add_one hsp, ← byte_sp_contents c out]
    rfl
  | push a =>
    obtain ⟨hsp, rfl⟩ := execute_push_eq_ok h
    rw [contents_advance, contents_store, ← register_contents _ out, contents_setRegister,
      toNat_sub_one hsp]
    rfl
  | pop a =>
    obtain ⟨hsp, rfl⟩ := execute_pop_eq_ok h
    rw [contents_advance, contents_setRegister, toNat_add_one hsp, ← sp_contents _ out,
      contents_setRegister, ← byte_sp_contents c out]
    rfl
  | call a =>
    obtain ⟨hsp, back, hback, rfl⟩ := execute_call_eq_ok h
    rw [contents_jump, contents_store, ← register_contents _ out, contents_setRegister,
      toNat_sub_one hsp, hback]
    rfl
  | jmp a =>
    cases h
    rfl
  | jeq a =>
    cases h
    by_cases hequal : c.flags.equal = true
    · rw [if_pos hequal, contents_jump, Contents.effect, if_pos (hbit.2 hequal)]
      rfl
    · rw [if_neg hequal, contents_advance, Contents.effect, if_neg (mt hbit.1 hequal)]
      rfl
  | jne a =>
    cases h
    by_cases hequal : c.flags.equal = true
    · rw [if_pos hequal, contents_advance, Contents.effect, if_pos (hbit.2 hequal)]
      rfl
    · rw [if_neg hequal, contents_jump, Contents.effect, if_neg (mt hbit.1 hequal)]
      rfl
  | ldi a value =>
    cases h
    rw [contents_advance, contents_setRegister]
    rfl
  | add a b =>
    cases h
    rw [contents_advance, contents_setRegister, UInt8.toNat_add]
    rfl
  | mul a b =>
    cases h
    rw [contents_advance, contents_setRegister, UInt8.toNat_mul]
    rfl
  | cmp a b =>
    cases h
    rw [contents_advance, Contents.effect, register_contents, register_contents,
      ← Flags.bits_ofComparison]
    rfl

/-- The printing row, for a sink that takes the whole line. -/
theorem contents_prn {a : Register} (hfits : out.fits (Numeral.decimalLine (c.register a)) = true) :
    (c.advance .prn).contents (out.put (Numeral.decimalLine (c.register a))) =
      (c.contents out).effect (.prn a) := by
  have houtput : (out.put (Numeral.decimalLine (c.register a))).taken.toList.map Char.ofUInt8 =
      out.taken.toList.map Char.ofUInt8 ++ (toString (c.register a).toNat).toList ++ ['\n'] := by
    rw [Sink.toList_taken_put, Sink.accepted_of_fits hfits, List.map_append,
      Numeral.map_decimalLine, List.append_assoc]
  rw [contents, houtput]
  rfl

end Cpu

namespace Machine

def contents (m : Machine) : Contents :=
  m.toCpu.contents m.out

/-- A machine about to execute a call that names the stack pointer. -/
def callingStackPointer : Machine :=
  (new.load [0b01010000, (7 : UInt8)]).machine

/-- A step that succeeds does what the table says of the instruction that stands at the program
counter, and there is one. -/
theorem contents_of_step {m next : Machine} (h : m.step = .ok next) :
    (∃ i : Instruction, m.memory.HoldsAt m.pc i.encode) ∧
      ∀ i : Instruction, m.memory.HoldsAt m.pc i.encode → next.contents = m.contents.effect i := by
  obtain ⟨_, i, hdecode, hexecute, hfits, hout⟩ := step_eq_ok_iff.1 h
  refine ⟨⟨i, Cpu.decode_eq_ok_iff.1 hdecode⟩, ?_⟩
  intro j hj
  -- what stands at the program counter decodes to one instruction only
  have hsame : j = i := by
    have hj := Cpu.decode_eq_ok_iff.2 hj
    rw [hdecode] at hj
    exact (Except.ok.inj hj).symm
  subst hsame
  obtain ⟨after, out⟩ := next
  cases hprinted : j.printed m.registers with
  | none =>
    rw [hprinted, text, Sink.put_nil] at hout
    subst hout
    exact Cpu.contents_of_execute_silent m.out hexecute hprinted
  | some value =>
    cases j with
    | prn a =>
      cases hexecute
      subst hout
      exact Cpu.contents_prn m.toCpu m.out hfits
    | _ => cases hprinted

/-- A call that names the stack pointer goes to where it has just stored its return address. -/
theorem contents_of_step_call_sp :
    callingStackPointer.step.error? = none ∧
      callingStackPointer.memory.HoldsAt callingStackPointer.pc (Instruction.call 7).encode ∧
      callingStackPointer.step.machine.contents =
        callingStackPointer.contents.effect (.call 7) := by
  have hstep : callingStackPointer.step.error? = none := by decide +kernel
  have hcall : callingStackPointer.memory.HoldsAt callingStackPointer.pc
      (Instruction.call 7).encode := by decide +kernel
  exact ⟨hstep, hcall, (contents_of_step (Outcome.eq_ok_of_error? hstep)).2 (.call 7) hcall⟩

end Machine

end Ls8
