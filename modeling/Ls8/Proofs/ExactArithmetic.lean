import Ls8.Proofs.RunSteps
import Mathlib.Data.Nat.ModEq
import Mathlib.Logic.Function.Basic

/-!
# Arithmetic that wraps round

A register holds one byte, and sums and products are taken modulo 256. Main statement: whatever
instructions are executed, other than those of the stack, computing with numbers of any size and
reducing them in the end gives what the registers hold (`registers_exact`). What carries it is that
each instruction computes alike on numbers that are equal modulo 256.
-/

namespace Ls8

/-- Whether an instruction is one of the stack, which moves the stack pointer on its own. -/
def Instruction.movesStack : Instruction → Bool
  | push _ | pop _ | call _ | ret => true
  | hlt | prn _ | jmp _ | jeq _ | jne _ | ldi _ _ | add _ _ | mul _ _ | cmp _ _ => false

/-- A number of any size in the place of each register. -/
abbrev Numbers := Register → Nat

namespace Numbers

/-- The numbers after an instruction: a value, a sum or a product is put in the place of its first
register, however large it is, and any other instruction leaves all of them alone. -/
def after (v : Numbers) : Instruction → Numbers
  | .ldi a value => Function.update v a value.toNat
  | .add a b => Function.update v a (v a + v b)
  | .mul a b => Function.update v a (v a * v b)
  | .hlt | .ret | .push _ | .pop _ | .prn _ | .call _ | .jmp _ | .jeq _ | .jne _ | .cmp _ _ => v

/-- The numbers after instructions that are executed one after the other. -/
def afterAll (v : Numbers) (instructions : List Instruction) : Numbers :=
  instructions.foldl after v

/-- Numbers that bytes cannot tell apart. -/
def Congruent (v w : Numbers) : Prop :=
  ∀ r, v r ≡ w r [MOD 256]

namespace Congruent

variable {v w : Numbers}

theorem refl (v : Numbers) : Congruent v v :=
  fun _ => rfl

theorem update (h : Congruent v w) (a : Register) {x y : Nat} (hxy : x ≡ y [MOD 256]) :
    Congruent (Function.update v a x) (Function.update w a y) := by
  intro r
  rw [Function.update_apply, Function.update_apply]
  split
  · exact hxy
  · exact h r

theorem after (h : Congruent v w) (i : Instruction) : Congruent (v.after i) (w.after i) := by
  cases i with
  | ldi a value => exact h.update a rfl
  | add a b => exact h.update a ((h a).add (h b))
  | mul a b => exact h.update a ((h a).mul (h b))
  | hlt | ret | push _ | pop _ | prn _ | call _ | jmp _ | jeq _ | jne _ | cmp _ _ => exact h

end Congruent

end Numbers

namespace Cpu

variable {c next : Cpu} {i : Instruction}

/-- The bytes in the registers as numbers. -/
def numbers (c : Cpu) : Numbers :=
  fun r => (c.register r).toNat

theorem congruent_setRegister (c : Cpu) (a : Register) {value : UInt8} {n : Nat}
    (h : value.toNat ≡ n [MOD 256]) :
    (c.setRegister a value).numbers.Congruent (Function.update c.numbers a n) := by
  intro r
  rw [numbers, register_setRegister, Function.update_apply]
  split
  · exact h
  · rfl

/-- An instruction computes modulo 256, unless it is one of the stack. -/
theorem numbers_of_execute (h : c.execute i = .ok next) (hi : i.movesStack = false) :
    next.numbers.Congruent (c.numbers.after i) := by
  cases i with
  | ldi a value =>
    cases h
    exact congruent_setRegister c a rfl
  | add a b =>
    cases h
    refine congruent_setRegister c a ?_
    rw [UInt8.toNat_add]
    exact Nat.mod_modEq _ _
  | mul a b =>
    cases h
    refine congruent_setRegister c a ?_
    rw [UInt8.toNat_mul]
    exact Nat.mod_modEq _ _
  | jeq _ | jne _ =>
    cases h
    show Numbers.Congruent (numbers (if _ then _ else _)) _
    split <;> exact .refl _
  | hlt | prn _ | jmp _ | cmp _ _ =>
    cases h
    exact .refl _
  | push _ | pop _ | call _ | ret => cases hi

end Cpu

namespace Machine

/-- Steps that all succeed lead from one machine to another, and these are the instructions that they
execute, the first one first. -/
inductive Performs : Machine → List Instruction → Machine → Prop
  | nil (m : Machine) : Performs m [] m
  | cons {m next last : Machine} {i : Instruction} {rest : List Instruction} :
      m.memory.HoldsAt m.pc i.encode → m.step = .ok next → Performs next rest last →
      Performs m (i :: rest) last

variable {m last : Machine} {n : Nat} {instructions done rest : List Instruction}

namespace Performs

/-- What was performed can be told in two parts. -/
theorem append (h : Performs m (done ++ rest) last) :
    ∃ before, Performs m done before ∧ Performs before rest last := by
  induction done generalizing m with
  | nil => exact ⟨m, .nil m, h⟩
  | cons i done ih =>
    cases h with
    | cons hi hstep hlater =>
      obtain ⟨before, hbefore, hafter⟩ := ih hlater
      exact ⟨before, .cons hi hstep hbefore, hafter⟩

/-- Numbers that were congruent to the registers at first still are. -/
theorem congruent (h : Performs m instructions last)
    (hstack : ∀ i ∈ instructions, i.movesStack = false) {v : Numbers}
    (hv : m.numbers.Congruent v) : last.numbers.Congruent (v.afterAll instructions) := by
  induction h generalizing v with
  | nil m => exact hv
  | @cons m next last i rest hi hstep _ ih =>
    obtain ⟨hfirst, hlater⟩ := List.forall_mem_cons.1 hstack
    have hnext := Cpu.numbers_of_execute (execute_of_step hstep hi) hfirst
    exact ih hlater fun r => (hnext r).trans (hv.after i r)

end Performs

/-- Steps that succeed are those that perform some instructions. -/
theorem steps_iff_performs :
    Steps n m last ↔ ∃ instructions, instructions.length = n ∧ Performs m instructions last := by
  constructor
  · intro h
    induction h with
    | zero m => exact ⟨[], rfl, .nil m⟩
    | succ hstep _ ih =>
      obtain ⟨_, i, hdecode, _⟩ := step_eq_ok_iff.1 hstep
      obtain ⟨rest, rfl, hrest⟩ := ih
      exact ⟨i :: rest, rfl, .cons (Cpu.decode_eq_ok_iff.1 hdecode) hstep hrest⟩
  · rintro ⟨instructions, rfl, h⟩
    induction h with
    | nil m => exact .zero m
    | cons _ hstep _ ih => exact .succ hstep ih

/-- Any number of steps that succeed perform as many instructions. If none of these moves the stack,
then computing with them on numbers of any size, from what the registers hold at first, gives at every
point on the way what they hold there, once it is reduced modulo 256; so it does for the register that
the stack pointer is, and for instructions that are performed again and again. -/
theorem registers_exact (m : Machine) :
    (∀ n last, Steps n m last ↔
      ∃ instructions, instructions.length = n ∧ Performs m instructions last) ∧
    ∀ done rest last, Performs m (done ++ rest) last →
      (∀ i ∈ done ++ rest, i.movesStack = false) →
      ∃ before, Performs m done before ∧ Performs before rest last ∧
        ∀ r, (before.register r).toNat = m.numbers.afterAll done r % 256 := by
  refine ⟨fun n last => steps_iff_performs, ?_⟩
  intro done rest last h hstack
  obtain ⟨before, hbefore, hafter⟩ := h.append
  refine ⟨before, hbefore, hafter, fun r => ?_⟩
  have hsame : before.numbers r % 256 = m.numbers.afterAll done r % 256 :=
    hbefore.congruent (fun i hi => hstack i (List.mem_append_left rest hi)) (.refl _) r
  exact (Nat.mod_eq_of_lt (before.register r).toNat_lt).symm.trans hsame

/-- Squares the stack pointer, again and again. -/
def squaring : Machine where
  toCpu := Cpu.booted [0b10000010, 1, 3, 0b10100010, 7, 7, 0b01010100, 1]

/-- That machine after a number of steps. -/
def squaringAt : Nat → Machine
  | 0 => squaring
  | n + 1 => (squaringAt n).step.machine

/-- The second square is that of a byte that the first one no longer fitted in. -/
theorem registers_exact_squaringAt :
    Performs squaring [.ldi 1 3, .mul 7 7, .jmp 1, .mul 7 7] (squaringAt 4) ∧
      squaring.numbers.afterAll [.ldi 1 3, .mul 7 7, .jmp 1, .mul 7 7] 7 = 243 ^ 4 ∧
      ((squaringAt 4).register 7).toNat = 243 ^ 4 % 256 := by
  have hsteps : (∀ n < 4, (squaringAt n).step.error? = none) ∧
      squaring.memory.HoldsAt squaring.pc (Instruction.ldi 1 3).encode ∧
      (squaringAt 1).memory.HoldsAt (squaringAt 1).pc (Instruction.mul 7 7).encode ∧
      (squaringAt 2).memory.HoldsAt (squaringAt 2).pc (Instruction.jmp 1).encode ∧
      (squaringAt 3).memory.HoldsAt (squaringAt 3).pc (Instruction.mul 7 7).encode := by
    decide +kernel
  obtain ⟨hok, hload, hfirst, hjump, hsecond⟩ := hsteps
  have hloaded : squaring.step = .ok (squaringAt 1) := Outcome.eq_ok_of_error? (hok 0 (by decide))
  have hsquared : (squaringAt 1).step = .ok (squaringAt 2) :=
    Outcome.eq_ok_of_error? (hok 1 (by decide))
  have hback : (squaringAt 2).step = .ok (squaringAt 3) :=
    Outcome.eq_ok_of_error? (hok 2 (by decide))
  have hagain : (squaringAt 3).step = .ok (squaringAt 4) :=
    Outcome.eq_ok_of_error? (hok 3 (by decide))
  have hperformed : Performs squaring [.ldi 1 3, .mul 7 7, .jmp 1, .mul 7 7] (squaringAt 4) :=
    .cons hload hloaded (.cons hfirst hsquared (.cons hjump hback (.cons hsecond hagain (.nil _))))
  have hnumber : squaring.numbers.afterAll [.ldi 1 3, .mul 7 7, .jmp 1, .mul 7 7] 7 = 243 ^ 4 := by
    decide +kernel
  obtain ⟨before, hbefore, hafter, hregister⟩ :=
    (registers_exact squaring).2 [.ldi 1 3, .mul 7 7, .jmp 1, .mul 7 7] [] _ hperformed (by decide)
  cases hafter
  exact ⟨hperformed, hnumber, by rw [hregister 7, hnumber]⟩

end Machine

end Ls8
