import Ls8.Proofs.RunSteps
import Mathlib.Data.Set.Insert

/-!
# Bytes that are never read

Program, data and stack share one memory, but a step reads few of its bytes: those of the instruction
and, if the instruction takes something off the stack, the one on top. Main statement: of two
machines that differ in bytes only that the one does not read, the other does the same, whatever it
writes there (`lockstep_of_unread`).
-/

namespace Ls8

namespace Cpu

/-- The positions that a step may read: those of the instruction, which is taken for a single byte if
that names no operation, and that of the top of the stack if the operation takes it off. -/
def footprint (c : Cpu) : List Nat :=
  match c.opcode with
  | .ok op => List.range' c.pc op.width ++ if op = .pop ∨ op = .ret then [c.sp.toNat] else []
  | .error _ => [c.pc]

/-- Two processors differ at most in the bytes at some addresses. -/
structure AgreeOutside (unread : Set UInt8) (c₁ c₂ : Cpu) : Prop where
  pc_eq : c₁.pc = c₂.pc
  registers_eq : c₁.registers = c₂.registers
  flags_eq : c₁.flags = c₂.flags
  halted_eq : c₁.halted = c₂.halted
  read_eq : ∀ address, address ∉ unread → c₁.memory.read address = c₂.memory.read address

/-- Two answers are the same error, or processors that differ at most there. -/
inductive AnswersAgree (unread : Set UInt8) : Except Error Cpu → Except Error Cpu → Prop
  | ok {c₁ c₂ : Cpu} : AgreeOutside unread c₁ c₂ → AnswersAgree unread (.ok c₁) (.ok c₂)
  | error (error : Error) : AnswersAgree unread (.error error) (.error error)

variable {unread : Set UInt8} {c₁ c₂ : Cpu}

theorem pc_mem_footprint (c : Cpu) : c.pc ∈ c.footprint := by
  unfold footprint
  split
  · next op _ =>
    have hwidth : 0 < op.width := Nat.lt_of_lt_of_le Nat.one_pos (Nat.le_add_right 1 _)
    exact List.mem_append_left _ (List.mem_range'_1.2 ⟨Nat.le_refl _, by omega⟩)
  · exact List.mem_singleton.2 rfl

theorem mem_footprint_of_lt {c : Cpu} {op : Opcode} (h : c.opcode = .ok op) {n : Nat}
    (hn : n < op.operandCount) : c.pc + 1 + n ∈ c.footprint := by
  have hwidth : op.width = 1 + op.operandCount := rfl
  rw [footprint, h]
  exact List.mem_append_left _ (List.mem_range'_1.2 ⟨by omega, by omega⟩)

theorem sp_mem_footprint {c : Cpu} {op : Opcode} (h : c.opcode = .ok op)
    (hop : op = .pop ∨ op = .ret) : c.sp.toNat ∈ c.footprint := by
  rw [footprint, h]
  show _ ∈ _ ++ if op = .pop ∨ op = .ret then [c.sp.toNat] else []
  rw [if_pos hop]
  exact List.mem_append_right _ (List.mem_singleton.2 rfl)

namespace AnswersAgree

theorem bind {x₁ x₂ : Except Error Cpu} {f₁ f₂ : Cpu → Except Error Cpu}
    (h : AnswersAgree unread x₁ x₂)
    (hlater : ∀ c₁ c₂, AgreeOutside unread c₁ c₂ → AnswersAgree unread (f₁ c₁) (f₂ c₂)) :
    AnswersAgree unread (x₁ >>= f₁) (x₂ >>= f₂) := by
  cases h with
  | ok hsame => exact hlater _ _ hsame
  | error error => exact .error error

end AnswersAgree

namespace AgreeOutside

theorem register_eq (h : AgreeOutside unread c₁ c₂) (r : Register) :
    c₁.register r = c₂.register r :=
  congrArg (Registers.read · r) h.registers_eq

theorem sp_eq (h : AgreeOutside unread c₁ c₂) : c₁.sp = c₂.sp :=
  h.register_eq Register.sp

/-! ## Reading -/

theorem fetch?_eq (h : AgreeOutside unread c₁ c₂) {position : Nat}
    (hread : ∀ address ∈ unread, address.toNat ≠ position) :
    c₁.memory.fetch? position = c₂.memory.fetch? position := by
  by_cases hinside : position < 256
  · have haddress : (UInt8.ofNat position).toNat = position := UInt8.toNat_ofNat_of_lt' hinside
    rw [← haddress, Memory.fetch?_toNat, Memory.fetch?_toNat,
      h.read_eq _ fun hmem => hread _ hmem haddress]
  · have houtside : 256 ≤ position := Nat.le_of_not_lt hinside
    rw [Memory.fetch?_eq_none_iff.2 houtside, Memory.fetch?_eq_none_iff.2 houtside]

theorem fetch_eq (h : AgreeOutside unread c₁ c₂) {position : Nat}
    (hread : ∀ address ∈ unread, address.toNat ≠ position) :
    c₁.fetch position = c₂.fetch position := by
  rw [fetch, fetch, h.fetch?_eq hread]

theorem opcode_eq (h : AgreeOutside unread c₁ c₂)
    (hread : ∀ address ∈ unread, address.toNat ≠ c₁.pc) : c₁.opcode = c₂.opcode := by
  rw [opcode, opcode, ← h.pc_eq, h.fetch_eq hread]

theorem operand_eq (h : AgreeOutside unread c₁ c₂) {n : Nat}
    (hread : ∀ address ∈ unread, address.toNat ≠ c₁.pc + 1 + n) :
    c₁.operand n = c₂.operand n := by
  rw [operand, operand, ← h.pc_eq, h.fetch_eq hread]

/-- An operation reads as many operand bytes as its own byte announces. -/
theorem withOperands_eq {op : Opcode}
    (h : ∀ n < op.operandCount, c₁.operand n = c₂.operand n) :
    c₁.withOperands op = c₂.withOperands op := by
  cases op with
  | hlt | ret => rfl
  | push | pop | prn | call | jmp | jeq | jne =>
    have hfirst := h 0 (by decide)
    rw [withOperands, withOperands, registerOperand, registerOperand, hfirst]
  | ldi | add | mul | cmp =>
    have hfirst := h 0 (by decide)
    have hsecond := h 1 (by decide)
    simp only [withOperands, registerOperand, hfirst, hsecond]

theorem decode_eq (h : AgreeOutside unread c₁ c₂)
    (hread : ∀ address ∈ unread, address.toNat ∉ c₁.footprint) : c₁.decode = c₂.decode := by
  have hopcode : c₁.opcode = c₂.opcode := h.opcode_eq fun address hmem heq =>
    hread address hmem (heq ▸ c₁.pc_mem_footprint)
  rw [decode, decode, ← hopcode]
  cases hop : c₁.opcode with
  | error error => rfl
  | ok op =>
    refine withOperands_eq fun n hn => h.operand_eq ?_
    intro address hmem heq
    exact hread address hmem (heq ▸ mem_footprint_of_lt hop hn)

/-- An instruction that takes something off the stack takes the same. -/
theorem top_eq (h : AgreeOutside unread c₁ c₂)
    (hread : ∀ address ∈ unread, address.toNat ∉ c₁.footprint) {i : Instruction}
    (hi : c₁.decode = .ok i) (hop : i.opcode = .pop ∨ i.opcode = .ret) : c₁.top = c₂.top := by
  have hopcode : c₁.opcode = .ok i.opcode := opcode_eq_ok_iff.2 (decode_eq_ok_iff.1 hi).1
  rw [top, top, ← h.sp_eq]
  exact h.read_eq _ fun hmem => hread _ hmem (sp_mem_footprint hopcode hop)

/-! ## Executing -/

theorem setRegister (h : AgreeOutside unread c₁ c₂) (r : Register) (value : UInt8) :
    AgreeOutside unread (c₁.setRegister r value) (c₂.setRegister r value) :=
  { h with registers_eq := congrArg (Registers.write · r value) h.registers_eq }

/-- The same byte is written to the same address, whether or not it is one of those apart. -/
theorem store (h : AgreeOutside unread c₁ c₂) (address value : UInt8) :
    AgreeOutside unread (c₁.store address value) (c₂.store address value) where
  pc_eq := h.pc_eq
  registers_eq := h.registers_eq
  flags_eq := h.flags_eq
  halted_eq := h.halted_eq
  read_eq := by
    intro other hother
    show (c₁.memory.write address value).read other = (c₂.memory.write address value).read other
    rw [Memory.read_write, Memory.read_write, h.read_eq other hother]

theorem advance (h : AgreeOutside unread c₁ c₂) (op : Opcode) :
    AgreeOutside unread (c₁.advance op) (c₂.advance op) :=
  { h with pc_eq := congrArg (· + op.width) h.pc_eq }

theorem jump (h : AgreeOutside unread c₁ c₂) (target : UInt8) :
    AgreeOutside unread (c₁.jump target) (c₂.jump target) :=
  { h with pc_eq := rfl }

theorem lowerStack (h : AgreeOutside unread c₁ c₂) :
    AnswersAgree unread c₁.lowerStack c₂.lowerStack := by
  rw [Cpu.lowerStack, Cpu.lowerStack, ← h.sp_eq]
  split
  · exact .error _
  · exact .ok (h.setRegister _ _)

theorem raiseStack (h : AgreeOutside unread c₁ c₂) :
    AnswersAgree unread c₁.raiseStack c₂.raiseStack := by
  rw [Cpu.raiseStack, Cpu.raiseStack, ← h.sp_eq]
  split
  · exact .error _
  · exact .ok (h.setRegister _ _)

theorem pushed (h : AgreeOutside unread c₁ c₂) {value : Cpu → UInt8}
    (hvalue : ∀ c₁ c₂, AgreeOutside unread c₁ c₂ → value c₁ = value c₂) :
    AnswersAgree unread (c₁.pushed value) (c₂.pushed value) := by
  refine h.lowerStack.bind fun lowered₁ lowered₂ hlowered => ?_
  rw [← hvalue _ _ hlowered, ← hlowered.sp_eq]
  exact .ok (hlowered.store _ _)

/-- What an instruction does depends on memory only by what it takes off the stack. -/
theorem execute (h : AgreeOutside unread c₁ c₂) (i : Instruction)
    (htop : i.opcode = .pop ∨ i.opcode = .ret → c₁.top = c₂.top) :
    AnswersAgree unread (c₁.execute i) (c₂.execute i) := by
  cases i with
  | hlt => exact .ok { h with halted_eq := rfl }
  | ret =>
    refine h.raiseStack.bind fun raised₁ raised₂ hraised => ?_
    rw [htop (.inr rfl)]
    exact .ok (hraised.jump _)
  | push a =>
    refine (h.pushed fun _ _ hlowered => hlowered.register_eq a).bind fun _ _ hsaved => ?_
    exact .ok (hsaved.advance _)
  | pop a =>
    simp only [Cpu.execute, htop (.inl rfl)]
    exact (h.setRegister a _).raiseStack.bind fun _ _ hraised => .ok (hraised.advance _)
  | prn _ => exact .ok (h.advance _)
  | call a =>
    have hnext : c₁.returnAddress = c₂.returnAddress := by
      rw [returnAddress, returnAddress, after, after, h.pc_eq]
    rw [Cpu.execute, Cpu.execute, ← hnext]
    cases c₁.returnAddress with
    | error error => exact .error error
    | ok next =>
      refine (h.pushed fun _ _ _ => rfl).bind fun saved₁ saved₂ hsaved => ?_
      rw [hsaved.register_eq a]
      exact .ok (hsaved.jump _)
  | jmp a =>
    rw [Cpu.execute, Cpu.execute, h.register_eq a]
    exact .ok (h.jump _)
  | jeq a =>
    rw [Cpu.execute, Cpu.execute, h.register_eq a, h.flags_eq]
    split
    · exact .ok (h.jump _)
    · exact .ok (h.advance _)
  | jne a =>
    rw [Cpu.execute, Cpu.execute, h.register_eq a, h.flags_eq]
    split
    · exact .ok (h.advance _)
    · exact .ok (h.jump _)
  | ldi a value => exact .ok ((h.setRegister a value).advance _)
  | add a b | mul a b =>
    rw [Cpu.execute, Cpu.execute, h.register_eq a, h.register_eq b]
    exact .ok ((h.setRegister a _).advance _)
  | cmp a b =>
    rw [Cpu.execute, Cpu.execute, h.register_eq a, h.register_eq b]
    have hcompared : AgreeOutside unread
        { c₁ with flags := .ofComparison (c₂.register a) (c₂.register b) }
        { c₂ with flags := .ofComparison (c₂.register a) (c₂.register b) } :=
      { h with flags_eq := rfl }
    exact .ok (hcompared.advance _)

end AgreeOutside

end Cpu

/-- Two machines differ at most in the bytes at some addresses, and have printed the same. -/
structure Machine.AgreeOutside (unread : Set UInt8) (m₁ m₂ : Machine) : Prop extends
    Cpu.AgreeOutside unread m₁.toCpu m₂.toCpu where
  out_eq : m₁.out = m₂.out

/-- Two outcomes are the same but for the bytes at some addresses. -/
structure Outcome.AgreeOutside (unread : Set UInt8) (o₁ o₂ : Outcome) : Prop where
  error?_eq : o₁.error? = o₂.error?
  machine : Machine.AgreeOutside unread o₁.machine o₂.machine

namespace Machine

/-- The next step of a machine, if there is one, reads none of the bytes at some addresses. -/
def Overlooks (m : Machine) (unread : Set UInt8) : Prop :=
  m.halted = false → ∀ address ∈ unread, address.toNat ∉ m.footprint

/-- The machine after bytes have been written to it from outside, one after the other. -/
def writeAll (m : Machine) (writes : List (UInt8 × UInt8)) : Machine :=
  writes.foldl (fun m (address, value) => m.write address value) m

variable {unread : Set UInt8} {m₁ m₂ : Machine}

/-! ## A step -/

theorem AgreeOutside.print (h : AgreeOutside unread m₁ m₂) {next₁ next₂ : Cpu}
    (hnext : Cpu.AgreeOutside unread next₁ next₂) (line : List UInt8) :
    Outcome.AgreeOutside unread (m₁.print line next₁) (m₂.print line next₂) := by
  rw [Machine.print, Machine.print, ← h.out_eq]
  split
  · exact ⟨rfl, hnext, rfl⟩
  · exact ⟨rfl, h.toAgreeOutside, rfl⟩

theorem AgreeOutside.step (h : AgreeOutside unread m₁ m₂) (hread : m₁.Overlooks unread) :
    Outcome.AgreeOutside unread m₁.step m₂.step := by
  cases hhalted : m₁.halted with
  | true =>
    rw [step_of_halted hhalted, step_of_halted (h.halted_eq ▸ hhalted)]
    exact ⟨rfl, h⟩
  | false =>
    have hbytes := hread hhalted
    have hdecode := h.decode_eq hbytes
    rw [step_eq, step_eq, Cpu.step, Cpu.step, ← h.halted_eq, hhalted,
      if_neg Bool.false_ne_true, if_neg Bool.false_ne_true, ← hdecode]
    cases hi : m₁.toCpu.decode with
    | error error => exact ⟨rfl, h⟩
    | ok i =>
      have hexecute := h.execute i (h.top_eq hbytes hi)
      rw [Cpu.ok_bind, Cpu.ok_bind]
      generalize m₁.toCpu.execute i = answer₁, m₂.toCpu.execute i = answer₂ at hexecute
      cases hexecute with
      | error error => exact ⟨rfl, h⟩
      | ok hnext =>
        rw [Cpu.ok_bind, Cpu.ok_bind, Cpu.pure_eq_ok, Cpu.pure_eq_ok, follow_ok, follow_ok,
          h.registers_eq]
        exact h.print hnext _

theorem AgreeOutside.ended (h : AgreeOutside unread m₁ m₂) (hread : m₁.Overlooks unread)
    (hended : m₁.step.Ended) : m₂.step.Ended := by
  obtain ⟨herror, hmachine⟩ := h.step hread
  cases hstep₁ : m₁.step with
  | error failure =>
    rw [hstep₁] at herror
    rw [Outcome.eq_error_of_error? herror.symm]
    exact True.intro
  | ok next =>
    rw [hstep₁] at herror hended hmachine
    have hsame : next.halted = m₂.step.machine.halted := hmachine.halted_eq
    rw [Outcome.eq_ok_of_error? herror.symm]
    exact hsame.symm.trans hended

/-! ## Any number of steps -/

/-- Where the one machine gets by some steps, the other one gets by as many. -/
theorem Steps.lockstep {left : Machine} {n : Nat} (h : Steps n m₁ left) :
    AgreeOutside unread m₁ m₂ → (∀ k < n, ∀ m, Steps k m₁ m → m.Overlooks unread) →
    ∃ right, Steps n m₂ right ∧ AgreeOutside unread left right := by
  induction h generalizing m₂ with
  | zero m =>
    intro hsame _
    exact ⟨m₂, .zero m₂, hsame⟩
  | @succ m next left n hstep _ ih =>
    intro hsame hread
    obtain ⟨herror, hmachine⟩ := hsame.step (hread 0 (Nat.succ_pos n) m (.zero m))
    rw [hstep] at herror hmachine
    have hstep₂ := Outcome.eq_ok_of_error? herror.symm
    obtain ⟨right, hright, hlast⟩ := ih hmachine fun k hk later hlater =>
      hread (k + 1) (Nat.succ_lt_succ hk) later (.succ hstep hlater)
    exact ⟨right, .succ hstep₂ hright, hlast⟩

theorem AgreeOutside.run (h : AgreeOutside unread m₁ m₂)
    (hread : ∀ k m, Steps k m₁ m → m.Overlooks unread) :
    Option.Rel (Outcome.AgreeOutside unread) m₁.run m₂.run := by
  cases hrun : m₁.run with
  | none =>
    have hendless : m₂.run = none := by
      rw [run_eq_none_iff_steps] at hrun ⊢
      intro n
      obtain ⟨left, hleft, hactive⟩ := hrun n
      obtain ⟨right, hright, hsame⟩ := hleft.lockstep h fun k _ => hread k
      exact ⟨right, hright, hsame.halted_eq ▸ hactive⟩
    rw [hendless]
    exact .none
  | some o =>
    cases hhalted : m₁.halted with
    | true =>
      rw [run_of_halted hhalted] at hrun
      cases hrun
      rw [run_of_halted (h.halted_eq ▸ hhalted)]
      exact .some ⟨rfl, h⟩
    | false =>
      obtain ⟨hended, k, _, left, hleft, hactive, rfl⟩ := last_step_of_run hhalted hrun
      obtain ⟨right, hright, hsame⟩ := hleft.lockstep h fun k _ => hread k
      have hlast := hread k left hleft
      rw [run_of_last_step hright (hsame.halted_eq ▸ hactive) (hsame.ended hlast hended)]
      exact .some (hsame.step hlast)

theorem agreeOutside_writeAll (m : Machine) {writes : List (UInt8 × UInt8)}
    (h : ∀ write ∈ writes, write.1 ∈ unread) : AgreeOutside unread m (m.writeAll writes) := by
  suffices hall : ∀ later, AgreeOutside unread m later →
      AgreeOutside unread m (later.writeAll writes) from hall m ⟨⟨rfl, rfl, rfl, rfl, fun _ _ => rfl⟩, rfl⟩
  induction writes with
  | nil =>
    intro later hlater
    exact hlater
  | cons write rest ih =>
    obtain ⟨hwrite, hrest⟩ := List.forall_mem_cons.1 h
    intro later hlater
    refine ih hrest (later.write write.1 write.2) ⟨{ hlater with read_eq := ?_ }, hlater.out_eq⟩
    intro address haddress
    have hne : address ≠ write.1 := fun heq => haddress (heq ▸ hwrite)
    exact (hlater.read_eq address haddress).trans (Memory.read_write_of_ne _ hne _).symm

/-- Two machines differ at most in the bytes at some addresses. As long as the steps of the one read
none of these, the other one takes as many, and each of them comes to the same but for these bytes;
so, if the one never reads them, do their runs, or neither ends. In particular these bytes can be
written at will before the one is run. -/
theorem lockstep_of_unread (h : AgreeOutside unread m₁ m₂) :
    (∀ n left, Steps n m₁ left → (∀ k ≤ n, ∀ m, Steps k m₁ m → m.Overlooks unread) →
      ∃ right, Steps n m₂ right ∧ AgreeOutside unread left right ∧
        Outcome.AgreeOutside unread left.step right.step) ∧
    ((∀ k m, Steps k m₁ m → m.Overlooks unread) →
      Option.Rel (Outcome.AgreeOutside unread) m₁.run m₂.run ∧
      ∀ writes : List (UInt8 × UInt8), (∀ write ∈ writes, write.1 ∈ unread) →
        Option.Rel (Outcome.AgreeOutside unread) m₁.run (m₁.writeAll writes).run) := by
  refine ⟨?_, ?_⟩
  · intro n left hleft hread
    obtain ⟨right, hright, hsame⟩ := hleft.lockstep h fun k hk => hread k (Nat.le_of_lt hk)
    exact ⟨right, hright, hsame, hsame.step (hread n (Nat.le_refl n) left hleft)⟩
  · intro hread
    refine ⟨h.run hread, ?_⟩
    intro writes hwrites
    exact (m₁.agreeOutside_writeAll hwrites).run hread

/-- A machine about to push a value, to print it and to halt, with nothing in the rest of memory. -/
def pushingAndPrinting : Machine where
  toCpu := Cpu.booted [0b10000010, 0, 5, 0b01000101, 0, 0b01000111, 0, 1]

/-- That machine after a number of steps. -/
def pushingAndPrintingAt : Nat → Machine
  | 0 => pushingAndPrinting
  | n + 1 => (pushingAndPrintingAt n).step.machine

theorem steps_pushingAndPrintingAt {n : Nat} (hn : n ≤ 4) :
    Steps n pushingAndPrinting (pushingAndPrintingAt n) := by
  have hok : ∀ k < 4, (pushingAndPrintingAt k).step.error? = none := by decide +kernel
  induction n with
  | zero => exact .zero _
  | succ n ih => exact (ih (Nat.le_of_succ_le hn)).snoc (Outcome.eq_ok_of_error? (hok n hn))

/-- What stands behind the program has no influence on it, also where it is going to push. -/
theorem lockstep_of_unread_pushingAndPrinting :
    ∃ last, (pushingAndPrinting.writeAll [(8, 200), (0xF2, 77)]).run = some last ∧
      last.error? = none ∧ last.machine.halted = true ∧
      last.machine.out.taken.toList = "5\n".toUTF8.toList := by
  have hlast : (pushingAndPrintingAt 4).halted = true ∧
      (pushingAndPrintingAt 4).out.taken.toList = "5\n".toUTF8.toList := by decide +kernel
  have hprogram : ∀ n < 4, ∀ position ∈ (pushingAndPrintingAt n).footprint, position < 8 := by
    decide +kernel
  have hread : ∀ k m, Steps k pushingAndPrinting m → m.Overlooks {address | 8 ≤ address} := by
    intro k m hm hactive address haddress hmem
    rcases Nat.lt_trichotomy k 4 with hlt | rfl | hgt
    · rw [hm.unique (steps_pushingAndPrintingAt (Nat.le_of_lt hlt))] at hmem
      exact Nat.not_lt.2 (UInt8.le_iff_toNat_le.1 haddress) (hprogram k hlt _ hmem)
    · rw [hm.unique (steps_pushingAndPrintingAt (Nat.le_refl 4)), hlast.1] at hactive
      cases hactive
    · have hbefore := hm.active_of_lt hgt (steps_pushingAndPrintingAt (Nat.le_refl 4))
      rw [hlast.1] at hbefore
      cases hbefore
  have hsame : AgreeOutside {address | 8 ≤ address} pushingAndPrinting pushingAndPrinting :=
    ⟨⟨rfl, rfl, rfl, rfl, fun _ _ => rfl⟩, rfl⟩
  have hwrites : ∀ write ∈ [((8 : UInt8), (200 : UInt8)), (0xF2, 77)],
      write.1 ∈ {address : UInt8 | 8 ≤ address} := by
    intro write hwrite
    rcases List.mem_pair.1 hwrite with rfl | rfl
    · exact UInt8.le_refl 8
    · exact UInt8.le_iff_toNat_le.2 (by decide)
  have hrun := ((lockstep_of_unread hsame).2 hread).2 [(8, 200), (0xF2, 77)] hwrites
  rw [run_of_steps_halted (steps_pushingAndPrintingAt (Nat.le_refl 4)) hlast.1] at hrun
  -- from here on only the end of the run matters, not that it can be computed
  generalize pushingAndPrintingAt 4 = final at hlast hrun
  generalize (pushingAndPrinting.writeAll [(8, 200), (0xF2, 77)]).run = answer at hrun ⊢
  cases hrun with
  | @some _ last hagree =>
    obtain ⟨herror, hmachine⟩ := hagree
    refine ⟨last, rfl, herror.symm, hmachine.halted_eq.symm.trans hlast.1, ?_⟩
    rw [← hmachine.out_eq]
    exact hlast.2

end Machine

end Ls8
