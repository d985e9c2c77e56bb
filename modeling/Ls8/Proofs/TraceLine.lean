import Ls8.Machine.Run

/-!
# Reading a trace line

A trace line shows the program counter, the three bytes there and the registers in hexadecimal
digits, with blanks between them. Main statement: these twelve numbers can be read in it, so machines
that give the same line agree on all of them (`trace_line_eq_iff`). How many digits the program
counter takes does not matter, as the blanks tell where it ends.
-/

namespace Ls8

namespace Numeral

/-- The value of a hexadecimal digit in upper case. -/
def hexDigit? (c : Char) : Option Nat :=
  if '0' ≤ c ∧ c ≤ '9' then some (c.toNat - '0'.toNat)
  else if 'A' ≤ c ∧ c ≤ 'F' then some (c.toNat - 'A'.toNat + 10)
  else none

/-- The number that a hexadecimal digit makes of the number in front of it. -/
def withHexDigit? (front : Nat) (c : Char) : Option Nat :=
  (hexDigit? c).map (16 * front + ·)

/-- The number that hexadecimal digits write, if there are any and nothing else. -/
def hexadecimal? (digits : List Char) : Option Nat :=
  if digits = [] then none else digits.foldlM withHexDigit? 0

end Numeral

namespace Trace

/-- The hexadecimal numbers that stand between the blanks of a line. -/
def numbersIn (line : String) : List Nat :=
  (line.toList.splitOn ' ').filterMap Numeral.hexadecimal?

/-- What a line shows of each byte. -/
def digits (bytes : List UInt8) : List (List Char) :=
  bytes.map fun byte => (Numeral.hexUpper byte.toNat).toList

/-- What a line shows after its heading, a blank in front of each. -/
def pieces (t : Trace) : List (List Char) :=
  (Numeral.hexUpper t.pc).toList :: ['|'] :: digits t.window.toList ++
    ['|'] :: digits t.registers.toList

end Trace

/-! ## Hexadecimal digits -/

namespace Numeral

theorem hexDigit?_digitChar {n : Nat} (h : n < 16) :
    hexDigit? (Nat.digitChar n).toUpper = some n := by
  revert n
  decide

theorem foldlM_toDigits (n : Nat) :
    ((Nat.toDigits 16 n).map Char.toUpper).foldlM withHexDigit? 0 = some n := by
  induction n using Nat.strongRecOn with
  | ind n ih =>
    by_cases hlt : n < 16
    · simp [Nat.toDigits_of_lt_base hlt, withHexDigit?, hexDigit?_digitChar hlt]
    · have hle := Nat.not_lt.1 hlt
      have hfront := ih (n / 16) (Nat.div_lt_self (by omega) (by decide))
      have hlast : n % 16 < 16 := Nat.mod_lt n (by decide)
      rw [Nat.toDigits_of_base_le (by decide) hle, List.map_append, List.foldlM_append, hfront]
      simp [withHexDigit?, hexDigit?_digitChar hlast, Nat.div_add_mod]

theorem foldlM_replicate_zero (k : Nat) :
    (List.replicate k '0').foldlM withHexDigit? 0 = some 0 := by
  induction k with
  | zero => rfl
  | succ k ih =>
    rw [List.replicate_succ, List.foldlM_cons]
    exact ih

theorem toList_hexUpper (n : Nat) : (hexUpper n).toList =
    List.replicate (2 - (Nat.toDigits 16 n).length) '0' ++ (Nat.toDigits 16 n).map Char.toUpper := by
  rw [hexUpper, String.toList_ofList, padded, List.leftpad, List.map_append, List.map_replicate]
  rfl

theorem foldlM_hexUpper (n : Nat) : (hexUpper n).toList.foldlM withHexDigit? 0 = some n := by
  rw [toList_hexUpper, List.foldlM_append, foldlM_replicate_zero]
  exact foldlM_toDigits n

/-- A number is read back from its padded hexadecimal digits. -/
theorem hexadecimal?_hexUpper (n : Nat) : hexadecimal? (hexUpper n).toList = some n := by
  have hne : (hexUpper n).toList ≠ [] := by
    simp [toList_hexUpper, Nat.toDigits_ne_nil]
  rw [hexadecimal?, if_neg hne, foldlM_hexUpper]

/-- What can be read to the end holds no blank. -/
theorem blank_not_mem_of_foldlM {digits : List Char} {front n : Nat}
    (h : digits.foldlM withHexDigit? front = some n) : ' ' ∉ digits := by
  induction digits generalizing front with
  | nil => exact List.not_mem_nil
  | cons c rest ih =>
    rw [List.foldlM_cons] at h
    obtain ⟨next, hnext, hrest⟩ := Option.bind_eq_some_iff.1 h
    rw [List.mem_cons, not_or]
    refine ⟨?_, ih hrest⟩
    rintro rfl
    cases hnext

theorem blank_not_mem_hexUpper (n : Nat) : ' ' ∉ (hexUpper n).toList :=
  blank_not_mem_of_foldlM (foldlM_hexUpper n)

end Numeral

/-! ## Lines -/

/-- What stands between separators is found there again. -/
theorem splitOn_append_flatMap {separator : Char} {first : List Char} {rest : List (List Char)}
    (hfirst : separator ∉ first) (hrest : ∀ piece ∈ rest, separator ∉ piece) :
    (first ++ rest.flatMap (separator :: ·)).splitOn separator = first :: rest := by
  induction rest generalizing first with
  | nil => simpa using List.splitOn_eq_singleton hfirst
  | cons second rest ih =>
    obtain ⟨hsecond, hlater⟩ := List.forall_mem_cons.1 hrest
    rw [List.flatMap_cons, List.cons_append, List.splitOn_append_cons_self, ih hsecond hlater,
      List.splitOn_eq_singleton hfirst]
    rfl

namespace Trace

theorem toList_fields (bytes : List UInt8) :
    (fields bytes).toList = (digits bytes).flatMap (' ' :: ·) := by
  rw [fields, String.toList_join, digits, List.flatMap_map, List.flatMap_map]
  simp [field]

theorem toList_line (t : Trace) :
    t.line.toList = "TRACE:".toList ++ t.pieces.flatMap (' ' :: ·) := by
  simp [line, pieces, toList_fields]

theorem blank_not_mem_pieces (t : Trace) : ∀ piece ∈ t.pieces, ' ' ∉ piece := by
  have hbar : ' ' ∉ ['|'] := by decide
  have hdigits (bytes : List UInt8) : ∀ piece ∈ digits bytes, ' ' ∉ piece :=
    List.forall_mem_map.2 fun byte _ => Numeral.blank_not_mem_hexUpper byte.toNat
  rw [pieces, List.forall_mem_append, List.forall_mem_cons, List.forall_mem_cons,
    List.forall_mem_cons]
  exact ⟨⟨Numeral.blank_not_mem_hexUpper t.pc, hbar, hdigits _⟩, hbar, hdigits _⟩

theorem splitOn_line (t : Trace) : t.line.toList.splitOn ' ' = "TRACE:".toList :: t.pieces := by
  rw [toList_line, splitOn_append_flatMap (by decide) t.blank_not_mem_pieces]

theorem filterMap_digits (bytes : List UInt8) :
    (digits bytes).filterMap Numeral.hexadecimal? = bytes.map UInt8.toNat := by
  induction bytes with
  | nil => rfl
  | cons byte rest ih =>
    have hfirst := Numeral.hexadecimal?_hexUpper byte.toNat
    rw [digits, List.map_cons, List.filterMap_cons_some hfirst, List.map_cons, ← ih]
    rfl

/-- The heading and the bars are no numbers, and everything else is. -/
theorem numbersIn_line (t : Trace) : numbersIn t.line =
    t.pc :: (t.window.toList.map UInt8.toNat ++ t.registers.toList.map UInt8.toNat) := by
  have hheading : Numeral.hexadecimal? "TRACE:".toList = none := by decide
  have hbar : Numeral.hexadecimal? ['|'] = none := by decide
  have hpc := Numeral.hexadecimal?_hexUpper t.pc
  rw [numbersIn, splitOn_line, List.filterMap_cons_none hheading, pieces, List.filterMap_append,
    List.filterMap_cons_some hpc, List.filterMap_cons_none hbar, List.filterMap_cons_none hbar,
    filterMap_digits, filterMap_digits, List.cons_append]

theorem map_toNat_inj {first second : List UInt8}
    (h : first.map UInt8.toNat = second.map UInt8.toNat) : first = second :=
  (List.map_inj_right fun _ _ => UInt8.toNat_inj.1).1 h

/-- Different traces are written as different lines. -/
theorem line_inj {s t : Trace} : s.line = t.line ↔ s = t := by
  refine ⟨?_, congrArg line⟩
  intro h
  have hnumbers : numbersIn s.line = numbersIn t.line := congrArg numbersIn h
  rw [numbersIn_line, numbersIn_line, List.cons.injEq] at hnumbers
  obtain ⟨hpc, hbytes⟩ := hnumbers
  have hlength : (s.window.toList.map UInt8.toNat).length =
      (t.window.toList.map UInt8.toNat).length := by
    simp only [List.length_map, Vector.length_toList]
  obtain ⟨hwindow, hregisters⟩ := List.append_inj hbytes hlength
  have hsame : s.window = t.window ∧ s.registers = t.registers :=
    ⟨Vector.toList_inj.1 (map_toNat_inj hwindow), Vector.toList_inj.1 (map_toNat_inj hregisters)⟩
  cases s
  cases t
  exact (mk.injEq ..).mpr ⟨hpc, hsame⟩

end Trace

/-- What a trace shows of memory is what stands in it, and zero past its end. -/
theorem Cpu.byteAt_eq_getD (c : Cpu) (position : Nat) :
    c.byteAt position = c.memory.toList.getD position 0 := by
  simp [byteAt, Memory.fetch?]

theorem Cpu.trace_eq_iff {c d : Cpu} : c.trace = d.trace ↔
    c.pc = d.pc ∧ c.byteAt c.pc = d.byteAt d.pc ∧ c.byteAt (c.pc + 1) = d.byteAt (d.pc + 1) ∧
      c.byteAt (c.pc + 2) = d.byteAt (d.pc + 2) ∧ c.registers = d.registers := by
  simp [trace, and_assoc]

namespace Machine

/-- The line that a machine is traced by can be decoded: the numbers in it are the program counter, the
bytes there and at the two positions after it, zero where memory has ended, and the eight registers.
So two machines are traced by the same line just when they have all of these in common. -/
theorem trace_line_eq_iff (s t : Machine) :
    Trace.numbersIn s.trace.line =
      s.pc :: ([s.memory.toList.getD s.pc 0, s.memory.toList.getD (s.pc + 1) 0,
          s.memory.toList.getD (s.pc + 2) 0].map UInt8.toNat ++
        s.registers.toList.map UInt8.toNat) ∧
    (s.trace.line = t.trace.line ↔
      s.pc = t.pc ∧ s.memory.toList.getD s.pc 0 = t.memory.toList.getD t.pc 0 ∧
        s.memory.toList.getD (s.pc + 1) 0 = t.memory.toList.getD (t.pc + 1) 0 ∧
        s.memory.toList.getD (s.pc + 2) 0 = t.memory.toList.getD (t.pc + 2) 0 ∧
        s.registers = t.registers) := by
  simp only [← Cpu.byteAt_eq_getD]
  exact ⟨s.trace.numbersIn_line, Trace.line_inj.trans Cpu.trace_eq_iff⟩

/-- A machine that has jumped to where a print of R1 stands in the last two bytes of memory, or to the
second of the two. -/
def atLastPrint (target : UInt8) : Machine :=
  let setUp := (new.load [0b10000010, 0, target, 0b01010100, (0 : UInt8)]).machine
  ((setUp.write 254 0b01000111).write 255 1).step.machine.step.machine

/-- Where the bytes that are shown reach past the end of memory, zeros are read for them; the program
counter then takes three digits at last. What stands elsewhere in memory is not shown. -/
theorem trace_line_eq_iff_atLastPrint :
    Trace.numbersIn (atLastPrint 254).trace.line = [254, 71, 1, 0, 254, 0, 0, 0, 0, 0, 0, 243] ∧
    Trace.numbersIn (atLastPrint 255).trace.line = [255, 1, 0, 0, 255, 0, 0, 0, 0, 0, 0, 243] ∧
    Trace.numbersIn (atLastPrint 254).step.machine.trace.line =
      [256, 0, 0, 0, 254, 0, 0, 0, 0, 0, 0, 243] ∧
    (atLastPrint 254).trace.line ≠ (atLastPrint 254).step.machine.trace.line ∧
    (atLastPrint 254).trace.line = ((atLastPrint 254).write 9 9).trace.line := by
  have hfirst := trace_line_eq_iff (atLastPrint 254) ((atLastPrint 254).write 9 9)
  have hsecond := trace_line_eq_iff (atLastPrint 255) (atLastPrint 255)
  have hafter := trace_line_eq_iff (atLastPrint 254).step.machine (atLastPrint 254)
  have hpc : (atLastPrint 254).step.machine.pc ≠ (atLastPrint 254).pc := by decide +kernel
  refine ⟨hfirst.1.trans ?_, hsecond.1.trans ?_, hafter.1.trans ?_, ?_, hfirst.2.2 ?_⟩
  · decide +kernel
  · decide +kernel
  · decide +kernel
  · intro hline
    exact hpc (hafter.2.1 hline.symm).1
  · decide +kernel

end Machine

end Ls8
