/-!
# Memory

The 256 bytes of the machine. A byte is always an address inside memory; only a position that
instructions count up to, a natural number, can lie past the end.
-/

namespace Ls8

abbrev Memory := Vector UInt8 256

namespace Memory

abbrev size : Nat := 256

def zero : Memory :=
  Vector.replicate 256 0

def read (memory : Memory) (address : UInt8) : UInt8 :=
  memory[address.toFin]

def fetch? (memory : Memory) (position : Nat) : Option UInt8 :=
  memory[position]?

def write (memory : Memory) (address value : UInt8) : Memory :=
  memory.set address.toNat value address.toNat_lt

/-- Memory that starts with `image` and is zero after it. Bytes past the end of memory are cut. -/
def ofImage (image : List UInt8) : Memory :=
  Vector.ofFn fun position => image.getD position.val 0

/-- The bytes of a list stand in memory, one after the other, from a position on. -/
def HoldsAt (memory : Memory) (position : Nat) : List UInt8 → Prop
  | [] => True
  | byte :: rest => memory.fetch? position = some byte ∧ HoldsAt memory (position + 1) rest

instance HoldsAt.decidable (memory : Memory) :
    ∀ (position : Nat) (bytes : List UInt8), Decidable (memory.HoldsAt position bytes)
  | _, [] => isTrue trivial
  | position, byte :: rest =>
    have := HoldsAt.decidable memory (position + 1) rest
    inferInstanceAs (Decidable (memory.fetch? position = some byte ∧
      memory.HoldsAt (position + 1) rest))

@[simp] theorem read_write_self (memory : Memory) (address value : UInt8) :
    (memory.write address value).read address = value := by
  simp [read, write]

theorem read_write_of_ne (memory : Memory) {address other : UInt8} (h : other ≠ address)
    (value : UInt8) : (memory.write address value).read other = memory.read other := by
  have hval : ¬ address.toNat = other.toNat := fun e => h (UInt8.toNat_inj.1 e.symm)
  simp [read, write, hval]

/-- After a write, the address written holds the value and the others what they held. -/
theorem read_write (memory : Memory) (address other value : UInt8) :
    (memory.write address value).read other =
      if other = address then value else memory.read other := by
  split
  · next h => rw [h, read_write_self]
  · next h => exact read_write_of_ne memory h value

/-- A position inside memory holds the byte of the address that it is. -/
theorem fetch?_toNat (memory : Memory) (address : UInt8) :
    memory.fetch? address.toNat = some (memory.read address) := by
  have hlt : address.toNat < 256 := address.toNat_lt
  simp [fetch?, read, hlt]

/-- After a write, the position written holds the value and the others what they held. -/
theorem fetch?_write (memory : Memory) (address value : UInt8) (position : Nat) :
    (memory.write address value).fetch? position =
      if position = address.toNat then some value else memory.fetch? position := by
  have hlt : address.toNat < 256 := address.toNat_lt
  by_cases h : address.toNat = position
  · simp [fetch?, write, ← h, hlt]
  · simp [fetch?, write, h, Ne.symm h]

theorem fetch?_eq_none_iff {memory : Memory} {position : Nat} :
    memory.fetch? position = none ↔ 256 ≤ position := by
  simp [fetch?]

/-- Bytes that stand in memory end inside it. -/
theorem HoldsAt.add_length_le {memory : Memory} {position : Nat} {bytes : List UInt8}
    (h : memory.HoldsAt position bytes) (hne : bytes ≠ []) : position + bytes.length ≤ size := by
  induction bytes generalizing position with
  | nil => exact absurd rfl hne
  | cons byte rest ih =>
    have hlt : position < size := by
      apply Nat.lt_of_not_le
      intro hge
      have hnone : memory.fetch? position = none := fetch?_eq_none_iff.2 hge
      rw [h.1] at hnone
      cases hnone
    cases rest with
    | nil => exact hlt
    | cons second more =>
      have := ih h.2 (List.cons_ne_nil _ _)
      simp only [List.length_cons] at this ⊢
      omega

/-- Of bytes that stand in memory, each stands as far on as its place in the list. -/
theorem HoldsAt.fetch?_add {memory : Memory} {position : Nat} {bytes : List UInt8}
    (h : memory.HoldsAt position bytes) (i : Nat) (hi : i < bytes.length) :
    memory.fetch? (position + i) = some bytes[i] := by
  induction bytes generalizing position i with
  | nil => exact absurd hi (Nat.not_lt_zero i)
  | cons byte rest ih =>
    cases i with
    | zero => exact h.1
    | succ i =>
      have := ih h.2 i (Nat.lt_of_succ_lt_succ hi)
      rwa [Nat.add_assoc, Nat.add_comm 1 i] at this

/-- Bytes stand in memory from a position on if each stands as far on as its place in the list. -/
theorem holdsAt_of_fetch? {memory : Memory} {position : Nat} {bytes : List UInt8}
    (h : ∀ (i : Nat) (hi : i < bytes.length), memory.fetch? (position + i) = some bytes[i]) :
    memory.HoldsAt position bytes := by
  induction bytes generalizing position with
  | nil => trivial
  | cons byte rest ih =>
    refine ⟨h 0 (Nat.succ_pos _), ih fun i hi => ?_⟩
    have hafter : position + 1 + i = position + (i + 1) := by omega
    rw [hafter]
    exact h (i + 1) (Nat.succ_lt_succ hi)

theorem holdsAt_append {memory : Memory} {position : Nat} {first second : List UInt8} :
    memory.HoldsAt position (first ++ second) ↔
      memory.HoldsAt position first ∧ memory.HoldsAt (position + first.length) second := by
  induction first generalizing position with
  | nil => simp [HoldsAt]
  | cons byte rest ih =>
    have hafter : position + 1 + rest.length = position + (rest.length + 1) := by omega
    simp only [List.cons_append, HoldsAt, ih, List.length_cons, and_assoc, hafter]

/-- Bytes still stand in memory after a write in front of them. -/
theorem HoldsAt.write_of_lt {memory : Memory} {position : Nat} {bytes : List UInt8}
    (h : memory.HoldsAt position bytes) {address : UInt8} (hlt : address.toNat < position)
    (value : UInt8) : (memory.write address value).HoldsAt position bytes := by
  induction bytes generalizing position with
  | nil => trivial
  | cons byte rest ih =>
    refine ⟨?_, ih h.2 (Nat.lt_succ_of_lt hlt)⟩
    rw [fetch?_write, if_neg (Nat.ne_of_gt hlt)]
    exact h.1

/-- Bytes still stand in memory after a write behind them. -/
theorem HoldsAt.write_of_ge {memory : Memory} {position : Nat} {bytes : List UInt8}
    (h : memory.HoldsAt position bytes) {address : UInt8}
    (hge : position + bytes.length ≤ address.toNat) (value : UInt8) :
    (memory.write address value).HoldsAt position bytes := by
  apply holdsAt_of_fetch?
  intro i hi
  have hne : position + i ≠ address.toNat := by omega
  rw [fetch?_write, if_neg hne]
  exact h.fetch?_add i hi

/-- A fresh memory shows the image and zeros after it. -/
theorem read_ofImage (image : List UInt8) (address : UInt8) :
    (ofImage image).read address = image.getD address.toNat 0 := by
  simp [read, ofImage]

/-- An image that is not cut stands at the start of a fresh memory. -/
theorem holdsAt_ofImage {image : List UInt8} (h : image.length ≤ size) :
    (ofImage image).HoldsAt 0 image := by
  apply holdsAt_of_fetch?
  intro i hi
  have hlt : i < 256 := Nat.lt_of_lt_of_le hi h
  simp [fetch?, ofImage, hlt, hi]

end Memory

end Ls8
