import Ls8.Error

/-!
# Sinks

Where text goes. A sink takes bytes in order until it holds as many as its limit, if it has one; of
a text that does not fit it keeps the bytes that do. Sinks of this one kind stand for every writer
that a machine may print to. None of them makes room again: once a print has failed no later one
succeeds, and what a machine does on a writer that recovers is not covered here.
-/

namespace Ls8

/-- A sink: the bytes it has taken, and how many it takes in all (`none`: any number). -/
structure Sink where
  taken : Array UInt8 := #[]
  limit : Option Nat := none
  deriving DecidableEq, Repr

namespace Sink

def unlimited : Sink := {}

def limitedTo (n : Nat) : Sink := { limit := some n }

/-- How many bytes the sink still takes (`none`: any number). -/
def room (s : Sink) : Option Nat :=
  s.limit.map (· - s.taken.size)

/-- Whether the sink takes the whole of `bytes`. -/
def fits (s : Sink) (bytes : List UInt8) : Bool :=
  match s.room with
  | none => true
  | some room => bytes.length ≤ room

/-- The bytes of `bytes` that the sink still takes. -/
def accepted (s : Sink) (bytes : List UInt8) : List UInt8 :=
  match s.room with
  | none => bytes
  | some room => bytes.take room

/-- The sink after `bytes` have been offered to it. -/
def put (s : Sink) (bytes : List UInt8) : Sink :=
  { s with taken := s.taken ++ s.accepted bytes }

/-- The text of the longest start of `taken`, of fewer than the given number of bytes, that ends
with a whole character. -/
def decodeCut (taken : List UInt8) : Nat → String
  | 0 => ""
  | n + 1 =>
    match String.fromUTF8? (taken.take n).toByteArray with
    | some text => text
    | none => decodeCut taken n

/-- What the sink holds, as text. A last character of which only some bytes fitted shows as the
replacement character. -/
def text (s : Sink) : String :=
  match String.fromUTF8? (ByteArray.mk s.taken) with
  | some text => text
  | none => decodeCut s.taken.toList s.taken.size ++ "\uFFFD"

theorem limit_put (s : Sink) (bytes : List UInt8) : (s.put bytes).limit = s.limit := rfl

@[simp] theorem put_nil (s : Sink) : s.put [] = s := by
  have hnone : s.accepted [] = [] := by
    unfold accepted
    split <;> simp
  simp [put, hnone]

@[simp] theorem fits_nil (s : Sink) : s.fits [] = true := by
  unfold fits
  split <;> simp

/-- A sink gains just the bytes that it accepts. -/
theorem toList_taken_put (s : Sink) (bytes : List UInt8) :
    (s.put bytes).taken.toList = s.taken.toList ++ s.accepted bytes := by
  simp [put]

/-- Text that fits is taken whole. -/
theorem accepted_of_fits {s : Sink} {bytes : List UInt8} (h : s.fits bytes = true) :
    s.accepted bytes = bytes := by
  unfold fits at h
  unfold accepted
  split
  · rfl
  · next room hroom =>
    rw [hroom] at h
    exact List.take_of_length_le (by simpa using h)

/-- Of text that does not fit, fewer bytes are taken than it has. -/
theorem length_accepted_lt {s : Sink} {bytes : List UInt8} (h : s.fits bytes = false) :
    (s.accepted bytes).length < bytes.length := by
  unfold fits at h
  unfold accepted
  split
  · next hroom => simp [hroom] at h
  · next room hroom =>
    rw [hroom] at h
    have hlt : room < bytes.length := by simpa using h
    simp only [List.length_take]
    omega

/-- A sink that did not take all of a text takes nothing any more. -/
theorem room_put_of_not_fits {s : Sink} {bytes : List UInt8} (h : s.fits bytes = false) :
    (s.put bytes).room = some 0 := by
  unfold fits room at h
  cases hlimit : s.limit with
  | none => simp [hlimit] at h
  | some limit =>
    have hlt : limit - s.taken.size < bytes.length := by simpa [hlimit] using h
    have haccepted : s.accepted bytes = bytes.take (limit - s.taken.size) := by
      simp [accepted, room, hlimit]
    have htaken : (s.put bytes).taken.size = s.taken.size + (limit - s.taken.size) := by
      rw [← Array.length_toList, toList_taken_put, List.length_append, Array.length_toList,
        haccepted, List.length_take, Nat.min_eq_left (Nat.le_of_lt hlt)]
    have hfull : limit - (s.put bytes).taken.size = 0 := by
      rw [htaken]
      omega
    rw [room, limit_put, hlimit, Option.map_some, hfull]

theorem put_of_room_eq_zero {s : Sink} (h : s.room = some 0) (bytes : List UInt8) :
    s.put bytes = s := by
  simp [put, accepted, h]

theorem fits_of_room_eq_zero {s : Sink} (h : s.room = some 0) (bytes : List UInt8) :
    s.fits bytes = bytes.isEmpty := by
  cases bytes <;> simp [fits, h]

/-- What a sink accepts is the start of what it is offered. -/
theorem accepted_isPrefix (s : Sink) (bytes : List UInt8) : s.accepted bytes <+: bytes := by
  unfold accepted
  split
  · exact List.prefix_rfl
  · exact List.take_prefix _ _

end Sink

end Ls8
