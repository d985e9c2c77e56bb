import Ls8.Cpu.Execute
import Ls8.Sink

/-!
# The machine

A processor that prints to a sink. Every operation gives the machine it leaves, also when it is
refused: a failure carries the machine beside the error.
-/

namespace Ls8

structure Machine extends Cpu where
  out : Sink := Sink.unlimited
  deriving DecidableEq, Repr

/-- A refused operation: why, and the machine it leaves. -/
structure Failure where
  error : Error
  machine : Machine
  deriving DecidableEq, Repr

/-- What an operation comes to: the machine after it, or a failure. -/
abbrev Outcome := Except Failure Machine

namespace Outcome

/-- The machine that an operation leaves, whether it was refused or not. -/
def machine : Outcome → Machine
  | .ok m => m
  | .error failure => failure.machine

/-- Why an operation was refused, if it was. -/
def error? : Outcome → Option Error
  | .ok _ => none
  | .error failure => some failure.error

theorem eq_ok_of_error? {outcome : Outcome} (h : outcome.error? = none) :
    outcome = .ok outcome.machine := by
  cases outcome with
  | ok m => rfl
  | error failure => cases h

theorem eq_error_of_error? {outcome : Outcome} {error : Error} (h : outcome.error? = some error) :
    outcome = .error ⟨error, outcome.machine⟩ := by
  cases outcome with
  | ok m => cases h
  | error failure =>
    cases h
    rfl

end Outcome

/-- What can be placed in memory: anything that is a sequence of bytes. -/
class Image (α : Type) where
  /-- The bytes, from the first address on. -/
  bytes : α → List UInt8

instance : Image (List UInt8) := ⟨id⟩

instance : Image (Array UInt8) := ⟨Array.toList⟩

namespace Machine

/-- A machine just switched on that prints to `out`. -/
def withOutput (out : Sink) : Machine := { out := out }

def new : Machine := withOutput Sink.unlimited

instance : Inhabited Machine := ⟨new⟩

def read (m : Machine) (address : UInt8) : UInt8 :=
  m.memory.read address

def write (m : Machine) (address value : UInt8) : Machine :=
  { m with memory := m.memory.write address value }

end Machine

end Ls8
