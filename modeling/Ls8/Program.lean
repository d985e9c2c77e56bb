import Ls8.Listing
import Ls8.Log
import Ls8.Machine.Basic
import Ls8.ReadError

/-!
# Programs

A program is the sequence of bytes that a listing writes, made to be placed at the start of memory.
-/

namespace Ls8

/-- A sequence of bytes to be placed at the start of memory. -/
structure Program where
  bytes : List UInt8
  deriving DecidableEq, Repr

inductive LoadError where
  /-- The file cannot be read, perhaps because there is none. -/
  | unreadable (path : String) (cause : ReadError)
  /-- A line holds something other than a literal of eight bits. -/
  | invalidLiteral (line : Nat) (text : String)
  /-- The listing holds more literals than memory has bytes. -/
  | tooLarge (size : Nat)
  deriving DecidableEq, Repr

def LoadError.message : LoadError → String
  | .unreadable path .notFound => "file not found: " ++ path
  | .unreadable path cause => "could not read " ++ path ++ ": " ++ cause.message
  | .invalidLiteral line text =>
    "line " ++ toString line ++ ": \x60" ++ text ++ "\x60 is not an 8-bit binary literal"
  | .tooLarge size =>
    "program is " ++ toString size ++ " bytes but memory only holds " ++ toString Memory.size

/-- The byte of a line, or why there is none. -/
def Listing.Entry.byte (entry : Listing.Entry) : Except LoadError UInt8 :=
  match literal? entry.text with
  | some byte => .ok byte
  | none => .error (.invalidLiteral entry.line (String.ofList entry.text))

namespace Program

def size (p : Program) : Nat :=
  p.bytes.length

def isEmpty (p : Program) : Bool :=
  p.bytes.isEmpty

instance : Image Program := ⟨bytes⟩

/-- The program that a listing writes. The first line that is no literal is reported; only a listing
without such a line is reported for its size. -/
def parse (listing : String) : Except LoadError Program := do
  let bytes ← (Listing.entries listing.toList).mapM Listing.Entry.byte
  if bytes.length ≤ Memory.size then .ok ⟨bytes⟩ else .error (.tooLarge bytes.length)

/-- The program that the listing in a file writes. -/
def fromFile (read : Reader) (path : String) : Except LoadError Program :=
  match read path with
  | .ok listing => parse listing
  | .error cause => .error (.unreadable path cause)

/-- The records of reading a program from a file. -/
def fromFileLog (read : Reader) (path : String) : List Log.Record :=
  match fromFile read path with
  | .ok p => [.readFile p.size path]
  | .error _ => []

/-- A program made from a listing fits in memory. -/
theorem size_le_of_parse {listing : String} {p : Program} (h : parse listing = .ok p) :
    p.size ≤ Memory.size := by
  unfold parse at h
  cases hbytes : (Listing.entries listing.toList).mapM Listing.Entry.byte with
  | error e => simp [hbytes, bind, Except.bind] at h
  | ok bytes =>
    simp only [hbytes, bind, Except.bind] at h
    split at h
    · next hle =>
      cases h
      exact hle
    · cases h

end Program

end Ls8
