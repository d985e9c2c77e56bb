import Ls8.ReadError

/-!
# Files in memory

A tree of directories and files, and how a path is resolved in it. A path that starts with a slash
starts at the root, any other at the working directory. Its parts are entered one after the other;
each has to be entered from a directory that is there, also the parts `.` and `..`.
-/

namespace Ls8

/-- The names on the way from the root to a file or directory. -/
abbrev Location := List String

structure FileStore where
  /-- Every directory but the root. -/
  directories : List Location := []
  /-- Every file and what it holds. -/
  files : List (Location × List UInt8) := []
  /-- Where a path starts that does not start with a slash. -/
  workingDirectory : Location := []
  deriving DecidableEq, Repr

namespace FileStore

def maxPartLength : Nat := 255

def maxPathLength : Nat := 4095

/-- The parts of a path: between slashes, of which several count as one. -/
def parts (path : String) : List String :=
  ((path.toList.splitOn '/').filter (· ≠ [])).map String.ofList

def file? (store : FileStore) (location : Location) : Option (List UInt8) :=
  store.files.lookup location

/-- Whether there is a directory at a location. The root always is one. -/
def isDirectory (store : FileStore) (location : Location) : Bool :=
  location = [] || store.directories.contains location

/-- Goes from a location to the part of that name in it. -/
def enter (store : FileStore) (here : Location) (part : String) : Except ReadError Location :=
  if !store.isDirectory here then .error .notDirectory
  else if part = "." then .ok here
  else if part = ".." then .ok here.dropLast
  else if maxPartLength < part.utf8ByteSize then .error .nameTooLong
  else
    let there := here ++ [part]
    if store.isDirectory there || (store.file? there).isSome then .ok there
    else .error .notFound

/-- The location that a path names. A slash at the end asks for a directory. -/
def resolve (store : FileStore) (path : String) : Except ReadError Location := do
  let chars := path.toList
  let start := if chars.head? = some '/' then [] else store.workingDirectory
  let location ← (parts path).foldlM store.enter start
  if chars.getLast? = some '/' && !store.isDirectory location then .error .notDirectory
  else .ok location

def read (store : FileStore) (path : String) : Except ReadError String :=
  if path.toList.contains (Char.ofNat 0) then .error .nulInName
  else if path = "" then .error .notFound
  else if maxPathLength < path.utf8ByteSize then .error .nameTooLong
  else do
    let location ← store.resolve path
    match store.file? location with
    | none => .error .isDirectory
    | some content =>
      match String.fromUTF8? content.toByteArray with
      | some text => .ok text
      | none => .error .notUtf8

/-- The store with a directory at a location, and every directory on the way to it. -/
def addDirectory (store : FileStore) (location : Location) : FileStore :=
  let onTheWay := (List.range location.length).map fun n => location.take (n + 1)
  { store with directories := onTheWay ++ store.directories }

/-- The store with a file at a location, and every directory on the way to it. -/
def addFile (store : FileStore) (location : Location) (content : List UInt8) : FileStore :=
  let store := store.addDirectory location.dropLast
  { store with files := (location, content) :: store.files }

end FileStore

end Ls8
