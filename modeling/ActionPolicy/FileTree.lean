/-!
# Files

What lies at a path in a tree of directories and files.

## Main definitions

* `FileError` – why a file cannot be read as text.
* `FileTree` – directories and files.
* `FileTree.usual` – the tree of a system with nothing but what all systems have.
* `FileTree.follow` – where names lead to.
* `FileTree.read` – the content of the file at a path.

## Design notes

A path that starts with a slash leads on from the root, any other one from the directory in use.
Names lead on from directories only; an empty name or a dot stays in the directory, and two dots
lead to the one around it, which of the root is the root. What lies on the way to a directory or a
file is a directory.
-/

namespace ActionPolicy

/-- Why a file cannot be read as text. -/
inductive FileError where
  | missing
  | denied
  /-- On the way to it lies a file. -/
  | notDirectory
  | isDirectory
  /-- The path, or a name in it, has too many bytes. -/
  | nameTooLong
  | notText
  /-- Something else is in the way. -/
  | unreadable (reason : String)
  deriving DecidableEq, Repr

namespace FileError

/-- Why a file cannot be read, in words. -/
def message : FileError → String
  | missing => "No such file or directory (os error 2)"
  | denied => "Permission denied (os error 13)"
  | notDirectory => "Not a directory (os error 20)"
  | isDirectory => "Is a directory (os error 21)"
  | nameTooLong => "File name too long (os error 36)"
  | notText => "stream did not contain valid UTF-8"
  | unreadable reason => reason

end FileError

/-- A tree of directories and files. A place in it is given by the names on the way from its
root. -/
structure FileTree where
  /-- The place of the directory in use. -/
  start : List String
  /-- The places of the other directories that are there even if they are empty. -/
  directories : List (List String)
  /-- The places of the files with their contents. -/
  files : List (List String × ByteArray)

namespace FileTree

/-- The greatest number of bytes in a name. -/
def maxNameBytes : Nat := 255

/-- The greatest number of bytes in a path. -/
def maxPathBytes : Nat := 4095

/-- The names of directories that lie in the root of every system. -/
def rootDirectories : List String :=
  ["bin", "boot", "dev", "etc", "home", "lib", "media", "mnt", "opt", "proc", "root", "run", "sbin",
    "srv", "sys", "tmp", "usr", "var"]

/-- The tree of a system with nothing but what all systems have, and some files. The directory in
use is empty. -/
def usual (files : List (List String × ByteArray)) : FileTree where
  start := ["run", "user"]
  directories := rootDirectories.map fun name => [name]
  files := (["dev", "null"], .empty) :: files

/-- There is a directory at a place. -/
def isDirectory (t : FileTree) (place : List String) : Bool :=
  (t.start :: t.directories).any (place <+: ·) ||
    t.files.any fun (file, _) => place ≠ file && place <+: file

/-- There is something at a place. -/
def occupied (t : FileTree) (place : List String) : Bool :=
  t.isDirectory place || (t.files.lookup place).isSome

/-- The place that names lead to from another place. -/
def follow (t : FileTree) : List String → List String → Except FileError (List String)
  | place, [] => .ok place
  | place, name :: rest =>
    if !t.isDirectory place then .error .notDirectory
    else if name = "" ∨ name = "." then t.follow place rest
    else if name = ".." then t.follow place.dropLast rest
    else if maxNameBytes < name.utf8ByteSize then .error .nameTooLong
    else if t.occupied (place ++ [name]) then t.follow (place ++ [name]) rest
    else .error .missing

/-- The content of the file at a path. -/
def read (t : FileTree) (path : String) : Except FileError ByteArray := do
  if path = "" then throw .missing
  if maxPathBytes < path.utf8ByteSize then throw .nameTooLong
  let place ← t.follow (if path.toList.head? = some '/' then [] else t.start) (path.splitOn "/")
  match t.files.lookup place with
  | some bytes => return bytes
  | none => throw .isDirectory

end FileTree

end ActionPolicy
