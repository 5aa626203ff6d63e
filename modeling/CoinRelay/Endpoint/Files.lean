import CoinRelay.Octets

/-!
# Files

What a program reads its files from: a function from names to contents, or to why there are none. A tree of directories
is one way to answer.

- `FileError.message`: the text of a cause;
- `FileTree.read`: the contents that a name leads to, from the root or from where the program was started.
-/

namespace CoinRelay

/-- Why a file cannot be read. -/
inductive FileError
  | missing
  | denied
  | notDirectory
  | isDirectory
  | nameTooLong
  | nullInName
  | other (reason : String)
  deriving DecidableEq, Repr

/-- The text of a cause. -/
def FileError.message : FileError → String
  | missing => "No such file or directory (os error 2)"
  | denied => "Permission denied (os error 13)"
  | notDirectory => "Not a directory (os error 20)"
  | isDirectory => "Is a directory (os error 21)"
  | nameTooLong => "File name too long (os error 36)"
  | nullInName => "file name contained an unexpected NUL byte"
  | other reason => reason

/-- The contents of a file by its name, or why it cannot be read. -/
abbrev Files := String → Except FileError Octets

/-! ## Trees of directories -/

/-- What stands at a place of a tree. -/
inductive FileTree.Entry
  | directory
  | file (contents : Octets)
  deriving DecidableEq, Repr

/-- What stands below a root, by the names on the way there, and where names that do not start at the root start. -/
structure FileTree where
  entries : List (List String × FileTree.Entry)
  origin : List String := []

namespace FileTree

/-- The most octets of a name. -/
def nameLimit : Nat := 255

/-- The most octets of a path with the mark at its end. -/
def pathLimit : Nat := 4096

/-- What stands at a place. The root is a directory. -/
def entry? (t : FileTree) : List String → Option Entry
  | [] => some .directory
  | place => t.entries.lookup place

/-- The place that a name leads to from another. -/
def step (t : FileTree) (place : List String) (name : String) : Except FileError (List String) :=
  match t.entry? place with
  | none => .error .missing
  | some (.file _) => .error .notDirectory
  | some .directory =>
    if name = "" ∨ name = "." then .ok place
    else if name = ".." then .ok place.dropLast
    else if nameLimit < name.utf8ByteSize then .error .nameTooLong
    else if (t.entry? (place ++ [name])).isSome then .ok (place ++ [name])
    else .error .missing

/-- The contents of the file that a path of names leads to. -/
def read (t : FileTree) : Files := fun path => do
  if '\x00' ∈ path.toList then throw .nullInName
  if pathLimit ≤ path.utf8ByteSize then throw .nameTooLong
  if path.isEmpty then throw .missing
  let start := if path.toList.head? = some '/' then [] else t.origin
  match t.entry? (← (path.splitOn "/").foldlM t.step start) with
  | some (.file contents) => return contents
  | some .directory => throw .isDirectory
  | none => throw .missing

end FileTree

end CoinRelay
