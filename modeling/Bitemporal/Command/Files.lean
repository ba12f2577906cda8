/-
Bitemporal/Command/Files.lean

Access to files.

The programs read and write files through `FileAccess`, in any monad.  `Disk`
is a directory tree as a value, on which the programs can be run without any
effect.
-/

namespace Bitemporal

/-- How files are read and written: a file that cannot be read gives `none`, one that cannot be
written `false`. -/
structure FileAccess (m : Type → Type) where
  read : String → m (Option String)
  write : String → String → m Bool

/-- The parts of a path, from the directory that the programs run in. -/
abbrev Location := List String

/-- A directory tree, by its files.  The directories are those on the way to a file, and the root. -/
structure Disk where
  files : List (Location × String) := []

namespace Disk

/-- Whether there is a directory here. -/
def isDirectory (d : Disk) (l : Location) : Bool :=
  l.isEmpty || d.files.any fun (file, _) => l.length < file.length && l.isPrefixOf file

/-- The parts of a path as it is written. -/
def parts (path : String) : List String :=
  go [] path.toList
where
  /-- Collects one part in reverse. -/
  go (part : List Char) : List Char → List String
    | [] => [String.ofList part.reverse]
    | '/' :: cs => String.ofList part.reverse :: go [] cs
    | c :: cs => go (c :: part) cs

/-- Follows one part of a path from a directory. -/
def step (d : Disk) (l : Location) (part : String) : Option Location :=
  if !d.isDirectory l then none
  else if part = "" ∨ part = "." then some l
  else if part = ".." then if l.isEmpty then none else some l.dropLast
  else some (l ++ [part])

/-- Where a relative path leads; only its last part may be missing. -/
def locate (d : Disk) (path : String) : Option Location :=
  match path.toList with
  | '/' :: _ => none
  | _ => (parts path).foldlM d.step []

/-- The content of the file at a path. -/
def read (d : Disk) (path : String) : Option String :=
  (d.locate path).bind fun l => d.files.lookup l

/-- Replaces the content of a file, or adds the file. -/
def put (l : Location) (content : String) : List (Location × String) → List (Location × String)
  | [] => [(l, content)]
  | (file, old) :: rest =>
    if file = l then (file, content) :: rest else (file, old) :: put l content rest

/-- The tree with a file written; no directories are made, and none is overwritten. -/
def write (d : Disk) (path content : String) : Option Disk :=
  match d.locate path with
  | some l => if d.isDirectory l then none else some { files := put l content d.files }
  | none => none

/-- The files of `after` that are not the same in `before`. -/
def changes (before after : Disk) : List (Location × String) :=
  after.files.filter fun (l, content) => before.files.lookup l != some content

/-- Access to the files of a tree. -/
def access : FileAccess (StateM Disk) where
  read path := return (← get).read path
  write path content := do
    match (← get).write path content with
    | some d =>
      set d
      return true
    | none => return false

end Disk

end Bitemporal
