import LiveRecords.Path

/-!
# Volumes

The directories and files on disk, as far as databases need them. A path is
walked part by part: each part but the last must lead into a directory, also
where the next part leads out again. A file is found by its place alone.
-/

namespace LiveRecords

open LiveRecords.Path (Place)

/-- Why a directory cannot be made. -/
inductive DiskFault where
  | notFound
  | exists
  | notDirectory
  | nameTooLong
  /-- The path holds a NUL. -/
  | nul
  deriving DecidableEq, Repr

def DiskFault.message : DiskFault → String
  | .notFound => "No such file or directory (os error 2)"
  | .exists => "File exists (os error 17)"
  | .notDirectory => "Not a directory (os error 20)"
  | .nameTooLong => "File name too long (os error 36)"
  | .nul => "file name contained an unexpected NUL byte"

/-- What a place holds. -/
inductive Entry where
  | directory
  | file
  | nothing
  deriving DecidableEq, Repr

/-- Directories, and the files with the number of the database in each. -/
structure Volumes where
  directories : List Place := []
  files : List (Place × Nat) := []
  deriving DecidableEq

namespace Volumes

/-- The directories that are there from the start: those a path starts from,
and some below the root. -/
def standing : List Place := [[], Path.root, ["dev", "/"], ["shm", "dev", "/"], ["tmp", "/"]]

/-- A file that is there from the start. -/
def nullDevice : Place := ["null", "dev", "/"]

def entry (v : Volumes) (p : Place) : Entry :=
  if p = nullDevice ∨ v.files.any (·.1 == p) then .file
  else if standing.contains p ∨ v.directories.contains p then .directory
  else .nothing

/-- The longest name, in octets. -/
def maxName : Nat := 255

/-- The longest path, in octets, and one more. -/
def maxPath : Nat := 4096

/-! ## Making directories -/

/-- Goes from a place to a part of it. -/
def enter (v : Volumes) (p : Place) (part : String) : Except DiskFault Place :=
  match v.entry p with
  | .file => .error .notDirectory
  | .nothing => .error .notFound
  | .directory =>
    if maxName < part.utf8ByteSize then .error .nameTooLong else .ok (Path.step p part)

/-- Goes from a place along some parts. -/
def walk (v : Volumes) (p : Place) (parts : List String) : Except DiskFault Place :=
  parts.foldlM v.enter p

def isDirectory (v : Volumes) (p : Place) (parts : List String) : Bool :=
  match v.walk p parts with
  | .ok q => v.entry q == .directory
  | .error _ => false

/-- Makes one directory in a directory. -/
def makeOne (v : Volumes) (p : Place) (parts : List String) : Except DiskFault Volumes := do
  let around ← v.walk p parts.dropLast
  match parts.getLast? with
  | none => throw .exists
  | some last =>
    let q ← v.enter around last
    if last = "." ∨ last = ".." ∨ v.entry q ≠ .nothing then throw .exists
    else return { v with directories := q :: v.directories }

/-- Makes a directory after those around it. -/
def makeAll (v : Volumes) (p : Place) (parts : List String) : Except DiskFault Volumes :=
  if parts = [] then .ok v
  else
    let settle (v : Volumes) : Except DiskFault Volumes → Except DiskFault Volumes
      | .ok v' => .ok v'
      | .error e => if v.isDirectory p parts then .ok v else .error e
    match v.makeOne p parts with
    | .error .notFound =>
      match v.makeAll p (Path.outer parts) with
      | .error e => .error e
      | .ok v' => settle v' (v'.makeOne p parts)
    | made => settle v made
termination_by parts.length
decreasing_by exact Path.outer_length_lt ‹_›

/-- Makes the directory that a path names, and those around it. -/
def makeDirectory (v : Volumes) (path : String) : Except DiskFault Volumes :=
  if path.contains (Char.ofNat 0) then .error .nul
  else if maxPath ≤ path.utf8ByteSize then .error .nameTooLong
  else v.makeAll (Path.origin path) (Path.parts path)

theorem makeDirectory_empty (v : Volumes) (h : v.entry [] = .directory) :
    v.makeAll [] [] = .ok v ∧ v.isDirectory [] [] = true := by
  constructor
  · rw [makeAll]; rfl
  · simp [isDirectory, walk, h, pure, Except.pure]

/-! ## Database files -/

/-- The longest path of a database, in octets: its journal needs some more. -/
def maxDatabasePath : Nat := 504

/-- The longest name of a database, in octets, that a journal can be named
after. -/
def maxDatabaseName : Nat := 247

/-- Whether a database can be opened at a place: its directory exists, and it
is none itself. -/
def canHold (v : Volumes) (p : Place) : Bool :=
  v.entry p.tail == .directory && v.entry p == .nothing && decide (Path.size p ≤ maxDatabasePath) &&
    p.head?.any fun name => decide (name.utf8ByteSize ≤ maxName)

/-- Whether a journal can stand beside a database. -/
def canJournal (p : Place) : Bool :=
  p.head?.any fun name => decide (name.utf8ByteSize ≤ maxDatabaseName)

end Volumes

end LiveRecords
