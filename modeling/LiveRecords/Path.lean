/-!
# Paths

Paths are texts with parts between slashes. An absolute path stands for itself
wherever it is joined, and a path names a place whatever way round leads there.
-/

namespace LiveRecords.Path

/-- The path of a file in a directory. -/
def join (directory file : String) : String :=
  if file.startsWith "/" then file
  else if directory.isEmpty || directory.endsWith "/" then directory ++ file
  else directory ++ "/" ++ file

/-- A place: the parts that lead to it, last to first; an absolute one ends in
the root. -/
abbrev Place := List String

def root : Place := ["/"]

/-- Where a path starts. -/
def origin (path : String) : Place := if path.startsWith "/" then root else []

def parts (path : String) : List String := (path.splitOn "/").filter fun part => !part.isEmpty

/-- The place around a place; nothing is around the root. -/
def up : Place → Place
  | ["/"] => ["/"]
  | p => p.tail

/-- Takes one part after a place. -/
def step (place : Place) (part : String) : Place :=
  if part = "." then place else if part = ".." then up place else part :: place

/-- The place that a path names when all its parts are taken as they stand. -/
def place (path : String) : Place := (parts path).foldl step (origin path)

/-- How many octets the path of a place has. -/
def size (place : Place) : Nat := place.foldl (fun n part => n + (part.utf8ByteSize + 1)) 0

/-- The parts of the path around a path; dots at its end are no parts. -/
def outer (parts : List String) : List String :=
  ((parts.reverse.dropWhile (· == ".")).drop 1).reverse

theorem outer_length_lt {p : List String} (h : p ≠ []) : (outer p).length < p.length := by
  have sub : (p.reverse.dropWhile (· == ".")).length ≤ p.length :=
    Nat.le_trans (List.dropWhile_sublist _).length_le (by simp)
  have pos : 0 < p.length := List.length_pos_iff.2 h
  simp only [outer, List.length_reverse, List.length_drop]
  omega

theorem join_absolute {file : String} (h : file.startsWith "/" = true) (directory : String) :
    join directory file = file := by
  simp [join, h]

theorem up_root : up root = root := rfl

end LiveRecords.Path
