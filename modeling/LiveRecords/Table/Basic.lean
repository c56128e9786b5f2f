import LiveRecords.Table.Column
import LiveRecords.Table.Evaluation

/-!
# Tables

A table is a list of rows in increasing order of their row numbers. A new row
gets the number after the largest, and a replaced row keeps its own, so the
order of rows is the order in which their keys first came in. Guards refuse
statements of one kind that touch a row.
-/

namespace LiveRecords.Table

structure Row where
  number : Int
  cells : List Cell
  deriving DecidableEq

inductive Event where
  | insert
  | update
  | delete
  deriving DecidableEq, Repr

/-- Refuses every statement of a kind that touches a row; with a column, only
updates of that column. -/
structure Guard where
  event : Event
  column : Option String := none
  deriving DecidableEq

end LiveRecords.Table

namespace LiveRecords

open Table (Check Column Guard Reference Row UniqueKey)

structure Table where
  name : String
  columns : List Column
  /-- In the order in which they were made. -/
  keys : List UniqueKey := [.primary]
  checks : List Check := []
  references : List Reference := []
  rows : List Row := []
  guards : List Guard := []
  deriving DecidableEq

namespace Table

/-- The names that mean the row number where no column has them. -/
def isRowNumberName (name : String) : Bool :=
  sameName name "rowid" || sameName name "oid" || sameName name "_rowid_"

def columnIndex? (t : Table) (name : String) : Option Nat :=
  t.columns.findIdx? fun c => sameName c.name name

def column? (t : Table) (name : String) : Option Column :=
  t.columns.find? fun c => sameName c.name name

def hasColumn (t : Table) (name : String) : Bool := (t.column? name).isSome

/-- Whether a statement may set what the name means. -/
def resolves (t : Table) (name : String) : Bool := t.hasColumn name || isRowNumberName name

/-- Whether the name means the row number. -/
def meansNumber (t : Table) (name : String) : Bool := !t.hasColumn name && isRowNumberName name

/-- The cell of a row in a column. -/
def cell (t : Table) (r : Row) (name : String) : Cell :=
  match t.columnIndex? name with
  | some i => r.cells.getD i .null
  | none => if isRowNumberName name then .integer (Int64.ofInt r.number) else .null

def affinity (t : Table) (name : String) : Affinity :=
  match t.column? name with
  | some c => c.affinity
  | none => .integer

def collation (t : Table) (name : String) : Collation :=
  match t.column? name with
  | some c => c.collation
  | none => .binary

/-- What names mean in a row. -/
def scope (t : Table) (r : Row) : Scope := fun name =>
  if t.resolves name then some ⟨t.cell r name, t.affinity name, t.collation name⟩ else none

/-- Whether a condition may start with the name. -/
def knows (t : Table) (name : String) : Bool := !Expression.isStray (t.scope ⟨0, []⟩) name

/-- The row with a key. -/
def hasKey (t : Table) (id : RecordId) (r : Row) : Bool :=
  t.cell r keyColumn == .blob id.bytes

def row? (t : Table) (id : RecordId) : Option Row := t.rows.find? (t.hasKey id)

def rowAt? (t : Table) (number : Int) : Option Row := t.rows.find? (·.number == number)

def guarded (t : Table) (e : Event) (columns : List String) : Bool :=
  t.guards.any fun g =>
    g.event == e && match g.column with
      | none => true
      | some c => columns.any (sameName c)

/-! ## Row numbers -/

/-- The largest row number there can be. -/
def maxNumber : Int := 0x7FFFFFFFFFFFFFFF

/-- The number after the largest of some rows, in increasing order. -/
def numberAfter (rows : List Row) : Int := rows.getLast?.elim 1 fun r => r.number + 1

/-- The largest number that is tried where the largest of all is taken. -/
def maxTried : Int := 0x4000000000000000

/-- Whether no row has the number. -/
def isUnused (t : Table) (n : Int) : Bool := t.rows.all (·.number != n)

/-- The number a new row gets. Where the largest number is taken, it is one of
the lower half: the one after the others there, or else the first that no row
has. -/
def nextNumber (t : Table) : Except Refusal Int :=
  let n := numberAfter t.rows
  if n ≤ maxNumber then .ok n
  else
    let after := max 1 (numberAfter (t.rows.filter fun r => decide (r.number < maxTried)))
    let tried : List Int := after :: (List.range (t.rows.length + 1)).map fun k : Nat => (k : Int) + 1
    match tried.find? fun n => decide (n ≤ maxTried) && t.isUnused n with
    | some n => .ok n
    | none => .error .full

/-- The number that a cell spells. -/
def numberOf? (x : Cell) : Option Int :=
  match Affinity.integer.store x with
  | .integer n => some n.toInt
  | _ => none

/-- The number of a row with these listed values: the one listed last, or the
next if that is null. -/
def numberFor (t : Table) (listed : List (String × Cell)) : Except Refusal Int :=
  match (listed.filter fun e => t.meansNumber e.1).getLast? with
  | none => t.nextNumber
  | some (_, .null) => t.nextNumber
  | some (_, x) =>
    match numberOf? x with
    | some n => .ok n
    | none => .error .datatypeMismatch

/-! ## Rows -/

/-- Puts a row at its place by number. -/
def place (r : Row) : List Row → List Row
  | [] => [r]
  | s :: rest => if r.number < s.number then r :: s :: rest else s :: place r rest

/-- The table without the row of a number. -/
def without (t : Table) (number : Int) : Table :=
  { t with rows := t.rows.filter (·.number != number) }

/-- The table with a row in place of the one with this number. -/
def put (t : Table) (number : Int) (r : Row) : Table :=
  { t with rows := place r (t.without number).rows }

/-- Puts a cell into a column, or sets the row number. -/
def setCell (t : Table) (name : String) (x : Cell) (r : Row) : Row :=
  match t.columnIndex? name with
  | some i => { r with cells := r.cells.set i ((t.affinity name).store x) }
  | none => r

theorem without_rows (t : Table) (number : Int) (r : Row) :
    r ∈ (t.without number).rows ↔ r ∈ t.rows ∧ r.number ≠ number := by
  simp [without]

theorem mem_place (r s : Row) (rows : List Row) : s ∈ place r rows ↔ s = r ∨ s ∈ rows := by
  induction rows with
  | nil => simp [place]
  | cons q rest ih =>
    unfold place
    split
    · simp
    · simp only [List.mem_cons, ih]
      constructor <;> (intro h; rcases h with h | h | h <;> simp [h])

theorem mem_put (t : Table) (number : Int) (r s : Row) :
    s ∈ (t.put number r).rows ↔ s = r ∨ s ∈ t.rows ∧ s.number ≠ number := by
  simp [put, mem_place, without_rows]

end Table

end LiveRecords
