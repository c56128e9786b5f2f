import LiveRecords.Database.Step
import LiveRecords.Statement
import LiveRecords.Table.Declaration
import LiveRecords.Table.Page

/-!
# The database

What each statement does to named tables. A statement is refused, in this
order, for its text, for a missing table, for a missing column, for a reference
that cannot be used, or for what it would do to a row; a refused statement
leaves the database as it was. A text is read from its start, so that of two
things wrong with it the first decides.
-/

namespace LiveRecords

open Table (Cell Column Event Guard Refusal Row)

namespace Database

/-- What is wrong with the statement as a text. -/
def textFault? (s : Statement) : Option Refusal :=
  if s.request = .createTable ∧ Keyword.isSystemTable s.schema.table then
    some (.reservedTable s.schema.table)
  else (Piece.fault? 0 s.pieces).map fun (token, offset) => .syntaxError token s.text offset

/-- The most columns that a table is made with. -/
def maxColumns : Nat := 2000

/-- Whether a declaration has come to too many columns where its text goes
wrong, if it does. -/
def crowds (s : Schema) : Bool :=
  let begun := { s with fields := s.fields.take (maxColumns - s.parentColumn.toList.length) }
  decide (maxColumns < (Column.ofSchema begun).length) &&
    (Piece.fault? 0 begun.createPieces).isNone

/-- The most conditions that a filter joins. -/
def maxConditions : Nat := 999

/-- The statement with the first conditions of its filter alone. -/
def foremost (n : Nat) (s : Statement) : Statement :=
  match s.request with
  | .selectRows k => { s with request := .selectRows { k with terms := k.terms.take n } }
  | .selectKeys k limit offset =>
    { s with request := .selectKeys { k with terms := k.terms.take n } limit offset }
  | _ => s

/-- Whether a filter has come to too many conditions where the text goes wrong,
if it does. -/
def sprawls (s : Statement) (k : Clause) : Bool :=
  decide (maxConditions < k.terms.length) &&
    (Piece.fault? 0 (foremost (maxConditions + 1) s).pieces).isNone

/-- The table that a well-formed statement is about. -/
def target (d : Database) (s : Statement) : Except Refusal Table :=
  match textFault? s with
  | some e => .error e
  | none =>
    match d.table? s.schema.table with
    | some t => .ok t
    | none => .error (.noSuchTable s.schema.table)

def createTable (d : Database) (s : Schema) : Except Refusal Database :=
  if (d.table? s.table).isSome then .ok d
  else if Keyword.isLost s.table then .error (.malformedTable s.table)
  else .ok { d with tables := d.tables ++ [{ name := s.table, columns := Column.ofSchema s }] }

/-- The values that an insertion lists by column, the row number first. -/
def listedCells (s : Schema) (number : Cell) (id : RecordId) (values : List Value)
    (parent : Option RecordId) : List (String × Cell) :=
  ("rowid", number) :: s.fieldNames.zip (values.map Cell.ofValue) ++
    (s.parentColumn.toList.map fun p => (p, Cell.ofValue (.ofId? parent))) ++
    [(keyColumn, .blob id.bytes)]

/-- Whether a column is computed from others. -/
def isComputed (t : Table) (column : String) : Bool :=
  (t.column? column).any (·.generated.isSome)

/-- What is wrong with listing a column in an insertion. -/
def listingFault? (t : Table) (table column : String) : Option Refusal :=
  if !t.resolves column then some (.noColumnNamed table column)
  else if isComputed t column then
    some (.insertedComputed (((t.column? column).map Column.name).getD column))
  else none

/-- Fails with a fault, if there is one. -/
def refuseIf : Option Refusal → Except Refusal Unit
  | some e => .error e
  | none => .ok ()

/-- Writes a whole row. The row number of the row with the same key is carried
over; where a column has taken that name, the cell of that column is. -/
def insertRow (d : Database) (t : Table) (s : Schema) (id : RecordId) (values : List Value)
    (parent : Option RecordId) : Except Refusal Database := do
  refuseIf (("rowid" :: s.insertColumns).findSome? (listingFault? t s.table))
  refuseIf (referenceFault? d.referenceDepth d t false .added)
  let carried : Cell :=
    match t.row? id with
    | some r => t.cell r "rowid"
    | none => .null
  let listed := listedCells s carried id values parent
  let number ← t.numberFor listed
  if t.guarded .insert [] then .error .frozen
  else
    let row := ⟨number, ← Table.assemble listed t.columns⟩
    (← Pending.add { database := d } t (some .replace) row).settle

/-- Sets one cell of the row with a key, if there is one. -/
def updateRow (d : Database) (t : Table) (id : RecordId) (column : String) (x : Cell) :
    Except Refusal (Nat × Database) := do
  refuseIf (if !t.resolves column then some (.noSuchColumn column)
    else if isComputed t column then some (.updatedComputed column) else none)
  refuseIf (referenceFault? d.referenceDepth d t false (.columns [column]))
  match t.row? id with
  | none => return (0, d)
  | some r =>
    let step := Step.assign none t.name r.number [(column, x)]
    let (n, p) ← Pending.perform maxDepth { database := d } step
    return (n, ← p.settle)

/-- Removes the row with a key, if there is one. -/
def deleteRow (d : Database) (t : Table) (id : RecordId) : Except Refusal (Nat × Database) := do
  refuseIf (referenceFault? d.referenceDepth d t false .removed)
  match t.row? id with
  | none => return (0, d)
  | some r =>
    let (n, p) ← Pending.perform maxDepth { database := d } (.erase true t.name r.number)
    return (n, ← p.settle)

/-- The number of rows touched, and the database after. -/
def execute (d : Database) (s : Statement) : Except Refusal (Nat × Database) :=
  match s.request with
  | .createTable =>
    if (d.table? s.schema.table).isNone && !Keyword.isSystemTable s.schema.table &&
      crowds s.schema then .error (.tooManyColumns s.schema.table)
    else
      match textFault? s with
      | some e => .error e
      | none => (d.createTable s.schema).map fun d => (0, d)
  | .insertRow id values parent => do
    return (1, ← d.insertRow (← d.target s) s.schema id values parent)
  | .updateColumn id column value => do
    d.updateRow (← d.target s) id column (Cell.ofValue value)
  | .deleteRow id => do d.deleteRow (← d.target s) id
  | .selectRows _ | .selectKeys .. => .ok (0, d)

/-- The largest number of rows a page is ever asked for. -/
def maxPage : Nat := 0x7FFFFFFFFFFFFFFF

/-- The table and the selected rows, up to a refusal that comes while reading. -/
def query (d : Database) (s : Statement) (k : Clause) (limit offset : Nat) :
    Except Refusal (Table × List Row × Option Refusal) :=
  if sprawls s k then .error .tooDeep
  else
    match d.target s with
    | .error e => .error e
    | .ok t =>
      match Piece.strayOperand? t.knows 0 s.pieces with
      | some (c, place) => .error (.noSuchColumnAt c s.text place)
      | none =>
        let columns := match s.request with
          | .selectKeys .. => (t.columnIndex? keyColumn).toList
          | _ => List.range t.columns.length
        .ok (t, t.page k columns (min limit maxPage) (min offset maxPage))

/-! ## Another user of the same database -/

/-- Makes a table with a key column and what some definitions declare. -/
def declareTable (d : Database) (name : String) (definitions : List String) : Database :=
  if (d.table? name).isSome then d
  else
    let declared := Table.Declaration.ofDefinitions definitions
    { d with tables := d.tables ++
        [{ name, columns := declared.columns, keys := declared.keys, checks := declared.checks,
           references := declared.references }] }

/-- Adds a row, if the table takes it. -/
def addRow (d : Database) (name : String) (listed : List (String × Cell)) : Database :=
  let added : Except Refusal Database :=
    match d.table? name with
    | none => .ok d
    | some t =>
      if t.guarded .insert [] then .error .frozen
      else do
        let row := ⟨← t.numberFor listed, ← Table.assemble listed t.columns⟩
        (← Pending.add { database := d } t none row).settle
  added.toOption.getD d

/-- Refuses statements of a kind on a table from now on. -/
def freeze (d : Database) (name : String) (g : Guard) : Database :=
  match d.table? name with
  | none => d
  | some t => d.setTable { t with guards := t.guards ++ [g] }

/-- Lifts every guard against a kind of statement. -/
def thaw (d : Database) (e : Event) : Database :=
  { d with tables := d.tables.map fun t =>
      { t with guards := t.guards.filter fun g => g.event != e } }

/-- Removes a table, after all of its rows. It stays if they cannot go. -/
def dropTable (d : Database) (name : String) : Database :=
  match d.table? name with
  | none => d
  | some t =>
    let emptied : Except Refusal Database := do
      let p ← t.rows.foldlM
        (fun p r => (Pending.perform maxDepth p (.erase false t.name r.number)).map (·.2))
        { database := d }
      p.settle
    match emptied with
    | .error _ => d
    | .ok d => { d with tables := d.tables.filter fun t => !sameName t.name name }

end Database

end LiveRecords
