import LiveRecords.Database
import LiveRecords.Diagnostic

/-!
# Links

A link runs statements on a database one at a time. It counts each statement
once, by its kind or as a failure, and reports what it did. Besides what the
database itself refuses, a link may be refused any statement for reasons of
its own, such as a full disk; which ones is a parameter, so that every
behaviour can be studied under every pattern of failures.
-/

namespace LiveRecords

structure Statistics where
  ddl : Nat := 0
  inserts : Nat := 0
  updates : Nat := 0
  deletes : Nat := 0
  selects : Nat := 0
  failures : Nat := 0
  deriving DecidableEq, Repr

namespace Statistics

def bump (s : Statistics) : StatementKind → Statistics
  | .ddl => { s with ddl := s.ddl + 1 }
  | .insert => { s with inserts := s.inserts + 1 }
  | .update => { s with updates := s.updates + 1 }
  | .delete => { s with deletes := s.deletes + 1 }
  | .select => { s with selects := s.selects + 1 }

def fail (s : Statistics) : Statistics := { s with failures := s.failures + 1 }

/-- The number of statements so far. -/
def total (s : Statistics) : Nat :=
  s.ddl + s.inserts + s.updates + s.deletes + s.selects + s.failures

/-- The statistics as diagnostics show them. -/
def describe (s : Statistics) : String :=
  "SqlStats \x7b ddl: " ++ toString s.ddl ++ ", inserts: " ++ toString s.inserts ++ ", updates: " ++
    toString s.updates ++ ", deletes: " ++ toString s.deletes ++ ", selects: " ++
    toString s.selects ++ ", failures: " ++ toString s.failures ++ " \x7d"

theorem total_bump (s : Statistics) (k : StatementKind) : (s.bump k).total = s.total + 1 := by
  cases k <;> simp only [bump, total] <;> omega

theorem total_fail (s : Statistics) : s.fail.total = s.total + 1 := by
  simp only [fail, total]; omega

end Statistics

structure Link where
  database : Database := {}
  stats : Statistics := {}
  /-- What the `n`-th statement is refused for, whatever it asks. -/
  outage : Nat → Option Table.Refusal := fun _ => none
  log : List Diagnostic := []

/-- A stored row as a record sees it: its values in the order of the fields. -/
structure RowImage where
  id : RecordId
  parent : Option RecordId
  values : List Value
  deriving DecidableEq

namespace RowImage

open Table (Cell Row)

def idOfCell (table : String) : Cell → Except StoreError RecordId
  | .blob bs =>
    match RecordId.ofBytes bs with
    | .ok id => .ok id
    | .error e => .error (.invalidRow table (.id e))
  | _ => .error (.invalidRow table .keyNotBlob)

def valueOfCell (table : String) : Cell → Except StoreError Value
  | .null => .ok .null
  | .integer n => .ok (.integer n)
  | .text octets =>
    match Text.Utf8.text? octets with
    | some s => .ok (.text s)
    | none => .error (.invalidRow table .invalidText)
  | .blob bs => .ok (.blob bs)
  | .real _ => .error (.invalidRow table .real)

/-- The cell of a result column, found by name. -/
def cellNamed (t : Table) (r : Row) (name : String) : Except StoreError Cell :=
  if t.hasColumn name then .ok (t.cell r name) else .error (.sql (.invalidColumnName name))

def parentOfRow (s : Schema) (t : Table) (r : Row) : Except StoreError (Option RecordId) :=
  match s.parentColumn with
  | none => .ok none
  | some p =>
    match cellNamed t r p with
    | .error e => .error e
    | .ok .null => .ok none
    | .ok c => (idOfCell s.table c).map some

def valuesOfRow (s : Schema) (t : Table) (r : Row) :
    List String → Except StoreError (List Value)
  | [] => .ok []
  | f :: fs => do
    let v ← valueOfCell s.table (← cellNamed t r f)
    return v :: (← valuesOfRow s t r fs)

/-- Reads the key, then the parent, then the fields in order. -/
def ofRow (s : Schema) (t : Table) (r : Row) : Except StoreError RowImage := do
  let id ← idOfCell s.table (← cellNamed t r keyColumn)
  let parent ← parentOfRow s t r
  return ⟨id, parent, ← valuesOfRow s t r s.fieldNames⟩

def idOfRow (s : Schema) (t : Table) (r : Row) : Except StoreError RecordId :=
  idOfCell s.table (t.cell r keyColumn)

end RowImage

namespace Link

open Table (Cell Row Refusal)

def report (l : Link) (d : Diagnostic) : Link := { l with log := l.log ++ [d] }

def refuse (l : Link) (s : Statement) (e : Refusal) : Link :=
  ({ l with stats := l.stats.fail }).report (.refused s e)

/-- Runs a statement that reads nothing; the number of rows it touched. -/
def execute (l : Link) (s : Statement) : Except StoreError Nat × Link :=
  let l' := l.report (.statement s)
  match l.outage l.stats.total with
  | some e => (.error (.sql e), l'.refuse s e)
  | none =>
    match l.database.execute s with
    | .error e => (.error (.sql e), l'.refuse s e)
    | .ok (n, d) => (.ok n, { l' with database := d, stats := l.stats.bump s.kind })

/-- Decodes rows in order up to the first that cannot be read; a refusal that
came while reading stands after them. -/
def decodeRows {α : Type} (decode : Row → Except StoreError α) (stop : Option Refusal) :
    List Row → Except StoreError (List α)
  | [] =>
    match stop with
    | some e => .error (.sql e)
    | none => .ok []
  | r :: rs =>
    match decode r with
    | .error e => .error e
    | .ok a => (decodeRows decode stop rs).map (a :: ·)

/-- What a reading statement gives on the database as it is. -/
def read {α : Type} (d : Database) (s : Statement) (k : Clause) (limit offset : Nat)
    (decode : Table → Row → Except StoreError α) : Except StoreError (List α) :=
  match d.query s k limit offset with
  | .error e => .error (.sql e)
  | .ok (t, rows, stop) => decodeRows (decode t) stop rows

/-- Runs a statement that reads rows. -/
def query {α : Type} (l : Link) (s : Statement) (k : Clause) (limit offset : Nat)
    (decode : Table → Row → Except StoreError α) : Except StoreError (List α) × Link :=
  let l' := l.report (.statement s)
  match l.outage l.stats.total with
  | some e => (.error (.sql e), l'.refuse s e)
  | none =>
    match read l.database s k limit offset decode with
    | .ok found => (.ok found, { l' with stats := l.stats.bump .select })
    | .error (.sql e) => (.error (.sql e), l'.refuse s e)
    | .error e => (.error e, ({ l' with stats := l.stats.fail }).report (.undecodable s e))

/-! ## Statements of a record type -/

def ensureTable (l : Link) (s : Schema) : Except StoreError Unit × Link :=
  match l.execute ⟨s, .createTable⟩ with
  | (.ok _, l) => (.ok (), l)
  | (.error e, l) => (.error e, l)

/-- Writes a whole row; there must be one value for each field. -/
def insertRow (l : Link) (s : Schema) (id : RecordId) (values : List Value)
    (parent : Option RecordId) : Except StoreError Unit × Link :=
  if values.length ≠ s.fields.length then (.error (.invalidInput .valueCount), l)
  else match l.execute ⟨s, .insertRow id values parent⟩ with
    | (.ok _, l) => (.ok (), l)
    | (.error e, l) => (.error e, l)

def setColumn (l : Link) (s : Schema) (id : RecordId) (column : String) (v : Value) :
    Except StoreError Unit × Link :=
  match l.execute ⟨s, .updateColumn id column v⟩ with
  | (.ok _, l) => (.ok (), l)
  | (.error e, l) => (.error e, l)

def updateField (l : Link) (s : Schema) (id : RecordId) (field : String) (v : Value) :
    Except StoreError Unit × Link :=
  if (s.field? field).isNone then (.error (.unknownField s.table field), l)
  else l.setColumn s id field v

def updateParent (l : Link) (s : Schema) (id : RecordId) (parent : Option RecordId) :
    Except StoreError Unit × Link :=
  match s.parentColumn with
  | none => (.error (.noParentColumn s.table), l)
  | some p => l.setColumn s id p (.ofId? parent)

def deleteRow (l : Link) (s : Schema) (id : RecordId) : Except StoreError Nat × Link :=
  l.execute ⟨s, .deleteRow id⟩

/-- The clause of a filter whose columns all belong to the record type. -/
def clauseFor (s : Schema) (f : Filter) : Except StoreError Clause :=
  match f.columns.find? fun c => !s.hasColumn c with
  | some c => .error (.unknownColumn s.table c)
  | none =>
    match f.clause with
    | .ok k => .ok k
    | .error e => .error (.predicate e)

def selectWhere (l : Link) (s : Schema) (f : Filter) : Except StoreError (List RowImage) × Link :=
  match clauseFor s f with
  | .error e => (.error e, l)
  | .ok k => l.query ⟨s, .selectRows k⟩ k Database.maxPage 0 (RowImage.ofRow s)

/-- The filter that selects the row with a key. -/
def keyFilter (id : RecordId) : Filter := .all [.equals keyColumn (.ofId id)]

def selectOne (l : Link) (s : Schema) (id : RecordId) :
    Except StoreError (Option RowImage) × Link :=
  match l.selectWhere s (keyFilter id) with
  | (.ok rows, l) => (.ok rows.head?, l)
  | (.error e, l) => (.error e, l)

/-- A page of the keys of the selected rows. -/
def selectKeys (l : Link) (s : Schema) (f : Filter) (offset limit : Nat) :
    Except StoreError (List RecordId) × Link :=
  match clauseFor s f with
  | .error e => (.error e, l)
  | .ok k => l.query ⟨s, .selectKeys k limit offset⟩ k limit offset (RowImage.idOfRow s)

end Link

end LiveRecords
