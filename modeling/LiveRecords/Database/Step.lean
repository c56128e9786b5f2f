import LiveRecords.Database.Reference

/-!
# Steps and their consequences

A statement changes rows in steps, and a step may have others follow it, in the
same table or in others, where a reference asks for it. What the rows lack that
refer to others is counted along the way, and must be made up for in the end.
-/

namespace LiveRecords

open Table (Cell Consequence Reference Refusal Row)

namespace Database

/-- The database within a statement, and how many more rows dangle than before. -/
structure Pending where
  database : Database
  dangling : Int := 0

/-- A change of one row. -/
inductive Step where
  /-- Removes a row; guards may count. -/
  | erase (guarded : Bool) (table : String) (number : Int)
  /-- Sets cells of a row. What is asked for where a constraint is broken goes
  before what the constraint is declared with. -/
  | assign (override : Option Table.Resolution) (table : String) (number : Int)
      (cells : List (String × Cell))

namespace Pending

/-! ## Counting -/

/-- Takes back what a row that goes away lacks, as far as it was counted. -/
def release (p : Pending) (t : Table) (touch : Touch) (row : Row) : Pending :=
  (t.references.reverse.filter (touch.concerns t)).foldl
    (fun p r =>
      if p.dangling ≠ 0 ∧ p.database.dangles t row r then { p with dangling := p.dangling - 1 }
      else p) p

/-- Counts what a new row lacks, but not where it is spared. -/
def claim (p : Pending) (t : Table) (touch : Touch) (last : Option Preparation) (row : Row) :
    Pending :=
  (t.references.reverse.filter fun r => touch.concerns t r && !isSpared last t r).foldl
    (fun p r =>
      if p.database.dangles t row r ∧ !r.isOwn t row then { p with dangling := p.dangling + 1 }
      else p) p

/-- Counts the rows that refer to one which goes away, but not itself. -/
def abandon (p : Pending) (t : Table) (touch : Touch) (row : Row) : Pending :=
  (p.database.referencesMet t touch).foldl
    (fun p (c, r) =>
      let left := (r.referrers c t row).filter fun s =>
        !(sameName c.name t.name && s.number == row.number)
      { p with dangling := p.dangling + left.length }) p

/-- Takes back what rows lacked that refer to a new one, as far as it was
counted. -/
def adopt (p : Pending) (t : Table) (touch : Touch) (row : Row) : Pending :=
  (p.database.referencesMet t touch).foldl
    (fun p (c, r) =>
      if p.dangling = 0 then p
      else { p with dangling := p.dangling - (r.referrers c t row).length }) p

/-- The database at the end, if no row dangles for what was done. -/
def settle (p : Pending) : Except Refusal Database :=
  if 0 < p.dangling then .error .reference else .ok p.database

theorem settle_eq_ok (p : Pending) (d : Database) :
    p.settle = .ok d ↔ p.dangling ≤ 0 ∧ p.database = d := by
  unfold settle
  split <;> simp <;> omega

def setTable (p : Pending) (t : Table) : Pending := { p with database := p.database.setTable t }

end Pending

/-! ## Consequences -/

/-- What a reference does to the rows `c` it is from where a row of `t` goes
away, or becomes another. -/
def followUp (consequence : Consequence) (c t : Table) (r : Reference) (old : Row)
    (new : Option Row) : Except Refusal (List Step) :=
  let rows := r.referrers c t old
  let assignAll (cells : List (String × Cell)) : List Step :=
    rows.map fun s => .assign (some .abort) c.name s.number cells
  match consequence with
  | .none => .ok []
  | .restrict => if rows.isEmpty then .ok [] else .error .reference
  | .cascade =>
    match new with
    | none => .ok (rows.map fun s => .erase true c.name s.number)
    | some new => .ok (assignAll (r.pairs.map fun (a, k) => (a, t.cell new k)))
  | .setNull => .ok (assignAll (r.columns.map fun a => (a, .null)))
  | .setDefault => do
    let cells ← r.columns.mapM fun a => do
      return (a, ← ((c.column? a).map Table.Column.fallback).getD (.ok .null))
    return assignAll cells

/-- Whether a row becomes one with another key. -/
def isRekeyed (t : Table) (r : Reference) (old new : Row) : Bool :=
  r.targets.any fun k =>
    !Table.sameCell (t.affinity k) (t.collation k) (t.cell old k) (t.cell new k)

/-- Has all that follows from a change of one row done by `run`. -/
def followAll (run : Pending → Step → Except Refusal Pending) (t : Table) (touch : Touch)
    (old : Row) (new : Option Row) (p : Pending) : Except Refusal Pending :=
  let others := (p.database.referencesMet t touch).filter fun (_, r) =>
    new.all (isRekeyed t r old)
  others.foldlM
    (fun p (c, r) => do
      let c := (p.database.table? c.name).getD c
      let consequence := if new.isNone then r.onDelete else r.onUpdate
      (← followUp consequence c t r old new).foldlM run p) p

/-! ## Steps -/

/-- The new form of a row, before constraints. -/
def assigned (t : Table) (row : Row) : List (String × Cell) → Except Refusal Row
  | [] => .ok row
  | (c, x) :: cells =>
    if t.meansNumber c then
      match Table.numberOf? x with
      | some n => assigned t { row with number := n } cells
      | none => .error .datatypeMismatch
    else assigned t (t.setCell c x row) cells

/-- Makes room among the keys for the new form of a row. Without a result, the
row is to be left as it is. -/
def makeRoom (run : Pending → Step → Except Refusal Pending) (name : String) (number : Int)
    (new : Row) : List Table.UniqueKey → Pending → Except Refusal (Option Pending)
  | [], p => .ok (some p)
  | k :: ks, p =>
    match p.database.table? name with
    | none => .ok (some p)
    | some t =>
      match t.rival? k new number with
      | none => makeRoom run name number new ks p
      | some rival =>
        match k.resolution with
        | some .ignore => .ok none
        | some .replace => do
          makeRoom run name number new ks (← run p (.erase false name rival.number))
        | _ => .error (.unique t.name k.columns)

/-- Takes a step and all that follows from it, up to a depth of consequences of
consequences. Also gives the number of rows that the step itself touched. -/
def Pending.perform : Nat → Pending → Step → Except Refusal (Nat × Pending)
  | 0, _, _ => .error .endless
  | depth + 1, p, .erase guarded name number =>
    match p.database.table? name with
    | none => .ok (0, p)
    | some t =>
      match t.rowAt? number with
      | none => .ok (0, p)
      | some row => do
        if guarded && t.guarded .delete [] then .error .frozen
        else
          let run (p : Pending) (s : Step) : Except Refusal Pending :=
            (Pending.perform depth p s).map (·.2)
          let p := ((p.release t .removed row).abandon t .removed row).setTable (t.without number)
          return (1, ← followAll run t .removed row none p)
  | depth + 1, p, .assign override name number cells =>
    match p.database.table? name with
    | none => .ok (0, p)
    | some t =>
      match t.rowAt? number with
      | none => .ok (0, p)
      | some row => do
        let names := cells.map (·.1)
        let changed := t.changedColumns names
        let new ← assigned t row cells
        if t.guarded .update names then .error .frozen
        else match ← t.fit override (fun c => changed.any (sameName c.name)) new with
          | none => return (0, p)
          | some new =>
            if new.number != number && (t.rowAt? new.number).isSome then
              .error (.unique t.name ["rowid"])
            else
              let run (p : Pending) (s : Step) : Except Refusal Pending :=
                (Pending.perform depth p s).map (·.2)
              match ← makeRoom run name number new (t.keysUnder override) p with
              | none => return (0, p)
              | some p =>
                let touch := Touch.columns changed
                let t := (p.database.table? name).getD t
                let p :=
                  if p.database.anyTouched t touch then
                    let p := (p.release t touch row).abandon t touch row
                    let p := p.setTable (t.without number)
                    let last := p.database.lastPrepared? t override.isSome touch
                    (p.claim t touch last new).adopt t touch new
                  else p
                return (1, ← followAll run t touch row (some new) (p.setTable (t.put number new)))

/-- How deep consequences of consequences may go. -/
def maxDepth : Nat := 1001

/-- Adds a row to a table. What the statement asks for where a constraint is
broken goes before what the constraint is declared with. -/
def Pending.add (p : Pending) (t : Table) (override : Option Table.Resolution) (row : Row) :
    Except Refusal Pending := do
  let run (p : Pending) (s : Step) : Except Refusal Pending :=
    (Pending.perform maxDepth p s).map (·.2)
  match ← t.fit override (fun _ => true) row with
  | none => return p
  | some new =>
    if override != some .replace && (t.rowAt? new.number).isSome then
      .error (.unique t.name ["rowid"])
    else
      match ← makeRoom run t.name new.number new (t.keysUnder override)
          (← run p (.erase false t.name new.number)) with
      | none => return p
      | some p =>
        let removes := (t.keysUnder override).any (·.resolution == some .replace)
        let last := if removes then p.database.lastPrepared? t false .added else none
        let p := (p.claim t .added last new).adopt t .added new
        let t := (p.database.table? t.name).getD t
        return p.setTable (t.put new.number new)

end Database

end LiveRecords
