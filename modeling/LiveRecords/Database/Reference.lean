import LiveRecords.Database.Basic

/-!
# References between tables

A reference is usable if the columns it means are a key of a table that exists;
that is asked before a statement runs. While a statement runs, what matters is
how many rows dangle: they refer to a row that is not there.
-/

namespace LiveRecords

open Table (Cell Reference Refusal Row)

namespace Table

/-- Whether the columns a reference means are a key of the table. -/
def isKeyOf (t : Table) (r : Reference) : Bool :=
  t.keys.any fun k =>
    k.parts.length == r.columns.length &&
      if r.parentColumns.isEmpty then k.alike .primary
      else k.parts.all fun (c, collation) =>
        r.parentColumns.any (sameName c) && collation == t.collation c

end Table

namespace Table.Reference

/-- The columns of a reference with those they stand for in the other table. -/
def pairs (r : Reference) : List (String × String) := r.columns.zip r.targets

/-- Whether a row refers to none. -/
def isFree (r : Reference) (t : Table) (row : Row) : Bool :=
  r.columns.any fun c => (t.cell row c).isNull

/-- Whether a row refers to itself. -/
def isOwn (r : Reference) (t : Table) (row : Row) : Bool :=
  sameName t.name r.parent &&
    r.pairs.all fun (c, p) => (t.cell row c).compare (t.cell row p) == .eq

/-- Whether the row that another refers to is in the other table. -/
def isMet (r : Reference) (t p : Table) (row : Row) : Bool :=
  p.rows.any fun s => r.pairs.all fun (c, k) =>
    ((p.affinity k).store (t.cell row c)).compareBy (p.collation k) (p.cell s k) == .eq

/-- The rows of `t` that refer to a row of `p`. -/
def referrers (r : Reference) (t p : Table) (row : Row) : List Row :=
  t.rows.filter fun s => r.pairs.all fun (c, k) =>
    compareCells (comparisonAffinity (some (p.affinity k)) (some (t.affinity c)))
      (p.collation k) .equals (p.cell row k) (t.cell s c) = some true

end Table.Reference

namespace Database

/-- The references to a table, with the tables they are from, the latest first. -/
def referencesTo (d : Database) (t : Table) : List (Table × Reference) :=
  (d.tables.flatMap fun c =>
    (c.references.filter fun r => sameName r.parent t.name).map fun r => (c, r)).reverse

/-- Whether a row of a table lacks the row it refers to. -/
def dangles (d : Database) (t : Table) (row : Row) (r : Reference) : Bool :=
  !r.isFree t row && match d.table? r.parent with
    | some p => !r.isMet t p row
    | none => false

/-! ## Before a statement runs -/

/-- What a statement does to rows of a table: it adds or removes them, or it
changes some columns. An added row may take the place of others. -/
inductive Touch where
  | added
  | removed
  | columns (names : List String)

namespace Touch

/-- Whether some of the columns change. -/
def meets (touch : Touch) (columns : List String) : Bool :=
  match touch with
  | .added | .removed => true
  | .columns names => columns.any fun c => names.any (sameName c)

/-- Whether the rows that a reference is from are to be looked at. -/
def concerns (touch : Touch) (t : Table) (r : Reference) : Bool :=
  sameName t.name r.parent || touch.meets r.columns

/-- What a reference does where the rows it is to are touched. -/
def consequence (touch : Touch) (r : Reference) : Table.Consequence :=
  match touch with
  | .added | .removed => r.onDelete
  | .columns _ => r.onUpdate

/-- How the rows are touched that a reference is from. -/
def onward? (touch : Touch) (r : Reference) : Option Touch :=
  match touch.consequence r, touch with
  | .cascade, .added | .cascade, .removed => some .removed
  | .cascade, .columns _ | .setNull, _ | .setDefault, _ => some (.columns r.columns)
  | .none, _ | .restrict, _ => none

end Touch

/-- The references to a table whose meant columns are touched, with the tables
they are from. -/
def referencesMet (d : Database) (t : Table) (touch : Touch) : List (Table × Reference) :=
  (d.referencesTo t).filter fun (_, r) => touch.meets r.targets

/-- Whether any reference is touched at all. -/
def anyTouched (d : Database) (t : Table) (touch : Touch) : Bool :=
  t.references.any (fun r => touch.meets r.columns) || !(d.referencesMet t touch).isEmpty

/-- Why a reference from a table cannot be used, if it cannot. -/
def faultFrom? (d : Database) (t : Table) (r : Reference) : Option Refusal :=
  match d.table? r.parent with
  | none => some (.noSuchTable ("main." ++ r.parent))
  | some p => if p.isKeyOf r then none else some (.referenceMismatch t.name r.parent)

/-- Why a reference to a table cannot be used, if it cannot. -/
def faultTo? (t : Table) (e : Table × Reference) : Option Refusal :=
  if t.isKeyOf e.2 then none else some (.referenceMismatch e.1.name e.2.parent)

/-- Whether rows of a table are tried anew against all keys where some columns
change: a reference to the table itself is from them, or one that has
consequences is to them. -/
def retriesAll (d : Database) (t : Table) (columns : List String) : Bool :=
  let touch := Touch.columns columns
  t.references.any (fun r => sameName r.parent t.name && touch.meets r.columns) ||
    (d.referencesMet t touch).any fun e => e.2.onUpdate != .none

/-- Whether a key that is tried where some columns change has other rows removed.
What follows from another change never has. -/
def replacesRows (d : Database) (t : Table) (follows : Bool) (columns : List String) : Bool :=
  !follows && t.keys.any fun k =>
    k.resolution == some .replace &&
      (d.retriesAll t columns || k.columns.any fun c => columns.any (sameName c))

/-- A reference that cannot be used, among those from and to a table where rows
are touched, or, up to a depth, where their consequences touch rows. References
that have consequences are named first, the earliest of them, then the others
that matter, the latest of them. Rows may be touched for what follows from
another change. -/
def referenceFault? : Nat → Database → Table → Bool → Touch → Option Refusal
  | 0, _, _, _, _ => none
  | depth + 1, d, t, follows, touch =>
    let touch := match touch with
      | .columns names => .columns (t.changedColumns names)
      | touch => touch
    let replaced := match touch with
      | .columns names =>
        if d.replacesRows t follows names then referenceFault? depth d t follows .removed else none
      | _ => none
    if !d.anyTouched t touch then replaced
    else
      let met := d.referencesMet t touch
      let acting : List (Table × Reference) := match touch with
        | .added => []
        | _ => met.reverse.filter fun e => touch.consequence e.2 != .none
      let own := t.references.reverse.filter (touch.concerns t)
      (acting.findSome? (faultTo? t)).or <|
        (own.findSome? (d.faultFrom? t)).or <|
        (met.findSome? (faultTo? t)).or <|
        replaced.or <|
        ((d.referencesTo t).reverse.findSome? (faultTo? t)).or <|
        met.findSome? fun (c, r) => (touch.onward? r).bind (referenceFault? depth d c true)

/-- How deep consequences are looked through for references that cannot be used. -/
def referenceDepth (d : Database) : Nat := d.tables.foldl (fun n t => n + t.references.length) 1

/-! ## What is prepared with a statement -/

/-- What is prepared for when a statement runs: a guard, or a consequence of a
reference from a table, where rows go away or change. -/
inductive Preparation where
  | guard
  | consequence (table : String) (reference : Reference) (onUpdate : Bool)
  deriving DecidableEq

/-- All that is prepared with a statement, the latest first, when `known` is
already and consequences are followed up to a depth. Nothing is prepared
twice. -/
def prepare : Nat → Database → Table → Bool → Touch → List Preparation → List Preparation
  | 0, _, _, _, _, known => known
  | depth + 1, d, t, follows, touch, known =>
    let follow (touch : Touch) (known : List Preparation) : List Preparation :=
      (d.referencesMet t touch).foldl
        (fun known (c, r) =>
          let p := Preparation.consequence c.name r
            (match touch with | .columns _ => true | _ => false)
          if touch.consequence r == .none || known.contains p then known
          else match touch.onward? r with
            | some onward => prepare depth d c true onward (p :: known)
            | none => p :: known)
        known
    let guarded (e : Table.Event) (columns : List String) : List Preparation :=
      if t.guarded e columns then .guard :: known else known
    match touch with
    | .added => follow .added (guarded .insert [])
    | .removed => follow .removed (guarded .delete [])
    | .columns names =>
      let changed := t.changedColumns names
      let known := guarded .update names
      let known := if d.replacesRows t follows changed then follow .removed known else known
      follow (.columns changed) known

/-- What is prepared last before the new form of a row is looked at. -/
def lastPrepared? (d : Database) (t : Table) (follows : Bool) (touch : Touch) :
    Option Preparation :=
  let depth := 2 * d.referenceDepth
  match touch with
  | .columns names =>
    if d.replacesRows t follows (t.changedColumns names) then
      (d.prepare depth t false .removed []).head?
    else none
  | touch => (d.prepare depth t false touch []).head?

/-- Whether a new row goes unchecked by a reference: where setting that reference
to null is what was prepared last, the row counts as set to null. -/
def isSpared (last : Option Preparation) (t : Table) (r : Reference) : Bool :=
  match last with
  | some (.consequence c s onUpdate) =>
    sameName c t.name && s == r && (if onUpdate then r.onUpdate else r.onDelete) == .setNull
  | _ => false

end Database

end LiveRecords
