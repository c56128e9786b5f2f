import LiveRecords.Table.Basic

/-!
# Rows under constraints

What a table makes of a row before it takes it: columns without a value get
their default, computed columns are computed, and the constraints that look at
one row alone are tried. The keys that a row shares with others come after.
-/

namespace LiveRecords.Table

/-! ## Values that are not given -/

/-- The default of a column, as the column stores it. -/
def Column.fallback (c : Column) : Except Refusal Cell :=
  match c.default with
  | none => .ok .null
  | some e => (e.eval fun _ => none).map c.affinity.store

/-- The cells of a row from values listed by column, of two for one column the
first. -/
def assemble (listed : List (String × Cell)) : List Column → Except Refusal (List Cell)
  | [] => .ok []
  | c :: cs => do
    let x ← match listed.find? fun e => sameName e.1 c.name with
      | some e => pure (c.affinity.store e.2)
      | none => c.fallback
    return x :: (← assemble listed cs)

/-- Computes columns from the cells of a row. -/
def compute (t : Table) : List Column → Row → Except Refusal Row
  | [], r => .ok r
  | c :: cs, r =>
    match c.generated with
    | none => compute t cs r
    | some e => do compute t cs (t.setCell c.name (← e.eval (t.scope r)) r)

/-- Computes all computed columns. Those that depend on others come right once
those are, so that as many rounds as there are such columns do for all. -/
def generate (t : Table) (r : Row) : Except Refusal Row :=
  let generated := t.columns.filter (·.generated.isSome)
  generated.foldlM (fun r _ => t.compute generated r) r

/-! ## Constraints on one row -/

/-- What to do with a null in a column, if it must not hold one. What the whole
statement asks for goes before what the column is declared with. -/
def Column.onNull (override : Option Resolution) (c : Column) : Option Resolution :=
  c.notNull.map fun r => override.getD r

/-- Puts defaults where a null is to give way to one. Without a result the row is
to be left as it is. Computed columns are passed over. -/
def fillNulls (t : Table) (override : Option Resolution) :
    List Column → Row → Except Refusal (Option Row)
  | [], r => .ok (some r)
  | c :: cs, r =>
    if c.generated.isSome || !(t.cell r c.name).isNull then fillNulls t override cs r
    else match c.onNull override with
      | none => fillNulls t override cs r
      | some .ignore => .ok none
      | some .replace =>
        if c.default.isNone then .error (.notNull t.name c.name)
        else do fillNulls t override cs (t.setCell c.name (← c.fallback) r)
      | some _ => .error (.notNull t.name c.name)

/-- Whether the row is kept, as far as nulls go that are left: in computed
columns, and where a default is null itself. -/
def keepsNulls (t : Table) (override : Option Resolution) (r : Row) :
    List Column → Except Refusal Bool
  | [] => .ok true
  | c :: cs =>
    if (t.cell r c.name).isNull then
      match c.onNull override with
      | none => keepsNulls t override r cs
      | some .ignore => .ok false
      | some _ => .error (.notNull t.name c.name)
    else keepsNulls t override r cs

/-- The first check that is false. -/
def checkViolation? (t : Table) (r : Row) : List Check → Except Refusal (Option Check)
  | [] => .ok none
  | k :: ks => do
    if (← k.condition.truth (t.scope r)) = some false then return some k
    else checkViolation? t r ks

/-- The row as the table takes it, if it is to take it, where columns for which
`touched` holds have new cells. -/
def fit (t : Table) (override : Option Resolution) (touched : Column → Bool) (r : Row) :
    Except Refusal (Option Row) := do
  let r ← t.generate r
  match ← t.fillNulls override (t.columns.filter touched) r with
  | none => return none
  | some r =>
    let r ← t.generate r
    if ← t.keepsNulls override r (t.columns.filter fun c => touched c || c.generated.isSome) then
      match ← t.checkViolation? r t.checks with
      | none => return some r
      | some k => .error (.check k.label)
    else return none

/-- The columns that change with some others: those, and all that are computed
from one that changes. -/
def changedColumns (t : Table) (names : List String) : List String :=
  let follow (changed : List String) (c : Column) : List String :=
    match c.generated with
    | none => changed
    | some e =>
      if changed.any (sameName c.name) then changed
      else if e.names.any fun n => changed.any (sameName n) then changed ++ [c.name]
      else changed
  (t.columns.filter (·.generated.isSome)).foldl
    (fun changed _ => t.columns.foldl follow changed) names

/-! ## Keys -/

/-- The keys in the order in which they are tried: the latest first, and those
at last that have other rows removed. -/
def keysInOrder (t : Table) : List UniqueKey :=
  let latest := t.keys.reverse
  latest.filter (fun k => k.resolution != some .replace) ++
    latest.filter (fun k => k.resolution == some .replace)

/-- The keys with what is to be done for them, of which what the whole statement
asks for goes first. -/
def keysUnder (t : Table) (override : Option Resolution) : List UniqueKey :=
  t.keysInOrder.map fun k => { k with resolution := override.or k.resolution }

theorem keysUnder_none (t : Table) : t.keysUnder none = t.keysInOrder := by
  simp [keysUnder]

/-- Whether two rows agree, not null, in all columns of a key. -/
def agree (t : Table) (k : UniqueKey) (r s : Row) : Bool :=
  k.parts.all fun (c, collation) =>
    let x := t.cell r c
    !x.isNull && x.compareBy collation (t.cell s c) == .eq

/-- Another row that agrees with this one in a key. -/
def rival? (t : Table) (k : UniqueKey) (r : Row) (number : Int) : Option Row :=
  t.rows.find? fun s => s.number != number && t.agree k r s

end LiveRecords.Table
