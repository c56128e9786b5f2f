import LiveRecords.Table.Plan

/-!
# Reading pages

The selected rows of a table, page by page. Conjuncts are tried in turn until
one is not true: those that are settled before any row is read, then, in each
row that the plan leads to, those that its index says all about, and then the
others. A condition may refuse a row it is tried in, and with it the page.
-/

namespace LiveRecords.Table

open Plan (Anchor Conjunct Fact Hint Question Route)

/-! ## Conditions -/

/-- Whether one of some conditions is true, which are tried in order. -/
def holdsAny (s : Scope) : List Term → Except Refusal Bool
  | [] => .ok false
  | c :: cs => do
    if (← (Expression.ofTerm c).truth s) = some true then return true else holdsAny s cs

def holdsConjunct (s : Scope) : Conjunct → Except Refusal Bool
  | .one c => do return (← (Expression.ofTerm c).truth s) = some true
  | .any cs => holdsAny s cs

/-- Whether all conjuncts are true, which are tried in order. -/
def holdsAll (s : Scope) : List Conjunct → Except Refusal Bool
  | [] => .ok true
  | k :: ks => do if ← holdsConjunct s k then holdsAll s ks else return false

/-- Whether no condition of a filter refuses any row. -/
def refusesNone (k : Clause) : Bool :=
  k.terms.all fun
    | .compare _ .like _ v => (Cell.ofValue v).toOctets.length ≤ Pattern.maxOctets
    | _ => true

/-! ## Before reading -/

/-- What names mean in a condition that is settled before rows are read. Where a
null is asked for that cannot be, there is none. -/
def settledScope (t : Table) (as : List Anchor) : Scope := fun name =>
  match t.place? name with
  | none => none
  | some p =>
    some (((Plan.anchoredScope t as) name).getD
      ⟨.integer 0, t.affinityAt p, t.collationAt p⟩)

/-- The conjuncts that are settled before rows are read, or those that are not. -/
def conjunctsWhere (t : Table) (ks : List Conjunct) (settled : Bool) : List Conjunct :=
  ks.zipIdx.filterMap fun (k, i) =>
    if (Plan.factOf t (Plan.anchors t ks) i k).settled == settled then some k else none

/-- What is asked of a table by a filter, for some columns. -/
def question (t : Table) (ks : List Conjunct) (columns : List Nat) : Question :=
  let anchors := Plan.anchors t ks
  let facts := ks.zipIdx.map fun (k, i) => Plan.factOf t anchors i k
  let mentioned := ks.flatMap fun
    | .one c => [c]
    | .any cs => cs
  let places := (mentioned.filterMap fun c => t.place? c.column) ++ (t.place? "rowid").toList
  let wanted := columns ++ places.filterMap fun
    | .column i => some i
    | .number => none
  let computed := wanted.any fun i => (t.columns[i]?).any (·.generated.isSome)
  { table := t
    indexes := Plan.indexesOf t
    facts
    hints := Plan.hints t ks
    wanted := if computed then List.range t.columns.length else wanted
    order := t.place? "rowid" }

/-! ## Rows in an order -/

/-- Puts a row in front of the first one that it comes before or ties with. -/
def putInto (comesFirst : Row → Row → Bool) (r : Row) : List Row → List Row
  | [] => [r]
  | s :: rows => if comesFirst r s then r :: s :: rows else s :: putInto comesFirst r rows

/-- Rows in an order. Those that tie stay as they are. -/
def ordered (comesFirst : Row → Row → Bool) (rows : List Row) : List Row :=
  rows.foldr (putInto comesFirst) []

theorem putInto_perm (comesFirst : Row → Row → Bool) (r : Row) (rows : List Row) :
    (putInto comesFirst r rows).Perm (r :: rows) := by
  induction rows with
  | nil => exact .refl _
  | cons s rows ih =>
    unfold putInto
    split
    · exact .refl _
    · exact (ih.cons s).trans (.swap r s rows)

theorem ordered_perm (comesFirst : Row → Row → Bool) (rows : List Row) :
    (ordered comesFirst rows).Perm rows := by
  induction rows with
  | nil => exact .refl _
  | cons r rows ih => exact (putInto_perm comesFirst r _).trans (ih.cons r)

/-! ## Rows in the order of a plan -/

/-- Whether a row is among those that a hint leads to. -/
def meets (t : Table) (r : Row) (h : Hint) : Bool :=
  match h.condition.truth (t.scope r) with
  | .ok b => b = some true
  | .error _ => false

/-- Whether a row comes before another in an index, or ties with it. -/
def comesFirst (t : Table) (ix : Plan.Index) (r s : Row) : Bool :=
  let order := ix.key.parts.foldl
    (fun (o : Ordering) (c, collation) =>
      o.then ((t.cell r c).compareBy collation (t.cell s c))) .eq
  order.then (Ord.compare r.number s.number) != .gt

/-- The rows that a route leads to, in the order in which it does. -/
def rowsOf (q : Question) (r : Route) : List Row :=
  let hints := r.used.filterMap fun u => q.hints[u]?
  let found := q.table.rows.filter fun row => hints.all (q.table.meets row)
  match r.source with
  | .rows | .union => found
  | .index _ => ordered (q.table.comesFirst (q.index r.source)) found

/-- Whether a route's hints say all that a conjunct says. -/
def isSaid (q : Question) (r : Route) (i : Nat) : Bool :=
  let own := q.hints.zipIdx.filter fun (h, _) => h.conjunct == some i
  !own.isEmpty && own.all fun (_, u) => r.used.contains u

/-- The conjuncts that are left to be tried in each row: those that an index says
all about before the others. -/
def remaining (q : Question) (r : Route) (ks : List Conjunct) : List Conjunct :=
  let left := (ks.zip q.facts).zipIdx.filterMap fun ((k, f), i) =>
    if f.settled || isSaid q r i then none else some (k, f)
  match r.source with
  | .rows => left.map (·.1)
  | .union => []
  | .index _ =>
    let isCovered (f : Fact) : Bool := f.places.all (q.index r.source).holds
    (left.filter fun e => isCovered e.2).map (·.1) ++
      (left.filter fun e => !isCovered e.2).map (·.1)

/-- The rows for which all conjuncts are true. -/
def sift (t : Table) (ks : List Conjunct) : List Row → Except Refusal (List Row)
  | [] => .ok []
  | r :: rs => do
    if ← holdsAll (t.scope r) ks then return r :: (← sift t ks rs) else sift t ks rs

/-- The rows that each of some conditions finds, without those that one before
it found. -/
def unionRows (q : Question) (cs : List Term) : Except Refusal (List Row) :=
  cs.foldlM
    (fun rows c => do
      let sub := Plan.subQuestion q c
      let route := Plan.subRoute q c
      let found ← q.table.sift (remaining sub route [.one c]) (rowsOf sub route)
      return rows ++ found.filter fun row => rows.all (·.number != row.number)) []

/-! ## Pages -/

/-- The rows for which all conjuncts are true, at most `limit` of them after
`offset`, up to a refusal. -/
def scan (t : Table) (ks : List Conjunct) : Nat → Nat → List Row → List Row × Option Refusal
  | _, _, [] => ([], none)
  | 0, _, _ :: _ => ([], none)
  | limit + 1, offset, r :: rs =>
    match holdsAll (t.scope r) ks with
    | .error e => ([], some e)
    | .ok false => scan t ks (limit + 1) offset rs
    | .ok true =>
      match offset with
      | 0 =>
        let (found, stop) := scan t ks limit 0 rs
        (r :: found, stop)
      | offset + 1 => scan t ks (limit + 1) offset rs

theorem length_scan_le (t : Table) (ks : List Conjunct) (limit offset : Nat)
    (rows : List Row) : (t.scan ks limit offset rows).1.length ≤ limit := by
  induction rows generalizing limit offset with
  | nil => cases limit <;> simp [scan]
  | cons r rest ih =>
    cases limit with
    | zero => simp [scan]
    | succ limit =>
      unfold scan
      split
      · simp
      · exact ih _ _
      · split
        · simpa using ih limit 0
        · exact ih _ _

/-- Rows in the order of what `rowid` means: their numbers, unless a column has
taken that name. Those that tie stay as they are. -/
def inOrder (t : Table) (rows : List Row) : List Row :=
  rows |> ordered fun a b =>
    (t.cell a "rowid").compareBy (t.collation "rowid") (t.cell b "rowid") != .gt

/-- A page of the rows for which the conjuncts that are not settled are true, as a
plan leads to them; some of their columns are asked for. Where it does not lead to
them in order, all are read before the page is cut. -/
def plannedPage (t : Table) (ks : List Conjunct) (columns : List Nat) (limit offset : Nat) :
    List Row × Option Refusal :=
  let q := t.question ks columns
  let route := Plan.route q columns.length ks
  if q.inOrder route then t.scan (remaining q route ks) limit offset (rowsOf q route)
  else
    let found := match route.source, ks with
      | .union, .any cs :: _ => unionRows q cs
      | _, _ => t.sift (remaining q route ks) (rowsOf q route)
    match found with
    | .error e => ([], some e)
    | .ok rows => (((t.inOrder rows).drop offset).take limit, none)

/-- A page of the selected rows, of which some columns are asked for, in the order
of what `rowid` means. If that is the number of a row and no condition refuses
any, all plans lead to the same page. -/
def page (t : Table) (k : Clause) (columns : List Nat) (limit offset : Nat) :
    List Row × Option Refusal :=
  if limit = 0 then ([], none)
  else
    let ks := k.conjuncts
    match holdsAll (t.settledScope (Plan.anchors t ks)) (t.conjunctsWhere ks true) with
    | .error e => ([], some e)
    | .ok false => ([], none)
    | .ok true =>
      if t.meansNumber "rowid" && refusesNone k then
        t.scan (t.conjunctsWhere ks false) limit offset t.rows
      else t.plannedPage ks columns limit offset

end LiveRecords.Table
