import LiveRecords.Table.Basic
import LiveRecords.Table.Plan.Stem

/-!
# What a filter says about columns

A filter is a list of conjuncts: conditions, or one choice between conditions.
For each is told which columns it looks at, whether it is settled before any row
is read, and which hints it gives: bounds on one column that an index on that
column can use. A conjunct that its hints say in full need not be tried again.
-/

namespace LiveRecords.Table.Plan

/-- One of the conditions that must all hold. -/
inductive Conjunct where
  | one (c : Term)
  | any (cs : List Term)
  deriving DecidableEq

end LiveRecords.Table.Plan

namespace LiveRecords.Clause

open Table.Plan (Conjunct)

def conjuncts (k : Clause) : List Conjunct :=
  match k.join, k.terms with
  | .any, c :: d :: cs => [.any (c :: d :: cs)]
  | _, cs => cs.map .one

end LiveRecords.Clause

namespace LiveRecords.Table

/-- What a word in a condition refers to: nothing in a row, the row number, or
the column of an index. -/
inductive Place where
  | number
  | column (index : Nat)
  deriving DecidableEq, Repr

/-- The place a word means, unless it is a constant. -/
def place? (t : Table) (name : String) : Option Place :=
  if (Expression.clock? name).isSome then none
  else match t.columnIndex? name with
    | some i => some (.column i)
    | none => if isRowNumberName name then some .number else none

def columnAt? (t : Table) : Place → Option Column
  | .number => none
  | .column i => t.columns[i]?

def affinityAt (t : Table) (p : Place) : Affinity :=
  ((t.columnAt? p).map (·.affinity)).getD .integer

def collationAt (t : Table) (p : Place) : Collation :=
  ((t.columnAt? p).map (·.collation)).getD .binary

/-- Whether nulls can stand at a place. -/
def isNullable (t : Table) (p : Place) : Bool :=
  (t.columnAt? p).any fun c => c.notNull.isNone

namespace Plan

/-- A bound on a column. -/
inductive Bound where
  | equal
  | null
  /-- Equal to one of some values. -/
  | among (count : Nat)
  | above
  /-- Above null, that is, not null. -/
  | present
  | below
  /-- Starting with some text. This bound and the next one come as a pair. -/
  | stem
  | stemEnd
  deriving DecidableEq, Repr

/-- A bound, with the part of the filter that says it. -/
structure Hint where
  /-- The conjunct of which the bound is all or a part. -/
  conjunct : Option Nat
  place : Place
  /-- The collation that the bound counts under. -/
  collation : Collation
  bound : Bound
  /-- Says the same as the bound. -/
  condition : Expression
  /-- Whether the bound is all that the conjunct says. -/
  whole : Bool
  deriving DecidableEq

/-! ## Constants -/

/-- Whether a condition is about nothing that a row holds, or asks for a null
where none can be. -/
def isConstant (t : Table) (c : Term) : Bool :=
  match t.place? c.column, c with
  | none, _ => true
  | some p, .isNull _ | some p, .isNotNull _ => !t.isNullable p
  | some _, _ => false

/-- A place that a conjunct holds at one value, with that value. -/
structure Anchor where
  conjunct : Nat
  place : Place
  value : Cell
  deriving DecidableEq

/-- The anchors among conjuncts, the last before the others; of two at one place
only the last counts. -/
def anchors (t : Table) (ks : List Conjunct) : List Anchor :=
  (ks.zipIdx.reverse).foldl
    (fun found (k, i) =>
      match k with
      | .one (.compare c .equals _ v) =>
        match t.place? c with
        | some p =>
          if t.collationAt p == .binary && !found.any (·.place == p) then
            found ++ [⟨i, p, (t.affinityAt p).store (.ofValue v)⟩]
          else found
        | none => found
      | _ => found) []

/-- Whether two cells are compared, in order or for being equal. -/
def isComparison : Term → Bool
  | .compare _ op _ _ => op != .like && op != .notEquals
  | _ => false

/-- The anchor that holds the column of a condition at a value. Where a column
without affinity is held, only comparisons are. -/
def anchorOf? (t : Table) (as : List Anchor) (i : Nat) (c : Term) : Option Anchor :=
  (t.place? c.column).bind fun p =>
    (as.find? fun a => a.place == p && a.conjunct != i).filter fun _ =>
      t.affinityAt p != .none || isComparison c

/-- What names mean where columns are held at values. -/
def anchoredScope (t : Table) (as : List Anchor) : Scope := fun name =>
  (t.place? name).bind fun p => (as.find? (·.place == p)).map fun a =>
    ⟨a.value, t.affinityAt p, t.collationAt p⟩

/-! ## Facts -/

/-- What is known of a conjunct before rows are read. -/
structure Fact where
  /-- Where it looks in a row. -/
  places : List Place
  /-- Its truth is known then. -/
  settled : Bool := false
  /-- It holds a column at a value. -/
  equates : Bool := false
  deriving DecidableEq

/-- The hints that a pattern gives: texts that match start with its stem. -/
def stemHints (t : Table) (i : Nat) (p : Place) (c : Term) (pattern : Value) : List Hint :=
  match Stem.ofPattern? (t.affinityAt p) pattern with
  | none => []
  | some stem =>
    let condition := stem.condition (.ofWord c.column) (Expression.ofTerm c)
    let conjunct := if stem.isAll then some i else none
    [⟨conjunct, p, .noCase, .stem, condition, false⟩,
      ⟨conjunct, p, .noCase, .stemEnd, condition, false⟩]

/-- The hints that one condition gives. -/
def hintsOf (t : Table) (i : Nat) (c : Term) : List Hint :=
  match t.place? c.column with
  | none => []
  | some p =>
    let hint (b : Bound) (c : Term) (whole : Bool) : Hint :=
      ⟨some i, p, t.collationAt p, b, Expression.ofTerm c, whole⟩
    match c with
    | .compare _ op _ v =>
      match op with
      | .equals => [hint .equal c true]
      | .greaterThan | .greaterOrEqual => [hint .above c true]
      | .lessThan | .lessOrEqual => [hint .below c true]
      | .notEquals => []
      | .like => stemHints t i p c v
    | .between n lp lo hp hi =>
      [hint .above (.compare n .greaterOrEqual lp lo) false,
        hint .below (.compare n .lessOrEqual hp hi) false]
    | .isNull _ => if t.isNullable p then [hint .null c true] else []
    | .isNotNull _ => if t.isNullable p then [hint .present c false] else []

/-- The one place that conditions all hold at a value each. -/
def sharedPlace? (t : Table) (cs : List Term) : Option Place :=
  let places := cs.map fun c =>
    match c with
    | .compare n .equals _ _ => t.place? n
    | _ => none
  match places with
  | p :: ps => if ps.all (· == p) then p else none
  | [] => none

/-- The hints of a conjunct. -/
def hintsOfConjunct (t : Table) (i : Nat) : Conjunct → List Hint
  | .one c => hintsOf t i c
  | .any cs =>
    match sharedPlace? t cs with
    | some p =>
      let condition := cs.foldl (fun e c => .binary .or e (Expression.ofTerm c)) (.ofBool false)
      [⟨some i, p, t.collationAt p, .among cs.length, condition, false⟩]
    | none => []

/-- Where a condition looks in a row. -/
def placesOf (t : Table) (c : Term) : List Place :=
  if isConstant t c then [] else (t.place? c.column).toList

def factOf (t : Table) (as : List Anchor) (i : Nat) : Conjunct → Fact
  | .one c =>
    { places := placesOf t c
      settled := isConstant t c || (anchorOf? t as i c).isSome
      equates := match c with
        | .compare _ .equals _ _ => (t.place? c.column).isSome
        | _ => false }
  | .any cs =>
    { places := cs.flatMap (placesOf t)
      settled := cs.all (isConstant t) }

/-- The hints of all conjuncts: first those that are all a conjunct says, then
the others, the last conjunct's before those of the ones before it. -/
def hints (t : Table) (ks : List Conjunct) : List Hint :=
  let byConjunct := ks.zipIdx.map fun (k, i) => hintsOfConjunct t i k
  byConjunct.flatMap (·.filter (·.whole)) ++
    byConjunct.reverse.flatMap (·.filter fun h => !h.whole)

end Plan

end LiveRecords.Table
