import LiveRecords.Table.Plan.Route

/-!
# Plans

How the rows that a filter selects are reached, and in which order they come.
The plan decides in which order rows that tie come out, and which rows are
looked at so closely that a condition can refuse them. The cheapest route wins;
sorting has its price, so that a route in the order asked for may win over one
that costs less.
-/

namespace LiveRecords.Table.Plan

open Magnitude (sum ofCount)

namespace Route

def usesIndex (r : Route) : Bool :=
  match r.source with
  | .index _ => true
  | _ => false

/-- Whether a route uses fewer of the same hints than another, for no more cost
or no more rows. -/
def isPart (r s : Route) : Bool :=
  !(s.cost < r.cost && s.count < r.count) && r.used.length < s.used.length &&
    r.used.all s.used.contains && (!r.covering || s.covering)

/-- Using more hints of an index must not seem to cost more or to give more. -/
def reconciled (routes : List Route) (r : Route) : Route :=
  if !r.usesIndex then r
  else (routes.filter usesIndex).foldl
    (fun r p =>
      if p.isPart r then { r with cost := min p.cost r.cost, count := min (p.count - 1) r.count }
      else if r.isPart p then
        { r with cost := max p.cost r.cost, count := max (p.count + 1) r.count }
      else r) r

/-- Whether a route makes another of its group needless. -/
def beats (r s : Route) : Bool :=
  r.group == s.group && r.cost ≤ s.cost && r.count ≤ s.count

/-- Puts a route in place of the first that it makes needless, and drops the
others; unless one makes it needless that comes before all of them. -/
def insert (r : Route) : List Route → List Route
  | [] => [r]
  | p :: ps =>
    if p.beats r then p :: ps
    else if r.beats p then r :: dropBeaten r ps
    else p :: insert r ps
where
  dropBeaten (r : Route) : List Route → List Route
    | [] => []
    | p :: ps =>
      if p.beats r then p :: ps
      else if r.beats p then dropBeaten r ps
      else p :: dropBeaten r ps

def gather (routes : List Route) : List Route :=
  routes.foldl (fun kept r => (reconciled kept r).insert kept) []

end Route

namespace Question

/-! ## Order -/

/-- Whether the parts of an index that a route does not hold start with what the
rows are put in order of. `distinct` tells whether the held parts leave no two
rows. -/
def isInOrder (q : Question) (ix : Index) (p : Place) :
    Bool → Nat → List (Hint × (Place × Collation)) → List (Place × Collation) → Bool
  | distinct, held, (h, part) :: hs, parts =>
    match h.bound with
    | .equal => isInOrder q ix p distinct (held + 1) hs parts
    | .null => isInOrder q ix p false (held + 1) hs parts
    | _ =>
      part.1 == p || (distinct && held != 0 && ix.width ≤ held)
  | distinct, held, [], part :: _ =>
    (part.1 == p && (p == .number || part.2 == q.table.collationAt p)) ||
      (distinct && held != 0 && ix.width ≤ held)
  | distinct, _, [], [] => distinct

/-- Whether a conjunct holds the place at a value. -/
def isHeld (q : Question) (p : Place) : Bool :=
  q.hints.any fun h => h.place == p && (h.bound == .equal || h.bound == .null)

/-- Whether the rows of a route come in the order that is asked for. -/
def inOrder (q : Question) (r : Route) : Bool :=
  match q.order with
  | none => true
  | some p =>
    q.isHeld p || r.single ||
      match r.source with
      | .rows => p == .number
      | .union => false
      | .index _ =>
        let ix := q.index r.source
        let held := (r.held.filterMap fun u => q.hints[u]?).zip ix.parts
        q.isInOrder ix p true 0 held (ix.parts.drop r.held.length)

/-- The work of putting some rows in order. -/
def sortCost (columns : Nat) (count : Magnitude) : Magnitude :=
  count + ofCount ((columns + 59) / 30) + Magnitude.halvings count

/-! ## Choice -/

/-- The first route with the least price, of those with the same the one with
fewer rows. -/
def cheapest (price : Route → Magnitude × Magnitude × Magnitude) : List Route → Option Route
  | [] => none
  | r :: rs =>
    some (rs.foldl (fun best r =>
      let (a, b, c) := price r
      let (x, y, z) := price best
      if a < x || (a == x && (b < y || (b == y && c < z))) then r else best) r)

/-- The best route where the order does not count. -/
def firstChoice (routes : List Route) : Option Route :=
  cheapest (fun r => (sum r.cost 0, r.count, 0)) routes

/-- The best route, where what comes in another order than the one asked for must
be sorted. -/
def choice (q : Question) (columns : Nat) (routes : List Route) : Option Route :=
  if q.order.isNone then firstChoice routes
  else
    (firstChoice routes).bind fun first =>
      let rows := if first.count < 0 then 1 else first.count + 1
      let price (r : Route) : Magnitude × Magnitude × Magnitude :=
        let plain := sum r.cost 0
        if q.inOrder r then (plain, r.count, plain - 2)
        else (sum plain (sortCost columns rows) + 3, r.count, plain)
      cheapest price routes

/-- A row or none is found at once by its number or a key that is held. -/
def shortCut? (q : Question) : Option Route :=
  let equal (part : Place × Collation) : Option Nat :=
    (q.hints.zipIdx.find? fun (h, _) => h.bound == .equal && h.bears part).map (·.2)
  match equal (.number, .binary) with
  | some u => some { source := .rows, held := [u], single := true }
  | none =>
    q.indexes.zipIdx.findSome? fun (ix, i) =>
      ((ix.parts.take ix.width).mapM equal).map fun held =>
        { source := .index i, held, covering := ix.covers q.wanted, single := true }

end Question

/-! ## Choices between conditions -/

/-- A question about the rows that one condition of a choice finds. -/
def subQuestion (q : Question) (c : Term) : Question :=
  { q with
    facts := [factOf q.table [] 0 (.one c)]
    hints := hints q.table [.one c]
    order := none }

/-- The least work for the rows that one condition finds by hints, and how many
there are. -/
def leastCost (routes : List Route) : Option (Magnitude × Magnitude) :=
  (routes.filter (!·.used.isEmpty)).foldl
    (fun least r =>
      match least with
      | none => some (r.cost, r.count)
      | some (cost, count) =>
        if r.cost ≤ cost then some (r.cost, min count r.count) else least) none

/-- The route by several indexes, if each condition can use one. -/
def unionRoute? (q : Question) (cs : List Term) : Option Route := do
  let parts ← cs.mapM fun c =>
    if (hintsOf q.table 0 c).isEmpty then none else leastCost (subQuestion q c).routes
  match parts with
  | [] => none
  | p :: ps =>
    let (cost, count) := ps.foldl (fun a b => (sum a.1 b.1, sum a.2 b.2)) p
    return { source := .union, cost := cost + 1, count }

/-- The route to the rows that one condition of a choice finds. -/
def subRoute (q : Question) (c : Term) : Route :=
  let q := subQuestion q c
  (Question.firstChoice (Route.gather q.routes)).getD { source := .rows }

/-- The route to the rows that conjuncts select. -/
def route (q : Question) (columns : Nat) (ks : List Conjunct) : Route :=
  match q.shortCut? with
  | some r => r
  | none =>
    let unions := ks.filterMap fun
      | .any cs => unionRoute? q cs
      | .one _ => none
    (q.choice columns (Route.gather (q.routes ++ unions))).getD { source := .rows }

end LiveRecords.Table.Plan
