import LiveRecords.Table.Constraint
import LiveRecords.Table.Plan.Hint
import LiveRecords.Table.Plan.Magnitude

/-!
# Ways to the rows

Rows are found by their numbers, through the index of a key, or through several
indexes, one for each condition of a choice. A route may use hints: some hold
the first columns of an index at a value, and one or two more bound the next
column. Its cost and the number of rows it gives are guessed from the hints
alone; every table counts as having a million rows.
-/

namespace LiveRecords.Table.Plan

open Magnitude (sum ofCount)

/-- The key of a table as an order of its rows. -/
structure Index where
  key : UniqueKey
  /-- The columns of the key, and the row number. -/
  parts : List (Place × Collation)
  /-- The magnitude of an entry's size. -/
  size : Magnitude

inductive Source where
  /-- The rows by their numbers. -/
  | rows
  /-- The rows by the index that comes at this place. -/
  | index (i : Nat)
  /-- For each condition of a choice the rows it finds. -/
  | union
  deriving DecidableEq, Repr

structure Route where
  source : Source
  /-- The hints that hold the first columns at a value. -/
  held : List Nat := []
  low : Option Nat := none
  high : Option Nat := none
  /-- The index holds all that is asked for. -/
  covering : Bool := false
  /-- There is at most one row. -/
  single : Bool := false
  /-- Routes of one group compete, those of different groups do not. -/
  group : Nat := 0
  cost : Magnitude := 0
  count : Magnitude := 0
  deriving DecidableEq, Repr

namespace Route

/-- The hints a route uses. -/
def used (r : Route) : List Nat := r.held ++ r.low.toList ++ r.high.toList

end Route

/-- What a plan is made for. -/
structure Question where
  table : Table
  indexes : List Index
  facts : List Fact
  hints : List Hint
  /-- The columns that are asked for or looked at. -/
  wanted : List Nat
  /-- What the rows are put in order of, if of anything. -/
  order : Option Place

/-- The magnitude of the number of rows of any table. -/
def million : Magnitude := 200

/-- The size of entries with some columns and a row number. -/
def sizeOf (t : Table) (columns : List Nat) : Magnitude :=
  ofCount (4 * columns.foldl (fun n i => n + (t.columns[i]?).elim 1 (·.width)) 1)

def rowSize (t : Table) : Magnitude := sizeOf t (List.range t.columns.length)

/-- The indexes of a table, the latest first. -/
def indexesOf (t : Table) : List Index :=
  t.keysInOrder.map fun k =>
    let columns := k.parts.filterMap fun (c, collation) =>
      (t.columnIndex? c).map fun i => (i, collation)
    { key := k
      parts := columns.map (fun (i, collation) => (.column i, collation)) ++ [(.number, .binary)]
      size := sizeOf t (columns.map (·.1)) }

namespace Index

/-- The number of columns of the key. -/
def width (ix : Index) : Nat := ix.parts.length - 1

/-- How many rows agree in the first `n` columns of the key. -/
def estimate (ix : Index) (n : Nat) : Magnitude :=
  if n = 0 then million
  else if ix.width ≤ n then 0
  else [33, 32, 30, 28, 26].getD (n - 1) 23

def holds (ix : Index) (p : Place) : Bool := ix.parts.any (·.1 == p)

/-- Whether the index holds all columns in question. -/
def covers (ix : Index) (columns : List Nat) : Bool :=
  columns.all fun i => ix.holds (.column i)

end Index

/-- The rows by their numbers, as an index. -/
def numbers : Index := { key := { parts := [] }, parts := [(.number, .binary)], size := 3 }

/-- Whether a hint bears on a part of an index: nulls and row numbers are the
same under all collations. -/
def Hint.bears (h : Hint) (part : Place × Collation) : Bool :=
  h.place == part.1 && (h.bound == .null || part.1 == .number || part.2 == h.collation)

namespace Question

def index (q : Question) (s : Source) : Index :=
  match s with
  | .rows | .union => numbers
  | .index i => q.indexes.getD i numbers

/-- The hints on a part of an index, with their positions. -/
def hintsOn (q : Question) (part : Place × Collation) : List (Hint × Nat) :=
  q.hints.zipIdx.filter fun (h, _) => h.bears part

/-- Fewer rows than the hints of a route let through are guessed to pass the
conjuncts that it does not use. -/
def sifted (q : Question) (used : List Nat) (count : Magnitude) : Magnitude :=
  let seen (i : Nat) : Bool := used.any fun u => (q.hints[u]?).any fun h => h.conjunct == some i
  let rest := (q.facts.zipIdx.filter fun (f, i) => !f.settled && !seen i).map (·.1)
  let most := million - if rest.any (·.equates) then 20 else 0
  min (count - rest.length) most

/-- The number of rows between bounds. -/
def between (q : Question) (low high : Option Nat) (count : Magnitude) : Magnitude :=
  let isPresent (u : Nat) : Bool := (q.hints[u]?).any fun h => h.bound == .present
  let given (b : Bool) (m : Magnitude) : Magnitude := if b then m else 0
  let narrowed := count - given (low.any fun u => !isPresent u) 20 - given high.isSome 20 -
    given (low.isSome && high.isSome) 20
  min (max narrowed 10) (count - given low.isSome 1 - given high.isSome 1)

/-- The work of visiting some entries of an index. -/
def visitCost (q : Question) (s : Source) (count : Magnitude) : Magnitude :=
  match s with
  | .rows | .union => count + 16
  | .index _ => count + 1 + (15 * (q.index s).size) / rowSize q.table

/-- The route with its guesses: it visits as many entries, once for each of some
values. -/
def weigh (q : Question) (r : Route) (count times : Magnitude) : Route :=
  let found := sum (Magnitude.halvings million) (q.visitCost r.source count)
  let cost := if r.covering || r.source == .rows then found else sum found (count + 16)
  { r with cost := cost + times, count := q.sifted r.used (count + times) }

/-- Whether a hint that holds a column leaves one row. -/
def isSingle (q : Question) (ix : Index) (part : Place) (position : Nat) (times : Magnitude) :
    Bool :=
  part == .number ||
    (times == 0 && position + 1 == ix.width &&
      (ix.width == 1 || ix.parts.all fun (p, _) => !q.table.isNullable p))

/-- Whether a route may use hints on a further column of its index. -/
def isOpen (ix : Index) (r : Route) : Bool :=
  r.high.isNone && r.held.length < ix.parts.length &&
    (r.held.length < ix.width || !ix.key.alike .primary)

/-- All routes that go on from one by further hints on its index. It leads to
`count` entries, once for each of as many values as `times` says. -/
def extend (q : Question) (ix : Index) : Nat → Route → Magnitude → Magnitude → List Route
  | 0, _, _, _ => []
  | fuel + 1, r, count, times =>
    match ix.parts[r.held.length]? with
    | none => []
    | some part =>
      let fewer := count + ix.estimate (r.held.length + 1) - ix.estimate r.held.length
      let goOn (longer : Route) (entries values : Magnitude) : List Route :=
        if isOpen ix longer then q.extend ix fuel longer entries values else []
      let hold (u : Nat) (entries more : Magnitude) (single : Bool) : List Route :=
        let longer := { r with held := r.held ++ [u], single := r.single || single }
        q.weigh longer entries (times + more) :: goOn longer entries (times + more)
      let bound (low high : Option Nat) : Route :=
        q.weigh { r with low, high } (q.between low high count) times
      (q.hintsOn part).flatMap fun (h, u) =>
        if r.low.isSome && h.bound != .below then []
        else match h.bound with
          | .equal => hold u fewer 0 (q.isSingle ix part.1 r.held.length times)
          | .null => hold u (fewer + 10) 0 false
          | .among n => hold u fewer (ofCount n) false
          | .above | .present =>
            bound (some u) none :: goOn { r with low := some u, high := none } count times
          | .below => [bound r.low (some u)]
          | .stem => [bound (some u) (some (u + 1))]
          | .stemEnd => []

/-- Whether the rows come in an order that helps with the one asked for. -/
def helps (q : Question) (ix : Index) : Bool :=
  match q.order with
  | none => false
  | some .number => true
  | some p => (ix.parts.take ix.width).any fun part => part.1 == p

/-- How much is saved of looking rows up, for the first conjuncts that an index
says all about. -/
def saved (ix : Index) : List (List Place × Bool) → Magnitude
  | [] => 0
  | (places, equates) :: rest =>
    if places.all ix.holds then (if equates then 20 else 1) + saved ix rest else 0

/-- Every row through an index, if that may be worth it. -/
def scanIndex (q : Question) (r : Route) (ix : Index) (helps : Bool) : List Route :=
  if helps || (r.covering && ix.size < rowSize q.table) then
    let visit := q.visitCost r.source million
    let all := q.facts.map (fun f => (f.places, f.equates)) ++
      q.hints.filterMap fun h =>
        if h.whole then none else some ([h.place], false)
    let cost := if r.covering then visit else sum visit (million + 16 - saved ix all)
    [{ r with cost, count := q.sifted [] million }]
  else []

/-- The routes by the numbers of rows and by each index. -/
def routes (q : Question) : List Route :=
  let group (helps : Bool) (n : Nat) : Nat := if helps then n else 0
  let rows : Route := { source := .rows, group := group (q.order == some .number) 1 }
  let byNumber := { rows with cost := million + 16, count := q.sifted [] million } ::
    q.extend numbers 4 rows million 0
  byNumber ++ q.indexes.zipIdx.flatMap fun (ix, i) =>
    let helps := q.helps ix
    let r : Route :=
      { source := .index i, covering := ix.covers q.wanted, group := group helps (i + 2) }
    q.scanIndex r ix helps ++ q.extend ix (2 * ix.parts.length + 2) r million 0

end Question

end LiveRecords.Table.Plan
