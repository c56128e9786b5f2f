import LiveRecords.Link
import LiveRecords.Role

/-!
# Windows

A window is the part of a selection whose keys have been read so far. It grows
at its lower end, page by page, until the selection is exhausted. A page that
cannot be read leaves the window as it was.
-/

namespace LiveRecords

inductive ViewEvent where
  /-- Rows from `first` up to but not including `last` came into view. -/
  | rowsInserted (first last : Nat)
  | dataChanged (row : Nat) (role : Role)
  | stagingChanged
  | reset
  deriving DecidableEq

structure Window where
  filter : Filter
  fetchSize : Nat
  keys : List RecordId := []
  bottom : Nat := 0
  atEnd : Bool := false
  deriving DecidableEq

namespace Window

/-- The largest number of rows that can be asked for. -/
def maxCount : Nat := 0xFFFFFFFFFFFFFFFF

/-- The row to which the next page reaches. -/
def nextTarget (w : Window) : Nat := min (w.bottom + w.fetchSize) maxCount

/-- Reads keys until `count` are known or there are no more. -/
def seek (s : Schema) (count : Nat) (w : Window) (l : Link) :
    Except StoreError (List RecordId) × Link :=
  if count ≤ w.keys.length then (.ok w.keys, l)
  else
    match l.selectKeys s w.filter w.keys.length (count - w.keys.length) with
    | (.ok page, l) => (.ok (w.keys ++ page), l)
    | (.error e, l) => (.error e, l)

/-- The window with these keys, of which `count` were asked for. -/
def extend (w : Window) (count : Nat) (keys : List RecordId) : Window :=
  { w with
    keys
    bottom := max w.bottom (min count keys.length)
    atEnd := decide (keys.length < count) }

/-- The event for rows that came in since `before`. -/
def growth (before after : Window) : List ViewEvent :=
  if before.bottom < after.bottom then [.rowsInserted before.bottom after.bottom] else []

/-- Lets the window reach down to a row, unless it is there or at the end. -/
def prefetch (s : Schema) (count : Nat) (w : Window) (l : Link) :
    (Except StoreError (List ViewEvent) × Window) × Link :=
  if w.atEnd || count ≤ w.bottom then ((.ok [], w), l)
  else
    match w.seek s count l with
    | (.error e, l) => ((.error e, w), l)
    | (.ok keys, l) => ((.ok (growth w (w.extend count keys)), w.extend count keys), l)

/-- The key of a row in view. -/
def key? (w : Window) (row : Nat) : Option RecordId :=
  if row < w.bottom then w.keys[row]? else none

/-- The window before anything was read. -/
def cleared (w : Window) : Window := { w with keys := [], bottom := 0, atEnd := false }

theorem prefetch_atEnd {w : Window} (h : w.atEnd = true) (s : Schema) (count : Nat) (l : Link) :
    w.prefetch s count l = ((.ok [], w), l) := by
  simp [prefetch, h]

theorem prefetch_of_le {w : Window} {count : Nat} (h : count ≤ w.bottom) (s : Schema) (l : Link) :
    w.prefetch s count l = ((.ok [], w), l) := by
  simp [prefetch, h]

end Window

end LiveRecords
