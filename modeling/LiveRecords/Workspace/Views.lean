import LiveRecords.Workspace.Registry

/-!
# Views at work

A view reads keys page by page and resolves a row when it is first asked for.
It keeps the records of resolved rows, one child view for each parent asked
about, and at most one new record that is not stored yet.
-/

namespace LiveRecords

/-- What a view shows of a row under a role. -/
inductive RoleValue where
  | value (v : Value)
  | children (view : ViewRef)
  | record (r : RecordRef)
  deriving DecidableEq

/-- The view as diagnostics show it. -/
def View.describe (v : View) (table : String) : String :=
  "CursorPaginatedView \x7b table: " ++ Text.quoted table ++ ", parent: " ++
    (v.parent.elim "None" fun id => "Some(" ++ id.describe ++ ")") ++
    ", bottom: " ++ toString v.window.bottom ++ ", at_end: " ++ toString v.window.atEnd ++ " \x7d"

namespace Workspace

/-- Lets a window reach down to a row, over the connection of an identity map. -/
def prefetchWindow (m : MapRef) (count : Nat) (window : Window) (w : Workspace) :
    (Except StoreError (List ViewEvent) × Window) × Workspace :=
  match w.maps[m]? with
  | none => ((.ok [], window), w)
  | some map => w.through map.connection (window.prefetch map.schema count)

/-- Lets the window of a view reach down to a row. -/
def prefetch (v : ViewRef) (count : Nat) (w : Workspace) : Except StoreError Unit × Workspace :=
  match w.views[v]? with
  | none => (.ok (), w)
  | some view =>
    let ((result, window), w) := w.prefetchWindow view.map count view.window
    let w := w.setView v fun view => { view with window }
    match result with
    | .error e => (.error e, w)
    | .ok events => (.ok (), events.foldl (announceView v) w)

/-- Reads one more page. -/
def fetchMore (v : ViewRef) (w : Workspace) : Except StoreError Unit × Workspace :=
  match w.views[v]? with
  | none => (.ok (), w)
  | some view => w.prefetch v view.window.nextTarget

/-- A new view, once its first page was read. -/
def addView (m : MapRef) (f : Filter) (parent : Option RecordId) (fetchSize : Nat)
    (w : Workspace) : Except StoreError ViewRef × Workspace :=
  if fetchSize = 0 then (.error (.invalidInput .fetchSize), w)
  else
    let ((result, window), w) :=
      w.prefetchWindow m fetchSize { filter := f, fetchSize }
    match result with
    | .error e => (.error e, w)
    | .ok _ => (.ok w.views.length, { w with views := w.views ++ [{ map := m, window, parent }] })

/-- A new view of the rows below a key. -/
def addChildView (m : MapRef) (parent : RecordId) (fetchSize : Nat) (w : Workspace) :
    Except StoreError ViewRef × Workspace :=
  match w.parentColumn m with
  | .error e => (.error e, w)
  | .ok column => w.addView m (childFilter column parent) (some parent) fetchSize

/-- Drops what was read and starts again with the first page. -/
def reset (v : ViewRef) (w : Workspace) : Except StoreError Unit × Workspace :=
  match w.views[v]? with
  | none => (.ok (), w)
  | some view =>
    let w := w.setView v fun view =>
      { view with window := view.window.cleared, rows := [], children := [] }
    (announceView v w .reset).prefetch v view.window.fetchSize

/-- The record for a key of a view: the registered one as it is, or else one
read from the store. -/
def recordFor (m : MapRef) (id : RecordId) (w : Workspace) :
    Except StoreError RecordRef × Workspace :=
  match w.registered? m id with
  | some r => (.ok r, w)
  | none =>
    match w.load m id with
    | (.error e, w) => (.error e, w)
    | (.ok (some r), w) => (.ok r, w)
    | (.ok none, w) =>
      (.error (.invalidRow ((w.maps[m]?).elim "" fun map => map.schema.table) .gone), w)

/-- The record of a row in view. -/
def recordAt (v : ViewRef) (row : Nat) (w : Workspace) : Except StoreError RecordRef × Workspace :=
  match w.views[v]? with
  | none => (.error (.rowOutOfRange row 0), w)
  | some view =>
    match view.window.key? row with
    | none => (.error (.rowOutOfRange row view.window.bottom), w)
    | some id =>
      match view.rows.lookup row with
      | some r => (.ok r, w)
      | none =>
        match w.recordFor view.map id with
        | (.error e, w) => (.error e, w)
        | (.ok r, w) => (.ok r, w.setView v fun view => { view with rows := (row, r) :: view.rows })

/-- The child view for a parent; it is made once. -/
def childView (v : ViewRef) (parent : RecordId) (w : Workspace) :
    Except StoreError ViewRef × Workspace :=
  match w.views[v]? with
  | none => (.ok v, w)
  | some view =>
    match view.children.lookup parent with
    | some child => (.ok child, w)
    | none =>
      match w.addChildView view.map parent view.window.fetchSize with
      | (.error e, w) => (.error e, w)
      | (.ok child, w) =>
        (.ok child, w.setView v fun view =>
          { view with children := (parent, child) :: view.children })

/-- The current value of a field of a record. -/
def valueOf (w : Workspace) (r : RecordRef) (field : String) : Except StoreError Value :=
  match w.records[r]? with
  | none => .ok .null
  | some i => i.record.get field

def keyOf (w : Workspace) (r : RecordRef) : Option RecordId := (w.records[r]?).map (·.record.id)

/-- What a view shows, as diagnostics show it. -/
def describeRole (w : Workspace) : RoleValue → String
  | .value v => "Value(" ++ v.describe ++ ")"
  | .children _ => "Children(..)"
  | .record r => "Record(" ++ ((w.keyOf r).elim "" RecordId.describe) ++ ")"

/-- What a view shows of a row. -/
def data (v : ViewRef) (row : Nat) (role : Role) (w : Workspace) :
    Except StoreError RoleValue × Workspace :=
  match w.recordAt v row with
  | (.error e, w) => (.error e, w)
  | (.ok r, w) =>
    match role with
    | .field name => (RoleValue.value <$> w.valueOf r name, w)
    | .record => (.ok (.record r), w)
    | .children =>
      match w.keyOf r with
      | none => (.ok (.record r), w)
      | some id =>
        let (result, w) := w.childView v id
        (RoleValue.children <$> result, w)

/-- Edits a field of a row; false when it holds that value already. -/
def setData (v : ViewRef) (row : Nat) (role : Role) (value : Value) (w : Workspace) :
    Except StoreError Bool × Workspace :=
  match role with
  | .children | .record => (.error (.invalidInput .readOnlyRole), w)
  | .field name =>
    match w.recordAt v row with
    | (.error e, w) => (.error e, w)
    | (.ok r, w) =>
      match w.run r (.set name value) with
      | (.error e, w) => (.error e, w)
      | (.ok (.flag true), w) => (.ok true, announceView v w (.dataChanged row role))
      | (.ok _, w) => (.ok false, w)

/-! ## Staging -/

/-- A new record in the staging place, below the parent of the view if it has
one. -/
def createStaging (v : ViewRef) (key : RecordId) (w : Workspace) : RecordRef × Workspace :=
  match w.views[v]? with
  | none => (w.records.length, w)
  | some view =>
    let (r, w) := w.register view.map key true
    let w :=
      match view.parent, w.records[r]? with
      | some parent, some i => w.carryOut r (i.record.setParent (some parent))
      | _, _ => w
    (r, announceView v (w.setView v fun view => { view with staging := some r }) .stagingChanged)

/-- Commits the staged record and reads the page that follows. -/
def commitStaging (v : ViewRef) (w : Workspace) :
    Except StoreError (Option RecordRef) × Workspace :=
  match (w.views[v]?).bind (·.staging) with
  | none => (.ok none, w)
  | some r =>
    match w.run r .commit with
    | (.error e, w) => (.error e, w)
    | (.ok _, w) =>
      let w := w.setView v fun view =>
        { view with staging := none, window := { view.window with atEnd := false } }
      match w.fetchMore v with
      | (.error e, w) => (.error e, w)
      | (.ok _, w) => (.ok (some r), announceView v w .stagingChanged)

/-- Empties the staging place. -/
def discardStaging (v : ViewRef) (w : Workspace) : Option RecordRef × Workspace :=
  match (w.views[v]?).bind (·.staging) with
  | none => (none, w)
  | some r =>
    (some r, announceView v (w.setView v fun view => { view with staging := none }) .stagingChanged)

end Workspace

end LiveRecords
