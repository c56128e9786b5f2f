import LiveRecords.Workspace.Delivery
import LiveRecords.Workspace.Reach

/-!
# Identity maps at work

For each key an identity map has at most one record in memory. Whoever asks for
a key gets that record; rows that are read are taken in by it. A record leaves
its identity map only when nothing else holds it, and then its entries with the
coordinator go and a staged deletion is carried out.
-/

namespace LiveRecords

/-- The identity map as diagnostics show it. -/
def IdentityMap.describe (m : IdentityMap) : String :=
  "IdentityMap \x7b table: " ++ Text.quoted m.schema.table ++ ", live: " ++
    toString m.registered.length ++ " \x7d"

namespace Workspace

/-- The record registered under a key. -/
def registered? (w : Workspace) (m : MapRef) (id : RecordId) : Option RecordRef :=
  (w.maps[m]?).bind fun map => map.registered.lookup id

/-- The record registered under a key; one with initial values is made if there
is none. -/
def register (m : MapRef) (id : RecordId) (isNew : Bool) (w : Workspace) : RecordRef × Workspace :=
  match w.maps[m]? with
  | none => (w.records.length, w)
  | some map =>
    match map.registered.lookup id with
    | some r => (r, w)
    | none =>
      let i : Instance := ⟨.initial id map.schema isNew, map.connection, map.hub, {}⟩
      let r := w.records.length
      let w := { w with records := w.records ++ [i] }.setMap m fun map =>
        { map with registered := map.registered ++ [(id, r)] }
      (r, w.report (.recordRegistered map.schema.table id isNew))

/-- The record of a stored row, which takes the row in. -/
def resolve (m : MapRef) (image : RowImage) (w : Workspace) : RecordRef × Workspace :=
  let (r, w) := w.register m image.id false
  match w.records[r]? with
  | none => (r, w)
  | some i => (r, w.carryOut r (i.record.hydrate image))

/-- The records of stored rows, one after another. -/
def resolveAll (m : MapRef) : List RowImage → Workspace → List RecordRef × Workspace
  | [], w => ([], w)
  | image :: images, w =>
    let (r, w) := w.resolve m image
    let (rs, w) := resolveAll m images w
    (r :: rs, w)

/-- Runs statements of the type of an identity map. -/
def onTable {α : Type} (w : Workspace) (m : MapRef)
    (f : Schema → Link → Except StoreError α × Link) (missing : α) :
    Except StoreError α × Workspace :=
  match w.maps[m]? with
  | none => (.ok missing, w)
  | some map => w.through map.connection (f map.schema)

/-- Reads the row with a key; none if there is no such row. -/
def load (m : MapRef) (id : RecordId) (w : Workspace) :
    Except StoreError (Option RecordRef) × Workspace :=
  match w.onTable m (fun s l => l.selectOne s id) none with
  | (.error e, w) => (.error e, w)
  | (.ok none, w) => (.ok none, w)
  | (.ok (some image), w) =>
    let (r, w) := w.resolve m image
    (.ok (some r), w)

/-- The records of all rows that a filter selects. -/
def find (m : MapRef) (f : Filter) (w : Workspace) :
    Except StoreError (List RecordRef) × Workspace :=
  match w.onTable m (fun s l => l.selectWhere s f) [] with
  | (.error e, w) => (.error e, w)
  | (.ok images, w) =>
    let (rs, w) := w.resolveAll m images
    (.ok rs, w)

/-- The column for parents, which a type need not have. -/
def parentColumn (w : Workspace) (m : MapRef) : Except StoreError String :=
  match w.maps[m]? with
  | none => .error (.noParentColumn "")
  | some map =>
    match map.schema.parentColumn with
    | some p => .ok p
    | none => .error (.noParentColumn map.schema.table)

/-- The filter that selects the rows below a key. -/
def childFilter (column : String) (parent : RecordId) : Filter :=
  .all [.equals column (.ofId parent)]

/-- The records of the rows below a key. -/
def children (m : MapRef) (parent : RecordId) (w : Workspace) :
    Except StoreError (List RecordRef) × Workspace :=
  match w.parentColumn m with
  | .error e => (.error e, w)
  | .ok column => w.find m (childFilter column parent)

/-- Stores a new parent for a record. -/
def setParent (m : MapRef) (child : RecordRef) (parent : Option RecordId) (w : Workspace) :
    Except StoreError Unit × Workspace :=
  match w.records[child]? with
  | none => (.ok (), w)
  | some i =>
    match w.onTable m (fun s l => l.updateParent s i.record.id parent) () with
    | (.error e, w) => (.error e, w)
    | (.ok _, w) => (.ok (), w.carryOut child (i.record.setParent parent))

/-! ## Letting go -/

/-- What becomes of a record that has left its identity map. -/
def finish (m : MapRef) (r : RecordRef) (w : Workspace) : Except StoreError Unit × Workspace :=
  match w.records[r]? with
  | none => (.ok (), w)
  | some i =>
    let id := i.record.id
    let w := w.tell i.hub fun c => c.forget r
    let w := w.report (.recordReleased i.record.table id)
    if i.record.deletePending then
      match w.onTable m (fun s l => l.deleteRow s id) 0 with
      | (.error e, w) => (.error e, w)
      | (.ok _, w) => (.ok (), w.report (.recordDeleted i.record.table id))
    else (.ok (), w)

/-- Takes records out of an identity map. -/
def unregister (m : MapRef) (rs : List RecordRef) (w : Workspace) : Workspace :=
  w.setMap m fun map => { map with registered := map.registered.filter fun e => !rs.contains e.2 }

/-- Whether a record is the one registered for its key and held by nobody else. -/
def isFree (w : Workspace) (m : MapRef) (r : RecordRef) : Bool :=
  match w.records[r]? with
  | none => false
  | some i => w.registered? m i.record.id == some r && !w.isHeld r

/-- Frees a record that its holder gave up, unless it is held elsewhere. -/
def release (m : MapRef) (r : RecordRef) (w : Workspace) : Except StoreError Bool × Workspace :=
  if w.isFree m r then
    match (w.unregister m [r]).finish m r with
    | (.error e, w) => (.error e, w)
    | (.ok _, w) => (.ok true, w)
  else (.ok false, w)

/-- What becomes of records, one after another; the first error. -/
def finishAll (m : MapRef) : List RecordRef → Workspace → Option StoreError × Workspace
  | [], w => (none, w)
  | r :: rs, w =>
    match w.finish m r with
    | (.ok _, w) => finishAll m rs w
    | (.error e, w) => (some e, (finishAll m rs w).2)

/-- The registered records that nobody holds. -/
def unheld (w : Workspace) (m : MapRef) : List RecordRef :=
  (w.maps[m]?).elim [] fun map => (map.registered.map (·.2)).filter fun r => !w.isHeld r

/-- Frees every record that nobody holds; how many there were. -/
def sweep (m : MapRef) (w : Workspace) : Except StoreError Nat × Workspace :=
  let rs := w.unheld m
  match (w.unregister m rs).finishAll m rs with
  | (none, w) => (.ok rs.length, w)
  | (some e, w) => (.error e, w)

end Workspace

end LiveRecords
