import LiveRecords.Workspace.Views

/-!
# Stores

A store is opened on a database in memory or in a file; stores on one file
share its database. Each record type is registered once, under the exact name
of its table.
-/

namespace LiveRecords

namespace Workspace

/-- The longest time to wait for a lock that a connection can be given. -/
def maxBusyMs : Nat := 0x7FFFFFFF

/-- Why something was not done. -/
inductive Failure where
  | store (e : StoreError)
  /-- A wait longer than can be asked for. -/
  | timeoutTooLong
  /-- A name that stands for nothing. -/
  | unknown
  deriving DecidableEq

/-- Adds an empty database. -/
def addDatabase (w : Workspace) : DatabaseRef × Workspace :=
  (w.databases.length, { w with databases := w.databases ++ [{}] })

/-- Whether a path stands for a database of its own that is on no disk. -/
def isPassing (path : String) : Bool := path.isEmpty || path == ":memory:"

/-- The place of the first NUL in a path, in octets. -/
def nulPlace? (path : String) : Option Nat := (Text.Utf8.bytes path).findIdx? (· == 0)

/-- The database in a file, made if there is none. -/
def databaseAt (path : String) (w : Workspace) : Except StoreError DatabaseRef × Workspace :=
  let place := Path.place path
  match nulPlace? path, w.volumes.files.lookup place with
  | some n, _ => (.error (.sql (.nulInPath n)), w)
  | none, some d => (.ok d, w)
  | none, none =>
    if isPassing path then
      let (d, w) := w.addDatabase
      (.ok d, w)
    else if !w.volumes.canHold place then (.error (.sql (.cannotOpen path)), w)
    else if !Volumes.canJournal place then (.error (.sql .cannotJournal), w)
    else
      let (d, w) := w.addDatabase
      (.ok d, { w with volumes := { w.volumes with files := w.volumes.files ++ [(place, d)] } })

def makeDirectory (path : String) (w : Workspace) : Except StoreError Unit × Workspace :=
  match w.volumes.makeDirectory path with
  | .error e => (.error (.io e), w)
  | .ok volumes => (.ok (), { w with volumes })

/-- The database that settings mean. -/
def openDatabase (s : Settings) (w : Workspace) : Except StoreError DatabaseRef × Workspace :=
  match s.directory, s.path? with
  | some directory, some path =>
    match w.makeDirectory directory with
    | (.error e, w) => (.error e, w)
    | (.ok _, w) =>
      match w.databaseAt path with
      | (.error e, w) => (.error e, w)
      | (.ok d, w) => (.ok d, w.report (.databaseOpened path))
  | _, _ =>
    let (d, w) := w.addDatabase
    (.ok d, w)

/-- A new connection to a database. -/
def connect (d : DatabaseRef) (w : Workspace) : ConnectionRef × Workspace :=
  (w.connections.length, { w with connections := w.connections ++ [{ database := d }] })

/-- A new coordinator. -/
def addHub (w : Workspace) : HubRef × Workspace :=
  (w.hubs.length, { w with hubs := w.hubs ++ [{}] })

/-- Opens a store. -/
def openStore (s : Settings) (w : Workspace) : Except Failure Store × Workspace :=
  match w.openDatabase s with
  | (.error e, w) => (.error (.store e), w)
  | (.ok d, w) =>
    if maxBusyMs < s.busyMs then (.error .timeoutTooLong, w)
    else
      let (c, w) := w.connect d
      let w := w.report (.storeOpened s.storage s.fetchSize)
      let (h, w) := w.addHub
      (.ok { settings := s, connection := c, hub := h }, w)

/-- A new identity map, whose table is made if it is missing. -/
def addMap (s : Schema) (c : ConnectionRef) (h : HubRef) (w : Workspace) :
    Except StoreError MapRef × Workspace :=
  match w.through c fun l => l.ensureTable s with
  | (.error e, w) => (.error e, w)
  | (.ok _, w) =>
    (.ok w.maps.length, { w with maps := w.maps ++ [{ schema := s, connection := c, hub := h }] })

/-- The identity map for a record type in a store. A table that is known keeps
its identity map, and takes no other type. -/
def registerType (s : Schema) (store : Store) (w : Workspace) :
    Except StoreError (MapRef × Store) × Workspace :=
  match store.maps.lookup s.table with
  | some m =>
    if (w.maps[m]?).map (·.schema) = some s then (.ok (m, store), w)
    else (.error (.invalidInput .schemaConflict), w)
  | none =>
    match w.addMap s store.connection store.hub with
    | (.error e, w) => (.error e, w)
    | (.ok m, w) =>
      (.ok (m, { store with maps := store.maps ++ [(s.table, m)] }),
        w.report (.typeRegistered s.table))

/-- How records undo and redo when the coordinator asks them to. -/
def host (w : Workspace) (h : HubRef) (t : Track) : Coordinator.Host StoreError Workspace where
  alive := w.isAlive
  announce := announce h
  attempt r c w :=
    match (w.setCoordinator h c).run r (.replay t) with
    | (.ok (.flag false), w) => .nothing w
    | (.ok _, w) => .applied (w.coordinatorOf h) w
    | (.error e, w) => .failed e (w.coordinatorOf h) w

/-- Undoes or redoes the newest change set of all records. -/
def step (h : HubRef) (t : Track) (w : Workspace) : Except StoreError Bool × Workspace :=
  let (result, c, w) := (w.coordinatorOf h).step (w.host h t) t w
  (result, w.setCoordinator h c)

/-- Whether a living record has a change set on a track. -/
def available (w : Workspace) (h : HubRef) (t : Track) : Bool :=
  (w.coordinatorOf h).available w.isAlive t

end Workspace

end LiveRecords
