import LiveRecords.Coordinator
import LiveRecords.Observers
import LiveRecords.Record.Command
import LiveRecords.Settings
import LiveRecords.Window
import LiveRecords.Volumes

/-!
# The workspace

Everything a program that works with records holds at one time: databases and
the connections to them, coordinators, the records in memory, the identity
maps they are registered in, and views. All of these are listed in the order
in which they came into being and are referred to by position, so a reference
never comes to mean something else. Names stand for the references that the
program holds; what can be reached from no name is gone, though its position
stays taken.
-/

namespace LiveRecords

abbrev DatabaseRef := Nat
abbrev ConnectionRef := Nat
abbrev HubRef := Nat
abbrev RecordRef := Nat
abbrev MapRef := Nat
abbrev ViewRef := Nat

structure Connection where
  database : DatabaseRef
  stats : Statistics := {}
  deriving DecidableEq

/-- A listener of a record. It may look at the record when it hears an event,
and it may answer the first event of a kind with a command. -/
structure RecordListener where
  name : String
  probes : Bool := false
  once : Option (RecordEvent × Record.Command) := none

/-- A coordinator and those who listen to it. -/
structure Hub where
  coordinator : Coordinator := {}
  listeners : Observers String := {}

/-- A record in memory. -/
structure Instance where
  record : Record
  connection : ConnectionRef
  hub : HubRef
  listeners : Observers RecordListener := {}

/-- The live records of one type, by key. -/
structure IdentityMap where
  schema : Schema
  connection : ConnectionRef
  hub : HubRef
  registered : List (RecordId × RecordRef) := []

/-- A window with the records and child views that were asked for, and a new
record that is not stored yet. -/
structure View where
  map : MapRef
  window : Window
  parent : Option RecordId := none
  rows : List (Nat × RecordRef) := []
  children : List (RecordId × ViewRef) := []
  staging : Option RecordRef := none
  listeners : Observers String := {}

/-- One connection, one coordinator, and one identity map for each table. -/
structure Store where
  settings : Settings
  connection : ConnectionRef
  hub : HubRef
  maps : List (String × MapRef) := []

/-- What a listener sees of the record when it hears an event. -/
structure Probe where
  dirty : Bool
  canUndo : Bool
  canRedo : Bool
  undoDepth : Nat
  redoDepth : Nat
  deriving DecidableEq

/-- What listeners report. -/
inductive Heard where
  | record (listener : String) (e : RecordEvent) (seen : Option Probe)
  | reacted (listener : String) (result : Except StoreError Record.Reply)
  | coordinator (listener : String) (e : CoordinatorEvent)
  | view (listener : String) (e : ViewEvent)

structure Workspace where
  /-- What the `n`-th statement on a connection is refused for, whatever it asks. -/
  outage : ConnectionRef → Nat → Option Table.Refusal := fun _ _ => none
  volumes : Volumes := {}
  databases : List Database := []
  connections : List Connection := []
  hubs : List Hub := []
  records : List Instance := []
  maps : List IdentityMap := []
  views : List View := []
  /-- What the program holds under names. -/
  stores : List (String × Store) := []
  handles : List (String × RecordRef) := []
  mapNames : List (String × MapRef) := []
  viewNames : List (String × ViewRef) := []
  /-- The id last subscribed under each name. -/
  subscriptions : List (String × Nat) := []
  /-- What listeners and the store itself reported, in order. -/
  heard : List Heard := []
  log : List Diagnostic := []

namespace Workspace

def write (w : Workspace) (h : Heard) : Workspace := { w with heard := w.heard ++ [h] }

def report (w : Workspace) (d : Diagnostic) : Workspace := { w with log := w.log ++ [d] }

/-- Forgets what was reported. -/
def quiet (w : Workspace) : Workspace := { w with heard := [], log := [] }

/-! ## Parts -/

def setRecord (w : Workspace) (r : RecordRef) (f : Instance → Instance) : Workspace :=
  { w with records := w.records.modify r f }

def setMap (w : Workspace) (m : MapRef) (f : IdentityMap → IdentityMap) : Workspace :=
  { w with maps := w.maps.modify m f }

def setView (w : Workspace) (v : ViewRef) (f : View → View) : Workspace :=
  { w with views := w.views.modify v f }

def setHub (w : Workspace) (h : HubRef) (f : Hub → Hub) : Workspace :=
  { w with hubs := w.hubs.modify h f }

/-- The database behind a connection. -/
def databaseOf (w : Workspace) (c : ConnectionRef) : Database :=
  ((w.connections[c]?).bind fun k => w.databases[k.database]?).getD {}

def statsOf (w : Workspace) (c : ConnectionRef) : Statistics :=
  (w.connections[c]?).elim {} (·.stats)

def coordinatorOf (w : Workspace) (h : HubRef) : Coordinator :=
  (w.hubs[h]?).elim {} (·.coordinator)

/-- A connection as something to run statements on. -/
def link (w : Workspace) (c : ConnectionRef) : Link where
  database := w.databaseOf c
  stats := w.statsOf c
  outage := w.outage c
  log := w.log

/-- Takes over what statements on a connection did. -/
def setLink (w : Workspace) (c : ConnectionRef) (l : Link) : Workspace :=
  match w.connections[c]? with
  | none => w
  | some k =>
    { w with
      databases := w.databases.set k.database l.database
      connections := w.connections.set c { k with stats := l.stats }
      log := l.log }

/-- Runs statements on a connection. -/
def through {α : Type} (w : Workspace) (c : ConnectionRef) (f : Link → α × Link) :
    α × Workspace :=
  let (a, l) := f (w.link c)
  (a, w.setLink c l)

/-! ## Names -/

/-- Gives a name to a reference, in place of what it stood for. -/
def bind (name : String) (ref : Nat) (names : List (String × Nat)) : List (String × Nat) :=
  names.filter (·.1 != name) ++ [(name, ref)]

def unbind (name : String) (names : List (String × Nat)) : List (String × Nat) :=
  names.filter (·.1 != name)

def hold (w : Workspace) (name : String) (r : RecordRef) : Workspace :=
  { w with handles := bind name r w.handles }

/-- Holds a record under a name, if there is one to hold it under. -/
def holdAs (w : Workspace) (name : Option String) (r : RecordRef) : Workspace :=
  match name with
  | some name => w.hold name r
  | none => w

def letGo (w : Workspace) (name : String) : Workspace :=
  { w with handles := unbind name w.handles }

def handle? (w : Workspace) (name : String) : Option RecordRef := w.handles.lookup name

/-- The record under a name. -/
def recordNamed? (w : Workspace) (name : String) : Option Record :=
  (w.handle? name).bind fun r => (w.records[r]?).map (·.record)

def viewNamed? (w : Workspace) (name : String) : Option View :=
  (w.viewNames.lookup name).bind fun v => w.views[v]?

def mapNamed? (w : Workspace) (name : String) : Option IdentityMap :=
  (w.mapNames.lookup name).bind fun m => w.maps[m]?

/-- The names of an identity map, in order. -/
def namesOfMap (w : Workspace) (m : MapRef) : List String :=
  ((w.mapNames.filter (·.2 == m)).map (·.1)).mergeSort fun a b => decide (a ≤ b)

theorem lookup_bind_self (name : String) (ref : Nat) (names : List (String × Nat)) :
    (bind name ref names).lookup name = some ref := by
  induction names with
  | nil => simp [bind]
  | cons e rest ih =>
    obtain ⟨n, r⟩ := e
    by_cases h : n = name
    · subst h; simpa [bind] using ih
    · have hb : (name == n) = false := by simpa using fun he : name = n => h he.symm
      simp only [bind, List.filter_cons, bne_iff_ne, ne_eq, h, not_false_eq_true, if_true,
        List.cons_append, List.lookup_cons, hb]
      simpa [bind] using ih

end Workspace

end LiveRecords
