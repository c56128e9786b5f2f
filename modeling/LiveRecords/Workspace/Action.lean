import LiveRecords.Database.Change
import LiveRecords.Note
import LiveRecords.Workspace.Stores

/-!
# Actions

Everything a program does in a workspace, as data, with things meant by their
names. A run of a program is a list of actions; what each answers and leaves
behind is `perform`.
-/

namespace LiveRecords

namespace Workspace

/-- Which rows a view shows. -/
inductive Selection where
  | filter (f : Filter)
  | below (parent : RecordId)
  deriving DecidableEq

/-- What can be listened to. -/
inductive Source where
  | record (name : String)
  | view (name : String)
  | store (name : String)
  deriving DecidableEq

/-- Statements that bypass the records. -/
inductive Query where
  | ensureTable
  | insertRow (id : RecordId) (values : List Value) (parent : Option RecordId)
  | updateField (id : RecordId) (field : String) (v : Value)
  | updateParent (id : RecordId) (parent : Option RecordId)
  | deleteRow (id : RecordId)
  | selectWhere (f : Filter)
  | selectOne (id : RecordId)
  | selectKeys (f : Filter) (offset limit : Nat)
  deriving DecidableEq

inductive Action where
  | openStore (store : String) (s : Settings)
  | closeStore (store : String)
  | registerType (store : String) (d : Draft) (as : String)
  /-- An identity map over a database of its own, with the coordinator of a store
  or one of its own. -/
  | openMap (d : Draft) (store : Option String) (as : String)
  | stepAll (store : String) (t : Track)
  | withId (map : String) (id : RecordId) (as : Option String)
  /-- A new record under a key from a supply that never gives a key twice. -/
  | newRecord (map : String) (key : RecordId) (as : Option String)
  | load (map : String) (id : RecordId) (as : Option String)
  /-- The found records are held under numbered names. -/
  | find (map : String) (f : Filter) (as : Option String)
  | children (map : String) (parent : RecordId) (as : Option String)
  | childrenOf (map : String) (parent : String) (as : Option String)
  | addChild (map parent child : String)
  | removeChild (map child : String)
  | release (map record : String)
  | sweep (map : String)
  | query (map : String) (q : Query)
  | command (record : String) (c : Record.Command)
  | clone (record : String) (as : Option String)
  | drop (record : String)
  | subscribe (s : Source) (l : RecordListener)
  | unsubscribe (s : Source) (as : String)
  | openView (view map store : String) (s : Selection) (fetchSize : Option Nat)
  | dropView (view : String)
  | fetchMore (view : String)
  | prefetch (view : String) (count : Nat)
  | reset (view : String)
  | row (view : String) (row : Nat) (as : Option String)
  /-- A child view is held as a view, a record as a record. -/
  | data (view : String) (row : Nat) (role : Role) (as : Option String)
  | column (view field : String)
  | setData (view : String) (row : Nat) (role : Role) (v : Value)
  | childView (view : String) (parent : RecordId) (as : Option String)
  | createStaging (view : String) (key : RecordId) (as : Option String)
  | commitStaging (view : String) (as : Option String)
  | discardStaging (view : String) (as : Option String)
  /-- Another user changes the database in a file. -/
  | elsewhere (directory file : String) (c : Database.Change)

inductive Reply where
  | done
  | flag (b : Bool)
  | count (n : Nat)
  | found (r : Option RecordRef)
  | list (rs : List RecordRef)
  | command (r : Record.Reply)
  | map (m : MapRef)
  | view (v : ViewRef)
  | shown (v : RoleValue)
  | column (vs : List (Except StoreError Value))
  | subscribed (id : Nat)
  | rows (images : List RowImage)
  | row (image : Option RowImage)
  | keys (ids : List RecordId)

abbrev Outcome := Except Failure Reply × Workspace

/-! ## Names to references -/

def unknown (w : Workspace) : Outcome := (.error .unknown, w)

def withMap (name : String) (w : Workspace) (f : MapRef → Workspace → Outcome) : Outcome :=
  match w.mapNames.lookup name with
  | some m => f m w
  | none => w.unknown

def withView (name : String) (w : Workspace) (f : ViewRef → Workspace → Outcome) : Outcome :=
  match w.viewNames.lookup name with
  | some v => f v w
  | none => w.unknown

def withRecord (name : String) (w : Workspace) (f : RecordRef → Workspace → Outcome) : Outcome :=
  match w.handle? name with
  | some r => f r w
  | none => w.unknown

def withStore (name : String) (w : Workspace) (f : Store → Workspace → Outcome) : Outcome :=
  match w.stores.lookup name with
  | some s => f s w
  | none => w.unknown

section

variable {P : Workspace → Prop} {name : String} {w : Workspace}

/-- What holds of a workspace, and of what comes of that for which a name stands, holds
of the outcome: nothing happens where the name stands for nothing. -/
theorem withMap_preserves {f : MapRef → Workspace → Outcome} (hw : P w)
    (h : ∀ m, w.mapNames.lookup name = some m → P (f m w).2) : P (withMap name w f).2 := by
  unfold withMap
  split
  · next m hm => exact h m hm
  · exact hw

theorem withView_preserves {f : ViewRef → Workspace → Outcome} (hw : P w)
    (h : ∀ v, w.viewNames.lookup name = some v → P (f v w).2) : P (withView name w f).2 := by
  unfold withView
  split
  · next v hv => exact h v hv
  · exact hw

theorem withRecord_preserves {f : RecordRef → Workspace → Outcome} (hw : P w)
    (h : ∀ r, w.handle? name = some r → P (f r w).2) : P (withRecord name w f).2 := by
  unfold withRecord
  split
  · next r hr => exact h r hr
  · exact hw

theorem withStore_preserves {f : Store → Workspace → Outcome} (hw : P w)
    (h : ∀ s, w.stores.lookup name = some s → P (f s w).2) : P (withStore name w f).2 := by
  unfold withStore
  split
  · next s hs => exact h s hs
  · exact hw

end

/-! ## Answers -/

def answer {α : Type} (reply : α → Reply) : Except StoreError α × Workspace → Outcome
  | (.ok a, w) => (.ok (reply a), w)
  | (.error e, w) => (.error (.store e), w)

/-- Answers with a record, and holds it. -/
def answerHeld (as : Option String) : Except StoreError (Option RecordRef) × Workspace → Outcome
  | (.ok (some r), w) => (.ok (.found (some r)), w.holdAs as r)
  | (.ok none, w) => (.ok (.found none), w)
  | (.error e, w) => (.error (.store e), w)

/-- Holds records under a name followed by their numbers. -/
def holdAll (name : String) : Nat → List RecordRef → Workspace → Workspace
  | _, [], w => w
  | n, r :: rs, w => holdAll name (n + 1) rs (w.hold (name ++ toString n) r)

/-- Answers with records, and holds them. -/
def answerAll (as : Option String) : Except StoreError (List RecordRef) × Workspace → Outcome
  | (.ok rs, w) =>
    (.ok (.list rs), match as with
      | some name => holdAll name 0 rs w
      | none => w)
  | (.error e, w) => (.error (.store e), w)

def holdView (w : Workspace) (as : Option String) (v : ViewRef) : Workspace :=
  match as with
  | some name => { w with viewNames := bind name v w.viewNames }
  | none => w

def holdMap (w : Workspace) (as : String) (m : MapRef) : Workspace :=
  { w with mapNames := bind as m w.mapNames }

def holdStore (w : Workspace) (as : String) (s : Store) : Workspace :=
  { w with stores := w.stores.filter (·.1 != as) ++ [(as, s)] }

/-! ## Actions with more than one part -/

def registerUnder (store as : String) (d : Draft) (s : Store) (w : Workspace) : Outcome :=
  match d.build with
  | .error e => (.error (.store (.schema e)), w)
  | .ok schema =>
    match w.registerType schema s with
    | (.error e, w) => (.error (.store e), w)
    | (.ok (m, s), w) => (.ok (.map m), (w.holdStore store s).holdMap as m)

/-- The coordinator of a store, or a new one. -/
def hubFor (store : Option String) (w : Workspace) : HubRef × Workspace :=
  match store.bind fun name => w.stores.lookup name with
  | some s => (s.hub, w)
  | none => w.addHub

def openMap (d : Draft) (store : Option String) (as : String) (w : Workspace) : Outcome :=
  match d.build with
  | .error e => (.error (.store (.schema e)), w)
  | .ok schema =>
    let database := w.databases.length
    let (c, w) := { w with databases := w.databases ++ [({} : Database)] }.connect database
    let (h, w) := w.hubFor store
    match w.addMap schema c h with
    | (.error e, w) => (.error (.store e), w)
    | (.ok m, w) => (.ok .done, w.holdMap as m)

def query (m : MapRef) (w : Workspace) : Query → Outcome
  | .ensureTable => answer (fun _ => .done) (w.onTable m (fun s l => l.ensureTable s) ())
  | .insertRow id values parent =>
    answer (fun _ => .done) (w.onTable m (fun s l => l.insertRow s id values parent) ())
  | .updateField id field v =>
    answer (fun _ => .done) (w.onTable m (fun s l => l.updateField s id field v) ())
  | .updateParent id parent =>
    answer (fun _ => .done) (w.onTable m (fun s l => l.updateParent s id parent) ())
  | .deleteRow id => answer .count (w.onTable m (fun s l => l.deleteRow s id) 0)
  | .selectWhere f => answer .rows (w.onTable m (fun s l => l.selectWhere s f) [])
  | .selectOne id => answer .row (w.onTable m (fun s l => l.selectOne s id) none)
  | .selectKeys f offset limit =>
    answer .keys (w.onTable m (fun s l => l.selectKeys s f offset limit) [])

def subscribed (name : String) (id : Nat) (w : Workspace) : Outcome :=
  (.ok (.subscribed id), { w with subscriptions := (name, id) :: w.subscriptions })

def subscribe (l : RecordListener) (w : Workspace) : Source → Outcome
  | .record name => withRecord name w fun r w =>
    match w.records[r]? with
    | none => w.unknown
    | some i =>
      let (id, o) := i.listeners.subscribe l
      subscribed l.name id (w.setRecord r fun i => { i with listeners := o })
  | .view name => withView name w fun v w =>
    match w.views[v]? with
    | none => w.unknown
    | some view =>
      let (id, o) := view.listeners.subscribe l.name
      subscribed l.name id (w.setView v fun view => { view with listeners := o })
  | .store name => withStore name w fun s w =>
    match w.hubs[s.hub]? with
    | none => w.unknown
    | some hub =>
      let (id, o) := hub.listeners.subscribe l.name
      subscribed l.name id (w.setHub s.hub fun hub => { hub with listeners := o })

def unsubscribe (id : Nat) (w : Workspace) : Source → Outcome
  | .record name => withRecord name w fun r w =>
    match w.records[r]? with
    | none => w.unknown
    | some i =>
      let (b, o) := i.listeners.unsubscribe id
      (.ok (.flag b), w.setRecord r fun i => { i with listeners := o })
  | .view name => withView name w fun v w =>
    match w.views[v]? with
    | none => w.unknown
    | some view =>
      let (b, o) := view.listeners.unsubscribe id
      (.ok (.flag b), w.setView v fun view => { view with listeners := o })
  | .store name => withStore name w fun s w =>
    match w.hubs[s.hub]? with
    | none => w.unknown
    | some hub =>
      let (b, o) := hub.listeners.unsubscribe id
      (.ok (.flag b), w.setHub s.hub fun hub => { hub with listeners := o })

def openView (view : String) (m : MapRef) (s : Selection) (fetchSize : Nat) (w : Workspace) :
    Outcome :=
  let opened :=
    match s with
    | .filter f => w.addView m f none fetchSize
    | .below parent => w.addChildView m parent fetchSize
  match opened with
  | (.error e, w) => (.error (.store e), w)
  | (.ok v, w) => (.ok (.view v), w.holdView (some view) v)

/-- The values of a field in all rows from `row` on, `n` of them. -/
def columnFrom (v : ViewRef) (field : String) :
    Nat → Nat → Workspace → List (Except StoreError Value) × Workspace
  | 0, _, w => ([], w)
  | n + 1, row, w =>
    let (shown, w) := w.data v row (.field field)
    let (more, w) := columnFrom v field n (row + 1) w
    let value :=
      match shown with
      | .error e => .error e
      | .ok (.value value) => .ok value
      | .ok _ => .ok .null
    (value :: more, w)

def showData (v : ViewRef) (row : Nat) (role : Role) (as : Option String) (w : Workspace) :
    Outcome :=
  match w.data v row role with
  | (.error e, w) => (.error (.store e), w)
  | (.ok (.value value), w) => (.ok (.shown (.value value)), w)
  | (.ok (.children child), w) => (.ok (.shown (.children child)), w.holdView as child)
  | (.ok (.record r), w) => (.ok (.shown (.record r)), w.holdAs as r)

/-- Changes the database in a file; a table can be declared in a new one. -/
def elsewhere (directory file : String) (c : Database.Change) (w : Workspace) : Outcome :=
  match w.makeDirectory directory with
  | (.error e, w) => (.error (.store e), w)
  | (.ok _, w) =>
    match w.databaseAt (Path.join directory file) with
    | (.error e, w) => (.error (.store e), w)
    | (.ok d, w) => (.ok .done, { w with databases := w.databases.modify d fun d => d.apply c })

/-! ## All actions -/

/-- What an action answers, and the workspace after it. -/
def perform (w : Workspace) : Action → Outcome
  | .openStore name s =>
    match w.openStore s with
    | (.error e, w) => (.error e, w)
    | (.ok store, w) => (.ok .done, w.holdStore name store)
  | .closeStore name =>
    (.ok (.flag (w.stores.any (·.1 == name))),
      { w with stores := w.stores.filter (·.1 != name) })
  | .registerType store d as => withStore store w fun s w => registerUnder store as d s w
  | .openMap d store as => w.openMap d store as
  | .stepAll store t => withStore store w fun s w => answer .flag (w.step s.hub t)
  | .withId map id as => withMap map w fun m w =>
    let (r, w) := w.register m id false
    answerHeld as (.ok (some r), w)
  | .newRecord map key as => withMap map w fun m w =>
    let (r, w) := w.register m key true
    answerHeld as (.ok (some r), w)
  | .load map id as => withMap map w fun m w => answerHeld as (w.load m id)
  | .find map f as => withMap map w fun m w => answerAll as (w.find m f)
  | .children map parent as => withMap map w fun m w => answerAll as (Workspace.children m parent w)
  | .childrenOf map parent as => withMap map w fun m w => withRecord parent w fun r w =>
    match w.keyOf r with
    | none => w.unknown
    | some id => answerAll as (Workspace.children m id w)
  | .addChild map parent child => withMap map w fun m w =>
    withRecord parent w fun p w => withRecord child w fun c w =>
      match w.parentColumn m with
      | .error e => (.error (.store e), w)
      | .ok _ => answer (fun _ => .done) (w.setParent m c (w.keyOf p))
  | .removeChild map child => withMap map w fun m w => withRecord child w fun c w =>
    match w.parentColumn m with
    | .error e => (.error (.store e), w)
    | .ok _ => answer (fun _ => .done) (w.setParent m c none)
  | .release map record => withMap map w fun m w => withRecord record w fun r w =>
    answer .flag ((w.letGo record).release m r)
  | .sweep map => withMap map w fun m w => answer .count (w.sweep m)
  | .query map q => withMap map w fun m w => query m w q
  | .command record c => withRecord record w fun r w => answer .command (w.run r c)
  | .clone record as => withRecord record w fun r w => answerHeld as (.ok (some r), w)
  | .drop record => (.ok (.flag (w.handle? record).isSome), w.letGo record)
  | .subscribe s l => subscribe l w s
  | .unsubscribe s as =>
    match w.subscriptions.lookup as with
    | none => w.unknown
    | some id => unsubscribe id w s
  | .openView view map store s fetchSize => withMap map w fun m w =>
    match fetchSize with
    | some n => w.openView view m s n
    | none => withStore store w fun st w => w.openView view m s st.settings.fetchSize
  | .dropView view =>
    (.ok (.flag (w.viewNames.lookup view).isSome), { w with viewNames := unbind view w.viewNames })
  | .fetchMore view => withView view w fun v w => answer (fun _ => .done) (w.fetchMore v)
  | .prefetch view n => withView view w fun v w => answer (fun _ => .done) (w.prefetch v n)
  | .reset view => withView view w fun v w => answer (fun _ => .done) (w.reset v)
  | .row view row as => withView view w fun v w =>
    let (result, w) := w.recordAt v row
    answerHeld as (some <$> result, w)
  | .data view row role as => withView view w fun v w => w.showData v row role as
  | .column view field => withView view w fun v w =>
    let rows := (w.views[v]?).elim 0 fun view => view.window.bottom
    let (values, w) := columnFrom v field rows 0 w
    (.ok (.column values), w)
  | .setData view row role v => withView view w fun view w =>
    answer .flag (w.setData view row role v)
  | .childView view parent as => withView view w fun v w =>
    match w.childView v parent with
    | (.error e, w) => (.error (.store e), w)
    | (.ok child, w) => (.ok (.view child), w.holdView as child)
  | .createStaging view key as => withView view w fun v w =>
    let (r, w) := w.createStaging v key
    answerHeld as (.ok (some r), w)
  | .commitStaging view as => withView view w fun v w => answerHeld as (w.commitStaging v)
  | .discardStaging view as => withView view w fun v w =>
    let (r, w) := w.discardStaging v
    answerHeld as (.ok r, w)
  | .elsewhere directory file c => w.elsewhere directory file c

/-- The workspace after a run. -/
def performAll (w : Workspace) (actions : List Action) : Workspace :=
  actions.foldl (fun w a => (w.perform a).2) w

theorem performAll_nil (w : Workspace) : w.performAll [] = w := rfl

theorem performAll_append (w : Workspace) (as bs : List Action) :
    w.performAll (as ++ bs) = (w.performAll as).performAll bs := by
  simp [performAll, List.foldl_append]

end Workspace

end LiveRecords
