import LiveRecords.Diagnostic.Verbosity
import LiveRecords.Workspace.Action

/-!
# The tour

A program that shows what records do: it saves a note under changing titles,
undoes and redoes all of it, gives the note children, and lists what a view
finds. What it comes across is reported along with what the store reports.
-/

namespace LiveRecords.Tour

open Workspace (Action Failure Reply)

/-- A part of the tour; it ends at the first failure. -/
abbrev Part (α : Type) := Workspace → Except Failure α × Workspace

def Part.bind {α β : Type} (p : Part α) (f : α → Part β) : Part β := fun w =>
  match p w with
  | (.ok a, w) => f a w
  | (.error e, w) => (.error e, w)

instance : Monad Part where
  pure a := fun w => (.ok a, w)
  bind := Part.bind

def act (a : Action) : Part Reply := fun w => w.perform a

def source : String := "rr_demo"

/-- Reports something on the way. -/
def remark (message : String) (details : List (String × Detail)) : Part Unit := fun w =>
  (.ok (), w.report (.remark ⟨.info, source, message, details⟩))

/-- Looks at the workspace; what cannot be found ends the tour. -/
def look {α : Type} (f : Workspace → Option α) : Part α := fun w =>
  match f w with
  | some a => (.ok a, w)
  | none => (.error .unknown, w)

/-- Looks at a record by name. -/
def ask {α : Type} (name : String) (f : Record → Except StoreError α) : Part α := fun w =>
  match w.recordNamed? name with
  | none => (.error .unknown, w)
  | some r =>
    match f r with
    | .ok a => (.ok a, w)
    | .error e => (.error (.store e), w)

/-! ## Stations -/

/-- The names under which things are held on the way. -/
def store : String := "store"
def notes : String := "notes"
def note : String := "note"
def listing : String := "listing"

def start (s : Settings) : Part Unit := do
  let _ ← act (.openStore store s)
  let _ ← act (.registerType store Note.draft notes)
  return ()

def setTitle (name title : String) : Part Unit := do
  let _ ← act (.command name (.set Note.titleField (.text title)))
  return ()

/-- Saves a note; what the save came to. -/
def save (name : String) : Part Record.CommitOutcome := do
  match ← act (.command name .commit) with
  | .command (.committed o) => return o
  | _ => return .unchanged

def saveTitles : List String → Part Unit
  | [] => return ()
  | title :: titles => do
    setTitle note title
    let outcome ← save note
    let id ← ask note fun r => .ok r.id
    remark "note saved"
      [("id", .bare id.text), ("title", .text title), ("outcome", .bare outcome.describe)]
    saveTitles titles

/-- Whether there is more to undo or redo. -/
def isAvailable (t : Track) : Part Bool :=
  look fun w => (w.stores.lookup store).map fun s => w.available s.hub t

/-- Steps along a track, at most `n` times. -/
def stepThrough (t : Track) (word detail : String) : Nat → Part Unit
  | 0 => return ()
  | n + 1 => do
    match ← act (.stepAll store t) with
    | .flag true =>
      let title ← ask note Note.title
      let more ← isAvailable t
      remark word [("title", .bare title), (detail, .bare (toString more))]
      stepThrough t word detail n
    | _ => return ()

/-- How many change sets a track holds. -/
def length (t : Track) : Part Nat :=
  look fun w => (w.stores.lookup store).map fun s => (w.coordinatorOf s.hub).depth t

/-- Steps along a track to its end. -/
def stepAll (t : Track) (word detail : String) : Part Unit := do
  stepThrough t word detail ((← length t) + 1)

def addChildren : List (String × String × RecordId) → Part Unit
  | [] => return ()
  | (name, title, key) :: rest => do
    let _ ← act (.newRecord notes key (some name))
    setTitle name title
    let _ ← save name
    let _ ← act (.addChild notes note name)
    addChildren rest

/-- The view of the listing. -/
def view : Part View := look fun w => w.viewNamed? listing

/-- Reads pages of the listing, at most `n`, until there are no more. -/
def fetchAll : Nat → Part Unit
  | 0 => return ()
  | n + 1 => do
    if (← view).window.atEnd then return ()
    else
      let _ ← act (.fetchMore listing)
      fetchAll n

/-- How many rows are stored. -/
def rowCount : Part Nat :=
  look fun w => (w.stores.lookup store).map fun s =>
    (w.databaseOf s.connection).tables.foldl (fun n t => n + t.rows.length) 0

def titleAt (row : Nat) : Part Value := do
  match ← act (.data listing row (.field Note.titleField) none) with
  | .shown (.value v) => return v
  | _ => return .null

def childCountAt (row : Nat) : Part Nat := do
  match ← act (.data listing row .children none) with
  | .shown (.children c) => look fun w => (w.views[c]?).map fun v => v.window.bottom
  | _ => return 0

def listRows : List Nat → Part Unit
  | [] => return ()
  | row :: rows => do
    let title ← titleAt row
    let children ← childCountAt row
    remark "listed" [("row", .bare (toString row)), ("title", .bare title.describe),
      ("children", .bare (toString children))]
    listRows rows

/-- Whether two names stand for one record. -/
def sameRecord (a b : String) : Part Bool := look fun w => do
  return (← w.handle? a) == (← w.handle? b)

/-- The whole way; keys come from a supply that gives none twice. -/
def wholeWay (s : Settings) (keys : Nat → RecordId) : Part Unit := do
  start s
  let _ ← act (.newRecord notes (keys 1) (some note))
  let _ ← act (.command note (.set Note.metadataField (Metadata.toValue ⟨["demo"], false⟩)))
  saveTitles ["yeet one", "yeet two", "yeet three"]
  stepAll .undo "undo" "can_undo"
  stepAll .redo "redo" "can_redo"
  let _ ← act (.withId notes (← ask note fun r => .ok r.id) (some "again"))
  let same ← sameRecord "again" note
  remark "identity map lookup" [("same_instance", .bare (toString same))]
  addChildren [("first", "first child", keys 2), ("second", "second child", keys 3)]
  let yeets : Filter := .all [.compare Note.titleField .like (.text "%yeet%")]
  let _ ← act (.openView listing notes store (.filter yeets) none)
  fetchAll ((← rowCount) + 1)
  listRows (List.range (← view).window.bottom)
  let stats ← look fun w => (w.stores.lookup store).map fun s => w.statsOf s.connection
  remark "done" [("stats", .bare stats.describe)]

/-! ## The program -/

/-- How the program ends. -/
inductive Ending where
  | finished
  | failed (e : StoreError)
  | aborted
  deriving DecidableEq

def Ending.status : Ending → Nat
  | .finished => 0
  | .failed _ => 1
  | .aborted => 101

/-- The last word on a failure. -/
def Ending.reports : Ending → List Report
  | .failed e => [⟨.error, source, "demo failed: " ++ e.message, []⟩]
  | .finished | .aborted => []

def ending : Except Failure Unit → Ending
  | .ok _ => .finished
  | .error (.store e) => .failed e
  | .error .timeoutTooLong | .error .unknown => .aborted

/-- What the program reports, and how it ends, when variables have these
values. -/
def run (read : String → Option String) (keys : Nat → RecordId) : List Report × Ending :=
  match Settings.ofVariables read with
  | .error e => ((Ending.failed e).reports, .failed e)
  | .ok s =>
    let (result, w) := wholeWay s keys {}
    (w.log.map Diagnostic.report ++ (ending result).reports, ending result)

def verbosityVariable : String := "RUST_LOG"

/-- The lines the program prints, and its exit status. -/
def lines (read : String → Option String) (keys : Nat → RecordId) : List String × Nat :=
  match Verbosity.ofText (read verbosityVariable) with
  | none => ([], Ending.aborted.status)
  | some directives =>
    let (reports, ending) := run read keys
    ((reports.filter (Directive.shows directives)).map Report.line, ending.status)

end LiveRecords.Tour
