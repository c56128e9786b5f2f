import LiveRecords.Path
import LiveRecords.StoreError
import LiveRecords.Text.Blank

/-!
# Settings

Where a store keeps its database, how long it waits for a lock and how many
rows a view reads at a time. Settings are given one by one or read from named
variables.
-/

namespace LiveRecords

structure Settings where
  /-- The directory of the database; without one it is kept in memory. -/
  directory : Option String := none
  fileName : String := "records.db"
  busyMs : Nat := 5000
  fetchSize : Nat := 255
  fetchSize_pos : 0 < fetchSize := by decide
  deriving DecidableEq

namespace Settings

/-- A database of its own, kept in memory. -/
def inMemory : Settings := {}

def onDisk (directory : String) : Settings := { directory := some directory }

def withFileName (s : Settings) (name : String) : Settings := { s with fileName := name }

def withBusyMs (s : Settings) (ms : Nat) : Settings := { s with busyMs := ms }

def withFetchSize (s : Settings) (n : Nat) : Except StoreError Settings :=
  if h : 0 < n then .ok { s with fetchSize := n, fetchSize_pos := h }
  else .error (.invalidInput .fetchSize)

/-- The path of the database, when it is on disk. -/
def path? (s : Settings) : Option String := s.directory.map fun d => Path.join d s.fileName

/-- How the place of the database is shown. -/
def storage (s : Settings) : String := s.path?.getD ":memory:"

/-! ## Variables -/

def directoryVariable : String := "RR_STORAGE_DIR"
def fileVariable : String := "RR_DB_FILE"
def fetchVariable : String := "RR_FETCH_SIZE"
def busyVariable : String := "RR_BUSY_TIMEOUT_MS"

/-- The value of a variable without the blanks around it; a blank one counts as
missing. -/
def given? (read : String → Option String) (name : String) : Option String :=
  match read name with
  | none => none
  | some v =>
    let v := String.ofList (Text.trim v.toList)
    if v.isEmpty then none else some v

/-- The digits of a number after an optional plus. -/
def unsigned : List Char → List Char
  | '+' :: cs => cs
  | cs => cs

/-- A count of 64 bits. -/
def count? (s : String) : Option Nat :=
  let ds := unsigned s.toList
  if ds.isEmpty || !ds.all Char.isDigit then none
  else
    let n := ds.foldl (fun n c => 10 * n + (c.toNat - 48)) 0
    if n < 0x10000000000000000 then some n else none

/-- Sets what a variable gives, if it is there. -/
def update (read : String → Option String) (name : String)
    (set : Settings → String → Except StoreError Settings) (s : Settings) :
    Except StoreError Settings :=
  match given? read name with
  | none => .ok s
  | some v => set s v

/-- The settings that variables give. They are looked at in the order
directory, file, fetch size, timeout, and the first that is wrong decides. -/
def ofVariables (read : String → Option String) : Except StoreError Settings := do
  let s ← update read directoryVariable (fun s v => .ok { s with directory := some v }) {}
  let s ← update read fileVariable (fun s v => .ok (s.withFileName v)) s
  let s ← update read fetchVariable (fun s v =>
    match count? v with
    | some n => s.withFetchSize n
    | none => .error (.invalidInput .fetchSetting)) s
  update read busyVariable (fun s v =>
    match count? v with
    | some n => .ok (s.withBusyMs n)
    | none => .error (.invalidInput .timeoutSetting)) s

theorem ofVariables_none : ofVariables (fun _ => none) = .ok {} := rfl

theorem path?_default : ({} : Settings).path? = none := rfl

end Settings

end LiveRecords
