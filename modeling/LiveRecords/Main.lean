import LiveRecords.Tour

/-!
# The program

Reads the variables, draws the keys, and prints the lines of the tour.
-/

open LiveRecords

/-- The variables that have a value. -/
def readVariables (names : List String) : IO (List (String × String)) :=
  names.filterMapM fun name => do return (← IO.getEnv name).map fun v => (name, v)

def randomKey : IO RecordId := do
  let bytes ← IO.getRandomBytes 16
  return .ofRandom bytes.toList

def main : IO UInt32 := do
  let given ← readVariables
    [Settings.directoryVariable, Settings.fileVariable, Settings.fetchVariable,
      Settings.busyVariable, Tour.verbosityVariable]
  let keys := [← randomKey, ← randomKey, ← randomKey]
  let (lines, status) := Tour.lines (fun name => given.lookup name) fun n =>
    keys.getD (n - 1) (.ofOrdinal n)
  for line in lines do
    IO.println line
  return UInt32.ofNat status
