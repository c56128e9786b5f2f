import LiveRecords.ByName
import LiveRecords.Value

/-!
# Change sets

For every field that one commit wrote, the value it held before. Undo and redo
exchange these values with the record's own. Entries are kept in the order of
the field names.
-/

namespace LiveRecords

structure ChangeSet where
  entries : List (String × Value) := []
  deriving DecidableEq

namespace ChangeSet

def record (c : ChangeSet) (field : String) (previous : Value) : ChangeSet :=
  ⟨ByName.insert field previous c.entries⟩

def get? (c : ChangeSet) (field : String) : Option Value := c.entries.lookup field

/-- Exchanges the stored value of a recorded field; the old one is returned. -/
def swap? (c : ChangeSet) (field : String) (v : Value) : Option (Value × ChangeSet) :=
  (c.get? field).map fun old => (old, c.record field v)

def fields (c : ChangeSet) : List String := c.entries.map (·.1)

/-- Every recorded value through `f`. -/
def mapValues (c : ChangeSet) (f : Value → Value) : ChangeSet :=
  ⟨c.entries.map fun e => (e.1, f e.2)⟩

def size (c : ChangeSet) : Nat := c.entries.length

def isEmpty (c : ChangeSet) : Bool := c.entries.isEmpty

@[simp] theorem get?_record_self (c : ChangeSet) (field : String) (v : Value) :
    (c.record field v).get? field = some v :=
  ByName.lookup_insert_self field v c.entries

theorem get?_record_of_ne (c : ChangeSet) {field g : String} (h : g ≠ field) (v : Value) :
    (c.record field v).get? g = c.get? g :=
  ByName.lookup_insert_of_ne h v c.entries

end ChangeSet

end LiveRecords
