import LiveRecords.Table.Constraint

/-!
# Named tables

A database is a list of tables, in the order in which they were made, whose
names differ in more than the case of letters.
-/

namespace LiveRecords

structure Database where
  tables : List Table := []
  deriving DecidableEq

namespace Database

def table? (d : Database) (name : String) : Option Table :=
  d.tables.find? fun t => sameName t.name name

/-- Puts the new form of a table in its place. -/
def setTable (d : Database) (t : Table) : Database :=
  { d with tables := d.tables.map fun u => if sameName u.name t.name then t else u }

theorem length_setTable (d : Database) (t : Table) :
    (d.setTable t).tables.length = d.tables.length := by
  simp [setTable]

end Database

end LiveRecords
