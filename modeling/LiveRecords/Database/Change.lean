import LiveRecords.Database

/-!
# Changes from elsewhere

What another user of the same database may do to it, past every record.
-/

namespace LiveRecords.Database

inductive Change where
  | declareTable (name : String) (declarations : List String)
  | addRow (table : String) (cells : List (String × Table.Cell))
  | freeze (table : String) (guard : Table.Guard)
  | thaw (e : Table.Event)
  | dropTable (name : String)
  deriving DecidableEq

def apply (d : Database) : Change → Database
  | .declareTable name declarations => d.declareTable name declarations
  | .addRow table cells => d.addRow table cells
  | .freeze table guard => d.freeze table guard
  | .thaw e => d.thaw e
  | .dropTable name => d.dropTable name

end LiveRecords.Database
