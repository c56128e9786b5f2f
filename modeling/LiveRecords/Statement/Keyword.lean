import LiveRecords.Name

/-!
# Reserved words

Names stand unquoted in statements, so a reserved word cannot be one. A few
words are refused only where they start something else: a table constraint at
the head of a column declaration, or a call at the head of a condition.
-/

namespace LiveRecords.Keyword

/-- The words that are never names, in lower case. -/
def reserved : List String :=
  ["add", "all", "alter", "and", "as", "autoincrement", "between", "case", "check", "collate",
    "commit", "constraint", "create", "default", "deferrable", "delete", "distinct", "drop",
    "else", "escape", "except", "exists", "foreign", "from", "group", "having", "in", "index",
    "insert", "intersect", "into", "is", "isnull", "join", "limit", "not", "nothing", "notnull",
    "null", "on", "or", "order", "primary", "references", "returning", "select", "set", "table",
    "then", "to", "transaction", "union", "unique", "update", "using", "values", "when", "where"]

/-- The words that start a table constraint that goes on with a fixed word. -/
def constraintHeads : List String := ["check", "foreign", "primary", "unique"]

/-- The words that go on with a parenthesis at the head of a condition. -/
def callHeads : List String := ["cast", "raise"]

/-- The word that names a table constraint, which may then be left empty. -/
def namesConstraint (name : String) : Bool := foldCase name == "constraint"

def isReserved (name : String) : Bool := reserved.contains (foldCase name)

def opensConstraint (name : String) : Bool := constraintHeads.contains (foldCase name)

def opensCall (name : String) : Bool := callHeads.contains (foldCase name)

/-- The word that is lost when it names a table to be made if there is none. -/
def isLost (name : String) : Bool := foldCase name == "if"

/-- Table names the database keeps for itself. -/
def isSystemTable (name : String) : Bool := "sqlite_".toList.isPrefixOf (foldCase name).toList

end LiveRecords.Keyword
