import LiveRecords.Value

/-!
# Filters

A predicate compares one column with one operand, or with a pair of bounds. A
filter joins predicates by "all" or by "any"; an empty filter selects every
row.
-/

namespace LiveRecords

inductive Comparison where
  | equals
  | notEquals
  | lessThan
  | greaterThan
  | lessOrEqual
  | greaterOrEqual
  | like
  deriving DecidableEq, Repr

namespace Comparison

def symbol : Comparison → String
  | .equals => "="
  | .notEquals => "<>"
  | .lessThan => "<"
  | .greaterThan => ">"
  | .lessOrEqual => "<="
  | .greaterOrEqual => ">="
  | .like => "LIKE"

/-- The short name that placeholders carry. -/
def tag : Comparison → String
  | .equals => "eq"
  | .notEquals => "ne"
  | .lessThan => "lt"
  | .greaterThan => "gt"
  | .lessOrEqual => "le"
  | .greaterOrEqual => "ge"
  | .like => "like"

end Comparison

/-- How a predicate compares. -/
inductive Operator where
  | comparison (op : Comparison)
  | between
  deriving DecidableEq, Repr

/-- What a predicate compares with. -/
inductive Operand where
  | single (value : Value)
  | range (low high : Value)
  deriving DecidableEq

/-- Bounds stand with "between" and single values with the other operators. -/
inductive Predicate where
  | compare (column : String) (op : Comparison) (operand : Value)
  | between (column : String) (low high : Value)
  deriving DecidableEq

namespace Predicate

def equals (column : String) (operand : Value) : Predicate := .compare column .equals operand

def column : Predicate → String
  | .compare c _ _ => c
  | .between c _ _ => c

def operator : Predicate → Operator
  | .compare _ op _ => .comparison op
  | .between _ _ _ => .between

def operand : Predicate → Operand
  | .compare _ _ v => .single v
  | .between _ lo hi => .range lo hi

def symbol : Predicate → String
  | .compare _ op _ => op.symbol
  | .between _ _ _ => "BETWEEN"

def tag : Predicate → String
  | .compare _ op _ => op.tag
  | .between _ _ _ => "between"

/-- The operands, the low bound before the high one. -/
def operands : Predicate → List Value
  | .compare _ _ v => [v]
  | .between _ lo hi => [lo, hi]

end Predicate

inductive Join where
  | all
  | any
  deriving DecidableEq, Repr

def Join.separator : Join → String
  | .all => " AND "
  | .any => " OR "

structure Filter where
  predicates : List Predicate := []
  join : Join := .all
  deriving DecidableEq

namespace Filter

/-- Every predicate must hold. -/
def all (ps : List Predicate) : Filter := ⟨ps, .all⟩

/-- At least one predicate must hold. -/
def any (ps : List Predicate) : Filter := ⟨ps, .any⟩

def push (f : Filter) (p : Predicate) : Filter := { f with predicates := f.predicates ++ [p] }

def isEmpty (f : Filter) : Bool := f.predicates.isEmpty

def columns (f : Filter) : List String := f.predicates.map (·.column)

end Filter

end LiveRecords
