import LiveRecords.Predicate.Clause
import LiveRecords.Table.Cell

/-!
# Expressions

What a declaration may say about the cells of a row: literals, names, operators
and calls. `BETWEEN`, `IN` and `CASE` are written with simpler ones.
-/

namespace LiveRecords.Table

inductive UnaryOp where
  | negate
  /-- Leaves a value as it is, but takes the affinity off it. -/
  | plain
  | complement
  | not
  deriving DecidableEq, Repr

inductive BinaryOp where
  | or
  | and
  /-- Equality for which two nulls are equal. -/
  | is
  | isNot
  | compare (op : Comparison)
  | plus
  | minus
  | times
  | dividedBy
  | modulo
  | join
  | bitAnd
  | bitOr
  | shiftLeft
  | shiftRight
  deriving DecidableEq, Repr

/-- Which part of the current time a word means. -/
inductive Clock where
  | date
  | time
  | timestamp
  deriving DecidableEq, Repr

mutual

inductive Expression where
  | literal (c : Cell)
  /-- A column, the row number, a truth value, or, in quotes and without such a
  column, a text. -/
  | name (s : String) (quoted : Bool)
  | now (c : Clock)
  | unary (op : UnaryOp) (e : Expression)
  | binary (op : BinaryOp) (a b : Expression)
  | collate (e : Expression) (k : Collation)
  | cast (e : Expression) (a : Affinity)
  /-- The second if the first is true, else the third. -/
  | choose (c t e : Expression)
  | call (function : String) (args : Arguments)

inductive Arguments where
  | nil
  | cons (e : Expression) (rest : Arguments)

end

deriving instance DecidableEq for Expression, Arguments

instance : Inhabited Expression := ⟨.literal .null⟩

mutual

/-- The names within an expression. -/
def Expression.names : Expression → List String
  | .name n _ => [n]
  | .unary _ e | .collate e _ | .cast e _ => e.names
  | .binary _ a b => a.names ++ b.names
  | .choose c t e => c.names ++ t.names ++ e.names
  | .call _ args => args.names
  | .literal _ | .now _ => []

def Arguments.names : Arguments → List String
  | .nil => []
  | .cons e rest => e.names ++ rest.names

end

namespace Arguments

def ofList : List Expression → Arguments
  | [] => .nil
  | e :: es => .cons e (ofList es)

def toList : Arguments → List Expression
  | .nil => []
  | .cons e rest => e :: rest.toList

@[simp] theorem toList_ofList (es : List Expression) : (ofList es).toList = es := by
  induction es with
  | nil => rfl
  | cons e es ih => simp [ofList, toList, ih]

end Arguments

namespace Expression

def null : Expression := .literal .null

def ofBool (b : Bool) : Expression := .literal (.integer (if b then 1 else 0))

def invoke (function : String) (args : List Expression) : Expression :=
  .call function (.ofList args)

def not (e : Expression) : Expression := .unary .not e

def compare (op : Comparison) (a b : Expression) : Expression := .binary (.compare op) a b

def isNull (e : Expression) : Expression := .binary .is e null

def isNotNull (e : Expression) : Expression := .binary .isNot e null

/-- Whether a text matches a pattern, which is the first argument. -/
def like (e pattern : Expression) : Expression := invoke "like" [pattern, e]

/-- Within two bounds. -/
def between (e low high : Expression) : Expression :=
  .binary .and (compare .greaterOrEqual e low) (compare .lessOrEqual e high)

/-- Equal to one of some values, which count without their affinity. -/
def among (e : Expression) : List Expression → Expression
  | [] => ofBool false
  | [v] => compare .equals e (.unary .plain v)
  | v :: vs => .binary .or (compare .equals e (.unary .plain v)) (among e vs)

/-- The result of the first condition that is true. -/
def select (otherwise : Expression) : List (Expression × Expression) → Expression
  | [] => otherwise
  | (c, e) :: rest => .choose c e (select otherwise rest)

/-- The word that means a part of the current time, in any case. -/
def clock? (word : String) : Option Clock :=
  [("current_date", .date), ("current_time", .time), ("current_timestamp", .timestamp)].lookup
    (foldCase word)

/-- What a word without quotes means. -/
def ofWord (word : String) : Expression :=
  match clock? word with
  | some c => .now c
  | none => .name word false

/-- The condition of a filter, its operands as literals. -/
def ofTerm : Term → Expression
  | .isNull c => isNull (ofWord c)
  | .isNotNull c => isNotNull (ofWord c)
  | .compare c .like _ v => like (ofWord c) (.literal (.ofValue v))
  | .compare c op _ v => compare op (ofWord c) (.literal (.ofValue v))
  | .between c _ lo _ hi => between (ofWord c) (.literal (.ofValue lo)) (.literal (.ofValue hi))

end Expression

end LiveRecords.Table
