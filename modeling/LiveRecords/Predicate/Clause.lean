import LiveRecords.Name
import LiveRecords.Predicate

/-!
# Filters as statement text

A filter is rendered as the condition of a statement. Operands never enter the
text: each gets a placeholder named after its column and operator, numbered
from the second use on. A null is accepted only where it means a test for
null.
-/

namespace LiveRecords

inductive PredicateError where
  | invalidColumn (name : String)
  | nullOperand (column : String)
  | operandShape (column : String)
  deriving DecidableEq, Repr

namespace PredicateError

def rule : PredicateError → String
  | .invalidColumn _ => "predicate column is not a valid identifier"
  | .nullOperand _ => "only equals/not-equals accept a NULL operand"
  | .operandShape _ => "BETWEEN takes two operands, other operators take one"

def subject : PredicateError → String
  | .invalidColumn n | .nullOperand n | .operandShape n => n

def message (e : PredicateError) : String := e.rule ++ " (" ++ e.subject ++ ")"

end PredicateError

/-- One condition, with the names of its placeholders. -/
inductive Term where
  | isNull (column : String)
  | isNotNull (column : String)
  | compare (column : String) (op : Comparison) (param : String) (operand : Value)
  | between (column : String) (lowParam : String) (low : Value) (highParam : String) (high : Value)
  deriving DecidableEq

namespace Term

def column : Term → String
  | .isNull c | .isNotNull c | .compare c _ _ _ | .between c _ _ _ _ => c

/-- What follows the column in the text. -/
def tail : Term → String
  | .isNull _ => " IS NULL"
  | .isNotNull _ => " IS NOT NULL"
  | .compare _ op p _ => " " ++ op.symbol ++ " " ++ p
  | .between _ lo _ hi _ => " BETWEEN " ++ lo ++ " AND " ++ hi

def text (t : Term) : String := t.column ++ t.tail

/-- Placeholders with the values bound to them, in the order of the text. -/
def params : Term → List (String × Value)
  | .isNull _ | .isNotNull _ => []
  | .compare _ _ p v => [(p, v)]
  | .between _ lp lo hp hi => [(lp, lo), (hp, hi)]

end Term

/-- A rendered filter. -/
structure Clause where
  terms : List Term := []
  join : Join := .all
  deriving DecidableEq

namespace Clause

def isEmpty (c : Clause) : Bool := c.terms.isEmpty

def fragment (c : Clause) : String :=
  String.intercalate c.join.separator (c.terms.map Term.text)

def params (c : Clause) : List (String × Value) := c.terms.flatMap Term.params

def values (c : Clause) : List Value := c.params.map (·.2)

end Clause

namespace Predicate

/-- The name a predicate asks for, before it is made unique. -/
def placeholder (p : Predicate) : String := p.column ++ "_" ++ p.tag

/-- The `n`-th use of a name carries its number, the first carries none. -/
def numbered (base : String) (n : Nat) : String :=
  if n ≤ 1 then base else base ++ "_" ++ toString n

/-- The condition for a comparison of a column, when `name` is free for it, and whether
it takes that name. -/
def conditionFor (column : String) (operator : Operator) (operand : Operand) (name : String) :
    Except PredicateError (Term × Bool) :=
  match operand, operator with
  | .single .null, .comparison .equals => .ok (.isNull column, false)
  | .single .null, .comparison .notEquals => .ok (.isNotNull column, false)
  | .single .null, _ | .range .null _, _ | .range _ .null, _ => .error (.nullOperand column)
  | .range lo hi, .between => .ok (.between column (name ++ "_lo") lo (name ++ "_hi") hi, true)
  | .single v, .comparison op => .ok (.compare column op name v, true)
  | _, _ => .error (.operandShape column)

/-- The condition for a predicate, when the names in `used` were asked for
before it, and whether it asks for its own. -/
def term (used : List String) (p : Predicate) : Except PredicateError (Term × Bool) :=
  if !isName p.column then .error (.invalidColumn p.column)
  else
    conditionFor p.column p.operator p.operand
      (":" ++ numbered p.placeholder (used.count p.placeholder + 1))

/-- Operands always have the shape that the operator takes. -/
theorem term_eq (used : List String) (p : Predicate) :
    p.term used =
      if !isName p.column then .error (.invalidColumn p.column)
      else
        let name := ":" ++ numbered p.placeholder (used.count p.placeholder + 1)
        match p with
        | .compare c .equals .null => .ok (.isNull c, false)
        | .compare c .notEquals .null => .ok (.isNotNull c, false)
        | .compare c _ .null => .error (.nullOperand c)
        | .compare c op v => .ok (.compare c op name v, true)
        | .between c .null _ => .error (.nullOperand c)
        | .between c _ .null => .error (.nullOperand c)
        | .between c lo hi => .ok (.between c (name ++ "_lo") lo (name ++ "_hi") hi, true) := by
  cases p with
  | compare c op v => cases v <;> cases op <;> rfl
  | between c lo hi => cases lo <;> cases hi <;> rfl

end Predicate

namespace Filter

/-- The conditions for the predicates; the first offending one decides. -/
def terms : List String → List Predicate → Except PredicateError (List Term)
  | _, [] => .ok []
  | used, p :: ps =>
    match p.term used with
    | .error e => .error e
    | .ok (t, named) =>
      match terms (if named then p.placeholder :: used else used) ps with
      | .error e => .error e
      | .ok ts => .ok (t :: ts)

def clause (f : Filter) : Except PredicateError Clause :=
  match terms [] f.predicates with
  | .ok ts => .ok ⟨ts, f.join⟩
  | .error e => .error e

theorem clause_nil (j : Join) : (Filter.mk [] j).clause = .ok ⟨[], j⟩ := rfl

end Filter

end LiveRecords
