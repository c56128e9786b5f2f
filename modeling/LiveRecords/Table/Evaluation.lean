import LiveRecords.Table.Expression
import LiveRecords.Table.Function

/-!
# Evaluation

What an expression comes to where names are bound to cells. Two cells are
compared under an affinity and a collation that follow from how both sides are
written: columns lend theirs, and a collation that is spelled out goes before.
-/

namespace LiveRecords.Table

/-- What a name stands for. -/
structure Binding where
  cell : Cell
  affinity : Affinity
  collation : Collation := .binary
  deriving DecidableEq

/-- The names that are bound. -/
abbrev Scope := String → Option Binding

/-- The moment at which everything happens. -/
def Clock.text : Clock → String
  | .date => "2026-06-15"
  | .time => "12:00:00"
  | .timestamp => "2026-06-15 12:00:00"

def Affinity.isNumeric : Affinity → Bool
  | .integer | .numeric | .real => true
  | .text | .none => false

/-- The affinity that two sides are compared under. A side that is no column has
none to lend. -/
def comparisonAffinity : Option Affinity → Option Affinity → Affinity
  | some a, some b => if a.isNumeric || b.isNumeric then .numeric else .none
  | some a, none | none, some a => a
  | none, none => .none

/-- What a comparison says about the order of two cells, neither of them null. -/
def verdict : Comparison → Ordering → Bool
  | .equals, o => o == .eq
  | .notEquals, o => o != .eq
  | .lessThan, o => o == .lt
  | .greaterThan, o => o == .gt
  | .lessOrEqual, o => o != .gt
  | .greaterOrEqual, o => o != .lt
  | .like, _ => false

/-- A comparison of two cells; unknown if one is null. -/
def compareCells (a : Affinity) (k : Collation) (op : Comparison) (x y : Cell) : Option Bool :=
  if x.isNull || y.isNull then none
  else
    let (x, y) := a.align x y
    some (verdict op (x.compareBy k y))

/-- Equality for which two nulls are equal. -/
def sameCell (a : Affinity) (k : Collation) (x y : Cell) : Bool :=
  if x.isNull || y.isNull then x.isNull && y.isNull
  else
    let (x, y) := a.align x y
    x.compareBy k y == .eq

/-- Three-valued conjunction. -/
def bothTrue : Option Bool → Option Bool → Option Bool
  | some false, _ | _, some false => some false
  | some true, v => v
  | none, _ => none

def eitherTrue (a b : Option Bool) : Option Bool := (bothTrue (a.map not) (b.map not)).map not

theorem bothTrue_comm (a b : Option Bool) : bothTrue a b = bothTrue b a := by
  rcases a with _ | _ | _ <;> rcases b with _ | _ | _ <;> rfl

theorem eitherTrue_true (b : Option Bool) : eitherTrue (some true) b = some true := by
  rcases b with _ | _ | _ <;> rfl

namespace Expression

/-- What a name means: what is bound, else a truth value, or a text if it stands
in quotes. -/
def lookUp (s : Scope) (name : String) (quoted : Bool) : Option Binding :=
  match s name with
  | some b => some b
  | none =>
    if quoted then some ⟨.text (Text.Utf8.bytes name), .none, .binary⟩
    else if sameName name "true" then some ⟨.ofBool true, .none, .binary⟩
    else if sameName name "false" then some ⟨.ofBool false, .none, .binary⟩
    else none

/-- The affinity an expression lends. -/
def affinity? (s : Scope) : Expression → Option Affinity
  | .name n _ => (s n).map Binding.affinity
  | .collate e _ => e.affinity? s
  | .cast _ a => some a
  | _ => none

end Expression

mutual

/-- The collation that is spelled out first within an expression. -/
def Expression.spelledOut? : Expression → Option Collation
  | .collate _ k => some k
  | .unary _ e | .cast e _ => e.spelledOut?
  | .binary _ a b => a.spelledOut?.or b.spelledOut?
  | .choose c t e => (c.spelledOut?.or t.spelledOut?).or e.spelledOut?
  | .call _ args => args.spelledOut?
  | .literal _ | .name _ _ | .now _ => none

def Arguments.spelledOut? : Arguments → Option Collation
  | .nil => none
  | .cons e rest => e.spelledOut?.or rest.spelledOut?

end

namespace Expression

/-- The collation of the column that an expression is. -/
def ofColumn? (s : Scope) : Expression → Option Collation
  | .name n _ => (s n).map Binding.collation
  | .unary .plain e | .cast e _ => e.ofColumn? s
  | _ => none

/-- The collation that two sides are compared under. -/
def collation (s : Scope) (a b : Expression) : Collation :=
  ((a.spelledOut?.or b.spelledOut?).or ((a.ofColumn? s).or (b.ofColumn? s))).getD .binary

end Expression

/-- The collation that a call compares its arguments under. -/
def Arguments.collation (s : Scope) : Arguments → Collation
  | .nil => .binary
  | .cons e rest => ((e.spelledOut?.or (e.ofColumn? s))).getD (rest.collation s)

def UnaryOp.apply : UnaryOp → Cell → Cell
  | .plain, c => c
  | .negate, c => Cell.minus (.integer 0) c
  | .complement, c => if c.isNull then .null else .integer (-1 - Int64.ofInt c.toInt)
  | .not, c => .ofTruth (c.truth.map (!·))

/-- An operator on two cells that are compared under an affinity and a
collation. -/
def BinaryOp.apply (a : Affinity) (k : Collation) : BinaryOp → Cell → Cell → Cell
  | .or, x, y => .ofTruth (eitherTrue x.truth y.truth)
  | .and, x, y => .ofTruth (bothTrue x.truth y.truth)
  | .is, x, y => .ofBool (sameCell a k x y)
  | .isNot, x, y => .ofBool !(sameCell a k x y)
  | .compare op, x, y => .ofTruth (compareCells a k op x y)
  | .plus, x, y => x.plus y
  | .minus, x, y => x.minus y
  | .times, x, y => x.times y
  | .dividedBy, x, y => x.dividedBy y
  | .modulo, x, y => x.modulo y
  | .join, x, y => x.join y
  | .bitAnd, x, y => Cell.ofWords (· &&& ·) x y
  | .bitOr, x, y => Cell.ofWords (· ||| ·) x y
  | .shiftLeft, x, y => Cell.ofWords (fun n k => Cell.shiftWord n k.toInt) x y
  | .shiftRight, x, y => Cell.ofWords (fun n k => Cell.shiftWord n (-k.toInt)) x y

/-- Whether the left side alone decides the result. -/
def BinaryOp.isDecided : BinaryOp → Cell → Bool
  | .and, x => x.truth == some false
  | .or, x => x.truth == some true
  | _, _ => false

mutual

/-- The value of an expression. -/
def Expression.eval (s : Scope) : Expression → Except Refusal Cell
  | .literal c => .ok c
  | .name n quoted => .ok (((Expression.lookUp s n quoted).map Binding.cell).getD .null)
  | .now c => .ok (.text (Text.Utf8.bytes c.text))
  | .unary op e =>
    match e.eval s with
    | .error r => .error r
    | .ok c => .ok (op.apply c)
  | .binary op a b =>
    match a.eval s with
    | .error r => .error r
    | .ok x =>
      if op.isDecided x then .ok (op.apply .none .binary x .null)
      else match b.eval s with
        | .error r => .error r
        | .ok y =>
          .ok (op.apply (comparisonAffinity (a.affinity? s) (b.affinity? s))
            (Expression.collation s a b) x y)
  | .collate e _ => e.eval s
  | .cast e a =>
    match e.eval s with
    | .error r => .error r
    | .ok c => .ok (a.convert c)
  | .choose c t e =>
    match c.eval s with
    | .error r => .error r
    | .ok x => if x.truth = some true then t.eval s else e.eval s
  | .call f args =>
    match args.eval s with
    | .error r => .error r
    | .ok cs => Function.apply f (args.collation s) cs

def Arguments.eval (s : Scope) : Arguments → Except Refusal (List Cell)
  | .nil => .ok []
  | .cons e rest =>
    match e.eval s, rest.eval s with
    | .error r, _ => .error r
    | _, .error r => .error r
    | .ok c, .ok cs => .ok (c :: cs)

end

namespace Expression

/-- Whether an expression is true; unknown for a null. -/
def truth (s : Scope) (e : Expression) : Except Refusal (Option Bool) := (e.eval s).map Cell.truth

theorem eval_isNull (s : Scope) (e : Expression) (c : Cell) (h : e.eval s = .ok c) :
    (isNull e).eval s = .ok (.ofBool c.isNull) := by
  simp [isNull, null, Expression.eval, h, BinaryOp.isDecided, BinaryOp.apply, sameCell,
    Cell.isNull]

/-- Whether a word in an expression means nothing. -/
def isStray (s : Scope) (word : String) : Bool :=
  (clock? word).isNone && (lookUp s word false).isNone

end Expression

end LiveRecords.Table
