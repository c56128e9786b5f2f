import LiveRecords.Table.Expression
import LiveRecords.Table.Token

/-!
# Reading expressions

Operators bind in levels: a loose one takes tighter ones on both sides, and
those of one level are grouped from the left. Every function reads from the
start of some tokens, and gives what it read and the tokens after it.
-/

namespace LiveRecords.Table

/-- Reads from the start of some tokens. -/
abbrev TokenReader (α : Type) := List Lexeme → Option (α × List Lexeme)

namespace Lexeme

/-- The tokens after a word, if it stands at their start. -/
def afterWord? (w : String) : List Lexeme → Option (List Lexeme)
  | [] => none
  | t :: ts => if t.token.isWord w then some ts else none

/-- The tokens after some words, if they stand at their start. -/
def afterWords? (ws : List String) (ts : List Lexeme) : Option (List Lexeme) :=
  ws.foldlM (fun ts w => afterWord? w ts) ts

def afterMark? (m : String) : List Lexeme → Option (List Lexeme)
  | [] => none
  | t :: ts => if t.token.isMark m then some ts else none

/-- A name at the start. -/
def name? : TokenReader String
  | [] => none
  | t :: ts => t.token.name?.map fun n => (n, ts)

/-- What follows a bracket that was opened, up to the end of its inside, and
from its closing bracket on. -/
def splitInside : Nat → List Lexeme → List Lexeme × List Lexeme
  | _, [] => ([], [])
  | depth, t :: ts =>
    if t.token.isMark ")" && depth == 0 then ([], t :: ts)
    else
      let depth :=
        if t.token.isMark "(" then depth + 1 else if t.token.isMark ")" then depth - 1 else depth
      let (inside, rest) := splitInside depth ts
      (t :: inside, rest)

end Lexeme

/-! ## Types -/

def hasInfix (part : List Char) : List Char → Bool
  | [] => part.isEmpty
  | c :: cs => part.isPrefixOf (c :: cs) || hasInfix part cs

def Affinity.typeContains (typeName : String) (part : String) : Bool :=
  hasInfix part.toList (foldCase typeName).toList

/-- The affinity of a declared type: the first of these that its name contains. -/
def Affinity.ofTypeName (typeName : String) : Affinity :=
  let contains := Affinity.typeContains typeName
  if contains "int" then .integer
  else if contains "char" || contains "clob" || contains "text" then .text
  else if contains "blob" || typeName.isEmpty then .none
  else if contains "real" || contains "floa" || contains "doub" then .real
  else .numeric

def Collation.ofName? (name : String) : Option Collation :=
  [("binary", .binary), ("nocase", .noCase), ("rtrim", .trimmed)].lookup (foldCase name)

namespace Expression

/-! ## Operators -/

def notLevel : Nat := 3
def equalityLevel : Nat := 4
def collateLevel : Nat := 11

/-- The operators with a side on the left and one on the right, by their level. -/
def operatorMarks : List (String × Nat × BinaryOp) :=
  [("=", 4, .compare .equals), ("==", 4, .compare .equals), ("<>", 4, .compare .notEquals),
    ("!=", 4, .compare .notEquals), ("<", 5, .compare .lessThan), ("<=", 5, .compare .lessOrEqual),
    (">", 5, .compare .greaterThan), (">=", 5, .compare .greaterOrEqual), ("&", 7, .bitAnd),
    ("|", 7, .bitOr), ("<<", 7, .shiftLeft), (">>", 7, .shiftRight), ("+", 8, .plus),
    ("-", 8, .minus), ("*", 9, .times), ("/", 9, .dividedBy), ("%", 9, .modulo), ("||", 10, .join)]

/-- An operator at the start, its level, and the tokens after it. -/
def operator? : List Lexeme → Option (BinaryOp × Nat × List Lexeme)
  | [] => none
  | t :: ts =>
    if t.token.isWord "or" then some (.or, 1, ts)
    else if t.token.isWord "and" then some (.and, 2, ts)
    else
      (operatorMarks.find? fun o => t.token.isMark o.1).map fun o => (o.2.2, o.2.1, ts)

/-- The expression itself, or its negation. -/
def negateIf (negated : Bool) (e : Expression) : Expression := if negated then not e else e

/-- The expression without collations around it. -/
def uncollated : Expression → Expression
  | .collate e _ => e.uncollated
  | e => e

/-- A test for a truth value, for being null, or for being the same. -/
def ofIs (negated : Bool) (a b : Expression) : Expression :=
  match b.uncollated with
  | .name n false =>
    if sameName n "true" then .choose a (ofBool !negated) (ofBool negated)
    else if sameName n "false" then .choose (not a) (ofBool !negated) (ofBool negated)
    else .binary (if negated then .isNot else .is) a b
  | _ => .binary (if negated then .isNot else .is) a b

/-- The tokens after "not", if it stands at the start, and whether it does. -/
def optionalNot (ts : List Lexeme) : Bool × List Lexeme :=
  match Lexeme.afterWord? "not" ts with
  | some ts => (true, ts)
  | none => (false, ts)

/-- The words of a type, and what may stand in brackets after them. -/
def typeName : List Lexeme → String × List Lexeme
  | [] => ("", [])
  | t :: ts =>
    match t.token.name? with
    | some n =>
      let (more, rest) := typeName ts
      (if more.isEmpty then n else n ++ " " ++ more, rest)
    | none =>
      if t.token.isMark "(" then ("", (Lexeme.splitInside 0 ts).2.drop 1) else ("", t :: ts)

/-! ## Grammar -/

mutual

/-- An expression whose operators bind at least as tight as a level. -/
def read : Nat → Nat → TokenReader Expression
  | 0, _, _ => none
  | fuel + 1, level, ts => do
    let (e, ts) ← readOperand fuel ts
    readOn fuel level e ts

/-- An expression without an operator at its right. -/
def readOperand : Nat → TokenReader Expression
  | 0, _ => none
  | _ + 1, [] => none
  | fuel + 1, t :: ts =>
    match t.token with
    | .number d => some (.literal (.ofDecimal d), ts)
    | .hex n => some (.literal (.integer (Int64.ofNat n)), ts)
    | .text s => some (.literal (.text (Text.Utf8.bytes s)), ts)
    | .blob o => some (.literal (.blob o), ts)
    | .quoted s => some (.name s true, ts)
    | .mark m => readMarked fuel m ts
    | .word w => readWord fuel w ts

/-- An operand that starts with a mark. -/
def readMarked : Nat → String → TokenReader Expression
  | 0, _, _ => none
  | fuel + 1, m, ts =>
    if m = "(" then do
      let (e, ts) ← read fuel 0 ts
      return (e, ← Lexeme.afterMark? ")" ts)
    else if m = "-" then
      match ts with
      | ⟨.number d, _, _⟩ :: ts => some (.literal (.ofDecimal { d with negative := true }), ts)
      | ts => do
        let (e, ts) ← readOperand fuel ts
        return (.unary .negate e, ts)
    else if m = "+" then do
      let (e, ts) ← readOperand fuel ts
      return (.unary .plain e, ts)
    else if m = "~" then do
      let (e, ts) ← readOperand fuel ts
      return (.unary .complement e, ts)
    else none

/-- An operand that starts with a word. -/
def readWord : Nat → String → TokenReader Expression
  | 0, _, _ => none
  | fuel + 1, w, ts =>
    if sameName w "null" then some (null, ts)
    else if sameName w "not" then do
      let (e, ts) ← read fuel notLevel ts
      return (not e, ts)
    else if sameName w "case" then
      match Lexeme.afterWord? "when" ts with
      | some _ => readBranches fuel none ts
      | none => do
        let (e, ts) ← read fuel 0 ts
        readBranches fuel (some e) ts
    else if sameName w "cast" then do
      let (e, ts) ← read fuel 0 (← Lexeme.afterMark? "(" ts)
      let (type, ts) := typeName (← Lexeme.afterWord? "as" ts)
      return (.cast e (.ofTypeName type), ← Lexeme.afterMark? ")" ts)
    else match Lexeme.afterMark? "(" ts with
      | some ts => do
        let (args, ts) ← readList fuel ts
        return (.invoke w args, ts)
      | none =>
        match Lexeme.afterMark? "." ts with
        | some ts => readOperand fuel ts
        | none => some (ofWord w, ts)

/-- The branches of a choice, each a condition and a result; with a subject, the
conditions are values that it may equal. -/
def readBranches : Nat → Option Expression → TokenReader Expression
  | 0, _, _ => none
  | fuel + 1, subject, ts =>
    match Lexeme.afterWord? "when" ts with
    | some ts => do
      let (c, ts) ← read fuel 0 ts
      let (e, ts) ← read fuel 0 (← Lexeme.afterWord? "then" ts)
      let (rest, ts) ← readBranches fuel subject ts
      let c := match subject with
        | some s => compare .equals s c
        | none => c
      return (.choose c e rest, ts)
    | none =>
      match Lexeme.afterWord? "else" ts with
      | some ts => do
        let (e, ts) ← read fuel 0 ts
        return (e, ← Lexeme.afterWord? "end" ts)
      | none => do return (null, ← Lexeme.afterWord? "end" ts)

/-- Expressions between commas, up to a closing bracket. -/
def readList : Nat → TokenReader (List Expression)
  | 0, _ => none
  | fuel + 1, ts =>
    match Lexeme.afterMark? ")" ts with
    | some ts => some ([], ts)
    | none => do
      let (e, ts) ← read fuel 0 ts
      match Lexeme.afterMark? "," ts with
      | some ts =>
        let (es, ts) ← readList fuel ts
        return (e :: es, ts)
      | none => return ([e], ← Lexeme.afterMark? ")" ts)

/-- Goes on after an expression with operators that bind at least as tight as a
level. -/
def readOn : Nat → Nat → Expression → TokenReader Expression
  | 0, _, _, _ => none
  | fuel + 1, level, e, ts =>
    match operator? ts with
    | some (op, own, rest) =>
      if own < level then some (e, ts)
      else do
        let (right, rest) ← read fuel (own + 1) rest
        readOn fuel level (.binary op e right) rest
    | none =>
      match Lexeme.afterWord? "collate" ts with
      | some rest =>
        if collateLevel < level then some (e, ts)
        else do
          let (word, rest) ← Lexeme.name? rest
          readOn fuel level (.collate e ((Collation.ofName? word).getD .binary)) rest
      | none =>
        if equalityLevel < level then some (e, ts)
        else match readTest fuel e ts with
          | some (e, rest) => readOn fuel level e rest
          | none => some (e, ts)

/-- A test in words after an expression. -/
def readTest : Nat → Expression → TokenReader Expression
  | 0, _, _ => none
  | fuel + 1, e, ts =>
    match Lexeme.afterWord? "is" ts with
    | some ts => do
      let (negated, ts) := optionalNot ts
      match Lexeme.afterWords? ["distinct", "from"] ts with
      | some ts =>
        let (right, ts) ← read fuel (equalityLevel + 1) ts
        return (ofIs (!negated) e right, ts)
      | none =>
        let (right, ts) ← read fuel (equalityLevel + 1) ts
        return (ofIs negated e right, ts)
    | none =>
      let (negated, rest) := optionalNot ts
      match rest with
      | [] => none
      | t :: rest =>
        if t.token.isWord "isnull" && !negated then some (isNull e, rest)
        else if t.token.isWord "notnull" && !negated then some (isNotNull e, rest)
        else if t.token.isWord "null" && negated then some (isNotNull e, rest)
        else if t.token.isWord "like" || t.token.isWord "glob" then do
          let function := if t.token.isWord "like" then "like" else "glob"
          let (pattern, rest) ← read fuel (equalityLevel + 1) rest
          match Lexeme.afterWord? "escape" rest with
          | some rest =>
            let (mark, rest) ← read fuel (equalityLevel + 1) rest
            return (negateIf negated (invoke function [pattern, e, mark]), rest)
          | none => return (negateIf negated (invoke function [pattern, e]), rest)
        else if t.token.isWord "between" then do
          let (low, rest) ← read fuel notLevel rest
          let (high, rest) ← read fuel (equalityLevel + 1) (← Lexeme.afterWord? "and" rest)
          return (negateIf negated (between e low high), rest)
        else if t.token.isWord "in" then do
          let (vs, rest) ← readList fuel (← Lexeme.afterMark? "(" rest)
          return (negateIf negated (among e vs), rest)
        else none

end

/-- An expression that fills all tokens. -/
def ofLexemes? (ts : List Lexeme) : Option Expression :=
  match read (8 * ts.length + 8) 0 ts with
  | some (e, []) => some e
  | _ => none

/-- An expression in text. -/
def parse? (s : String) : Option Expression := ofLexemes? (lexemes s.toList)

end Expression

end LiveRecords.Table
