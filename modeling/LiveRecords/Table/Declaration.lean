import LiveRecords.Table.Column
import LiveRecords.Table.Expression.Reader

/-!
# Declarations of tables

The columns and constraints that a table is declared with in text. Definitions
stand between commas; one that starts with the word of a constraint is about
the whole table, every other declares a column: its name, its type, and then
its own constraints.
-/

namespace LiveRecords.Table

/-- What the definitions of a table say. -/
structure Declaration where
  columns : List Column := []
  keys : List UniqueKey := []
  checks : List Check := []
  references : List Reference := []
  deriving DecidableEq

namespace Declaration

/-! ## Types -/

/-- What follows the last place of a part in a text, if it is there. -/
def afterLast (part : List Char) : List Char → Option (List Char)
  | [] => none
  | c :: cs =>
    (afterLast part cs).or (if part.isPrefixOf (c :: cs) then some ((c :: cs).drop part.length)
      else none)

/-- The first number in a text, or zero. -/
def firstNumber (cs : List Char) : Nat :=
  let digits := (cs.dropWhile fun c => !c.isDigit).takeWhile Char.isDigit
  let n := digits.foldl (fun n c => 10 * n + (c.toNat - 48)) 0
  if n < 0x80000000 then n else 0

/-- How many words an entry of a declared type is guessed to take. -/
def widthOf (type : String) : Nat :=
  let cs := (foldCase type).toList
  let sized (size : Option Nat) : Nat := min 255 (size.getD 16 / 4 + 1)
  match Affinity.ofTypeName type with
  | .text => sized ((afterLast "char".toList cs).map firstNumber)
  | .none => if type.isEmpty then 1 else sized ((afterLast "blob(".toList cs).map firstNumber)
  | _ => 1

/-! ## Parts of definitions -/

/-- The definitions between the commas outside of brackets. -/
def items : Nat → List Lexeme → List (List Lexeme)
  | _, [] => [[]]
  | depth, t :: ts =>
    if t.token.isMark "," && depth == 0 then [] :: items 0 ts
    else
      let depth :=
        if t.token.isMark "(" then depth + 1 else if t.token.isMark ")" then depth - 1 else depth
      match items depth ts with
      | [] => [[t]]
      | item :: rest => (t :: item) :: rest

/-- The part of the text from one token to another. -/
def spelled (source : List Char) (ts : List Lexeme) : List Char :=
  match ts.head?, ts.getLast? with
  | some a, some b => (source.drop (source.length - a.before)).take (a.before - b.after)
  | _, _ => []

/-- The inside of brackets that open here, and what follows them. -/
def bracketed? : TokenReader (List Lexeme)
  | [] => none
  | t :: ts =>
    if t.token.isMark "(" then
      let (inside, rest) := Lexeme.splitInside 0 ts
      some (inside, rest.drop 1)
    else none

/-- The names at the heads of the items in brackets. -/
def namesOf (inside : List Lexeme) : List String :=
  (items 0 inside).filterMap fun ts => (Lexeme.name? ts).map (·.1)

def resolution? : TokenReader Resolution := fun ts => do
  let (word, rest) ← Lexeme.name? (← Lexeme.afterWords? ["on", "conflict"] ts)
  let r ← [("rollback", .rollback), ("abort", .abort), ("fail", .fail), ("ignore", .ignore),
    ("replace", .replace)].lookup (foldCase word)
  return (r, rest)

/-- What to do where a constraint is broken, if that is said. -/
def optionalResolution (ts : List Lexeme) : Option Resolution × List Lexeme :=
  match resolution? ts with
  | some (r, rest) => (some r, rest)
  | none => (none, ts)

def consequence? (ts : List Lexeme) : Option (Consequence × List Lexeme) :=
  [(["set", "null"], Consequence.setNull), (["set", "default"], .setDefault),
    (["cascade"], .cascade), (["restrict"], .restrict), (["no", "action"], .none)].findSome?
      fun (ws, c) => (Lexeme.afterWords? ws ts).map fun rest => (c, rest)

/-- What a reference says about changes of the other table, with at most `fuel`
clauses. -/
def readConsequences : Nat → Reference → List Lexeme → Reference × List Lexeme
  | 0, r, ts => (r, ts)
  | fuel + 1, r, ts =>
    match (Lexeme.afterWords? ["on", "delete"] ts).bind consequence? with
    | some (c, rest) => readConsequences fuel { r with onDelete := c } rest
    | none =>
      match (Lexeme.afterWords? ["on", "update"] ts).bind consequence? with
      | some (c, rest) => readConsequences fuel { r with onUpdate := c } rest
      | none =>
        match Lexeme.afterWord? "match" ts with
        | some rest => readConsequences fuel r (rest.drop 1)
        | none => (r, ts)

/-- The reference that some columns make. -/
def reference? (columns : List String) : TokenReader Reference := fun ts => do
  let (parent, rest) ← Lexeme.name? (← Lexeme.afterWord? "references" ts)
  let (parentColumns, rest) := match bracketed? rest with
    | some (inside, rest) => (namesOf inside, rest)
    | none => ([], rest)
  return readConsequences rest.length { columns, parent, parentColumns } rest

/-- The name that a check goes by: the name it was given, or else the text of
its condition, of which a quoted head stands for the whole. -/
def checkLabel (given : Option String) (source : List Char) (inside : List Lexeme) : String :=
  given.getD (match spelled source inside with
    | [] => ""
    | c :: cs =>
      if c = '"' ∨ c = '\'' ∨ c = Char.ofNat 96 then
        String.ofList (Token.quotedPart c cs).1
      else if c = '[' then String.ofList (Token.quotedPart ']' cs).1
      else String.ofList (c :: cs))

/-- A check that opens here, if its condition can be read. -/
def check? (given : Option String) (source : List Char) : TokenReader (Option Check) := fun ts => do
  let (inside, rest) ← bracketed? (← Lexeme.afterWord? "check" ts)
  let check := (Expression.ofLexemes? inside).map fun e => ⟨checkLabel given source inside, e⟩
  return (check, rest)

/-- A default value: an expression in brackets, or a single operand, where a
name is a text. -/
def default? : TokenReader Expression := fun ts => do
  let ts ← Lexeme.afterWord? "default" ts
  match bracketed? ts with
  | some (inside, rest) => return (← Expression.ofLexemes? inside, rest)
  | none =>
    let (e, rest) ← Expression.readOperand (2 * ts.length + 2) ts
    match e with
    | .name n quoted =>
      if !quoted && sameName n "true" then return (.ofBool true, rest)
      else if !quoted && sameName n "false" then return (.ofBool false, rest)
      else return (.literal (.text (Text.Utf8.bytes n)), rest)
    | e => return (e, rest)

/-- The expression that a column is computed by. -/
def generator? : TokenReader Expression := fun ts => do
  let ts := (Lexeme.afterWords? ["generated", "always"] ts).getD ts
  let (inside, rest) ← bracketed? (← Lexeme.afterWord? "as" ts)
  return (← Expression.ofLexemes? inside, rest)

/-! ## Columns -/

/-- A column while its constraints are read. -/
structure Draft where
  column : Column
  /-- The name given to the constraints that follow. -/
  label : Option String := none
  unique : List (Option Resolution) := []
  checks : List Check := []
  references : List Reference := []

/-- Reads one constraint of a column, or passes over a token that starts none. -/
def Draft.read (source : List Char) (d : Draft) (ts : List Lexeme) : Draft × List Lexeme :=
  match (Lexeme.afterWord? "constraint" ts).bind Lexeme.name? with
  | some (n, rest) => ({ d with label := some n }, rest)
  | none =>
    match default? ts with
    | some (e, rest) => ({ d with column.default := some e }, rest)
    | none =>
      match Lexeme.afterWords? ["not", "null"] ts with
      | some rest =>
        let (r, rest) := optionalResolution rest
        ({ d with column.notNull := some (r.getD .abort) }, rest)
      | none =>
        match Lexeme.afterWord? "unique" ts with
        | some rest =>
          let (r, rest) := optionalResolution rest
          ({ d with unique := d.unique ++ [r] }, rest)
        | none =>
          match check? d.label source ts with
          | some (c, rest) => ({ d with checks := d.checks ++ c.toList }, rest)
          | none =>
            match reference? [d.column.name] ts with
            | some (r, rest) => ({ d with references := d.references ++ [r] }, rest)
            | none =>
              match (Lexeme.afterWord? "collate" ts).bind Lexeme.name? with
              | some (n, rest) =>
                ({ d with column.collation := (Collation.ofName? n).getD .binary }, rest)
              | none =>
                match generator? ts with
                | some (e, rest) => ({ d with column.generated := some e }, rest)
                | none => (d, ts.drop 1)

def Draft.readAll (source : List Char) : Nat → Draft → List Lexeme → Draft
  | 0, d, _ => d
  | _ + 1, d, [] => d
  | fuel + 1, d, t :: ts =>
    let (d, rest) := d.read source (t :: ts)
    readAll source fuel d rest

/-- The words that end the type of a column. -/
def afterType : List String :=
  ["constraint", "default", "null", "not", "primary", "unique", "check", "references", "collate",
    "as", "generated", "deferrable"]

def endsType (t : Lexeme) : Bool := afterType.any t.token.isWord

/-- Adds the column that a definition declares. Also gives the name that its last
constraints go by. -/
def addColumn (source : List Char) (d : Declaration) (ts : List Lexeme) :
    Option String × Declaration :=
  match Lexeme.name? ts with
  | none => (none, d)
  | some (name, ts) =>
    let type := String.ofList (spelled source (ts.takeWhile fun t => !endsType t))
    let column : Column :=
      { name, affinity := .ofTypeName type, width := widthOf type }
    let done := Draft.readAll source ts.length { column } (ts.dropWhile fun t => !endsType t)
    let c := done.column
    (done.label,
      { columns := d.columns ++ [c]
        keys := done.unique.foldl (fun ks r => UniqueKey.add ⟨[(c.name, c.collation)], r⟩ ks) d.keys
        checks := d.checks ++ done.checks
        references := d.references ++ done.references })

/-! ## Constraints of the whole table -/

def opensConstraint (ts : List Lexeme) : Bool :=
  match ts with
  | [] => false
  | t :: _ => ["constraint", "primary", "unique", "check", "foreign"].any t.token.isWord

/-- The collation of a column, as far as it is declared. -/
def collationOf (d : Declaration) (column : String) : Collation :=
  ((d.columns.find? fun c => sameName c.name column).map Column.collation).getD .binary

/-- A part of a key: a column and the collation it counts under. -/
def keyPart? (d : Declaration) (ts : List Lexeme) : Option (String × Collation) := do
  let (column, rest) ← Lexeme.name? ts
  match (Lexeme.afterWord? "collate" rest).bind Lexeme.name? with
  | some (n, _) => return (column, (Collation.ofName? n).getD .binary)
  | none => return (column, d.collationOf column)

/-- Reads one constraint of the table, or passes over a token that starts none. -/
def readConstraint (source : List Char) (label : Option String) (d : Declaration)
    (ts : List Lexeme) : Option String × Declaration × List Lexeme :=
  match (Lexeme.afterWord? "constraint" ts).bind Lexeme.name? with
  | some (n, rest) => (some n, d, rest)
  | none =>
    match (Lexeme.afterWord? "unique" ts).bind bracketed? with
    | some (inside, rest) =>
      let (r, rest) := optionalResolution rest
      (label, { d with keys := UniqueKey.add ⟨(items 0 inside).filterMap d.keyPart?, r⟩ d.keys },
        rest)
    | none =>
      match check? label source ts with
      | some (c, rest) => (label, { d with checks := d.checks ++ c.toList }, rest)
      | none =>
        match (Lexeme.afterWords? ["foreign", "key"] ts).bind bracketed? with
        | some (inside, rest) =>
          match reference? (namesOf inside) rest with
          | some (r, rest) => (label, { d with references := d.references ++ [r] }, rest)
          | none => (label, d, rest)
        | none => (label, d, ts.drop 1)

def readConstraints (source : List Char) :
    Nat → Option String → Declaration → List Lexeme → Declaration
  | 0, _, d, _ => d
  | _ + 1, _, d, [] => d
  | fuel + 1, label, d, t :: ts =>
    let (label, d, rest) := readConstraint source label d (t :: ts)
    readConstraints source fuel label d rest

/-- Adds what a definition declares. The first constraint after the columns goes
by the name that the last of them left, if it has none itself. -/
def addItem (source : List Char) (state : Option String × Declaration) (ts : List Lexeme) :
    Option String × Declaration :=
  let (label, d) := state
  if opensConstraint ts then (none, readConstraints source ts.length label d ts)
  else d.addColumn source ts

/-- What a table is declared as by some definitions. The primary key stands
before the columns, and its constraint after all others. -/
def ofDefinitions (definitions : List String) : Declaration :=
  let source := (String.intercalate "," definitions).toList
  let (_, d) := (items 0 (lexemes source)).foldl (addItem source) (none, { columns := [.key] })
  { d with keys := UniqueKey.add .primary d.keys }

end Declaration

end LiveRecords.Table
