import LiveRecords.Name
import LiveRecords.Number.Decimal
import LiveRecords.Text.Hex

/-!
# Tokens

The parts of a declaration in text: words, quoted names, texts, byte strings,
numbers and marks. Blanks and comments stand between them. Each token knows
how much of the text was left before and after it.
-/

namespace LiveRecords.Table

open Number (Decimal)

inductive Token where
  | word (s : String)
  /-- A name in double quotes, backticks or brackets. -/
  | quoted (s : String)
  | text (s : String)
  | blob (octets : List UInt8)
  | number (d : Decimal)
  /-- A whole number in hexadecimal digits. -/
  | hex (n : Nat)
  | mark (s : String)
  deriving DecidableEq, Repr

/-- A token with the number of characters left before and after it. -/
structure Lexeme where
  token : Token
  before : Nat
  after : Nat
  deriving DecidableEq, Repr

namespace Token

def isWord (t : Token) (w : String) : Bool :=
  match t with
  | .word s => sameName s w
  | _ => false

def isMark (t : Token) (m : String) : Bool :=
  match t with
  | .mark s => s == m
  | _ => false

/-- The name a token may stand for. -/
def name? : Token → Option String
  | .word s | .quoted s | .text s => some s
  | _ => none

/-- What stands up to a closing quote, which is written twice to stand for
itself, and the rest. -/
def quotedPart (close : Char) : List Char → List Char × List Char
  | [] => ([], [])
  | [c] => if c = close then ([], []) else ([c], [])
  | c :: d :: cs =>
    if c ≠ close then
      let (part, rest) := quotedPart close (d :: cs)
      (c :: part, rest)
    else if d = close ∧ close ≠ ']' then
      let (part, rest) := quotedPart close cs
      (c :: part, rest)
    else ([], d :: cs)

def isWordChar (c : Char) : Bool := c.isAlphanum || c == '_' || c == '$' || 0x80 ≤ c.toNat

def isWordStart (c : Char) : Bool := isWordChar c && !c.isDigit && c != '$'

/-- What follows a comment in slashes and stars. -/
def afterComment : List Char → List Char
  | '*' :: '/' :: cs => cs
  | _ :: cs => afterComment cs
  | [] => []

def marks : List String :=
  ["->>", "||", "<=", ">=", "<>", "!=", "==", "<<", ">>", "->", "(", ")", ",", ";", "+", "-", "*",
    "/", "%", "=", "<", ">", "&", "|", "~", "."]

/-- The longest mark at the start of a text, and the rest. -/
def mark? (cs : List Char) : Option (String × List Char) :=
  (marks.find? fun m => m.toList.isPrefixOf cs).map fun m => (m, cs.drop m.length)

/-- A number, digits of which may be parted by underscores. -/
def readNumber (cs : List Char) : Token × List Char :=
  let isPart (c : Char) : Bool := c.isDigit || c == '_'
  match cs with
  | '0' :: 'x' :: cs | '0' :: 'X' :: cs =>
    let ds := cs.takeWhile fun c => (Text.Hex.value? c).isSome
    (.hex (ds.foldl (fun n c => 16 * n + (Text.Hex.value? c).getD 0) 0), cs.drop ds.length)
  | cs =>
    let whole := cs.takeWhile isPart
    match Decimal.scan? (whole.filter (· != '_') ++ cs.drop whole.length) with
    | some (d, rest) => (.number d, rest)
    | none => (.mark ".", cs.drop 1)

/-- The token at the start of a text, if no blank or comment stands there, and
the rest. -/
def next (cs : List Char) : Option Token × List Char :=
  match cs with
  | [] => (none, [])
  | '-' :: '-' :: cs => (none, cs.dropWhile fun c => c != Char.ofNat 10)
  | '/' :: '*' :: cs => (none, afterComment cs)
  | '\'' :: cs =>
    let (part, rest) := quotedPart '\'' cs
    (some (.text (String.ofList part)), rest)
  | '.' :: c :: rest =>
    if c.isDigit then
      let (t, rest) := readNumber cs
      (some t, rest)
    else (some (.mark "."), c :: rest)
  | c :: rest =>
    if Decimal.isSpace c then (none, rest)
    else if c = '"' ∨ c = Char.ofNat 96 ∨ c = '[' then
      let (part, rest) := quotedPart (if c = '[' then ']' else c) rest
      (some (.quoted (String.ofList part)), rest)
    else if c.isDigit then
      let (t, rest) := readNumber cs
      (some t, rest)
    else if isWordStart c then
      match c, rest with
      | 'x', '\'' :: rest | 'X', '\'' :: rest =>
        let (part, rest) := quotedPart '\'' rest
        (some (.blob ((Text.Hex.decode? part).getD [])), rest)
      | _, _ => (some (.word (String.ofList (cs.takeWhile isWordChar))), cs.dropWhile isWordChar)
    else match mark? cs with
      | some (m, rest) => (some (.mark m), rest)
      | none => (none, rest)

/-- The tokens of a text, of which at most `fuel` parts are read. -/
def scan : Nat → List Char → List Lexeme
  | 0, _ => []
  | _ + 1, [] => []
  | fuel + 1, c :: cs =>
    match next (c :: cs) with
    | (some t, rest) => ⟨t, cs.length + 1, rest.length⟩ :: scan fuel rest
    | (none, rest) => scan fuel rest

end Token

/-- The tokens of a text. -/
def lexemes (cs : List Char) : List Lexeme := Token.scan cs.length cs

theorem lexemes_nil : lexemes [] = [] := rfl

end LiveRecords.Table
