import LiveRecords.Json.Skip
import LiveRecords.Name
import LiveRecords.Table.Arithmetic
import LiveRecords.Table.Pattern
import LiveRecords.Table.Refusal

/-!
# Functions

The functions that an expression may call. Each gets all its arguments, which
are null, a number, a text or a byte string; a null argument mostly makes the
result null. Characters of a text end at its first NUL.
-/

namespace LiveRecords.Table.Function

open Number (Binary64 Decimal)

/-! ## Characters -/

/-- The characters of a text as groups of octets. -/
def groups : Nat → List UInt8 → List (List UInt8)
  | 0, _ => []
  | _ + 1, [] => []
  | fuel + 1, b :: bs =>
    if b = 0 then []
    else if b.toNat < 0xC0 then [b] :: groups fuel bs
    else
      (b :: bs.takeWhile Pattern.isContinuation) ::
        groups fuel (bs.dropWhile Pattern.isContinuation)

def characters (octets : List UInt8) : List (List UInt8) := groups octets.length octets

/-- Where the second list first occurs in the first, counted from one. -/
def positionOf {α : Type} [BEq α] (part : List α) : Nat → List α → Nat
  | n, [] => if part.isEmpty then n else 0
  | n, a :: as => if part.isPrefixOf (a :: as) then n else positionOf part (n + 1) as

/-- A stretch of a list, by a start and a length as numbers from one on; a
negative start counts from the end, a negative length goes backwards. -/
def stretch {α : Type} (start : Int) (length : Option Int) (as : List α) : List α :=
  let size : Int := as.length
  let count : Int := (length.map fun n => (n.natAbs : Int)).getD (size + start.natAbs + 1)
  let (start, count) : Int × Int :=
    if start < 0 then
      if start + size < 0 then (0, max 0 (count + (start + size))) else (start + size, count)
    else if 0 < start then (start - 1, count)
    else (0, if 0 < count then count - 1 else count)
  let (start, count) : Int × Int :=
    if length.any (· < 0) then
      if start - count < 0 then (0, max 0 (count + (start - count))) else (start - count, count)
    else (start, count)
  (as.drop start.toNat).take count.toNat

/-- Cuts the members of a set off the start of a list. -/
def trimStart (set cs : List (List UInt8)) : List (List UInt8) := cs.dropWhile set.contains

def trimEnd (set cs : List (List UInt8)) : List (List UInt8) :=
  (trimStart set cs.reverse).reverse

/-- Puts one stretch of octets in place of another wherever it stands. -/
def replaceAll (old new : List UInt8) : Nat → List UInt8 → List UInt8
  | 0, s => s
  | _ + 1, [] => []
  | fuel + 1, b :: bs =>
    if !old.isEmpty && old.isPrefixOf (b :: bs) then
      new ++ replaceAll old new fuel ((b :: bs).drop old.length)
    else b :: replaceAll old new fuel bs

def isUpper (b : UInt8) : Bool := 65 ≤ b.toNat && b.toNat ≤ 90

def isLower (b : UInt8) : Bool := 97 ≤ b.toNat && b.toNat ≤ 122

/-- Two hexadecimal digits, in capitals. -/
def hexOctets (b : UInt8) : List UInt8 :=
  [b.toNat / 16, b.toNat % 16].map fun d => UInt8.ofNat (if d < 10 then 48 + d else 55 + d)

/-! ## Results -/

def ofNat (n : Nat) : Cell := .integer (Int64.ofNat n)

def ofText (s : String) : Cell := .text (Text.Utf8.bytes s)

/-- A cell that is no byte string as a text. -/
def mapText (f : List UInt8 → List UInt8) (c : Cell) : Cell :=
  if c.isNull then .null else .text (f c.toOctets)

def typeName : Cell → String
  | .null => "null"
  | .integer _ => "integer"
  | .real _ => "real"
  | .text _ => "text"
  | .blob _ => "blob"

def length : Cell → Cell
  | .null => .null
  | .blob o => ofNat o.length
  | c => ofNat (characters c.toOctets).length

def substring (c start : Cell) (count : Option Cell) : Cell :=
  if c.isNull || start.isNull || count.any Cell.isNull then .null
  else
    let count := count.map Cell.toInt
    match c with
    | .blob o => .blob (stretch start.toInt count o)
    | c => .text (stretch start.toInt count (characters c.toOctets)).flatten

def trim (atStart atEnd : Bool) (c : Cell) (set : List UInt8) : Cell :=
  if c.isNull then .null
  else
    let cut (cs : List (List UInt8)) : List (List UInt8) :=
      let set := characters set
      let cs := if atStart then trimStart set cs else cs
      if atEnd then trimEnd set cs else cs
    .text (cut (characters c.toOctets)).flatten

def position (c part : Cell) : Cell :=
  if c.isNull || part.isNull then .null
  else match c, part with
    | .blob o, .blob p => ofNat (positionOf p 1 o)
    | c, part => ofNat (positionOf (characters part.toOctets) 1 (characters c.toOctets))

def replace (c old new : Cell) : Cell :=
  if c.isNull || old.isNull || new.isNull then .null
  else .text (replaceAll old.toOctets new.toOctets c.toOctets.length c.toOctets)

/-- The size of a number; the smallest integer has none. -/
def absolute (c : Cell) : Except Refusal Cell :=
  match c with
  | .null => .ok .null
  | .integer n =>
    if n.toInt = -0x8000000000000000 then .error (.unavailable "integer overflow")
    else .ok (.integer (Int64.ofNat n.toInt.natAbs))
  | c => .ok (.real (if c.toDouble.isNegative then c.toDouble.neg else c.toDouble))

/-- Rounds to some decimal places, a half going away from zero. -/
def round (c : Cell) (places : Int) : Cell :=
  match c with
  | .null => .null
  | .integer n => .real (.ofInt n.toInt)
  | c =>
    match c.toDouble with
    | .infinite negative => .real (.infinite negative)
    | .finite q =>
      let scale : Nat := Nat.pow 10 (max 0 (min 30 places)).toNat
      let n := (2 * q.num.natAbs * scale + q.den) / (2 * q.den)
      .real (Binary64.ofQuotient (decide (q < 0)) n scale)

def sign (c : Cell) : Cell :=
  match c.numeric with
  | .integer n => .integer (if n.toInt < 0 then -1 else if n.toInt = 0 then 0 else 1)
  | .real x => .integer (if x.isNegative then -1 else if x.isZero then 0 else 1)
  | _ => .null

/-- The literal that stands for a cell. -/
def quote : Cell → Cell
  | .null => ofText "NULL"
  | .blob o => .text (Text.Utf8.bytes "X'" ++ o.flatMap hexOctets ++ [39])
  | .text o => .text ([39] ++ o.flatMap (fun b => if b = 39 then [39, 39] else [b]) ++ [39])
  | c => .text c.toOctets

/-- The cell that none of the others is to be preferred to, the last of several
if it is `preferred` to itself; null if one is null. -/
def extreme (k : Collation) (preferred : Ordering → Bool) : List Cell → Cell
  | [] => .null
  | c :: cs =>
    if (c :: cs).any Cell.isNull then .null
    else cs.foldl (fun best c => if preferred (c.compareBy k best) then c else best) c

/-- The octets that hexadecimal digits spell. -/
def unhex (c : Cell) : Cell :=
  match c with
  | .null => .null
  | c =>
    match Text.Hex.decode? (asciiText c.toOctets) with
    | some o => .blob o
    | none => .null

def isJson (c : Cell) : Cell :=
  match c with
  | .null => .null
  | c =>
    let o := c.toOctets
    match Json.skipValue (o.length + 1) o with
    | .ok rest => .ofBool (Json.skipBlanks rest).isEmpty
    | .error _ => .ofBool false

/-! ## Patterns -/

/-- Whether a cell matches a plain pattern; unknown for a null. -/
def like (pattern c : Cell) (escape : Option Cell) : Except Refusal Cell :=
  if Pattern.maxOctets < pattern.toOctets.length then .error .patternTooComplex
  else match escape.map fun e => (e.isNull, Pattern.codes e.toOctets) with
    | some (true, _) => .ok .null
    | some (false, [n]) => .ok (answer (some n))
    | some (false, _) => .error (.unavailable "ESCAPE expression must be a single character")
    | none => .ok (answer none)
where
  answer (escape : Option Nat) : Cell :=
    if pattern.isNull || c.isNull then .null
    else .ofBool (Pattern.accepts escape pattern.toOctets c.toOctets)

/-- Whether a cell matches a strict pattern; unknown for a null. -/
def glob (pattern c : Cell) : Except Refusal Cell :=
  if Pattern.maxOctets < pattern.toOctets.length then .error .patternTooComplex
  else if pattern.isNull || c.isNull then .ok .null
  else .ok (.ofBool (Pattern.acceptsStrictly pattern.toOctets c.toOctets))

/-! ## All functions -/

/-- The result of a function on cells, where the first argument is compared
under a collation. What is called with arguments it does not take is null. -/
def apply (name : String) (k : Collation) (args : List Cell) : Except Refusal Cell :=
  match foldCase name, args with
  | "typeof", [c] => .ok (ofText (typeName c))
  | "length", [c] => .ok (length c)
  | "octet_length", [c] => .ok (if c.isNull then .null else ofNat c.toOctets.length)
  | "lower", [c] => .ok (mapText (·.map fun b => if isUpper b then b + 32 else b) c)
  | "upper", [c] => .ok (mapText (·.map fun b => if isLower b then b - 32 else b) c)
  | "abs", [c] => absolute c
  | "sign", [c] => .ok (sign c)
  | "round", [c] => .ok (round c 0)
  | "round", [c, n] => .ok (if n.isNull then .null else round c n.toInt)
  | "coalesce", cs => .ok ((cs.find? fun c => !c.isNull).getD .null)
  | "ifnull", [a, b] => .ok (if a.isNull then b else a)
  | "nullif", [a, b] => .ok (if a.compareBy k b = .eq then .null else a)
  | "iif", [c, t, e] | "if", [c, t, e] => .ok (if c.truth = some true then t else e)
  | "iif", [c, t] | "if", [c, t] => .ok (if c.truth = some true then t else .null)
  | "substr", [c, s] | "substring", [c, s] => .ok (substring c s none)
  | "substr", [c, s, n] | "substring", [c, s, n] => .ok (substring c s (some n))
  | "trim", [c] => .ok (trim true true c [32])
  | "ltrim", [c] => .ok (trim true false c [32])
  | "rtrim", [c] => .ok (trim false true c [32])
  | "trim", [c, s] => .ok (if s.isNull then .null else trim true true c s.toOctets)
  | "ltrim", [c, s] => .ok (if s.isNull then .null else trim true false c s.toOctets)
  | "rtrim", [c, s] => .ok (if s.isNull then .null else trim false true c s.toOctets)
  | "instr", [c, p] => .ok (position c p)
  | "replace", [c, old, new] => .ok (replace c old new)
  | "hex", [c] => .ok (.text (c.toOctets.flatMap hexOctets))
  | "unhex", [c] => .ok (unhex c)
  | "quote", [c] => .ok (quote c)
  | "unicode", [c] =>
    .ok (((Pattern.codes c.toOctets).head?.map ofNat).getD .null)
  | "char", cs =>
    .ok (.text (cs.flatMap fun c => Text.Utf8.encodeChar (Char.ofNat c.toInt.toNat)))
  | "zeroblob", [c] => .ok (.blob (List.replicate (min c.toInt.toNat 1000000) 0))
  | "min", a :: b :: cs => .ok (extreme k (· != .gt) (a :: b :: cs))
  | "max", a :: b :: cs => .ok (extreme k (· == .gt) (a :: b :: cs))
  | "concat", cs => .ok (.text (cs.flatMap Cell.toOctets))
  | "concat_ws", s :: cs =>
    .ok (if s.isNull then .null
      else .text (s.toOctets.intercalate ((cs.filter fun c => !c.isNull).map Cell.toOctets)))
  | "likely", [c] | "unlikely", [c] | "likelihood", [c, _] => .ok c
  | "like", [p, c] => like p c none
  | "like", [p, c, e] => like p c (some e)
  | "glob", [p, c] => glob p c
  | "json_valid", [c] => .ok (isJson c)
  | _, _ => .ok .null

theorem like_null (pattern : Cell) (h : pattern.toOctets.length ≤ Pattern.maxOctets) :
    like pattern .null none = .ok .null := by
  simp [like, like.answer, Nat.not_lt.2 h, Cell.isNull]

end LiveRecords.Table.Function
