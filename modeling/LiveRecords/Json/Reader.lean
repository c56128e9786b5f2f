import LiveRecords.Json
import LiveRecords.Json.Number

/-!
# Reading structured values

Octets are read left to right, and the first problem decides what kind of
fault is reported: text that is malformed, text that ends early, or a value of
another shape than the one asked for. Values may nest 127 deep.
-/

namespace LiveRecords

namespace Json

inductive Fault where
  | malformed
  | unfinished
  | wrongShape
  deriving DecidableEq, Repr

/-- A value from the start of the octets, and the octets after it. -/
abbrev Read (α : Type) := List UInt8 → Except Fault (α × List UInt8)

/-- How deep values may nest, and one more. -/
def depthLimit : Nat := 128

def isBlankOctet (b : UInt8) : Bool := b == 32 || b == 9 || b == 10 || b == 13

def skipBlanks (bs : List UInt8) : List UInt8 := bs.dropWhile isBlankOctet

def octet (c : Char) : UInt8 := UInt8.ofNat c.toNat

def isDigitOctet (b : UInt8) : Bool := 48 ≤ b.toNat && b.toNat ≤ 57

/-- Reads exactly these octets. -/
def expect : List Char → List UInt8 → Except Fault (List UInt8)
  | [], bs => .ok bs
  | _ :: _, [] => .error .unfinished
  | c :: cs, b :: bs => if b = octet c then expect cs bs else .error .malformed

/-! ## Strings -/

/-- Four hexadecimal digits. -/
def hexFour : List UInt8 → Except Fault (Nat × List UInt8)
  | a :: b :: c :: d :: rest =>
    let value? (o : UInt8) := Text.Hex.value? (Char.ofNat o.toNat)
    match value? a, value? b, value? c, value? d with
    | some a, some b, some c, some d => .ok (((a * 16 + b) * 16 + c) * 16 + d, rest)
    | _, _, _, _ => .error .malformed
  | _ => .error .unfinished

/-- The second half of a pair of surrogates. -/
def lowSurrogate (high : Nat) (bs : List UInt8) : Except Fault (Nat × List UInt8) := do
  let bs ← expect ['\\', 'u'] bs
  let (low, bs) ← hexFour bs
  if low < 0xDC00 ∨ 0xDFFF < low then throw .malformed
  return (0x10000 + (high - 0xD800) * 0x400 + (low - 0xDC00), bs)

/-- The character that a `\u` escape stands for; surrogates come in pairs. -/
def unicodeEscape (bs : List UInt8) : Except Fault (Nat × List UInt8) := do
  let (n, bs) ← hexFour bs
  if 0xDC00 ≤ n ∧ n ≤ 0xDFFF then throw .malformed
  else if 0xD800 ≤ n ∧ n ≤ 0xDBFF then lowSurrogate n bs
  else return (n, bs)

/-- The octet that a one-letter escape stands for. -/
def shortEscape? (b : UInt8) : Option UInt8 :=
  if b = octet '"' ∨ b = octet '\\' ∨ b = octet '/' then some b
  else if b = octet 'b' then some 8
  else if b = octet 'f' then some 12
  else if b = octet 'n' then some 10
  else if b = octet 'r' then some 13
  else if b = octet 't' then some 9
  else none

/-- What stands after a backslash, as octets. -/
def escape : Read (List UInt8)
  | [] => .error .unfinished
  | b :: bs =>
    if b = octet 'u' then do
      let (n, bs) ← unicodeEscape bs
      return (Text.Utf8.encodeChar (Char.ofNat n), bs)
    else match shortEscape? b with
      | some o => .ok ([o], bs)
      | none => .error .malformed

/-- The octets of a string up to its closing quote. -/
def stringOctets : Nat → Read (List UInt8)
  | _, [] => .error .unfinished
  | 0, _ :: _ => .error .unfinished
  | fuel + 1, b :: bs =>
    if b = octet '"' then .ok ([], bs)
    else if b = octet '\\' then
      match escape bs with
      | .error e => .error e
      | .ok (os, bs) =>
        match stringOctets fuel bs with
        | .error e => .error e
        | .ok (more, bs) => .ok (os ++ more, bs)
    else if b < 32 then .error .malformed
    else
      match stringOctets fuel bs with
      | .error e => .error e
      | .ok (more, bs) => .ok (b :: more, bs)

/-- A string after its opening quote. -/
def stringBody (bs : List UInt8) : Except Fault (String × List UInt8) :=
  match stringOctets bs.length bs with
  | .error e => .error e
  | .ok (os, bs) =>
    match Text.Utf8.text? os with
    | some s => .ok (s, bs)
    | none => .error .malformed

/-! ## Numbers -/

def digitsOf (bs : List UInt8) : List Char :=
  (bs.takeWhile isDigitOctet).map fun b => Char.ofNat b.toNat

def afterDigits (bs : List UInt8) : List UInt8 := bs.dropWhile isDigitOctet

/-- The digits before the point: a zero stands alone. -/
def wholeDigits (bs : List UInt8) : Except Fault (List Char × List UInt8) :=
  match digitsOf bs with
  | [] => .error (if bs.isEmpty then .unfinished else .malformed)
  | '0' :: _ :: _ => .error .malformed
  | ds => .ok (ds, afterDigits bs)

/-- The digits after a point or an exponent mark: at least one. -/
def someDigits (bs : List UInt8) : Except Fault (List Char × List UInt8) :=
  match digitsOf bs with
  | [] => .error (if bs.isEmpty then .unfinished else .malformed)
  | ds => .ok (ds, afterDigits bs)

def startsWithMark (a b : Char) : List UInt8 → Bool
  | c :: _ => c == octet a || c == octet b
  | [] => false

/-- A written exponent, with its sign. -/
def exponentPart (bs : List UInt8) : Except Fault ((Bool × Nat) × List UInt8) := do
  let negative := startsWithMark '-' '-' bs
  let bs := if startsWithMark '+' '-' bs then bs.drop 1 else bs
  let (ds, bs) ← someDigits bs
  return ((negative, Number.Decimal.natOf ds), bs)

/-- A number that is no integer must not be too large for a double. -/
def realNumber (negative : Bool) (x : Option Scaled) : Except Fault Json :=
  match x.bind Scaled.toDouble? with
  | none => .error .malformed
  | some q => .ok (.real negative q)

/-- The number with these digits and no point or exponent. -/
def plainNumber (negative : Bool) (ds : List Char) : Except Fault Json :=
  let n := Number.Decimal.natOf ds
  if negative then
    if 0 < n ∧ n ≤ 0x8000000000000000 then .ok (.integer (-(n : Int)))
    else realNumber true (some (.ofDigits ds []))
  else if n < 0x10000000000000000 then .ok (.integer n)
  else realNumber false (some (.ofDigits ds []))

/-- A number after its sign. -/
def number (negative : Bool) : Read Json := fun bs => do
  let (whole, bs) ← wholeDigits bs
  let (fraction, bs) ← if startsWithMark '.' '.' bs then someDigits (bs.drop 1) else .ok ([], bs)
  if startsWithMark 'e' 'E' bs then
    let ((down, exponent), bs) ← exponentPart (bs.drop 1)
    return (← realNumber negative ((Scaled.ofDigits whole fraction).shift? down exponent), bs)
  else if fraction.isEmpty then return (← plainNumber negative whole, bs)
  else return (← realNumber negative (some (.ofDigits whole fraction)), bs)

/-! ## Lists and objects -/

/-- Items separated by commas up to a closing bracket. -/
def items {α : Type} (read : Read α) : Nat → Bool → Read (List α)
  | 0, _, _ => .error .unfinished
  | fuel + 1, first, bs =>
    match skipBlanks bs with
    | [] => .error .unfinished
    | b :: bs =>
      if b = octet ']' then .ok ([], bs)
      else do
        let bs ←
          if first then .ok (b :: bs)
          else if b = octet ',' then
            match skipBlanks bs with
            | [] => .error .unfinished
            | c :: bs => if c = octet ']' then .error .malformed else .ok (c :: bs)
          else .error .malformed
        let (a, bs) ← read bs
        let (as, bs) ← items read fuel false bs
        return (a :: as, bs)

/-- A member name and the colon after it. -/
def memberName : List UInt8 → Except Fault (String × List UInt8)
  | [] => .error .unfinished
  | b :: bs =>
    if b = octet '"' then stringBody bs else .error .malformed

def colon (bs : List UInt8) : Except Fault (List UInt8) := expect [':'] (skipBlanks bs)

/-- Members separated by commas up to a closing brace, each taken in by `step`,
which gets its name and the octets from the colon on. -/
def members {σ : Type} (step : σ → String → Read σ) : Nat → Bool → σ → Read σ
  | 0, _, _, _ => .error .unfinished
  | fuel + 1, first, s, bs =>
    match skipBlanks bs with
    | [] => .error .unfinished
    | b :: bs =>
      if b = octet '\x7d' then .ok (s, bs)
      else do
        let bs ←
          if first then .ok (b :: bs)
          else if b = octet ',' then
            match skipBlanks bs with
            | [] => .error .unfinished
            | c :: bs => .ok (c :: bs)
          else .error .malformed
        let (name, bs) ← memberName bs
        let (s, bs) ← step s name bs
        members step fuel false s bs

/-- Any value, nested less deep than `depth`. -/
def value : Nat → Read Json
  | 0, _ => .error .malformed
  | depth + 1, bs =>
    match skipBlanks bs with
    | [] => .error .unfinished
    | b :: bs =>
      if b = octet 'n' then do return (.null, ← expect ['u', 'l', 'l'] bs)
      else if b = octet 't' then do return (.bool true, ← expect ['r', 'u', 'e'] bs)
      else if b = octet 'f' then do return (.bool false, ← expect ['a', 'l', 's', 'e'] bs)
      else if b = octet '-' then number true bs
      else if isDigitOctet b then number false (b :: bs)
      else if b = octet '"' then do
        let (s, bs) ← stringBody bs
        return (.string s, bs)
      else if b = octet '[' then
        if depth = 0 then .error .malformed
        else do
          let (js, bs) ← items (value depth) (bs.length + 1) true bs
          return (.array js, bs)
      else if b = octet '\x7b' then
        if depth = 0 then .error .malformed
        else do
          let step (ms : List (String × Json)) (name : String) (bs : List UInt8) :
              Except Fault (List (String × Json) × List UInt8) := do
            let (j, bs) ← value depth (← colon bs)
            return (ByName.insert name j ms, bs)
          let (ms, bs) ← members step (bs.length + 1) true [] bs
          return (.object ms, bs)
      else .error .malformed

/-- Reads one value that fills the octets. -/
def decode {α : Type} (read : Read α) (bs : List UInt8) : Except Fault α :=
  match read bs with
  | .error e => .error e
  | .ok (a, rest) => if (skipBlanks rest).isEmpty then .ok a else .error .malformed

end Json

end LiveRecords
