/-!
# Numbers in text

The grammar of a decimal number: a sign, digits with an optional point among
them, and an optional power of ten. Blanks may stand around it. A text that
is only a sign and digits is a whole number.
-/

namespace LiveRecords.Number

/-- The number `±mantissa · 10 ^ exponent`. -/
structure Decimal where
  negative : Bool
  mantissa : Nat
  exponent : Int
  whole : Bool
  deriving DecidableEq, Repr

namespace Decimal

/-- The blanks of ASCII. -/
def isSpace (c : Char) : Bool := c == ' ' || (9 ≤ c.toNat && c.toNat ≤ 13)

def digit (c : Char) : Nat := c.toNat - 48

/-- The number that decimal digits spell. -/
def natOf (cs : List Char) : Nat := cs.foldl (fun n c => 10 * n + digit c) 0

def splitSign : List Char → Bool × List Char
  | '-' :: cs => (true, cs)
  | '+' :: cs => (false, cs)
  | cs => (false, cs)

/-- The leading digits and the rest. -/
def splitDigits (cs : List Char) : List Char × List Char :=
  (cs.takeWhile Char.isDigit, cs.dropWhile Char.isDigit)

/-- A power of ten; one of more than five digits counts as ten thousand. -/
def power (n : Nat) : Nat := if n < 100000 then n else 10000

/-- A power of ten after its mark, and the rest. -/
def scanExponent? (cs : List Char) : Option (Int × List Char) :=
  match cs with
  | c :: cs =>
    if c = 'e' ∨ c = 'E' then
      let (negative, cs) := splitSign cs
      let (ds, rest) := splitDigits cs
      if ds.isEmpty then none
      else some (if negative then -(power (natOf ds) : Int) else power (natOf ds), rest)
    else none
  | [] => none

/-- The longest number at the start of a text, and the rest. -/
def scan? (cs : List Char) : Option (Decimal × List Char) :=
  let (negative, cs) := splitSign cs
  let (before, cs) := splitDigits cs
  let (after, pointed, cs) :=
    match cs with
    | '.' :: cs => let (ds, rest) := splitDigits cs; (ds, true, rest)
    | _ => ([], false, cs)
  if before.isEmpty && after.isEmpty then none
  else
    let mantissa := natOf (before ++ after)
    match scanExponent? cs with
    | some (e, rest) => some (⟨negative, mantissa, e - after.length, false⟩, rest)
    | none => some (⟨negative, mantissa, -(after.length : Int), !pointed⟩, cs)

/-- A number that fills the whole text, blanks around it aside. -/
def read? (cs : List Char) : Option Decimal :=
  match scan? ((cs.dropWhile isSpace).reverse.dropWhile isSpace).reverse with
  | some (d, []) => some d
  | _ => none

/-- The number that a text starts with; zero if it starts with none. -/
def leading (cs : List Char) : Decimal :=
  match scan? (cs.dropWhile isSpace) with
  | some (d, _) => d
  | none => ⟨false, 0, 0, true⟩

/-- The whole number that a text starts with, signed. -/
def leadingInt (cs : List Char) : Int :=
  let (negative, cs) := splitSign (cs.dropWhile isSpace)
  let n := natOf (splitDigits cs).1
  if negative then -(n : Int) else n

/-- A whole number, signed. -/
def toInt (d : Decimal) : Int := if d.negative then -(d.mantissa : Int) else d.mantissa

end Decimal

end LiveRecords.Number
