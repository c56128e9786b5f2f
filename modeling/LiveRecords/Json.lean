import LiveRecords.ByName
import LiveRecords.Number.Shortest
import LiveRecords.Text.Hex
import LiveRecords.Text.Utf8

/-!
# Structured values

The values a structured field holds, and their compact text: no blanks, and
the members of an object in the order of their names.
-/

namespace LiveRecords

inductive Json where
  | null
  | bool (b : Bool)
  | integer (n : Int)
  /-- A double by its sign and its size, for a number that is written with a
  point or an exponent or is too large for an integer. -/
  | real (negative : Bool) (size : Rat)
  | string (s : String)
  | array (items : List Json)
  | object (members : List (String × Json))
  deriving Inhabited

namespace Json

/-- An object from members in any order; of two with one name the last counts. -/
def ofMembers (ms : List (String × Json)) : Json := .object (ByName.ofList ms)

/-- How a key is written as a member name. Lists and objects are no keys. -/
def keyName? : Json → Option String
  | .string s => some s
  | .integer n => some (toString n)
  | .bool b => some (toString b)
  | _ => none

/-- An object from entries with keys of any kind; none if one cannot be a key. -/
def ofEntries? (es : List (Json × Json)) : Option Json :=
  (es.mapM fun (e : Json × Json) => e.1.keyName?.map fun name => (name, e.2)).map ofMembers

/-- Quotes, backslashes and controls are escaped, all else stands as it is. -/
def escapeChar (c : Char) : List Char :=
  if c = '"' then ['\\', '"']
  else if c = '\\' then ['\\', '\\']
  else if c.toNat = 8 then ['\\', 'b']
  else if c.toNat = 9 then ['\\', 't']
  else if c.toNat = 10 then ['\\', 'n']
  else if c.toNat = 12 then ['\\', 'f']
  else if c.toNat = 13 then ['\\', 'r']
  else if c.toNat < 32 then
    ['\\', 'u', '0', '0', Text.Hex.digit (c.toNat / 16), Text.Hex.digit (c.toNat % 16)]
  else [c]

def renderString (s : String) : List Char := '"' :: s.toList.flatMap escapeChar ++ ['"']

def renderInteger (n : Int) : List Char := (toString n).toList

/-- Digits with a point `n` places from their start. -/
def pointAt (n : Nat) (ds : List Char) : List Char := ds.take n ++ '.' :: ds.drop n

/-- The size of a real number in the fewest digits, positional from `10 ^ -5` to
`10 ^ 16` and with an exponent beyond. -/
def renderSize (q : Rat) : List Char :=
  if q = 0 then "0.0".toList
  else
    let (m, e) := Number.Shortest.digits q
    let ds := Nat.toDigits 10 m
    let place : Int := ds.length + e
    if 0 ≤ e ∧ place ≤ 16 then ds ++ List.replicate e.toNat '0' ++ ".0".toList
    else if 0 < place ∧ place ≤ 16 then pointAt place.toNat ds
    else if -5 < place ∧ place ≤ 0 then "0.".toList ++ List.replicate (-place).toNat '0' ++ ds
    else
      (if ds.length = 1 then ds else pointAt 1 ds) ++ 'e' :: renderInteger (place - 1)

mutual
/-- The compact text of a value. -/
def render : Json → List Char
  | .null => ['n', 'u', 'l', 'l']
  | .bool true => ['t', 'r', 'u', 'e']
  | .bool false => ['f', 'a', 'l', 's', 'e']
  | .integer n => renderInteger n
  | .real negative q => if negative then '-' :: renderSize q else renderSize q
  | .string s => renderString s
  | .array items => '[' :: renderItems items ++ [']']
  | .object members => '\x7b' :: renderMembers members ++ ['\x7d']

def renderItems : List Json → List Char
  | [] => []
  | j :: js => render j ++ renderMoreItems js

def renderMoreItems : List Json → List Char
  | [] => []
  | j :: js => ',' :: render j ++ renderMoreItems js

def renderMembers : List (String × Json) → List Char
  | [] => []
  | (name, j) :: ms => renderString name ++ ':' :: render j ++ renderMoreMembers ms

def renderMoreMembers : List (String × Json) → List Char
  | [] => []
  | (name, j) :: ms => ',' :: renderString name ++ ':' :: render j ++ renderMoreMembers ms
end

/-- The octets of the compact text. -/
def encode (j : Json) : List UInt8 := Text.Utf8.encode j.render

end Json

end LiveRecords
