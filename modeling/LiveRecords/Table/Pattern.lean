import LiveRecords.Table.Cell

/-!
# Pattern matching

A pattern is a list of items: a run of characters, one character, or one out of
a class. In a plain pattern `%` and `_` stand for the first two, letters match
in either ASCII case, and a character may be named that takes them for what
they are; in a strict pattern `*` and `?` stand for them, brackets enclose a
class, and case counts. Both sides are read leniently: a lead octet takes all
continuation octets after it, and a NUL ends the text.
-/

namespace LiveRecords.Table.Pattern

/-- The longest pattern that is tried, in octets. -/
def maxOctets : Nat := 50000

/-- The payload bits of a lead octet. -/
def leadBits (b : Nat) : Nat :=
  if b < 0xE0 then b % 32
  else if b < 0xF0 then b % 16
  else if b < 0xF8 then b % 8
  else if b < 0xFC then b % 4
  else if b < 0xFE then b % 2
  else 0

/-- A code point that no well-formed text holds counts as the replacement one. -/
def settle (n : Nat) : Nat :=
  let n := n % 0x100000000
  if n < 0x80 ∨ n / 0x800 = 0x1B ∨ n / 2 = 0x7FFF then 0xFFFD else n

def isContinuation (b : UInt8) : Bool := 0x80 ≤ b.toNat && b.toNat < 0xC0

/-- Reads on with a code point `n` still open. -/
def codesAfter : Nat → List UInt8 → List Nat
  | n, [] => [settle n]
  | n, b :: rest =>
    if isContinuation b then codesAfter (n * 64 + b.toNat % 64) rest
    else if b.toNat = 0 then [settle n]
    else if b.toNat < 0xC0 then settle n :: b.toNat :: closed rest
    else settle n :: codesAfter (leadBits b.toNat) rest
where
  /-- Reads on between code points. -/
  closed : List UInt8 → List Nat
    | [] => []
    | b :: rest =>
      if b.toNat = 0 then []
      else if b.toNat < 0xC0 then b.toNat :: closed rest
      else codesAfter (leadBits b.toNat) rest

/-- The code points of a text up to its first NUL. -/
def codes (octets : List UInt8) : List Nat := codesAfter.closed octets

/-- An ASCII letter in lower case. -/
def fold (n : Nat) : Nat := if 65 ≤ n ∧ n ≤ 90 then n + 32 else n

inductive Item where
  /-- Any number of characters. -/
  | run
  | one
  | code (n : Nat)
  /-- A character in one of the ranges, or in none of them. -/
  | oneOf (negated : Bool) (ranges : List (Nat × Nat))
  /-- What no character is. -/
  | never
  deriving DecidableEq, Repr

/-- The items of a plain pattern. -/
def plainItems (escape : Option Nat) : List Nat → List Item
  | [] => []
  | c :: cs =>
    if escape = some c then
      match cs with
      | [] => [.never]
      | c :: cs => .code (fold c) :: plainItems escape cs
    else (if c = 37 then .run else if c = 95 then .one else .code (fold c)) :: plainItems escape cs

/-- A range that holds nothing and starts no other. -/
def noRange : Nat × Nat := (1, 0)

/-- The ranges of a class up to its closing bracket, and the rest. A hyphen makes
a range with the character before it. -/
def classRanges : List (Nat × Nat) → List Nat → Option (List (Nat × Nat) × List Nat)
  | _, [] => none
  | rs, 93 :: cs => some (rs, cs)
  | (low, high) :: rs, 45 :: c :: cs =>
    if low = high ∧ c ≠ 93 then classRanges (noRange :: (low, c) :: (low, high) :: rs) cs
    else classRanges ((45, 45) :: (low, high) :: rs) (c :: cs)
  | rs, c :: cs => classRanges ((c, c) :: rs) cs

/-- A class after its opening bracket. A closing bracket at its start is a
member. -/
def readClass (cs : List Nat) : Option (Item × List Nat) :=
  let (negated, cs) := match cs with
    | 94 :: cs => (true, cs)
    | cs => (false, cs)
  let read := match cs with
    | 93 :: cs => classRanges [noRange, (93, 93)] cs
    | cs => classRanges [] cs
  read.map fun (rs, rest) => (.oneOf negated rs, rest)

/-- The items of a strict pattern. -/
def strictItems : Nat → List Nat → List Item
  | 0, _ => []
  | _ + 1, [] => []
  | fuel + 1, c :: cs =>
    if c = 42 then .run :: strictItems fuel cs
    else if c = 63 then .one :: strictItems fuel cs
    else if c = 91 then
      match readClass cs with
      | some (item, rest) => item :: strictItems fuel rest
      | none => [.never]
    else .code c :: strictItems fuel cs

def suffixes : List Nat → List (List Nat)
  | [] => [[]]
  | c :: cs => (c :: cs) :: suffixes cs

/-- Whether a single character is what an item stands for. -/
def Item.admits : Item → Nat → Bool
  | .run, _ | .one, _ => true
  | .code n, c => n == c
  | .oneOf negated rs, c => (rs.any fun r => r.1 ≤ c && c ≤ r.2) != negated
  | .never, _ => false

/-- The rests that remain after one item, of rests listed longest first. -/
def advance (item : Item) (rests : List (List Nat)) : List (List Nat) :=
  if item = .run then
    match rests with
    | [] => []
    | longest :: _ => suffixes longest
  else
    rests.filterMap fun
      | [] => none
      | c :: cs => if item.admits c then some cs else none

/-- Runs the items, several runs of characters in a row counting as one. -/
def rests : Bool → List Item → List (List Nat) → List (List Nat)
  | _, [], left => left
  | running, item :: items, left =>
    if left.isEmpty then []
    else if running && item == .run then rests true items left
    else rests (item == .run) items (advance item left)

/-- Whether the whole text matches the items. -/
def fills (items : List Item) (text : List Nat) : Bool :=
  (rests false items [text]).any List.isEmpty

/-- Whether the whole text matches a plain pattern. -/
def accepts (escape : Option Nat) (pattern text : List UInt8) : Bool :=
  fills (plainItems escape (codes pattern)) ((codes text).map fold)

/-- Whether the whole text matches a strict pattern. -/
def acceptsStrictly (pattern text : List UInt8) : Bool :=
  let ps := codes pattern
  fills (strictItems ps.length ps) (codes text)

theorem fills_nil (text : List Nat) : fills [] text = text.isEmpty := by
  simp [fills, rests]

end LiveRecords.Table.Pattern
