import LiveRecords.Diagnostic
import LiveRecords.Number.Decimal
import LiveRecords.Text.Alphanumeric
import LiveRecords.Text.Utf8

/-!
# Directives

A directive gives the least severe level that is shown of some reports: those
whose source starts as it says and which have the detail it names. It is
written `source[span{detail}]=level`, and most of that may be left out. There
are no spans here, so a directive that names one, or wants a detail to have a
value, speaks of no report.

Blanks around a directive are skipped while it is read, but its parts are cut
out of the text with them, so a blank in front shifts every part.
-/

namespace LiveRecords

structure Directive where
  source : String := ""
  detail : Option String := none
  /-- The rank of the least severe level shown; zero shows nothing. -/
  rank : Nat
  deriving DecidableEq, Repr

namespace Directive

/-- Why a text gives no directive. -/
inductive Misreading where
  | malformed
  /-- A part would start or end inside a character. -/
  | splitCharacter
  deriving DecidableEq, Repr

/-- The rank that digits mean, with or without a plus. -/
def rankOfDigits? (cs : List Char) : Option Nat :=
  let ds := if cs.head? = some '+' then cs.drop 1 else cs
  if ds.isEmpty || !ds.all Char.isDigit then none
  else
    let n := Number.Decimal.natOf ds
    if n ≤ Level.trace.rank then some n else none

/-- The rank that a word means. -/
def rankOfWord? (s : String) : Option Nat :=
  [("off", 0), ("error", 1), ("warn", 2), ("info", 3), ("debug", 4), ("trace", 5)].lookup
    (foldCase s)

def rank? (s : String) : Option Nat := (rankOfDigits? s.toList).or (rankOfWord? s)

def everything : Nat := Level.trace.rank

/-! ## Parts -/

/-- Whether a character starts, or the text ends, at a place. -/
def isBoundary (octets : List UInt8) (place : Nat) : Bool :=
  match octets.drop place with
  | [] => true
  | b :: _ => !(0x80 ≤ b.toNat && b.toNat < 0xC0)

/-- The part of a text between two places. -/
def part (octets : List UInt8) (start stop : Nat) : Except Misreading String :=
  if isBoundary octets start && isBoundary octets stop then
    match Text.Utf8.text? ((octets.take stop).drop start) with
    | some s => .ok s
    | none => .error .splitCharacter
  else .error .splitCharacter

/-- What of a directive has been read, and in which part it stands. -/
inductive Stage where
  | start
  /-- A source, or a level alone. -/
  | word
  | span (start : Nat)
  | detail (start : Nat)
  | afterDetail
  | afterSpan
  | level (start : Nat)
  deriving DecidableEq, Repr

/-- A directive without its level. -/
structure Outline where
  source : String := ""
  namesSpan : Bool := false
  detail : Option String := none
  deriving DecidableEq, Repr

/-- A directive starts with a letter, a number or one of three marks. -/
def opensWord (c : Char) : Bool := c == '-' || c == ':' || c == '_' || Text.isAlphanumeric c

/-- Takes in the character at a place. -/
def step (octets : List UInt8) (place : Nat) (c : Char) :
    Outline × Stage → Except Misreading (Outline × Stage)
  | (o, .start) =>
    if c = '[' then .ok (o, .span (place + 1))
    else if opensWord c then .ok (o, .word)
    else .error .malformed
  | (o, .word) =>
    if c = '=' then do return ({ o with source := ← part octets 0 place }, .level (place + 1))
    else if c = '[' then do return ({ o with source := ← part octets 0 place }, .span (place + 1))
    else .ok (o, .word)
  | (o, .span start) =>
    if c = ']' then do
      let _ ← part octets start place
      return ({ o with namesSpan := true }, .afterSpan)
    else if c = '\x7b' then do
      let name ← part octets start place
      return ({ o with namesSpan := !name.isEmpty }, .detail (place + 1))
    else .ok (o, .span start)
  | (o, .detail start) =>
    if c = '\x7d' then do
      let name ← part octets start place
      if name.isEmpty then throw .malformed
      return ({ o with detail := some name }, .afterDetail)
    else .ok (o, .detail start)
  | (o, .afterDetail) => if c = ']' then .ok (o, .afterSpan) else .error .malformed
  | (o, .afterSpan) => if c = '=' then .ok (o, .level (place + 1)) else .error .malformed
  | (o, .level start) => .ok (o, .level start)

/-- Takes in characters from a place on. -/
def steps (octets : List UInt8) :
    Nat → List Char → Outline × Stage → Except Misreading (Outline × Stage)
  | _, [], s => .ok s
  | place, c :: cs, s => do steps octets (place + c.utf8Size) cs (← step octets place c s)

/-- The outline and the rank when all characters are taken in. -/
def finish (octets : List UInt8) : Outline × Stage → Except Misreading (Outline × Nat)
  | (o, .word) => do
    let s ← part octets 0 octets.length
    match rank? s with
    | some rank => return (o, rank)
    | none => return ({ o with source := s }, everything)
  | (o, .level start) => do
    let s ← part octets start octets.length
    if s.isEmpty then return (o, everything)
    match rank? s with
    | some rank => return (o, rank)
    | none => throw .malformed
  | (o, .afterSpan) => .ok (o, everything)
  | (_, .start) | (_, .span _) | (_, .detail _) | (_, .afterDetail) => .error .malformed

/-- The directive of an outline; none if it speaks of no report. -/
def ofOutline? (o : Outline) (rank : Nat) : Option Directive :=
  if o.namesSpan || o.detail.any (·.contains '=') then none
  else some ⟨o.source, o.detail, rank⟩

def parse (s : String) : Except Misreading (Option Directive) := do
  let octets := Text.Utf8.bytes s
  let (o, rank) ← finish octets (← steps octets 0 (Text.trim s.toList) ({}, .start))
  return ofOutline? o rank

/-! ## Reports -/

/-- Whether the directive speaks of a report. -/
def covers (d : Directive) (r : Report) : Bool :=
  r.source.startsWith d.source && d.detail.all fun name => r.detailNames.contains name

/-- The order of directives by how specific they are: by the length of the
source, by the details, and then by the letters of both. -/
def compare (a b : Directive) : Ordering :=
  ((Ord.compare a.source.utf8ByteSize b.source.utf8ByteSize).then
    (Ord.compare a.detail.isSome.toNat b.detail.isSome.toNat)).then
    ((Ord.compare a.source b.source).then (Ord.compare (a.detail.getD "") (b.detail.getD "")))

theorem compare_rank (source : String) (detail : Option String) (m n : Nat) :
    compare ⟨source, detail, m⟩ ⟨source, detail, n⟩ = .eq := by
  simp [compare]

/-- The most specific directive for a report; of two alike the later one. -/
def decisive? (ds : List Directive) (r : Report) : Option Directive :=
  (ds.filter fun d => d.covers r).foldl
    (fun best d =>
      match best with
      | none => some d
      | some b => if b.compare d = .gt then some b else some d)
    none

/-- Whether a report is shown. -/
def shows (ds : List Directive) (r : Report) : Bool :=
  (decisive? ds r).any fun d => decide (r.level.rank ≤ d.rank)

theorem shows_nil (r : Report) : shows [] r = false := rfl

end Directive

end LiveRecords
