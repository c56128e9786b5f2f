import LiveRecords.Json.Shape
import LiveRecords.Json.Skip
import LiveRecords.Value.Structured

/-!
# Metadata of notes

Tags and a pin, kept in a field as a structured value. It is written as an
object with the two members in this order, and read from an object that holds
both, in any order and among others, or from a list of the two.
-/

namespace LiveRecords

structure Metadata where
  tags : List String := []
  pinned : Bool := false
  deriving DecidableEq

namespace Metadata

open Json

/-- The compact text. -/
def render (m : Metadata) : List Char :=
  Json.render (.object [("tags", .array (m.tags.map .string)), ("pinned", .bool m.pinned)])

def toValue (m : Metadata) : Value := .blob (Text.Utf8.encode m.render)

/-- What has been read of an object so far. -/
structure Partial where
  tags : Option (List String) := none
  pinned : Option Bool := none

/-- Takes in one member. A member that is given again is refused unread, and an
unknown one is passed over. -/
def Partial.step (p : Partial) (name : String) : Read Partial := fun bs =>
  if name = "tags" then
    if p.tags.isSome then .error .wrongShape
    else do
      let (tags, bs) ← Shape.textList (← colon bs)
      return ({ p with tags := some tags }, bs)
  else if name = "pinned" then
    if p.pinned.isSome then .error .wrongShape
    else do
      let (pinned, bs) ← Shape.flag (← colon bs)
      return ({ p with pinned := some pinned }, bs)
  else do
    let bs ← colon bs
    return (p, ← skipValue bs.length bs)

def Partial.complete (p : Partial) : Except Fault Metadata :=
  match p.tags, p.pinned with
  | some tags, some pinned => .ok ⟨tags, pinned⟩
  | _, _ => .error .wrongShape

def readObject : Read Metadata := fun bs => do
  let (p, bs) ← members Partial.step (bs.length + 1) true {} bs
  return (← p.complete, bs)

/-- The octets of the next item of a list; there must be one. -/
def nextItem (first : Bool) (bs : List UInt8) : Except Fault (List UInt8) :=
  match skipBlanks bs with
  | [] => .error .unfinished
  | b :: bs =>
    if b = octet ']' then .error .wrongShape
    else if first then .ok (b :: bs)
    else if b = octet ',' then
      match skipBlanks bs with
      | [] => .error .unfinished
      | c :: bs => if c = octet ']' then .error .malformed else .ok (c :: bs)
    else .error .malformed

def readList : Read Metadata := fun bs => do
  let (tags, bs) ← Shape.textList (← nextItem true bs)
  let (pinned, bs) ← Shape.flag (← nextItem false bs)
  match skipBlanks bs with
  | [] => throw .unfinished
  | b :: bs => if b = octet ']' then return (⟨tags, pinned⟩, bs) else throw .malformed

def read : Read Metadata := fun bs =>
  match skipBlanks bs with
  | [] => .error .unfinished
  | b :: bs =>
    if b = octet '\x7b' then readObject bs
    else if b = octet '[' then readList bs
    else .error (Shape.mismatch (b :: bs))

end Metadata

end LiveRecords
