import LiveRecords.Json.Reader

/-!
# Values of a known shape

Readers for values that must be a text, a flag, a number, or a collection of
texts.
-/

namespace LiveRecords.Json.Shape

/-- The fault of meeting a value where one of another shape belongs: a scalar
is read first, and its own fault goes before. -/
def mismatch : List UInt8 → Fault
  | [] => .unfinished
  | b :: bs =>
    let ifRead {α : Type} : Except Fault α → Fault
      | .ok _ => .wrongShape
      | .error e => e
    if b = octet 'n' then ifRead (expect ['u', 'l', 'l'] bs)
    else if b = octet 't' then ifRead (expect ['r', 'u', 'e'] bs)
    else if b = octet 'f' then ifRead (expect ['a', 'l', 's', 'e'] bs)
    else if b = octet '-' then ifRead (number true bs)
    else if isDigitOctet b then ifRead (number false (b :: bs))
    else if b = octet '"' then ifRead (stringBody bs)
    else if b = octet '[' ∨ b = octet '\x7b' then .wrongShape
    else .malformed

def text : Read String := fun bs =>
  match skipBlanks bs with
  | [] => .error .unfinished
  | b :: bs => if b = octet '"' then stringBody bs else .error (mismatch (b :: bs))

def flag : Read Bool := fun bs =>
  match skipBlanks bs with
  | [] => .error .unfinished
  | b :: bs =>
    if b = octet 't' then do return (true, ← expect ['r', 'u', 'e'] bs)
    else if b = octet 'f' then do return (false, ← expect ['a', 'l', 's', 'e'] bs)
    else .error (mismatch (b :: bs))

/-- An integer of 64 bits. -/
def integer : Read Int := fun bs =>
  match skipBlanks bs with
  | [] => .error .unfinished
  | b :: bs =>
    let settle : Except Fault (Json × List UInt8) → Except Fault (Int × List UInt8)
      | .ok (.integer n, bs) =>
        if -0x8000000000000000 ≤ n ∧ n < 0x8000000000000000 then .ok (n, bs) else .error .wrongShape
      | .ok _ => .error .wrongShape
      | .error e => .error e
    if b = octet '-' then settle (number true bs)
    else if isDigitOctet b then settle (number false (b :: bs))
    else .error (mismatch (b :: bs))

def textList : Read (List String) := fun bs =>
  match skipBlanks bs with
  | [] => .error .unfinished
  | b :: bs =>
    if b = octet '[' then items text (bs.length + 1) true bs else .error (mismatch (b :: bs))

/-- Texts by name; a name given twice keeps the last. -/
def textMap : Read (List (String × String)) := fun bs =>
  match skipBlanks bs with
  | [] => .error .unfinished
  | b :: bs =>
    if b = octet '\x7b' then
      let step (ms : List (String × String)) (name : String) (bs : List UInt8) :
          Except Fault (List (String × String) × List UInt8) := do
        let (s, bs) ← text (← colon bs)
        return (ByName.insert name s ms, bs)
      members step (bs.length + 1) true [] bs
    else .error (mismatch (b :: bs))

def any : Read Json := value depthLimit

end LiveRecords.Json.Shape
