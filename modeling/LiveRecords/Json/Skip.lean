import LiveRecords.Json.Reader

/-!
# Passing over structured values

A member that nobody asked for is passed over without being built. It must be
well formed, but it may nest as deep as it likes, and its escapes need only be
complete.
-/

namespace LiveRecords.Json

/-- Passes over a string; escapes need only be complete. -/
def skipString : Nat → List UInt8 → Except Fault (List UInt8)
  | _, [] => .error .unfinished
  | 0, _ :: _ => .error .unfinished
  | fuel + 1, b :: bs =>
    if b = octet '"' then .ok bs
    else if b = octet '\\' then
      match bs with
      | [] => .error .unfinished
      | c :: bs =>
        if c = octet 'u' then
          match hexFour bs with
          | .error e => .error e
          | .ok (_, bs) => skipString fuel bs
        else if (shortEscape? c).isSome then skipString fuel bs
        else .error .malformed
    else if b < 32 then .error .malformed
    else skipString fuel bs

def skipDigits (bs : List UInt8) : Except Fault (List UInt8) :=
  if (digitsOf bs).isEmpty then .error .malformed else .ok (afterDigits bs)

/-- Passes over a number after its sign. -/
def skipNumber (bs : List UInt8) : Except Fault (List UInt8) := do
  let bs ←
    match digitsOf bs with
    | [] => .error .malformed
    | '0' :: _ :: _ => .error .malformed
    | _ => .ok (afterDigits bs)
  let bs ← if startsWithMark '.' '.' bs then skipDigits (bs.drop 1) else .ok bs
  if startsWithMark 'e' 'E' bs then
    let bs := bs.drop 1
    skipDigits (if startsWithMark '+' '-' bs then bs.drop 1 else bs)
  else .ok bs

/-- Passes over members, names included, up to a closing brace; `skip` passes
over a value. -/
def skipMembers (skip : List UInt8 → Except Fault (List UInt8)) :
    Nat → Bool → List UInt8 → Except Fault (List UInt8)
  | 0, _, _ => .error .unfinished
  | fuel + 1, first, bs =>
    match skipBlanks bs with
    | [] => .error .unfinished
    | b :: bs =>
      if b = octet '\x7d' then .ok bs
      else do
        let bs ←
          if first then .ok (b :: bs)
          else if b = octet ',' then
            match skipBlanks bs with
            | [] => .error .unfinished
            | c :: bs => .ok (c :: bs)
          else .error .malformed
        let bs ←
          match bs with
          | [] => .error .unfinished
          | c :: bs => if c = octet '"' then skipString bs.length bs else .error .malformed
        skipMembers skip fuel false (← skip (← colon bs))

/-- Passes over any value, however deep. -/
def skipValue : Nat → List UInt8 → Except Fault (List UInt8)
  | 0, _ => .error .unfinished
  | fuel + 1, bs =>
    match skipBlanks bs with
    | [] => .error .unfinished
    | b :: bs =>
      if b = octet 'n' then expect ['u', 'l', 'l'] bs
      else if b = octet 't' then expect ['r', 'u', 'e'] bs
      else if b = octet 'f' then expect ['a', 'l', 's', 'e'] bs
      else if b = octet '-' then skipNumber bs
      else if isDigitOctet b then skipNumber (b :: bs)
      else if b = octet '"' then skipString bs.length bs
      else if b = octet '[' then do
        let read (bs : List UInt8) : Except Fault (Unit × List UInt8) := do
          return ((), ← skipValue fuel bs)
        let (_, bs) ← items read (fuel + 1) true bs
        return bs
      else if b = octet '\x7b' then skipMembers (skipValue fuel) (fuel + 1) true bs
      else .error .malformed

end LiveRecords.Json
