import LiveRecords.Text.Blank
import LiveRecords.Text.Hex

/-!
# Record ids

The primary key of a stored record: sixteen bytes, written as lower-case
hexadecimal digits in groups. Four spellings are read, in any mix of case.
-/

namespace LiveRecords

structure RecordId where
  bytes : List UInt8
  length_eq : bytes.length = 16
  deriving DecidableEq

namespace RecordId

inductive Error where
  | empty
  | invalidLength (length : Nat)
  | invalidFormat
  deriving DecidableEq, Repr

def Error.message : Error → String
  | .empty => "record id must not be empty"
  | .invalidLength _ => "record id must be 16 bytes"
  | .invalidFormat => "record id is not a valid uuid"

def ofBytes (bs : List UInt8) : Except Error RecordId :=
  if h : bs.length = 16 then .ok ⟨bs, h⟩
  else if bs.isEmpty then .error .empty
  else .error (.invalidLength bs.length)

/-- The sizes of the groups of digits in the hyphenated spelling. -/
def groupSizes : List Nat := [8, 4, 4, 4, 12]

/-- Puts a hyphen after each group but the last. -/
def hyphenate : List Nat → List Char → List Char
  | [], cs => cs
  | [_], cs => cs
  | n :: ns, cs => cs.take n ++ '-' :: hyphenate ns (cs.drop n)

/-- The digits of a hyphenated text, if its groups have these sizes. -/
def dehyphenate? : List Nat → List Char → Option (List Char)
  | [], cs => if cs = [] then some [] else none
  | [n], cs => if cs.length = n then some cs else none
  | n :: ns, cs =>
    match cs.drop n with
    | '-' :: rest => (dehyphenate? ns rest).map (cs.take n ++ ·)
    | _ => none

/-- Thirty-two digits as an id. -/
def ofDigits? (cs : List Char) : Option RecordId :=
  match Text.Hex.decode? cs with
  | some bs => if h : bs.length = 16 then some ⟨bs, h⟩ else none
  | none => none

def ofHyphenated? (cs : List Char) : Option RecordId :=
  (dehyphenate? groupSizes cs).bind ofDigits?

/-- The text after a name prefix, whatever its case. -/
def afterUrn? (cs : List Char) : Option (List Char) :=
  if (cs.take 9).map Char.toLower = "urn:uuid:".toList then some (cs.drop 9) else none

/-- The text between a pair of braces. -/
def braced? : List Char → Option (List Char)
  | '\x7b' :: cs => if cs.getLast? = some '\x7d' then some cs.dropLast else none
  | _ => none

/-- An id in one of its spellings: bare digits, hyphenated, hyphenated between
braces, or hyphenated behind a `urn:uuid:` prefix. -/
def ofSpelling? (cs : List Char) : Option RecordId :=
  if cs.length = 32 then ofDigits? cs
  else if cs.length = 36 then ofHyphenated? cs
  else if cs.length = 38 then (braced? cs).bind ofHyphenated?
  else if cs.length = 45 then (afterUrn? cs).bind ofHyphenated?
  else none

/-- Reads any spelling, blanks around it allowed. -/
def parse (s : String) : Except Error RecordId :=
  match Text.trim s.toList with
  | [] => .error .empty
  | cs =>
    match ofSpelling? cs with
    | some id => .ok id
    | none => .error .invalidFormat

def digits (id : RecordId) : List Char := Text.Hex.encode id.bytes

/-- The canonical spelling: hyphenated, in lower case. -/
def text (id : RecordId) : String := String.ofList (hyphenate groupSizes id.digits)

instance : ToString RecordId := ⟨text⟩

/-- The id as diagnostics show it. -/
def describe (id : RecordId) : String := "RecordId(" ++ id.text ++ ")"

/-- Lexicographic order of byte strings. -/
def bytesLe : List UInt8 → List UInt8 → Bool
  | [], _ => true
  | _ :: _, [] => false
  | a :: as, b :: bs => if a < b then true else if b < a then false else bytesLe as bs

/-- Ids are ordered as their bytes are. -/
def le (a b : RecordId) : Bool := bytesLe a.bytes b.bytes

/-- The ids in increasing order. -/
def sort (ids : List RecordId) : List RecordId := ids.mergeSort le

/-- A key from sixteen random octets: a few bits say that it is random. -/
def ofRandom (bs : List UInt8) : RecordId where
  bytes :=
    let at_ (i : Nat) : UInt8 := bs.getD i 0
    [at_ 0, at_ 1, at_ 2, at_ 3, at_ 4, at_ 5, (at_ 6 &&& 0x0F) ||| 0x40, at_ 7,
      (at_ 8 &&& 0x3F) ||| 0x80, at_ 9, at_ 10, at_ 11, at_ 12, at_ 13, at_ 14, at_ 15]
  length_eq := rfl

/-- The `n`-th key of a numbered supply, of the shape that random keys have. -/
def ofOrdinal (n : Nat) : RecordId where
  bytes := [0x9E, 0x37, 0x79, 0xB9, 0x7F, 0x4A, 0x4C, 0x15, 0x9E, 0x37,
    UInt8.ofNat (n / 0x10000000000), UInt8.ofNat (n / 0x100000000), UInt8.ofNat (n / 0x1000000),
    UInt8.ofNat (n / 0x10000), UInt8.ofNat (n / 0x100), UInt8.ofNat n]
  length_eq := rfl

theorem ofBytes_bytes (id : RecordId) : ofBytes id.bytes = .ok id := by
  simp [ofBytes, id.length_eq]

theorem ofDigits?_digits (id : RecordId) : ofDigits? id.digits = some id := by
  simp [ofDigits?, digits, Text.Hex.decode?_encode, id.length_eq]

end RecordId

end LiveRecords
