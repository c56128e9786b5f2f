import LiveRecords.Text.Hex
import LiveRecords.Text.Unseen

/-!
# Quoted text

A text between quotes for diagnostics: the quote, the backslash and the common
controls have short escapes, and every other unseen character is written by
its code point.
-/

namespace LiveRecords.Text

/-- Hexadecimal digits, least significant first, at most `fuel` of them. -/
def hexDigitsRev : Nat → Nat → List Char
  | 0, _ => []
  | fuel + 1, n =>
    Hex.digit (n % 16) :: (if n / 16 = 0 then [] else hexDigitsRev fuel (n / 16))

/-- A number in lower-case hexadecimal, without leading zeros. -/
def hexNumber (n : Nat) : List Char := (hexDigitsRev (n + 1) n).reverse

def quoteChar (c : Char) : List Char :=
  if c = '\x00' then ['\\', '0']
  else if c = '\t' then ['\\', 't']
  else if c = '\r' then ['\\', 'r']
  else if c = '\n' then ['\\', 'n']
  else if c = '"' then ['\\', '"']
  else if c = '\\' then ['\\', '\\']
  else if isUnseen c then ['\\', 'u', '\x7b'] ++ hexNumber c.toNat ++ ['\x7d']
  else [c]

/-- The text between quotes, with escapes. -/
def quoted (s : String) : String :=
  String.ofList ('"' :: s.toList.flatMap quoteChar ++ ['"'])

/-- A list of quoted texts between brackets. -/
def quotedList (ss : List String) : String :=
  "[" ++ String.intercalate ", " (ss.map quoted) ++ "]"

end LiveRecords.Text
