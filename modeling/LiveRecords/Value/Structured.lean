import LiveRecords.Json.Reader
import LiveRecords.Value

/-!
# Structured values in fields

A structured value is held as the octets of its compact text. A field without
octets holds none.
-/

namespace LiveRecords.Value

/-- A structured value as a field holds it. -/
def ofJson (j : Json) : Value := .blob j.encode

/-- What a field holds as a structured value; none if it holds no octets. -/
def decode {α : Type} (v : Value) (read : Json.Read α) : Except Json.Fault (Option α) :=
  match v with
  | .blob (b :: bs) => (Json.decode read (b :: bs)).map some
  | _ => .ok none

theorem decode_null {α : Type} (read : Json.Read α) : Value.null.decode read = .ok none := rfl

end LiveRecords.Value
