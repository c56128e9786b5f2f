/-!
# Names of tables and columns

Names are spliced into statement text unquoted, so only plain identifiers are
accepted. The database compares them without regard to ASCII case, while
schemas and registries compare them exactly.
-/

namespace LiveRecords

/-- The longest accepted name, in octets. -/
def maxNameBytes : Nat := 128

def isNameStart (c : Char) : Bool := c.isAlpha || c == '_'

def isNameRest (c : Char) : Bool := c.isAlphanum || c == '_'

/-- A letter or underscore, then letters, digits and underscores. -/
def isName (s : String) : Bool :=
  match s.toList with
  | [] => false
  | c :: cs => decide (s.utf8ByteSize ≤ maxNameBytes) && isNameStart c && cs.all isNameRest

/-- The name in lower case. -/
def foldCase (s : String) : String := String.ofList (s.toList.map Char.toLower)

/-- Equality of names as the database sees it. -/
def sameName (a b : String) : Bool := foldCase a == foldCase b

@[simp] theorem sameName_refl (a : String) : sameName a a = true := by
  simp [sameName]

theorem sameName_comm (a b : String) : sameName a b = sameName b a := by
  simp [sameName, Bool.beq_comm]

theorem sameName_trans {a b c : String} (hab : sameName a b = true) (hbc : sameName b c = true) :
    sameName a c = true := by
  simp only [sameName, beq_iff_eq] at *
  exact hab.trans hbc

end LiveRecords
