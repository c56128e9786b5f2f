import LiveRecords.Diagnostic.Directive

/-!
# Verbosity

Which reports are shown, as a text asks for it: directives separated by
commas. Without a text, and for one with a malformed directive, reports up to
information are shown; a text without any directive shows errors only.
-/

namespace LiveRecords.Verbosity

/-- Shows every report down to a level. -/
def downTo (l : Level) : List Directive := [{ rank := l.rank }]

/-- The directives in a text. -/
def directives (s : String) : List String := (s.splitOn ",").filter fun piece => !piece.isEmpty

/-- What a text asks for; none if it cannot be cut into its parts. The first
directive that gives trouble decides. -/
def ofText : Option String → Option (List Directive)
  | none => some (downTo .info)
  | some s =>
    match directives s with
    | [] => some (downTo .error)
    | pieces =>
      match pieces.mapM Directive.parse with
      | .ok ds => some (ds.filterMap id)
      | .error .malformed => some (downTo .info)
      | .error .splitCharacter => none

end LiveRecords.Verbosity
