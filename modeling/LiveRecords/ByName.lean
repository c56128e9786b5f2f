/-!
# Entries in the order of their names

Lists of named values, sorted by name, with one value a name.
-/

namespace LiveRecords.ByName

variable {α : Type}

/-- Puts an entry at its place, replacing the one of the same name. -/
def insert (name : String) (v : α) : List (String × α) → List (String × α)
  | [] => [(name, v)]
  | (n, w) :: rest =>
    if name = n then (name, v) :: rest
    else if name < n then (name, v) :: (n, w) :: rest
    else (n, w) :: insert name v rest

/-- Of several values for a name the last counts. -/
def ofList (es : List (String × α)) : List (String × α) :=
  es.foldl (fun acc e => insert e.1 e.2 acc) []

theorem lookup_insert_self (name : String) (v : α) (es : List (String × α)) :
    (insert name v es).lookup name = some v := by
  induction es with
  | nil => simp [insert]
  | cons e rest ih =>
    obtain ⟨n, w⟩ := e
    unfold insert
    split
    · simp
    split
    · simp
    · next h _ => simp [List.lookup_cons, show (name == n) = false by simpa using h, ih]

theorem lookup_insert_of_ne {name other : String} (h : other ≠ name) (v : α)
    (es : List (String × α)) : (insert name v es).lookup other = es.lookup other := by
  have hb : (other == name) = false := by simpa using h
  induction es with
  | nil => simp [insert, List.lookup_cons, hb]
  | cons e rest ih =>
    obtain ⟨n, w⟩ := e
    unfold insert
    split
    · next he => subst he; simp [List.lookup_cons, hb]
    split
    · simp [List.lookup_cons, hb]
    · simp [List.lookup_cons, ih]

end LiveRecords.ByName
