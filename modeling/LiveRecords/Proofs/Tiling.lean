import LiveRecords.Window

/-!
# What events say about rows

A view tells how many rows it shows: rows come in below those that are there, or it
starts again with none. From such events the rows in view can be told: the ranges
that came in lie one below the other and leave no row out.
-/

namespace LiveRecords

/-- An event that does not say which rows there are. -/
def ViewEvent.isLocal : ViewEvent → Bool
  | .dataChanged .. | .stagingChanged => true
  | .rowsInserted .. | .reset => false

/-- Events lead from one number of rows to another: rows come in below the last one
that was there, and a reset starts with no rows. -/
inductive ViewEvent.Lead : Nat → List ViewEvent → Nat → Prop
  | nil (n : Nat) : Lead n [] n
  | grown {a b c es} : a < b → Lead b es c → Lead a (.rowsInserted a b :: es) c
  | aside {a b e es} : e.isLocal = true → Lead a es b → Lead a (e :: es) b
  | reset {a b es} : Lead 0 es b → Lead a (.reset :: es) b

namespace ViewEvent

variable {a b c : Nat} {es es' : List ViewEvent}

theorem Lead.trans (h : Lead a es b) (h' : Lead b es' c) : Lead a (es ++ es') c := by
  induction h with
  | nil => exact h'
  | grown hlt _ ih => exact .grown hlt (ih h')
  | aside he _ ih => exact .aside he (ih h')
  | reset _ ih => exact .reset (ih h')

theorem Lead.le (h : Lead a es b) (hr : .reset ∉ es) : a ≤ b := by
  induction h with
  | nil => exact Nat.le_refl _
  | grown hlt _ ih =>
    exact Nat.le_trans (Nat.le_of_lt hlt) (ih fun hin => hr (List.mem_cons_of_mem _ hin))
  | aside _ _ ih => exact ih fun hin => hr (List.mem_cons_of_mem _ hin)
  | reset => exact absurd List.mem_cons_self hr

theorem lead_growth {x y : Window} (h : x.bottom ≤ y.bottom) :
    Lead x.bottom (Window.growth x y) y.bottom := by
  unfold Window.growth
  split
  · next hlt => exact .grown hlt (.nil _)
  · next hle =>
    rw [Nat.le_antisymm h (Nat.le_of_not_lt hle)]
    exact .nil _

theorem reset_notMem_growth (x y : Window) : .reset ∉ Window.growth x y := by
  unfold Window.growth
  split <;> simp

/-! ## Ranges -/

/-- The rows that came in with an event, from the first up to but not including the last. -/
def range? : ViewEvent → Option (Nat × Nat)
  | .rowsInserted first last => some (first, last)
  | _ => none

def ranges (es : List ViewEvent) : List (Nat × Nat) := es.filterMap range?

/-- Ranges that are not empty, each of which starts where the one before ends. -/
inductive Tiles : Nat → List (Nat × Nat) → Nat → Prop
  | nil (n : Nat) : Tiles n [] n
  | cons {a b c rs} : a < b → Tiles b rs c → Tiles a ((a, b) :: rs) c

/-- The rows of a range. -/
def rowsOf (r : Nat × Nat) : List Nat := List.range' r.1 (r.2 - r.1)

/-- Below the first rows lie the rows of the ranges, and together they are all rows. -/
theorem Tiles.rows {rs : List (Nat × Nat)} (h : Tiles a rs b) :
    List.range a ++ rs.flatMap rowsOf = List.range b := by
  induction h with
  | nil => simp
  | @cons a b c rs hlt _ ih =>
    have hjoin : List.range a ++ rowsOf (a, b) = List.range b := by
      have happend := List.range'_append_1 (s := 0) (m := a) (n := b - a)
      rw [Nat.zero_add, Nat.add_sub_cancel' (Nat.le_of_lt hlt)] at happend
      rw [rowsOf, List.range_eq_range', List.range_eq_range', happend]
    rw [List.flatMap_cons, ← List.append_assoc, hjoin, ih]

theorem Lead.tiles (h : Lead a es b) (hr : .reset ∉ es) : Tiles a (ranges es) b := by
  induction h with
  | nil => exact .nil _
  | grown hlt _ ih => exact .cons hlt (ih fun hin => hr (List.mem_cons_of_mem _ hin))
  | @aside a b e es he _ ih =>
    have hrest := ih fun hin => hr (List.mem_cons_of_mem _ hin)
    cases e with
    | dataChanged row role => exact hrest
    | stagingChanged => exact hrest
    | rowsInserted first last => cases he
    | reset => cases he
  | reset => exact absurd List.mem_cons_self hr

/-- What follows a reset leads on from no rows. -/
theorem Lead.after_reset {before after : List ViewEvent}
    (h : Lead a (before ++ .reset :: after) b) : Lead 0 after b := by
  induction before generalizing a with
  | nil =>
    cases h with
    | aside he => cases he
    | reset h => exact h
  | cons e before ih =>
    cases h with
    | grown _ h => exact ih h
    | aside _ h => exact ih h
    | reset h => exact ih h

/-- The ranges that came in since a view showed its first `n` rows, or since it was
reset last, cover the other rows up to the last, each once and in order. -/
structure Tiled (n : Nat) (es : List ViewEvent) (last : Nat) : Prop where
  whole : .reset ∉ es → Tiles n (ranges es) last ∧
    List.range n ++ (ranges es).flatMap rowsOf = List.range last
  anew : ∀ before after, es = before ++ .reset :: after → .reset ∉ after →
    Tiles 0 (ranges after) last ∧ (ranges after).flatMap rowsOf = List.range last

theorem Lead.tiled (h : Lead a es b) : Tiled a es b where
  whole hr := ⟨h.tiles hr, (h.tiles hr).rows⟩
  anew before after heq hr := by
    subst heq
    have htiles := h.after_reset.tiles hr
    exact ⟨htiles, by simpa using htiles.rows⟩

end ViewEvent

end LiveRecords
