/-!
# Observers

A list of listeners, in the order they subscribed. Delivering an event calls
the listeners that are subscribed when delivery starts, each once; what they do
to the list meanwhile counts from the next delivery on. Ids are never reused.
-/

namespace LiveRecords

structure Observers (L : Type) where
  next : Nat := 1
  listeners : List (Nat × L) := []

namespace Observers

variable {L σ : Type}

/-- Adds a listener at the end; its id. -/
def subscribe (o : Observers L) (l : L) : Nat × Observers L :=
  (o.next, { next := o.next + 1, listeners := o.listeners ++ [(o.next, l)] })

/-- Removes the listener with an id; whether there was one. -/
def unsubscribe (o : Observers L) (id : Nat) : Bool × Observers L :=
  (o.listeners.any (·.1 == id), { o with listeners := o.listeners.filter (·.1 != id) })

def size (o : Observers L) : Nat := o.listeners.length

def isEmpty (o : Observers L) : Bool := o.listeners.isEmpty

/-- Calls every present listener in order. -/
def deliver (o : Observers L) (call : Nat × L → σ → σ) (s : σ) : σ :=
  o.listeners.foldl (fun s l => call l s) s

/-- Replaces the listener with an id. -/
def update (o : Observers L) (id : Nat) (f : L → L) : Observers L :=
  { o with listeners := o.listeners.map fun l => if l.1 = id then (l.1, f l.2) else l }

/-- The number of listeners as diagnostics show it. -/
def describe (o : Observers L) : String :=
  "Observers \x7b listeners: " ++ toString o.size ++ " \x7d"

/-- How an id is shown. -/
def describeId (id : Nat) : String := "SubscriptionId(" ++ toString id ++ ")"

/-- Every id in use is below the next one. -/
def Fresh (o : Observers L) : Prop := ∀ l ∈ o.listeners, l.1 < o.next

theorem fresh_empty : Fresh ({} : Observers L) := by
  intro l h; simp at h

theorem Fresh.subscribe {o : Observers L} (h : o.Fresh) (l : L) : (o.subscribe l).2.Fresh := by
  intro m hm
  simp only [Observers.subscribe, List.mem_append, List.mem_singleton] at hm ⊢
  rcases hm with hm | rfl
  · exact Nat.lt_succ_of_lt (h m hm)
  · exact Nat.lt_succ_self _

theorem Fresh.unsubscribe {o : Observers L} (h : o.Fresh) (id : Nat) :
    (o.unsubscribe id).2.Fresh := by
  intro m hm
  exact h m (List.mem_filter.mp hm).1

theorem size_subscribe (o : Observers L) (l : L) : (o.subscribe l).2.size = o.size + 1 := by
  simp [Observers.subscribe, size]

end Observers

end LiveRecords
