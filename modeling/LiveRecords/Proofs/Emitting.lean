import LiveRecords.Observers.Script
import Mathlib.Data.List.Basic

/-!
# What listeners are called for

A listener may do anything to the list that it is on while it is called: it may
subscribe others, unsubscribe any of them, itself included, and send further
events, and what it does next may hang on how that went. Whoever acts, the owner
of the list, an event that is being sent or a listener that is called, goes by a
number here, and all that happens is written down in order. So what is sent, and
to whom, can be read off the record of what happened before.
-/

namespace LiveRecords.Observers

variable {L E σ : Type}

/-! ## Conduct -/

/-- What someone does with a list of listeners, one thing after another. `σ` is what
the listeners share besides. -/
inductive Conduct (L E σ : Type) where
  | done
  | look (next : σ → Conduct L E σ)
  | update (s : σ) (next : Conduct L E σ)
  | subscribe (l : L) (next : Nat → Conduct L E σ)
  | unsubscribe (id : Nat) (next : Bool → Conduct L E σ)
  | count (next : Nat → Conduct L E σ)
  | emit (e : E) (next : Conduct L E σ)
  | emitAll (es : List E) (next : Conduct L E σ)

/-- What is done. What takes its time has a number from when it begins, under which
it acts until it ends. -/
inductive Deed (L E : Type) where
  | subscribes (id : Nat) (l : L)
  | unsubscribes (id : Nat) (found : Bool)
  | counts (n : Nat)
  | emits (k : Nat) (e : E)
  | emitsAll (k : Nat) (es : List E)
  | calls (k : Nat) (l : Nat × L) (e : E)
  | ends

/-- What is done, and by whom. -/
structure Note (L E : Type) where
  actor : Nat
  deed : Deed L E

/-- A list of listeners in use, with how many have begun to act on it and what has
happened so far. -/
structure Scene (L E σ : Type) where
  observers : Observers L := {}
  world : σ
  begun : Nat := 0
  log : List (Note L E) := []

namespace Scene

def write (x : Scene L E σ) (a : Nat) (d : Deed L E) : Scene L E σ :=
  { x with log := x.log ++ [⟨a, d⟩] }

/-- Something begins, under the next number. -/
def start (x : Scene L E σ) (a : Nat) (d : Nat → Deed L E) : Scene L E σ :=
  { x with begun := x.begun + 1 }.write a (d (x.begun + 1))

/-- A way to send an event; none if the sending does not come to an end. -/
abbrev Send (L E σ : Type) := Nat → E → Scene L E σ → Option (Scene L E σ)

/-- Sends several events, one after another. -/
def sendAll (send : Send L E σ) (a : Nat) (es : List E) (x : Scene L E σ) :
    Option (Scene L E σ) :=
  (es.foldlM (fun y e => send (x.begun + 1) e y) (x.start a (.emitsAll · es))).map
    (·.write (x.begun + 1) .ends)

/-- Acts under a number. -/
def act (send : Send L E σ) (a : Nat) : Conduct L E σ → Scene L E σ → Option (Scene L E σ)
  | .done, x => some x
  | .look next, x => act send a (next x.world) x
  | .update s next, x => act send a next { x with world := s }
  | .subscribe l next, x =>
    let (id, observers) := x.observers.subscribe l
    act send a (next id) ({ x with observers }.write a (.subscribes id l))
  | .unsubscribe id next, x =>
    let (found, observers) := x.observers.unsubscribe id
    act send a (next found) ({ x with observers }.write a (.unsubscribes id found))
  | .count next, x =>
    act send a (next x.observers.size) (x.write a (.counts x.observers.size))
  | .emit e next, x => (send a e x).bind (act send a next)
  | .emitAll es next, x => (sendAll send a es x).bind (act send a next)

/-- Calls a listener, which acts until it returns. -/
def call (react : Nat × L → E → Conduct L E σ) (send : Send L E σ) (k : Nat) (e : E)
    (l : Nat × L) (x : Scene L E σ) : Option (Scene L E σ) :=
  (act send (x.begun + 1) (react l e) (x.start k (.calls · l e))).map
    (·.write (x.begun + 1) .ends)

/-- Sends an event, with events within events up to a depth. -/
def send (react : Nat × L → E → Conduct L E σ) : Nat → Send L E σ
  | 0, _, _, _ => none
  | depth + 1, a, e, x =>
    (x.observers.deliver (fun l y => y.bind (call react (send react depth) (x.begun + 1) e l))
      (some (x.start a (.emits · e)))).map (·.write (x.begun + 1) .ends)

end Scene

/-! ## What the record tells -/

def Deed.begins? : Deed L E → Option Nat
  | .emits k _ | .emitsAll k _ | .calls k _ _ => some k
  | .subscribes _ _ | .unsubscribes _ _ | .counts _ | .ends => none

/-- The listeners after what was noted. -/
def Note.alter (ls : List (Nat × L)) (n : Note L E) : List (Nat × L) :=
  match n.deed with
  | .subscribes id l => ls ++ [(id, l)]
  | .unsubscribes id _ => ls.filter (·.1 ≠ id)
  | _ => ls

/-- The listeners that are subscribed, in the order in which they were. -/
def present (log : List (Note L E)) : List (Nat × L) := log.foldl Note.alter []

def Note.subscribed? (n : Note L E) : Option Nat :=
  match n.deed with
  | .subscribes id _ => some id
  | _ => none

/-- The ids that were given out. -/
def givenOut (log : List (Note L E)) : List Nat := log.filterMap Note.subscribed?

def Note.removes (n : Note L E) : Bool :=
  match n.deed with
  | .unsubscribes _ found => found
  | _ => false

/-- How many listeners were found and unsubscribed. -/
def removals (log : List (Note L E)) : Nat := log.countP Note.removes

def Note.called? (k : Nat) (n : Note L E) : Option ((Nat × L) × E) :=
  match n.deed with
  | .calls _ l e => if n.actor = k then some (l, e) else none
  | _ => none

/-- Which listeners were called under a number, and for what. -/
def calledBy (k : Nat) (log : List (Note L E)) : List ((Nat × L) × E) :=
  log.filterMap (Note.called? k)

def Note.emitted? (k : Nat) (n : Note L E) : Option E :=
  match n.deed with
  | .emits _ e => if n.actor = k then some e else none
  | _ => none

/-- Which events were sent under a number. -/
def emittedBy (k : Nat) (log : List (Note L E)) : List E := log.filterMap (Note.emitted? k)

/-- What began under a number ends, and until then nothing acts but it and what began
after it. -/
def Within (k : Nat) (after : List (Note L E)) : Prop :=
  ∃ during rest, after = during ++ ⟨k, .ends⟩ :: rest ∧
    (∀ n ∈ during, k ≤ n.actor ∧ n ≠ ⟨k, .ends⟩) ∧ ∀ n ∈ rest, n.actor ≠ k

/-- What was noted is right by what was noted before and after it. An event that is
sent is heard by those who were subscribed when it was, in their order, and by each of
them once. -/
def Fits (before : List (Note L E)) (n : Note L E) (after : List (Note L E)) : Prop :=
  match n.deed with
  | .subscribes id _ => ∀ i ∈ givenOut before, i < id
  | .unsubscribes id found => found = true ↔ id ∈ (present before).map (·.1)
  | .counts size => size + removals before = (givenOut before).length
  | .emits k e => Within k after ∧ calledBy k after = (present before).map (·, e) ∧
      (present before).Pairwise (·.1 < ·.1)
  | .emitsAll k es => Within k after ∧ emittedBy k after = es
  | .calls k _ e => Within k after ∧ ∃ a, ⟨a, .emits n.actor e⟩ ∈ before
  | .ends => True

/-- The notes of one who acts under a number while `before` was noted and the numbers
up to `lo` were in use. -/
structure Tidy (a lo hi : Nat) (before notes : List (Note L E)) : Prop where
  le : lo ≤ hi
  actors : ∀ n ∈ notes, n.actor = a ∨ lo < n.actor
  below : ∀ n ∈ notes, n.actor ≤ max a hi
  unended : ∀ n ∈ notes, n ≠ ⟨a, .ends⟩
  numbers : notes.filterMap (·.deed.begins?) = List.range' (lo + 1) (hi - lo)
  fits : ∀ bs n as, notes = bs ++ n :: as → Fits (before ++ bs) n as

section Tidy

variable {a k lo mid hi : Nat} {before bs as more notes notes' : List (Note L E)} {n : Note L E}

theorem present_append (bs as : List (Note L E)) :
    present (bs ++ as) = as.foldl Note.alter (present bs) := List.foldl_append

theorem givenOut_append (bs as : List (Note L E)) :
    givenOut (bs ++ as) = givenOut bs ++ givenOut as := List.filterMap_append

theorem removals_append (bs as : List (Note L E)) :
    removals (bs ++ as) = removals bs + removals as := List.countP_append

theorem calledBy_append (k : Nat) (bs as : List (Note L E)) :
    calledBy k (bs ++ as) = calledBy k bs ++ calledBy k as := List.filterMap_append

theorem emittedBy_append (k : Nat) (bs as : List (Note L E)) :
    emittedBy k (bs ++ as) = emittedBy k bs ++ emittedBy k as := List.filterMap_append

theorem calledBy_of_ne (h : ∀ n ∈ notes, n.actor ≠ k) : calledBy k notes = [] := by
  refine List.filterMap_eq_nil_iff.mpr fun n hn => ?_
  unfold Note.called?
  split
  · exact if_neg (h n hn)
  · rfl

theorem emittedBy_of_ne (h : ∀ n ∈ notes, n.actor ≠ k) : emittedBy k notes = [] := by
  refine List.filterMap_eq_nil_iff.mpr fun n hn => ?_
  unfold Note.emitted?
  split
  · exact if_neg (h n hn)
  · rfl

theorem Within.append (h : Within k as) (hmore : ∀ n ∈ more, n.actor ≠ k) :
    Within k (as ++ more) := by
  obtain ⟨during, rest, rfl, hduring, hrest⟩ := h
  refine ⟨during, rest ++ more, by simp, hduring, fun n hn => ?_⟩
  exact (List.mem_append.mp hn).elim (hrest n) (hmore n)

/-- What others note later changes nothing. -/
theorem Fits.append (h : Fits before n as)
    (hmore : ∀ k, n.deed.begins? = some k → ∀ m ∈ more, m.actor ≠ k) :
    Fits before n (as ++ more) := by
  obtain ⟨b, d⟩ := n
  cases d with
  | subscribes | unsubscribes | counts | ends => exact h
  | emits k e =>
    obtain ⟨hw, hc, ho⟩ := h
    refine ⟨hw.append (hmore k rfl), ?_, ho⟩
    rw [calledBy_append, calledBy_of_ne (hmore k rfl), List.append_nil]
    exact hc
  | emitsAll k es =>
    obtain ⟨hw, he⟩ := h
    refine ⟨hw.append (hmore k rfl), ?_⟩
    rw [emittedBy_append, emittedBy_of_ne (hmore k rfl), List.append_nil]
    exact he
  | calls k l e => exact ⟨h.1.append (hmore k rfl), h.2⟩

/-- A place in a list that was put together is a place in one of the two. -/
theorem split_append (h : notes ++ notes' = bs ++ n :: as) :
    (∃ as', notes = bs ++ n :: as' ∧ as = as' ++ notes') ∨
      ∃ bs', bs = notes ++ bs' ∧ notes' = bs' ++ n :: as := by
  rcases List.append_eq_append_iff.mp h with ⟨bs', hbs, hnotes⟩ | ⟨rest, hnotes, hrest⟩
  · exact .inr ⟨bs', hbs, hnotes⟩
  · cases rest with
    | nil => exact .inr ⟨[], by simpa using hnotes.symm, by simpa using hrest.symm⟩
    | cons m rest =>
      obtain ⟨rfl, rfl⟩ := List.cons.inj hrest
      exact .inl ⟨rest, hnotes, rfl⟩

theorem Tidy.nil (a lo : Nat) (before : List (Note L E)) : Tidy a lo lo before [] where
  le := Nat.le_refl lo
  actors := by simp
  below := by simp
  unended := by simp
  numbers := by simp
  fits := by simp

theorem Tidy.number (h : Tidy a lo hi before notes) (hn : n ∈ notes)
    (hk : n.deed.begins? = some k) : lo < k ∧ k ≤ hi := by
  have hmem : k ∈ notes.filterMap (·.deed.begins?) := List.mem_filterMap.mpr ⟨n, hn, hk⟩
  have hle := h.le
  rw [h.numbers, List.mem_range'_1] at hmem
  omega

theorem Tidy.append (ha : a ≤ lo) (h : Tidy a lo mid before notes)
    (h' : Tidy a mid hi (before ++ notes) notes') : Tidy a lo hi before (notes ++ notes') := by
  have hle := h.le
  have hle' := h'.le
  constructor
  · exact Nat.le_trans hle hle'
  · intro n hn
    rcases List.mem_append.mp hn with hn | hn
    · exact h.actors n hn
    · exact (h'.actors n hn).imp_right (Nat.lt_of_le_of_lt hle)
  · intro n hn
    rcases List.mem_append.mp hn with hn | hn
    · have := h.below n hn
      omega
    · exact h'.below n hn
  · intro n hn
    exact (List.mem_append.mp hn).elim (h.unended n) (h'.unended n)
  · have hmid : mid + 1 = lo + 1 + (mid - lo) := by omega
    rw [List.filterMap_append, h.numbers, h'.numbers, hmid, List.range'_append_1]
    congr 1
    omega
  · intro bs n as hsplit
    rcases split_append hsplit with ⟨as', rfl, rfl⟩ | ⟨bs', rfl, rfl⟩
    · refine (h.fits bs n as' rfl).append fun k hk m hm => ?_
      have hnumber := h.number (List.mem_append_right bs List.mem_cons_self) hk
      have hactor := h'.actors m hm
      omega
    · rw [← List.append_assoc]
      exact h'.fits bs' n as rfl

/-- What is done at once, under the number of the one who does it. -/
theorem Tidy.single {d : Deed L E} (hd : d.begins? = none) (hne : d ≠ .ends)
    (h : Fits before ⟨a, d⟩ []) : Tidy a lo lo before [⟨a, d⟩] where
  le := Nat.le_refl lo
  actors := by simp
  below := by
    intro n hn
    obtain rfl := List.mem_singleton.mp hn
    exact Nat.le_max_left a lo
  unended := by
    intro n hn
    obtain rfl := List.mem_singleton.mp hn
    simpa using hne
  numbers := by simp [hd]
  fits := by
    intro bs n as hsplit
    obtain ⟨rfl, rfl, rfl⟩ : bs = [] ∧ n = ⟨a, d⟩ ∧ as = [] := by
      cases bs with
      | nil => simpa [eq_comm] using hsplit
      | cons => simp at hsplit
    rwa [List.append_nil]

theorem mem_enclosed {first last : Note L E} :
    n ∈ first :: (notes ++ [last]) ↔ n = first ∨ n ∈ notes ∨ n = last := by
  rw [List.mem_cons, List.mem_append, List.mem_singleton]

/-- Every note fits from a beginning to its end, where the beginning fits and what is done
between them is tidy. -/
theorem Tidy.fits_enclosed {d : Deed L E}
    (hbody : Tidy (lo + 1) (lo + 1) hi (before ++ [⟨a, d⟩]) notes)
    (hfirst : Fits before ⟨a, d⟩ (notes ++ [⟨lo + 1, .ends⟩]))
    (h : ⟨a, d⟩ :: (notes ++ [⟨lo + 1, .ends⟩]) = bs ++ n :: as) : Fits (before ++ bs) n as := by
  cases bs with
  | nil =>
    obtain ⟨rfl, rfl⟩ := List.cons.inj h
    rw [List.append_nil]
    exact hfirst
  | cons b bs =>
    obtain ⟨rfl, htail⟩ := List.cons.inj h
    rw [← List.singleton_append, ← List.append_assoc]
    rcases split_append htail with ⟨as', rfl, rfl⟩ | ⟨bs', rfl, hlast⟩
    · refine (hbody.fits bs n as' rfl).append fun k hk m hm => ?_
      have hnumber := hbody.number (List.mem_append_right bs List.mem_cons_self) hk
      obtain rfl := List.mem_singleton.mp hm
      exact Nat.ne_of_lt hnumber.1
    · obtain ⟨rfl, rfl, rfl⟩ : bs' = [] ∧ n = ⟨lo + 1, .ends⟩ ∧ as = [] := by
        cases bs' with
        | nil => simpa [eq_comm] using hlast
        | cons => simp at hlast
      trivial

/-- What takes its time, from its beginning to its end. -/
theorem Tidy.enclose {d : Deed L E} (ha : a ≤ lo) (hd : d.begins? = some (lo + 1))
    (hbody : Tidy (lo + 1) (lo + 1) hi (before ++ [⟨a, d⟩]) notes)
    (h : Within (lo + 1) (notes ++ [⟨lo + 1, .ends⟩]) →
      Fits before ⟨a, d⟩ (notes ++ [⟨lo + 1, .ends⟩])) :
    Tidy a lo hi before (⟨a, d⟩ :: (notes ++ [⟨lo + 1, .ends⟩])) := by
  have hle := hbody.le
  have hactors : ∀ n ∈ notes, lo + 1 ≤ n.actor := fun n hn => by
    rcases hbody.actors n hn with h | h <;> omega
  have hwithin : Within (lo + 1) (notes ++ [(⟨lo + 1, .ends⟩ : Note L E)]) :=
    ⟨notes, [], rfl, fun n hn => ⟨hactors n hn, hbody.unended n hn⟩, by simp⟩
  refine ⟨by omega, fun n hn => ?_, fun n hn => ?_, fun n hn => ?_, ?_,
    fun bs n as => hbody.fits_enclosed (h hwithin)⟩
  · rcases mem_enclosed.mp hn with rfl | hn | rfl
    · exact .inl rfl
    · exact .inr (hactors n hn)
    · exact .inr (Nat.lt_succ_self lo)
  · rcases mem_enclosed.mp hn with rfl | hn | rfl
    · exact Nat.le_max_left _ _
    · have := hbody.below n hn
      omega
    · exact Nat.le_trans hle (Nat.le_max_right _ _)
  · rcases mem_enclosed.mp hn with rfl | hn | rfl
    · rintro ⟨⟩
      cases hd
    · rintro rfl
      have : lo + 1 ≤ a := hactors _ hn
      omega
    · rintro ⟨⟩
      omega
  · rw [List.filterMap_cons, hd, List.filterMap_append, hbody.numbers,
      show hi - lo = hi - (lo + 1) + 1 by omega, List.range'_succ]
    simp [Deed.begins?]

end Tidy

end LiveRecords.Observers
