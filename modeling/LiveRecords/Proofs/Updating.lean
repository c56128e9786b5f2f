import LiveRecords.Proofs.Announcing
import LiveRecords.Proofs.Patching
import LiveRecords.Proofs.Timelines
import LiveRecords.Proofs.Unrefused

/-!
# Updates of fields

Commits and replays write fields one after another, by one statement each. What
such a series does to a link is told by how far it got: the statements that
were sent, how they were counted, and the database after those that passed. A
commit writes the edited slots up to the first whose statement fails, and a
replay the recorded ones.
-/

namespace LiveRecords

def Diagnostic.statement? : Diagnostic → Option Statement
  | .statement s => some s
  | _ => none

/-! ## Change sets of several values -/

namespace ChangeSet

/-- The change set of some values, each under its name. -/
def ofEntries (es : List (String × Value)) : ChangeSet :=
  es.foldl (fun c e => c.record e.1 e.2) {}

theorem insert_perm {α : Type} {name : String} {v : α} {es : List (String × α)}
    (h : name ∉ es.map (·.1)) : (ByName.insert name v es).Perm ((name, v) :: es) := by
  induction es with
  | nil => exact .refl _
  | cons e es ih =>
    rw [List.map_cons, List.mem_cons, not_or] at h
    unfold ByName.insert
    rw [if_neg h.1]
    split
    · exact .refl _
    · exact ((ih h.2).cons e).trans (.swap _ _ _)

theorem foldl_insert_perm {α : Type} {es acc : List (String × α)}
    (h : (es ++ acc).Pairwise fun a b => a.1 ≠ b.1) :
    (es.foldl (fun acc e => ByName.insert e.1 e.2 acc) acc).Perm (es ++ acc) := by
  induction es generalizing acc with
  | nil => exact .refl _
  | cons e es ih =>
    obtain ⟨hfirst, hrest⟩ := List.pairwise_cons.mp h
    have hnew : e.1 ∉ acc.map (·.1) := by
      intro hmem
      obtain ⟨e', he', heq⟩ := List.mem_map.mp hmem
      exact hfirst e' (List.mem_append_right _ he') heq.symm
    have hins : (ByName.insert e.1 e.2 acc).Perm (e :: acc) := insert_perm hnew
    have hmid : (es ++ ByName.insert e.1 e.2 acc).Perm (e :: (es ++ acc)) :=
      (hins.append_left es).trans List.perm_middle
    have hapart : (es ++ ByName.insert e.1 e.2 acc).Pairwise fun a b => a.1 ≠ b.1 :=
      (hmid.pairwise_iff fun h => h.symm).mpr h
    exact (ih hapart).trans hmid

/-- Where no name comes twice, nothing is lost. -/
theorem ofList_perm {α : Type} {es : List (String × α)} (h : (es.map (·.1)).Nodup) :
    (ByName.ofList es).Perm es := by
  have hpair : (es ++ ([] : List (String × α))).Pairwise fun a b => a.1 ≠ b.1 := by
    rw [List.append_nil]
    exact List.pairwise_map.mp h
  have hperm := foldl_insert_perm hpair
  rwa [List.append_nil] at hperm

theorem ofEntries_perm {es : List (String × Value)} (h : (es.map (·.1)).Nodup) :
    (ofEntries es).entries.Perm es := by
  have hentries : (ofEntries es).entries = ByName.ofList es :=
    (List.foldl_hom ChangeSet.entries fun _ _ => rfl).symm
  exact hentries ▸ ofList_perm h

end ChangeSet

namespace Link

variable {l l' l'' : Link} {s : Schema} {id : RecordId} {es es' : List (String × Value)}

/-! ## Single statements -/

/-- The statements that were sent, in order, whatever came of them. -/
def sent (l : Link) : List Statement := l.log.filterMap Diagnostic.statement?

@[simp] theorem sent_report (l : Link) (d : Diagnostic) :
    (l.report d).sent = l.sent ++ d.statement?.toList := by
  simp only [sent, report, List.filterMap_append]
  cases h : d.statement? <;> simp [h]

/-- A link after a statement that the database ran. -/
def passed (l : Link) (t : Statement) (d : Database) : Link :=
  { l.report (.statement t) with database := d, stats := l.stats.bump t.kind }

/-- A link after a statement that was refused. -/
def stopped (l : Link) (t : Statement) (e : Table.Refusal) : Link :=
  (l.report (.statement t)).refuse t e

@[simp] theorem sent_passed (l : Link) (t : Statement) (d : Database) :
    (l.passed t d).sent = l.sent ++ [t] :=
  l.sent_report (.statement t)

@[simp] theorem sent_stopped (l : Link) (t : Statement) (e : Table.Refusal) :
    (l.stopped t e).sent = l.sent ++ [t] := by
  have hrefused : (l.stopped t e).sent = (l.report (.statement t)).sent ++ [] :=
    sent_report { l.report (.statement t) with stats := l.stats.fail } (.refused t e)
  rw [hrefused, List.append_nil]
  exact l.sent_report (.statement t)

theorem execute_eq_ok {t : Statement} {n : Nat} (h : l.execute t = (.ok n, l')) :
    l.outage l.stats.total = none ∧
      ∃ d, l.database.execute t = .ok (n, d) ∧ l' = l.passed t d := by
  unfold execute at h
  dsimp only at h
  split at h
  · cases h
  · next hout =>
    split at h
    · cases h
    · next m d hd =>
      cases h
      exact ⟨hout, d, hd, rfl⟩

theorem execute_eq_error {t : Statement} {e : StoreError} (h : l.execute t = (.error e, l')) :
    ∃ r, e = .sql r ∧ l' = l.stopped t r := by
  unfold execute at h
  dsimp only at h
  split at h
  · next r _ =>
    cases h
    exact ⟨r, rfl, rfl⟩
  · split at h
    · next r _ =>
      cases h
      exact ⟨r, rfl, rfl⟩
    · cases h

/-- The statement that writes a field. -/
def update (s : Schema) (id : RecordId) (e : String × Value) : Statement :=
  ⟨s, .updateColumn id e.1 e.2⟩

theorem updateField_eq_ok {field : String} {v : Value}
    (h : l.updateField s id field v = (.ok (), l')) :
    l.outage l.stats.total = none ∧ ∃ n d,
      l.database.execute (update s id (field, v)) = .ok (n, d) ∧
        l' = l.passed (update s id (field, v)) d := by
  unfold updateField at h
  split at h
  · cases h
  unfold setColumn at h
  split at h
  · next n l₁ hex =>
    cases h
    obtain ⟨hout, d, hd, hl⟩ := execute_eq_ok hex
    exact ⟨hout, n, d, hd, hl⟩
  · cases h

/-- Only the statement itself can fail for a field that there is. -/
theorem updateField_eq_error {field : String} {v : Value} {e : StoreError}
    (hf : (s.field? field).isSome) (h : l.updateField s id field v = (.error e, l')) :
    ∃ r, e = .sql r ∧ l' = l.stopped (update s id (field, v)) r := by
  unfold updateField at h
  rw [if_neg (by simpa using Option.isSome_iff_ne_none.mp hf)] at h
  unfold setColumn at h
  split at h
  · cases h
  · next e' l₁ hex =>
    cases h
    exact execute_eq_error hex

theorem updateField_of_execute {field : String} {v : Value} (hf : (s.field? field).isSome)
    (hout : l.outage l.stats.total = none) {n : Nat} {d : Database}
    (hd : l.database.execute (update s id (field, v)) = .ok (n, d)) :
    l.updateField s id field v = (.ok (), l.passed (update s id (field, v)) d) := by
  have hex : l.execute ⟨s, .updateColumn id field v⟩ =
      (.ok n, l.passed (update s id (field, v)) d) := by
    have hd' : l.database.execute ⟨s, .updateColumn id field v⟩ = .ok (n, d) := hd
    unfold execute
    dsimp only
    rw [hout, hd']
    rfl
  unfold updateField
  rw [if_neg (by simpa using Option.isSome_iff_ne_none.mp hf)]
  unfold setColumn
  rw [hex]

/-! ## Series of updates -/

/-- One field after another is written, each by a statement that passes. -/
inductive Writes (s : Schema) (id : RecordId) : List (String × Value) → Link → Link → Prop
  | nil (l : Link) : Writes s id [] l l
  | cons {e : String × Value} {es : List (String × Value)} {l l' l'' : Link} :
      l.updateField s id e.1 e.2 = (.ok (), l') → Writes s id es l' l'' →
        Writes s id (e :: es) l l''

theorem Writes.sent (h : Writes s id es l l') :
    l'.sent = l.sent ++ es.map (update s id) := by
  induction h with
  | nil l => simp
  | cons hw _ ih =>
    obtain ⟨-, n, d, -, rfl⟩ := updateField_eq_ok hw
    simp [ih]

theorem Writes.stats (h : Writes s id es l l') :
    l'.stats = { l.stats with updates := l.stats.updates + es.length } := by
  induction h with
  | nil l => rfl
  | cons hw _ ih =>
    obtain ⟨-, n, d, -, rfl⟩ := updateField_eq_ok hw
    rw [ih, List.length_cons, Nat.add_comm (List.length _), ← Nat.add_assoc]
    rfl

end Link

namespace Database

/-- The database after fields of a row are written one after another. -/
def updates (s : Schema) (id : RecordId) (es : List (String × Value)) (d : Database) :
    Except Table.Refusal Database :=
  es.foldlM (fun d e => (d.execute (Link.update s id e)).map (·.2)) d

theorem updates_append (s : Schema) (id : RecordId) (es es' : List (String × Value))
    (d : Database) :
    updates s id (es ++ es') d = updates s id es d >>= updates s id es' :=
  List.foldlM_append

theorem updates_cons {s : Schema} {id : RecordId} {e : String × Value}
    {es : List (String × Value)} {d d' : Database} :
    updates s id (e :: es) d = .ok d' ↔
      ∃ n d₁, d.execute (Link.update s id e) = .ok (n, d₁) ∧ updates s id es d₁ = .ok d' := by
  unfold updates
  rw [List.foldlM_cons, bind_eq_ok]
  constructor
  · rintro ⟨d₁, h, h'⟩
    obtain ⟨⟨n, d₂⟩, hd, rfl⟩ := map_eq_ok.mp h
    exact ⟨n, d₂, hd, h'⟩
  · rintro ⟨n, d₁, h, h'⟩
    exact ⟨d₁, map_eq_ok.mpr ⟨(n, d₁), h, rfl⟩, h'⟩

end Database

namespace Link

variable {l l' : Link} {s : Schema} {id : RecordId} {es : List (String × Value)}

/-- What a series leaves in the database depends on nothing else of the link. -/
theorem Writes.database (h : Writes s id es l l') :
    l.database.updates s id es = .ok l'.database := by
  induction h with
  | nil l => rfl
  | cons hw _ ih =>
    obtain ⟨-, n, d, hd, rfl⟩ := updateField_eq_ok hw
    exact Database.updates_cons.mpr ⟨n, d, hd, ih⟩

/-- Where nothing is refused for other reasons, what the database takes passes. -/
theorem writes_of_unrefused (hl : l.Unrefused) (hes : ∀ e ∈ es, (s.field? e.1).isSome)
    {d : Database} (h : l.database.updates s id es = .ok d) :
    ∃ l', Writes s id es l l' ∧ l'.database = d := by
  induction es generalizing l with
  | nil =>
    cases h
    exact ⟨l, .nil l, rfl⟩
  | cons e es ih =>
    obtain ⟨n, d₁, hd, hrest⟩ := Database.updates_cons.mp h
    have hw : l.updateField s id e.1 e.2 = (.ok (), l.passed (update s id e) d₁) :=
      updateField_of_execute (hes e (by simp)) (hl _ (Nat.le_refl _)) hd
    have hlater := later_updateField l s id e.1 e.2
    rw [hw] at hlater
    obtain ⟨l', hwrites, hl'⟩ :=
      ih (hl.later hlater) (fun e he => hes e (by simp [he])) hrest
    exact ⟨l', .cons hw hwrites, hl'⟩

end Link

/-! ## Slots -/

namespace Slot

variable {t : Slot} {ts : List Slot}

/-- What some slots hold. -/
def values (ts : List Slot) : List (String × Value) := ts.map fun t => (t.name, t.current)

/-- The edits of some slots. -/
def edits (ts : List Slot) : List (String × Value) :=
  (ts.filter (·.dirty)).map fun t => (t.name, t.current)

/-- What the edited slots among some take for stored. -/
def previous (ts : List Slot) : List (String × Value) :=
  (ts.filter (·.dirty)).map fun t => (t.name, t.baseline)

theorem mem_edits {e : String × Value} (he : e ∈ edits ts) :
    ∃ t ∈ ts, t.dirty = true ∧ (t.name, t.current) = e := by
  obtain ⟨t, ht, rfl⟩ := List.mem_map.mp he
  obtain ⟨ht, hd⟩ := List.mem_filter.mp ht
  exact ⟨t, ht, hd, rfl⟩

theorem mem_previous {name : String} {v : Value} :
    (name, v) ∈ previous ts ↔ ∃ t ∈ ts, t.dirty = true ∧ t.name = name ∧ t.baseline = v := by
  simp [previous, and_assoc]

theorem edits_cons (t : Slot) (ts : List Slot) :
    edits (t :: ts) = if t.dirty then (t.name, t.current) :: edits ts else edits ts := by
  unfold edits
  rw [List.filter_cons]
  split <;> rfl

theorem previous_cons (t : Slot) (ts : List Slot) :
    previous (t :: ts) = if t.dirty then (t.name, t.baseline) :: previous ts else previous ts := by
  unfold previous
  rw [List.filter_cons]
  split <;> rfl

theorem edits_append (ts us : List Slot) : edits (ts ++ us) = edits ts ++ edits us := by
  simp [edits]

theorem previous_append (ts us : List Slot) :
    previous (ts ++ us) = previous ts ++ previous us := by
  simp [previous]

theorem length_previous (ts : List Slot) : (previous ts).length = (edits ts).length := by
  simp [previous, edits]

theorem previous_nodup (hn : (ts.map (·.name)).Nodup) : ((previous ts).map (·.1)).Nodup := by
  have hnames : (previous ts).map (·.1) = (ts.filter (·.dirty)).map (·.name) := by
    simp [previous]
  rw [hnames]
  exact hn.sublist (List.filter_sublist.map _)

/-- A slot whose mark agrees with its values and that has no edit is told by its
field and its baseline. -/
theorem eq_clean_of_marked (hm : t.dirty = (t.current != t.baseline)) (hd : t.dirty = false) :
    t = .clean t.field t.baseline := by
  have hsame : t.current = t.baseline := by
    rw [hd] at hm
    simpa using hm.symm
  obtain ⟨f, v, b, d⟩ := t
  simp only at hsame hd
  subst hsame hd
  rfl

theorem settle_of_clean (hm : t.dirty = (t.current != t.baseline)) (hd : t.dirty = false) :
    t.settle = t := by
  rw [eq_clean_of_marked hm hd]
  rfl

theorem revert_of_clean (hm : t.dirty = (t.current != t.baseline)) (hd : t.dirty = false) :
    t.revert = t := by
  rw [eq_clean_of_marked hm hd]
  rfl

theorem edits_settle (ts : List Slot) : edits (ts.map settle) = [] := by
  simp [edits, settle]

theorem previous_settle (ts : List Slot) : previous (ts.map settle) = [] := by
  simp [previous, settle]

end Slot

namespace Record

open Link (Writes)
open Slot (edits previous)

variable {s : Schema} {id : RecordId} {l l' : Link} {t : Slot} {ts : List Slot} {c : ChangeSet}

theorem Framed.known {x : Record} (h : x.Framed) (ht : t ∈ x.slots) :
    (x.schema.field? t.name).isSome := by
  obtain ⟨f, hf, hname⟩ := List.mem_map.mp (h.name_mem ht)
  refine List.find?_isSome.mpr ⟨f, hf, ?_⟩
  simpa using hname

/-! ## Commits -/

/-- Where all edits are written, all slots are settled. -/
theorem writeDirty_of_writes (hm : ∀ t ∈ ts, t.dirty = (t.current != t.baseline))
    (h : Writes s id (Slot.edits ts) l l') :
    writeDirty s id ts l = (⟨ts.map Slot.settle, previous ts, none⟩, l') := by
  induction ts generalizing l with
  | nil =>
    cases h
    rfl
  | cons t ts ih =>
    have hrest : ∀ u ∈ ts, u.dirty = (u.current != u.baseline) := fun u hu => hm u (by simp [hu])
    rw [Slot.edits_cons] at h
    rw [Slot.previous_cons]
    unfold writeDirty
    cases hd : t.dirty with
    | true =>
      rw [hd, if_pos rfl] at h
      cases h with
      | cons hw hws =>
        simp only [if_true, hw, ih hrest hws]
        rfl
    | false =>
      rw [hd, if_neg Bool.false_ne_true] at h
      simp only [Bool.false_eq_true, if_false, ih hrest h, Written.skip, List.map_cons,
        Slot.settle_of_clean (hm t (by simp)) hd]

/-- The edits before a slot are written, and the edit of the slot cannot be. -/
structure Halts (s : Schema) (id : RecordId) (l : Link) (done : List Slot) (t : Slot) (l₁ : Link)
    (e : StoreError) (l₂ : Link) : Prop where
  writes : Writes s id (Slot.edits done) l l₁
  edited : t.dirty = true
  fails : l₁.updateField s id t.name t.current = (.error e, l₂)

theorem Halts.cons_clean {done : List Slot} {t u : Slot} {l₁ l₂ : Link} {e : StoreError}
    (h : Halts s id l done t l₁ e l₂) (hu : u.dirty = false) :
    Halts s id l (u :: done) t l₁ e l₂ where
  writes := by
    rw [Slot.edits_cons, hu, if_neg Bool.false_ne_true]
    exact h.writes
  edited := h.edited
  fails := h.fails

theorem Halts.cons_dirty {done : List Slot} {t u : Slot} {l₀ l₁ l₂ : Link} {e : StoreError}
    (h : Halts s id l done t l₁ e l₂) (hu : u.dirty = true)
    (hw : l₀.updateField s id u.name u.current = (.ok (), l)) :
    Halts s id l₀ (u :: done) t l₁ e l₂ where
  writes := by
    rw [Slot.edits_cons, hu, if_pos rfl]
    exact .cons hw h.writes
  edited := h.edited
  fails := h.fails

/-- All edits are written, or one of them is the first that cannot be. -/
theorem writes_or_halts (s : Schema) (id : RecordId) (ts : List Slot) (l : Link) :
    (∃ l', Writes s id (Slot.edits ts) l l') ∨
      ∃ done t rest l₁ e l₂, ts = done ++ t :: rest ∧ Halts s id l done t l₁ e l₂ := by
  induction ts generalizing l with
  | nil => exact .inl ⟨l, .nil l⟩
  | cons t ts ih =>
    rw [Slot.edits_cons]
    cases hd : t.dirty with
    | false =>
      rw [if_neg Bool.false_ne_true]
      obtain hall | ⟨done, u, rest, l₁, e, l₂, hsplit, hhalts⟩ := ih l
      · exact .inl hall
      · exact .inr ⟨t :: done, u, rest, l₁, e, l₂, by rw [hsplit]; rfl, hhalts.cons_clean hd⟩
    | true =>
      rw [if_pos rfl]
      cases hw : l.updateField s id t.name t.current with
      | mk result l₁ =>
        cases result with
        | error e => exact .inr ⟨[], t, ts, l, e, l₁, rfl, .nil l, hd, hw⟩
        | ok u =>
          obtain ⟨l', hws⟩ | ⟨done, u, rest, l₂, e, l₃, hsplit, hhalts⟩ := ih l₁
          · exact .inl ⟨l', .cons hw hws⟩
          · exact .inr ⟨t :: done, u, rest, l₂, e, l₃, by rw [hsplit]; rfl,
              hhalts.cons_dirty hd hw⟩

/-- Where an edit cannot be written, only the slots before it are settled. -/
theorem writeDirty_of_halts {done : List Slot} {t : Slot} {l₁ l₂ : Link} {e : StoreError}
    (hm : ∀ t ∈ done, t.dirty = (t.current != t.baseline)) (h : Halts s id l done t l₁ e l₂)
    (rest : List Slot) :
    writeDirty s id (done ++ t :: rest) l =
      (⟨done.map Slot.settle ++ t :: rest, previous done, some (t.name, e)⟩, l₂) := by
  obtain ⟨h, hd, hw⟩ := h
  induction done generalizing l with
  | nil =>
    cases h
    rw [List.nil_append, writeDirty, if_pos hd, hw]
    rfl
  | cons u us ih =>
    have hrest : ∀ t ∈ us, t.dirty = (t.current != t.baseline) := fun t ht => hm t (by simp [ht])
    rw [Slot.edits_cons] at h
    rw [Slot.previous_cons, List.cons_append]
    unfold writeDirty
    cases hu : u.dirty with
    | true =>
      rw [hu, if_pos rfl] at h
      cases h with
      | cons hw' hws =>
        simp only [if_true, hw', ih hrest hws]
        rfl
    | false =>
      rw [hu, if_neg Bool.false_ne_true] at h
      simp only [Bool.false_eq_true, if_false, ih hrest h, Written.skip, List.map_cons,
        Slot.settle_of_clean (hm u (by simp)) hu, List.cons_append]

/-! ## Replays -/

/-- Values are exchanged even where they cannot be written any more. -/
theorem replaySlots_changes (s : Schema) (id : RecordId) (ts : List Slot) (c : ChangeSet)
    (failure : Option StoreError) (l : Link) :
    (replaySlots s id ts c failure l).1.changes = c.exchange ts := by
  induction ts generalizing c failure l with
  | nil => rfl
  | cons t ts ih =>
    unfold replaySlots
    rw [ChangeSet.exchange]
    split
    · next hswap =>
      have hnone : c.get? t.name = none := Option.map_eq_none_iff.mp hswap
      rw [hnone]
      exact ih c failure l
    · next restored c' hswap =>
      obtain ⟨old, hold, hpair⟩ := Option.map_eq_some_iff.mp hswap
      cases hpair
      rw [hold]
      exact ih _ _ _

/-- What slots hold after a replay does not depend on which writes failed. -/
theorem values_replaySlots (s : Schema) (id : RecordId) (hn : (ts.map (·.name)).Nodup)
    (failure : Option StoreError) (l : Link) :
    Slot.values (replaySlots s id ts c failure l).1.slots =
      Timeline.restored c (Slot.values ts) := by
  induction ts generalizing c failure l with
  | nil => rfl
  | cons t ts ih =>
    rw [List.map_cons, List.nodup_cons] at hn
    unfold replaySlots
    split
    · next hswap =>
      have hnone : c.get? t.name = none := Option.map_eq_none_iff.mp hswap
      have hheld : t.current = (c.get? t.name).getD t.current := by rw [hnone, Option.getD_none]
      exact List.cons_eq_cons.mpr ⟨Prod.ext rfl hheld, ih hn.2 failure l⟩
    · next restored c' hswap =>
      obtain ⟨old, hold, hpair⟩ := Option.map_eq_some_iff.mp hswap
      cases hpair
      have hothers : Timeline.restored (c.record t.name t.current) (Slot.values ts) =
          Timeline.restored c (Slot.values ts) := by
        refine List.map_congr_left fun e he => ?_
        obtain ⟨u, hu, rfl⟩ := List.mem_map.mp he
        have hne : u.name ≠ t.name := fun he => hn.1 (he ▸ List.mem_map_of_mem hu)
        rw [ChangeSet.get?_record_of_ne c hne]
      have hname : (writeThrough s id { t with current := restored } failure l).1.name = t.name :=
        congrArg Field.name (writeThrough_field s id _ failure l)
      have hheld : (writeThrough s id { t with current := restored } failure l).1.current =
          (c.get? t.name).getD t.current := by
        rw [writeThrough_current, hold, Option.getD_some]
      exact List.cons_eq_cons.mpr ⟨Prod.ext hname hheld, (ih hn.2 _ _).trans hothers⟩

/-- Slots that a change set does not name stay as they are. -/
theorem mem_replaySlots (hn : (ts.map (·.name)).Nodup) {t : Slot} (ht : t ∈ ts)
    (hc : c.get? t.name = none) (failure : Option StoreError) (l : Link) :
    t ∈ (replaySlots s id ts c failure l).1.slots := by
  induction ts generalizing c failure l with
  | nil => cases ht
  | cons u ts ih =>
    rw [List.map_cons, List.nodup_cons] at hn
    unfold replaySlots
    split
    · dsimp only
      rcases List.mem_cons.mp ht with rfl | ht
      · exact List.mem_cons_self
      · exact List.mem_cons_of_mem _ (ih hn.2 ht hc _ _)
    · next restored c' hswap =>
      obtain ⟨old, hold, hpair⟩ := Option.map_eq_some_iff.mp hswap
      cases hpair
      rcases List.mem_cons.mp ht with rfl | ht
      · rw [hc] at hold
        cases hold
      · have hne : t.name ≠ u.name := fun he => hn.1 (he ▸ List.mem_map_of_mem ht)
        exact List.mem_cons_of_mem _
          (ih hn.2 ht (by rw [ChangeSet.get?_record_of_ne c hne, hc]) _ _)

theorem recorded_cons (c : ChangeSet) (t : Slot) (ts : List Slot) :
    recorded c (t :: ts) =
      ((c.get? t.name).map fun v => (t.name, v)).toList ++ recorded c ts := by
  unfold recorded
  rw [List.filterMap_cons]
  cases c.get? t.name <;> rfl

theorem recorded_record (hn : t.name ∉ ts.map (·.name)) (v : Value) :
    recorded (c.record t.name v) ts = recorded c ts := by
  refine recorded_congr fun u hu => ChangeSet.get?_record_of_ne c (fun he => hn ?_) v
  rw [← he]
  exact List.mem_map_of_mem hu

/-- A replay that succeeds has written every recorded value. -/
theorem replaySlots_writes (hn : (ts.map (·.name)).Nodup)
    (h : (replaySlots s id ts c none l).1.failure = none) :
    Writes s id (recorded c ts) l (replaySlots s id ts c none l).2 := by
  induction ts generalizing c l with
  | nil => exact .nil l
  | cons t ts ih =>
    rw [List.map_cons, List.nodup_cons] at hn
    rw [recorded_cons]
    unfold replaySlots at h ⊢
    split at h
    · next hswap =>
      have hnone : c.get? t.name = none := Option.map_eq_none_iff.mp hswap
      rw [hnone]
      exact ih hn.2 h
    · next restored c' hswap =>
      obtain ⟨old, hold, hpair⟩ := Option.map_eq_some_iff.mp hswap
      cases hpair
      simp only [writeThrough, hold] at h ⊢
      cases hw : l.updateField s id (Slot.name { t with current := restored }) restored with
      | mk result l₁ =>
        rw [hw] at h
        cases result with
        | error e =>
          simp only [failure_replaySlots_some] at h
          cases h
        | ok u =>
          have hrest := ih (c := c.record t.name t.current) hn.2 h
          rw [recorded_record hn.1] at hrest
          exact .cons hw hrest

theorem link_replaySlots_some (c : ChangeSet) (e : StoreError) (l : Link) :
    (replaySlots s id ts c (some e) l).2 = l := by
  induction ts generalizing c with
  | nil => rfl
  | cons t ts ih =>
    unfold replaySlots
    split
    · exact ih c
    · exact ih _

/-- A replay that fails has had one statement fail. -/
theorem failures_replaySlots (id : RecordId) (hts : ∀ t ∈ ts, (s.field? t.name).isSome)
    (c : ChangeSet) (l : Link) :
    (replaySlots s id ts c none l).2.stats.failures =
      l.stats.failures + (replaySlots s id ts c none l).1.failure.toList.length := by
  induction ts generalizing c l with
  | nil => rfl
  | cons t ts ih =>
    have hrest : ∀ u ∈ ts, (s.field? u.name).isSome := fun u hu => hts u (by simp [hu])
    unfold replaySlots
    split
    · exact ih hrest c l
    · next restored c' _ =>
      simp only [writeThrough]
      cases hw : l.updateField s id (Slot.name { t with current := restored }) restored with
      | mk result l₁ =>
        cases result with
        | error e =>
          obtain ⟨r, -, rfl⟩ := Link.updateField_eq_error (hts t (by simp)) hw
          simp only [link_replaySlots_some, failure_replaySlots_some]
          rfl
        | ok u =>
          obtain ⟨-, n, d, -, rfl⟩ := Link.updateField_eq_ok hw
          exact ih hrest c' _

end Record

end LiveRecords
