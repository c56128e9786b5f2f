import LiveRecords.Proofs.Passing
import LiveRecords.Proofs.Rewriting
import LiveRecords.Proofs.Sending

/-!
# Statements that nobody refuses

Besides the database, only a reason of its own can have a statement refused.
Where there is none, the writes of a replay to a row that is stored all
succeed, so the replay does.
-/

namespace LiveRecords

namespace Link

variable {l l' l'' : Link}

/-- From here on no statement is refused for a reason of its own. -/
def Unrefused (l : Link) : Prop := ∀ n, l.stats.total ≤ n → l.outage n = none

/-- A link after some statements. -/
structure Later (l l' : Link) : Prop where
  outage : l'.outage = l.outage
  total : l.stats.total ≤ l'.stats.total

theorem Later.refl (l : Link) : Later l l := ⟨rfl, Nat.le_refl _⟩

theorem Later.trans (h : Later l l') (h' : Later l' l'') : Later l l'' :=
  ⟨h'.outage.trans h.outage, Nat.le_trans h.total h'.total⟩

theorem Unrefused.later (h : l.Unrefused) (hl : Later l l') : l'.Unrefused := by
  intro n hn
  rw [hl.outage]
  exact h n (Nat.le_trans hl.total hn)

theorem later_report (l : Link) (d : Diagnostic) : Later l (l.report d) := ⟨rfl, Nat.le_refl _⟩

theorem later_refuse (l : Link) (s : Statement) (e : Table.Refusal) : Later l (l.refuse s e) :=
  ⟨rfl, Nat.le_of_lt (by rw [refuse, report, Statistics.total_fail]; exact Nat.lt_succ_self _)⟩

theorem later_execute (l : Link) (s : Statement) : Later l (l.execute s).2 := by
  unfold execute
  dsimp only
  split
  · exact (later_report l _).trans (later_refuse _ _ _)
  · split
    · exact (later_report l _).trans (later_refuse _ _ _)
    · exact ⟨rfl, Nat.le_of_lt (by rw [Statistics.total_bump]; exact Nat.lt_succ_self _)⟩

/-- Statements are only added. -/
theorem closed_later (l : Link) : Closed (Later l) where
  execute q h := h.trans (later_execute _ q)
  report d h := h.trans (later_report _ d)

theorem later_updateField (l : Link) (s : Schema) (id : RecordId) (field : String) (v : Value) :
    Later l (l.updateField s id field v).2 :=
  (closed_later l).updateField (.refl l) s id field v

/-- A field of a row that is stored can be written. -/
theorem updateField_of_unrefused (hl : l.Unrefused) {s : Schema} {es : List Shelved}
    {id : RecordId} (hd : l.database.Plain) (h : l.database.Holds s es) (hp : s.Proper)
    (hs : (stored? es id).isSome) {f : Field} (hf : f ∈ s.fields) {v : Value}
    (hv : v.fits f.type f.notNull = true) : (l.updateField s id f.name v).1 = .ok () := by
  obtain ⟨i, hi⟩ := List.mem_iff_getElem?.mp hf
  have hw := Database.writes_field es hp (hp.fieldIndex? hi) hi hv
  rw [stored?, Option.isSome_map] at hs
  obtain ⟨e, he⟩ := Option.isSome_iff_exists.mp hs
  have hfield : (s.field? f.name).isNone = false := by
    rw [Option.isNone_eq_false_iff]
    exact List.find?_isSome.mpr ⟨f, hf, beq_self_eq_true _⟩
  have hex := Database.execute_updateColumn_some hd h hp he hw
  unfold updateField
  rw [hfield]
  simp only [Bool.false_eq_true, if_false, setColumn, execute, report,
    hl _ (Nat.le_refl _), hex]

end Link

namespace Record

open Link (Unrefused)

variable {x : Record} {s : Schema} {id : RecordId} {l : Link} {es : List Shelved}

/-! ## Replaying -/

/-- Where nothing is refused, all writes of a replay to a stored row succeed. -/
theorem replaySlots_of_unrefused (hl : l.Unrefused) {ts : List Slot} {c : ChangeSet}
    (hd : l.database.Plain) (h : l.database.Holds s es) (hp : s.Proper)
    (hs : (stored? es id).isSome) (hts : ∀ t ∈ ts, t.field ∈ s.fields)
    (hc : ∀ t ∈ ts, ∀ v, c.get? t.name = some v → v.fits t.field.type t.field.notNull = true)
    (hn : (ts.map (·.name)).Nodup) : (replaySlots s id ts c none l).1.failure = none := by
  induction ts generalizing l es c with
  | nil => rfl
  | cons t ts ih =>
    have ht := hts t (by simp)
    rw [List.map_cons, List.nodup_cons] at hn
    have hrest : ∀ u ∈ ts, u.field ∈ s.fields := fun u hu => hts u (by simp [hu])
    unfold replaySlots
    split
    · exact ih hl hd h hs hrest (fun u hu => hc u (by simp [hu])) hn.2
    · next restored c' hswap =>
      obtain ⟨old, hold, hpair⟩ := Option.map_eq_some_iff.mp hswap
      cases hpair
      have hfits := hc t (by simp) restored hold
      have hok := Link.updateField_of_unrefused hl hd h hp hs ht hfits
      have hlater := Link.later_updateField l s id t.field.name restored
      have hcases := Link.updateField_cases id hd h hp ht hfits
      obtain ⟨e, he, -⟩ | ⟨-, hdb⟩ := hcases
      · rw [hok] at he
        cases he
      have hshelf := Link.shelf_setValue id h.shelf hp ht hfits
      have hs' :
          (stored? (revise es id (RowImage.setValue s t.field.name restored)) id).isSome := by
        rw [stored?_revise (RowImage.id_setValue _ _ _), if_pos rfl, Option.isSome_map]
        exact hs
      have hc' : ∀ u ∈ ts, ∀ v, (c.record t.name t.current).get? u.name = some v →
          v.fits u.field.type u.field.notNull = true := by
        intro u hu v hv
        have hne : u.name ≠ t.name := fun he => hn.1 (he ▸ List.mem_map_of_mem hu)
        rw [ChangeSet.get?_record_of_ne c hne] at hv
        exact hc u (by simp [hu]) v hv
      dsimp only
      cases hw : l.updateField s id t.field.name restored with
      | mk result l₁ =>
        rw [hw] at hok hlater hdb
        have hresult : result = .ok () := hok
        subst hresult
        have hwrite : writeThrough s id { t with current := restored } none l =
            ({ t with current := restored }.settle, none, l₁) := by
          unfold writeThrough
          dsimp only
          rw [show l.updateField s id (Slot.name { t with current := restored }) restored =
            (.ok (), l₁) from hw]
        rw [hwrite]
        have hdb' : l₁.database = _ := hdb
        exact ih (hl.later hlater) (hdb' ▸ hd.shelve s _) (hdb' ▸ h.shelve hshelf) hs' hrest hc'
          hn.2

/-- Where nothing is refused, the replay of a record whose row is stored succeeds. -/
theorem replay_of_unrefused (hl : l.Unrefused) (hx : x.Intact) (hd : l.database.Plain)
    (h : l.database.Holds x.schema es) (hs : (stored? es x.id).isSome) (t : Track) :
    (x.replay t l).1.1 = .ok !(x.stack t).isEmpty := by
  cases hstack : x.stack t with
  | nil =>
    rw [replay_nil hstack]
    rfl
  | cons c older =>
    have hc := hx.changes t c (hstack ▸ List.mem_cons_self)
    have hok := replaySlots_of_unrefused hl hd h hx.proper hs
      (fun t ht => field_mem hx.toShaped ht)
      (fun t ht v hv => hc.fits _ (field_mem hx.toShaped ht) v hv) (names_nodup hx.toShaped)
    simp only [Record.replay, hstack, hok]
    rfl

end Record

/-! ## Workspaces -/

namespace Workspace

variable {w w' w₁ w₂ w₃ : Workspace}

/-- A workspace after some statements. -/
structure Later (w w' : Workspace) : Prop where
  outage : w'.outage = w.outage
  total : ∀ c, (w.statsOf c).total ≤ (w'.statsOf c).total

theorem Later.of_connections (ho : w'.outage = w.outage) (hc : w'.connections = w.connections) :
    Later w w' :=
  ⟨ho, fun c => Nat.le_of_eq (by rw [statsOf, statsOf, hc])⟩

theorem Later.refl (w : Workspace) : Later w w := .of_connections rfl rfl

theorem Later.trans (h₁ : Later w₁ w₂) (h₂ : Later w₂ w₃) : Later w₁ w₃ :=
  ⟨h₂.outage.trans h₁.outage, fun c => Nat.le_trans (h₁.total c) (h₂.total c)⟩

theorem later_through {α : Type} {w : Workspace} {c : ConnectionRef} {f : Link → α × Link}
    (h : (w.link c).Later (f (w.link c)).2) : Later w (w.through c f).2 := by
  have htotal := h.total
  unfold through setLink
  cases hk : w.connections[c]? with
  | none => exact .refl w
  | some k =>
    refine ⟨rfl, fun j => ?_⟩
    obtain ⟨hlt, -⟩ := List.getElem?_eq_some_iff.mp hk
    simp only [statsOf, List.getElem?_set]
    by_cases hj : c = j
    · subst hj
      simpa [link, statsOf, hk, hlt] using htotal
    · simp [hj]

/-- Whatever a command sets off, statements are only added. -/
theorem passing_later : Passing Later where
  refl := .refl
  trans := .trans
  write _ _ _ := .of_connections rfl rfl
  setRecord _ _ _ _ := .of_connections rfl rfl
  setHub _ _ _ := .of_connections rfl rfl
  statements _ _ x c := later_through ((Link.closed_later _).run (.refl _) x c)

/-- A command only adds statements. -/
theorem later_run (r : RecordRef) (c : Record.Command) (w : Workspace) :
    Later w (w.run r c).2 :=
  passing_later.run r c w

end Workspace

end LiveRecords
