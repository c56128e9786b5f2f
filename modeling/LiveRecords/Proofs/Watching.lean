import LiveRecords.Proofs.Bypassing
import LiveRecords.Proofs.Turning

/-!
# Views along a run

An action reads pages for the view that it names, and for no other; whatever
else it does, no view reads another key, and rows that were resolved stay
backed by the records that stand under their keys.
-/

namespace LiveRecords.Workspace

variable {w w' w'' : Workspace} {own : Prop} {v : ViewRef} {x : View}

/-- The view that an action reads pages for. -/
def Action.paged? : Action → Option String
  | .fetchMore view | .prefetch view _ | .reset view | .commitStaging view _ => some view
  | _ => none

/-- The window from which an action reads on. -/
def Action.start : Action → Window → Window
  | .reset _ => Window.cleared
  | .commitStaging .. => fun x => { x with atEnd := false }
  | _ => id

/-- Pages are read for the view that an action names, and for no other. -/
structure Turns (a : Action) (w w' : Workspace) : Prop where
  shown : w.Shown → w'.Shown
  windows : ∀ {v : ViewRef} {x}, w.views[v]? = some x →
    ∃ y, w'.views[v]? = some y ∧ y.map = x.map ∧
      (y.window = x.window ∨ ∃ name, a.paged? = some name ∧ w.viewNames.lookup name = some v ∧
        w'.core.Turns x.map (a.start x.window) y.window)

variable {a : Action}

theorem Lasts.turns (h : Lasts w w') : Turns a w w' where
  shown := h.shown
  windows hx := by
    obtain ⟨y, hy, hmap, hwindow⟩ := h.windows hx
    exact ⟨y, hy, hmap, .inl hwindow⟩

theorem Turned.turns {name : String} (ha : a.paged? = some name)
    (hv : w.viewNames.lookup name = some v) (h : Turned a.start v w w') : Turns a w w' where
  shown := h.shown
  windows hx := by
    obtain ⟨y, hy, hmap, hwindow⟩ := h.windows hx
    refine ⟨y, hy, hmap, hwindow.imp_right fun ht => ⟨name, ha, ?_, ht.2⟩⟩
    rw [ht.1]
    exact hv

/-! ### Actions that leave all views -/

theorem views_holdAs (w : Workspace) (as : Option String) (r : RecordRef) :
    (w.holdAs as r).views = w.views :=
  (pervades_bypasses.holdAs w as r).views

@[simp] theorem views_answerHeld (as : Option String)
    (x : Except StoreError (Option RecordRef) × Workspace) :
    (answerHeld as x).2.views = x.2.views :=
  (pervades_bypasses.answerHeld (.refl x.2)).views

/-- Actions that neither look at a view nor open one leave all views. -/
theorem perform_views (h : a.watches = false) : (w.perform a).2.views = w.views := by
  cases hr : a.releases with
  | false => exact (bypasses_perform h hr w).views
  | true =>
    cases a with
    | dropView view => rfl
    | release map record =>
      refine withMap_preserves (P := fun w' => w'.views = w.views) rfl fun m _ =>
        withRecord_preserves (P := fun w' => w'.views = w.views) rfl fun r _ => ?_
      rw [snd_answer]
      obtain hsame | ⟨-, hfreed⟩ := pervades_bypasses.release m r (w.letGo record)
      · rw [hsame]
        rfl
      · exact hfreed.views
    | sweep map =>
      refine withMap_preserves (P := fun w' => w'.views = w.views) rfl fun m _ => ?_
      rw [snd_answer]
      exact (pervades_bypasses.sweep m w).views
    | _ => cases hr

/-! ### Rows in view -/

/-- A row that is resolved is kept with its record. -/
theorem recordAt_kept {row : Nat} {r : RecordRef} (hx : w.views[v]? = some x)
    (h : w.recordAt v row = (.ok r, w')) :
    ∃ id y, x.window.key? row = some id ∧ w'.views[v]? = some y ∧ y.map = x.map ∧
      y.window = x.window ∧ y.rows.lookup row = some r := by
  unfold recordAt at h
  rw [hx] at h
  dsimp only at h
  split at h
  · cases h
  next id hid =>
  split at h
  · next hlook =>
    cases h
    exact ⟨id, x, hid, hx, rfl, rfl, hlook⟩
  · have hviews := (pervades_bypasses.recordFor x.map id w).views
    split at h
    · cases h
    · next w₁ hq =>
      rw [hq] at hviews
      cases h
      have hx₁ : w₁.views[v]? = some x := hviews ▸ hx
      exact ⟨id, { x with rows := (row, r) :: x.rows }, hid, by simp [setView, hx₁], rfl, rfl,
        List.lookup_cons_self⟩

/-! ### Actions that look at views -/

theorem Turns.refl (a : Action) (w : Workspace) : Turns a w w := (Lasts.refl w).turns

theorem Lasts.answerHeld {as : Option String}
    {x : Except StoreError (Option RecordRef) × Workspace} (h : Lasts w x.2) :
    Lasts w (answerHeld as x).2 :=
  h.trans (.of_core (core_answerHeld as x) (views_answerHeld as x))

theorem Turned.answerHeld {start : Window → Window} {as : Option String}
    {x : Except StoreError (Option RecordRef) × Workspace} (h : Turned start v w x.2) :
    Turned start v w (answerHeld as x).2 where
  adds := core_answerHeld as x ▸ h.adds
  shown hw y hy := by
    rw [core_answerHeld]
    exact h.shown hw y (by rwa [views_answerHeld] at hy)
  windows hx := by
    rw [core_answerHeld, views_answerHeld]
    exact h.windows hx

theorem Lasts.holdView (h : Lasts w w') (as : Option String) (v : ViewRef) :
    Lasts w (w'.holdView as v) :=
  h.trans (.of_core (holdView_core w' as v) (by cases as <;> rfl))

theorem setListeners_lasts (v : ViewRef) (listeners : Observers String) (w : Workspace) :
    Lasts w (w.setView v fun view => { view with listeners }) :=
  setView_lasts_of_rows (fun _ => rfl) (fun _ => rfl) fun _ => rfl

theorem openView_lasts (view : String) (m : MapRef) (s : Selection) (fetchSize : Nat)
    (w : Workspace) : Lasts w (w.openView view m s fetchSize).2 := by
  unfold openView
  cases s with
  | filter f =>
    have hnew := addView_lasts m f none fetchSize w
    dsimp only
    split
    · next hq => rw [hq] at hnew; exact hnew
    · next v w₁ hq => rw [hq] at hnew; exact hnew.holdView (some view) v
  | below parent =>
    have hnew := addChildView_lasts m parent fetchSize w
    dsimp only
    split
    · next hq => rw [hq] at hnew; exact hnew
    · next v w₁ hq => rw [hq] at hnew; exact hnew.holdView (some view) v

theorem showData_lasts (hs : w.core.Sound) (hx : w.views[v]? = some x)
    (hm : x.map < w.maps.length) (row : Nat) (role : Role) (as : Option String) :
    Lasts w (w.showData v row role as).2 := by
  have hdata := (data_lasts hs hx hm row role).1
  unfold showData
  split
  · next hq => rw [hq] at hdata; exact hdata
  · next hq => rw [hq] at hdata; exact hdata
  · next hq => rw [hq] at hdata; exact hdata.holdView _ _
  · next hq =>
    rw [hq] at hdata
    exact hdata.trans (.of_core (by cases as <;> rfl) (views_holdAs _ _ _))

/-- What an action makes of the views. -/
theorem perform_turns (hs : w.core.Sound) (hw : Holding own w) (ha : a.Suits own) :
    Turns a w (w.perform a).2 := by
  cases hwatch : a.watches with
  | false => exact (Lasts.of_views (perform_adds hs hw ha) (perform_views hwatch)).turns
  | true =>
  have hview : ∀ {name : String} {v : ViewRef}, w.viewNames.lookup name = some v →
      ∃ x, w.views[v]? = some x ∧ x.map < w.maps.length := by
    intro name v hv
    have hlt := hw.viewNames _ (mem_of_lookup hv)
    exact ⟨_, List.getElem?_eq_getElem hlt, hw.viewMaps _ (List.getElem_mem hlt)⟩
  cases a with
  | subscribe s l =>
    cases s with
    | view name =>
      refine withView_preserves (.refl _ w) fun v _ => ?_
      split
      · exact .refl _ w
      · exact ((setListeners_lasts v _ w).trans (still_subscriptions _ _).lasts).turns
    | _ => cases hwatch
  | unsubscribe s as =>
    rw [perform]
    split
    · exact .refl _ w
    · cases s with
      | view name =>
        refine withView_preserves (.refl _ w) fun v _ => ?_
        split
        · exact .refl _ w
        · exact (setListeners_lasts v _ w).turns
      | _ => cases hwatch
  | openView view map store s fetchSize =>
    refine withMap_preserves (.refl _ w) fun m _ => ?_
    cases fetchSize with
    | some n => exact (openView_lasts view m s n w).turns
    | none => exact withStore_preserves (.refl _ w) fun st _ => (openView_lasts view m s _ w).turns
  | fetchMore view =>
    refine withView_preserves (.refl _ w) fun v hv => ?_
    rw [snd_answer]
    exact (fetchMore_turned v w).turns rfl hv
  | prefetch view n =>
    refine withView_preserves (.refl _ w) fun v hv => ?_
    rw [snd_answer]
    exact (prefetch_turned v n w).turns rfl hv
  | reset view =>
    refine withView_preserves (.refl _ w) fun v hv => ?_
    rw [snd_answer]
    exact (reset_turned v w).turns rfl hv
  | row view row as =>
    refine withView_preserves (.refl _ w) fun v hv => ?_
    obtain ⟨x, hx, hm⟩ := hview hv
    exact (recordAt_lasts hs hx hm row).1.answerHeld.turns
  | data view row role as =>
    refine withView_preserves (.refl _ w) fun v hv => ?_
    obtain ⟨x, hx, hm⟩ := hview hv
    exact (showData_lasts hs hx hm row role as).turns
  | column view field =>
    refine withView_preserves (.refl _ w) fun v hv => ?_
    obtain ⟨x, hx, hm⟩ := hview hv
    exact (columnFrom_lasts hs hx hm field _ 0).turns
  | setData view row role v =>
    refine withView_preserves (.refl _ w) fun u hu => ?_
    rw [snd_answer]
    exact (setData_lasts hs hw (.of_lookup hu) row role v).turns
  | childView view parent as =>
    refine withView_preserves (.refl _ w) fun v _ => ?_
    have hchild := childView_lasts v parent w
    split
    · next hq => rw [hq] at hchild; exact hchild.turns
    · next hq => rw [hq] at hchild; exact (hchild.holdView _ _).turns
  | createStaging view key as =>
    refine withView_preserves (.refl _ w) fun v hv => ?_
    obtain ⟨x, hx, hm⟩ := hview hv
    have hnew := createStaging_lasts hs hx hm key
    exact hnew.answerHeld.turns
  | commitStaging view as =>
    refine withView_preserves (.refl _ w) fun v hv => ?_
    exact (commitStaging_turned hs hw (.of_lookup hv)).answerHeld.turns rfl hv
  | discardStaging view as =>
    refine withView_preserves (.refl _ w) fun v _ => ?_
    exact (discardStaging_lasts v w).answerHeld.turns
  | _ => cases hwatch

end LiveRecords.Workspace
