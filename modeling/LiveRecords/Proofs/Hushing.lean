import LiveRecords.Proofs.Pervading

/-!
# Staging places that are left alone

Besides what a program does with the staging place of a view, nothing touches
what is staged in any view, and no listener of a view hears that it changed. So
it is for every operation on records, identity maps and stores, for reading
pages and for resolving rows.
-/

namespace LiveRecords

/-- The listener of a view that heard of a change of the staging place. -/
def Heard.staging? : Heard → Option String
  | .view listener .stagingChanged => some listener
  | _ => none

namespace Workspace

/-- The listeners that heard of a change of a staging place, in order. -/
def stagings (w : Workspace) : List String := w.heard.filterMap Heard.staging?

/-- The record in the staging place of a view. -/
def stagedIn (w : Workspace) (v : ViewRef) : Option RecordRef := (w.views[v]?).bind (·.staging)

/-- Those who listen to a view. -/
def listeningTo (w : Workspace) (v : ViewRef) : List String :=
  (w.views[v]?).elim [] fun x => x.listeners.listeners.map (·.2)

/-- Whatever refers to a record or to an identity map refers to one that was made. -/
structure Rooted (w : Workspace) : Prop where
  registered : ∀ map ∈ w.maps, ∀ e ∈ map.registered, e.2 < w.records.length
  staged : ∀ x ∈ w.views, ∀ r ∈ x.staging, r < w.records.length
  views : ∀ x ∈ w.views, x.map < w.maps.length
  mapNames : ∀ e ∈ w.mapNames, e.2 < w.maps.length
  stores : ∀ s ∈ w.stores, ∀ e ∈ s.2.maps, e.2 < w.maps.length

/-- No staging place was touched, and nobody heard of a change of one. -/
structure Hushed (w w' : Workspace) : Prop where
  stagings : w'.stagings = w.stagings
  stagedIn : ∀ v, w'.stagedIn v = w.stagedIn v
  listeningTo : ∀ v, w'.listeningTo v = w.listeningTo v
  /-- Records come in, and none goes. -/
  records : w.records.length ≤ w'.records.length
  rooted : w.Rooted → w'.Rooted

variable {w w' w'' : Workspace} {m : MapRef}

theorem Hushed.refl (w : Workspace) : Hushed w w :=
  ⟨rfl, fun _ => rfl, fun _ => rfl, Nat.le_refl _, id⟩

theorem Hushed.trans (h : Hushed w w') (h' : Hushed w' w'') : Hushed w w'' where
  stagings := h'.stagings.trans h.stagings
  stagedIn v := (h'.stagedIn v).trans (h.stagedIn v)
  listeningTo v := (h'.listeningTo v).trans (h.listeningTo v)
  records := Nat.le_trans h.records h'.records
  rooted hw := h'.rooted (h.rooted hw)

/-- Neither views nor names change, and what identity maps list was made. -/
theorem Hushed.of_views (hh : w'.heard = w.heard) (hv : w'.views = w.views)
    (hn : w'.mapNames = w.mapNames) (hs : w'.stores = w.stores)
    (hr : w.records.length ≤ w'.records.length) (hl : w.maps.length ≤ w'.maps.length)
    (hm : ∀ map ∈ w'.maps, ∀ e ∈ map.registered,
      (∃ map ∈ w.maps, e ∈ map.registered) ∨ e.2 < w'.records.length) : Hushed w w' where
  stagings := by rw [Workspace.stagings, Workspace.stagings, hh]
  stagedIn v := by rw [Workspace.stagedIn, Workspace.stagedIn, hv]
  listeningTo v := by rw [Workspace.listeningTo, Workspace.listeningTo, hv]
  records := hr
  rooted hw :=
    { registered := by
        intro map hmap e he
        obtain ⟨map, hmap, he⟩ | hlt := hm map hmap e he
        · exact Nat.lt_of_lt_of_le (hw.registered map hmap e he) hr
        · exact hlt
      staged := fun x hx r hr' => Nat.lt_of_lt_of_le (hw.staged x (hv ▸ hx) r hr') hr
      views := fun x hx => Nat.lt_of_lt_of_le (hw.views x (hv ▸ hx)) hl
      mapNames := fun e he => Nat.lt_of_lt_of_le (hw.mapNames e (hn ▸ he)) hl
      stores := fun s hs' e he => Nat.lt_of_lt_of_le (hw.stores s (hs ▸ hs') e he) hl }

/-- What changed is neither heard nor seen by views and identity maps. -/
theorem Hushed.of_parts (hh : w'.heard = w.heard) (hv : w'.views = w.views)
    (hm : w'.maps = w.maps) (hn : w'.mapNames = w.mapNames) (hs : w'.stores = w.stores)
    (hr : w'.records.length = w.records.length) : Hushed w w' :=
  .of_views hh hv hn hs (Nat.le_of_eq hr.symm) (Nat.le_of_eq (by rw [hm]))
    fun map hmap _ he => .inl ⟨map, hm ▸ hmap, he⟩

theorem hushed_write (w : Workspace) {h : Heard} (hh : h.staging? = none) :
    Hushed w (w.write h) where
  stagings := by simp [Workspace.stagings, write, List.filterMap_append, hh]
  stagedIn _ := rfl
  listeningTo _ := rfl
  records := Nat.le_refl _
  rooted hw := ⟨hw.registered, hw.staged, hw.views, hw.mapNames, hw.stores⟩

/-- A view is changed so that what it refers to was made. -/
theorem Rooted.setView (hw : w.Rooted) {v : ViewRef} {f : View → View}
    (hm : ∀ x, (f x).map = x.map)
    (hs : ∀ x ∈ w.views, ∀ r ∈ (f x).staging, r < w.records.length) : (w.setView v f).Rooted := by
  have hmem : ∀ y ∈ (w.setView v f).views, y ∈ w.views ∨ ∃ x ∈ w.views, y = f x := by
    intro y hy
    obtain ⟨j, hj⟩ := List.mem_iff_getElem?.mp hy
    simp only [Workspace.setView, List.getElem?_modify] at hj
    obtain ⟨x, hx, rfl⟩ := Option.map_eq_some_iff.mp hj
    by_cases hvj : v = j
    · exact .inr ⟨x, List.mem_of_getElem? hx, by simp [hvj]⟩
    · exact .inl (by simpa [hvj] using List.mem_of_getElem? hx)
  refine ⟨hw.registered, fun y hy r hr => ?_, fun y hy => ?_, hw.mapNames, hw.stores⟩
  · obtain hy | ⟨x, hx, rfl⟩ := hmem y hy
    · exact hw.staged y hy r hr
    · exact hs x hx r hr
  · obtain hy | ⟨x, hx, rfl⟩ := hmem y hy
    · exact hw.views y hy
    · exact hm x ▸ hw.views x hx

theorem stagedIn_setView (w : Workspace) (v : ViewRef) {f : View → View}
    (hs : ∀ x, (f x).staging = x.staging) (j : ViewRef) :
    (w.setView v f).stagedIn j = w.stagedIn j := by
  simp only [stagedIn, setView, List.getElem?_modify]
  cases w.views[j]? with
  | none => rfl
  | some x => by_cases hj : v = j <;> simp [hj, hs]

/-- A change of a view that leaves its staging place and its listeners. -/
theorem hushed_setView (w : Workspace) (v : ViewRef) {f : View → View}
    (hm : ∀ x, (f x).map = x.map) (hs : ∀ x, (f x).staging = x.staging)
    (hl : ∀ x, (f x).listeners = x.listeners) : Hushed w (w.setView v f) where
  stagings := rfl
  stagedIn := stagedIn_setView w v hs
  listeningTo j := by
    simp only [Workspace.listeningTo, setView, List.getElem?_modify]
    cases w.views[j]? with
    | none => rfl
    | some x => by_cases hj : v = j <;> simp [hj, hl]
  records := Nat.le_refl _
  rooted hw := hw.setView hm fun x hx r hr => hw.staged x hx r (hs x ▸ hr)

theorem hushed_unregister (m : MapRef) (rs : List RecordRef) (w : Workspace) :
    Hushed w (w.unregister m rs) := by
  refine .of_views rfl rfl rfl rfl (Nat.le_refl _) (by simp [unregister, setMap])
    fun map hmap e he => ?_
  obtain ⟨j, hj⟩ := List.mem_iff_getElem?.mp hmap
  obtain ⟨old, hold, rfl⟩ := maps_setMap hj
  refine .inl ⟨old, List.mem_of_getElem? hold, ?_⟩
  split at he
  · exact List.mem_of_mem_filter he
  · exact he

/-- All that is done with records and stores leaves the staging places. -/
theorem pervades_hushed : Pervades Hushed where
  refl := .refl
  trans := .trans
  write w h hne := by
    refine hushed_write w ?_
    cases h with
    | view l e => exact absurd rfl (hne l e)
    | record | reacted | coordinator => rfl
  setRecord w r f _ := .of_parts rfl rfl rfl rfl rfl (by simp [setRecord])
  enrol w m i := by
    refine .of_views rfl rfl rfl rfl (by simp [setMap]) (by simp [setMap]) fun map hmap e he => ?_
    obtain ⟨j, hj⟩ := List.mem_iff_getElem?.mp hmap
    obtain ⟨old, hold, rfl⟩ := maps_setMap hj
    split at he
    · rcases List.mem_append.mp he with he | he
      · exact .inl ⟨old, List.mem_of_getElem? hold, he⟩
      · rw [List.mem_singleton.mp he]
        exact .inr (by simp [setMap])
    · exact .inl ⟨old, List.mem_of_getElem? hold, he⟩
  addMap w map hnone := by
    refine .of_views rfl rfl rfl rfl (Nat.le_refl _) (by simp) fun map' hmap e he => ?_
    rcases List.mem_append.mp hmap with hmap | hmap
    · exact .inl ⟨map', hmap, he⟩
    · rw [List.mem_singleton.mp hmap, hnone] at he
      cases he
  beside hh hv _ hm hn hs hr := .of_parts hh hv hm hn hs (by rw [hr])

/-! ## Listeners of a view -/

/-- What listeners of a view hear of anything else. -/
theorem hushed_announceView (v : ViewRef) (w : Workspace) {e : ViewEvent}
    (he : e ≠ .stagingChanged) : Hushed w (announceView v w e) := by
  unfold announceView
  split
  · exact .refl w
  · refine pervades_hushed.passing.foldl (fun w l => hushed_write w ?_) _ w
    unfold Heard.staging?
    split
    · next heq => cases heq; exact absurd rfl he
    · rfl

/-- What listeners of a view hear of other things, one after another. -/
theorem hushed_announceAll (v : ViewRef) {es : List ViewEvent} (h : .stagingChanged ∉ es)
    (w : Workspace) : Hushed w (es.foldl (announceView v) w) := by
  induction es generalizing w with
  | nil => exact .refl w
  | cons e es ih =>
    rw [List.mem_cons, not_or] at h
    exact (hushed_announceView v w (Ne.symm h.1)).trans (ih h.2 _)

/-! ## Identity maps -/

theorem hushed_release (m : MapRef) (r : RecordRef) (w : Workspace) :
    Hushed w (w.release m r).2 := by
  obtain hsame | ⟨-, hrest⟩ := pervades_hushed.release m r w
  · rw [hsame]
    exact .refl w
  · exact (hushed_unregister m [r] w).trans hrest

theorem hushed_sweep (m : MapRef) (w : Workspace) : Hushed w (w.sweep m).2 :=
  (hushed_unregister m (w.unheld m) w).trans (pervades_hushed.sweep m w)

/-! ## Views -/

/-- Rows that come into view are all that a page tells of. -/
theorem prefetchWindow_events {m : MapRef} {count : Nat} {window : Window} {es : List ViewEvent}
    (h : (w.prefetchWindow m count window).1.1 = .ok es) : ViewEvent.stagingChanged ∉ es := by
  unfold prefetchWindow at h
  split at h
  · cases h
    exact List.not_mem_nil
  · next map _ =>
    have hok : (window.prefetch map.schema count (w.link map.connection)).1.1 = .ok es := h
    unfold Window.prefetch at hok
    split at hok
    · cases hok
      exact List.not_mem_nil
    · split at hok
      · cases hok
      · cases hok
        unfold Window.growth
        split <;> simp

theorem hushed_prefetch (v : ViewRef) (count : Nat) (w : Workspace) :
    Hushed w (w.prefetch v count).2 := by
  unfold prefetch
  split
  · exact .refl w
  · next x _ =>
    have hread := pervades_hushed.prefetchWindow x.map count x.window w
    have hevents := @prefetchWindow_events w x.map count x.window
    have hset := hread.trans (hushed_setView _ v
      (f := fun x' => { x' with window := (w.prefetchWindow x.map count x.window).1.2 })
      (fun _ => rfl) (fun _ => rfl) fun _ => rfl)
    dsimp only
    split
    · exact hset
    · next es hes => exact hset.trans (hushed_announceAll v (hevents hes) _)

theorem hushed_fetchMore (v : ViewRef) (w : Workspace) : Hushed w (w.fetchMore v).2 := by
  unfold fetchMore
  split
  · exact .refl w
  · exact hushed_prefetch v _ w

/-- A view comes in with nothing staged and nobody listening. -/
theorem Hushed.appendView (h : Hushed w w') (hm : w.Rooted → m < w'.maps.length) (window : Window)
    (parent : Option RecordId) :
    Hushed w { w' with views := w'.views ++ [{ map := m, window, parent }] } := by
  refine ⟨h.stagings, fun j => .trans ?_ (h.stagedIn j), fun j => .trans ?_ (h.listeningTo j),
    h.records, fun hw => ?_⟩
  · simp only [Workspace.stagedIn]
    rcases Nat.lt_trichotomy j w'.views.length with hj | rfl | hj
    · rw [List.getElem?_append_left hj]
    · simp
    · rw [List.getElem?_eq_none (by simp; omega), List.getElem?_eq_none (by omega)]
  · simp only [Workspace.listeningTo]
    rcases Nat.lt_trichotomy j w'.views.length with hj | rfl | hj
    · rw [List.getElem?_append_left hj]
    · simp
    · rw [List.getElem?_eq_none (by simp; omega), List.getElem?_eq_none (by omega)]
  · obtain ⟨hregistered, hstaged, hviews, hmapNames, hstores⟩ := h.rooted hw
    refine ⟨hregistered, fun x hx r hr => ?_, fun x hx => ?_, hmapNames, hstores⟩
    · rcases List.mem_append.mp hx with hx | hx
      · exact hstaged x hx r hr
      · rw [List.mem_singleton.mp hx] at hr
        cases hr
    · rcases List.mem_append.mp hx with hx | hx
      · exact hviews x hx
      · rw [List.mem_singleton.mp hx]
        exact hm hw

theorem hushed_addView (hm : w.Rooted → m < w.maps.length) (f : Filter)
    (parent : Option RecordId) (fetchSize : Nat) :
    Hushed w (w.addView m f parent fetchSize).2 := by
  unfold addView
  split
  · exact .refl w
  · have hread := pervades_hushed.prefetchWindow m fetchSize { filter := f, fetchSize } w
    have hmaps := congrArg (·.maps.length)
      (still_prefetchWindow w m fetchSize { filter := f, fetchSize }).1
    dsimp only
    split
    · exact hread
    · exact hread.appendView (fun hw => hmaps.symm ▸ hm hw) _ _

theorem hushed_addChildView (hm : w.Rooted → m < w.maps.length) (parent : RecordId)
    (fetchSize : Nat) : Hushed w (w.addChildView m parent fetchSize).2 := by
  unfold addChildView
  split
  · exact .refl w
  · exact hushed_addView hm _ _ _

theorem hushed_reset (v : ViewRef) (w : Workspace) : Hushed w (w.reset v).2 := by
  unfold reset
  split
  · exact .refl w
  · refine (hushed_setView w v (f := fun x =>
      { x with window := x.window.cleared, rows := [], children := [] })
      (fun _ => rfl) (fun _ => rfl) fun _ => rfl).trans ?_
    exact (hushed_announceView v _ (by simp)).trans (hushed_prefetch v _ _)

theorem hushed_recordAt (v : ViewRef) (row : Nat) (w : Workspace) :
    Hushed w (w.recordAt v row).2 := by
  unfold recordAt
  split
  · exact .refl w
  · next x _ =>
    split
    · exact .refl w
    · next id _ =>
      have hfor := pervades_hushed.recordFor x.map id w
      split
      · exact .refl w
      · split
        · next hq => rw [hq] at hfor; exact hfor
        · next hq =>
          rw [hq] at hfor
          exact hfor.trans (hushed_setView _ v (fun _ => rfl) (fun _ => rfl) fun _ => rfl)

theorem hushed_childView (v : ViewRef) (parent : RecordId) (w : Workspace) :
    Hushed w (w.childView v parent).2 := by
  unfold childView
  split
  · exact .refl w
  · next x hx =>
    have hadd := hushed_addChildView (fun hw => hw.views x (List.mem_of_getElem? hx)) parent
      x.window.fetchSize
    split
    · exact .refl w
    · split
      · next hq => rw [hq] at hadd; exact hadd
      · next hq =>
        rw [hq] at hadd
        exact hadd.trans (hushed_setView _ v (fun _ => rfl) (fun _ => rfl) fun _ => rfl)

theorem hushed_data (v : ViewRef) (row : Nat) (role : Role) (w : Workspace) :
    Hushed w (w.data v row role).2 := by
  have hat := hushed_recordAt v row w
  unfold data
  split
  · next hq => rw [hq] at hat; exact hat
  · next hq =>
    rw [hq] at hat
    cases role with
    | field => exact hat
    | record => exact hat
    | children =>
      dsimp only
      split
      · exact hat
      · exact hat.trans (hushed_childView v _ _)

theorem hushed_columnFrom (v : ViewRef) (field : String) (n row : Nat) (w : Workspace) :
    Hushed w (columnFrom v field n row w).2 := by
  induction n generalizing row w with
  | zero => exact .refl w
  | succ n ih => exact (hushed_data v row (.field field) w).trans (ih (row + 1) _)

theorem hushed_setData (v : ViewRef) (row : Nat) (role : Role) (value : Value) (w : Workspace) :
    Hushed w (w.setData v row role value).2 := by
  cases role with
  | children => exact .refl w
  | record => exact .refl w
  | field name =>
    have hat := hushed_recordAt v row w
    unfold setData
    dsimp only
    split
    · next hq => rw [hq] at hat; exact hat
    · next r w₁ hq =>
      rw [hq] at hat
      have hrun := hat.trans (pervades_hushed.passing.run r (.set name value) w₁)
      split
      · next hq' => rw [hq'] at hrun; exact hrun
      · next hq' => rw [hq'] at hrun; exact hrun.trans (hushed_announceView v _ (by simp))
      · next hq' => rw [hq'] at hrun; exact hrun

end Workspace

end LiveRecords
