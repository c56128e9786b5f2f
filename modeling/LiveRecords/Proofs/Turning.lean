import LiveRecords.Proofs.Custody
import LiveRecords.Proofs.Faithful

/-!
# Views over time

What an action makes of the views that are there. A row that is resolved keeps
the record that stands under its key, and stays with it. The keys of a view
change only when a page is read for it; they grow at the end, unless the view
is reset.
-/

namespace LiveRecords

namespace Core

variable {k k' : Core} {m : MapRef} {id : RecordId} {r : RecordRef}

/-- If a record is registered, it is under this key. -/
structure Stands (k : Core) (m : MapRef) (id : RecordId) (r : RecordRef) : Prop where
  made : r < k.records.length
  only : ∀ {m' id'}, k.Lists m' id' r → m' = m ∧ id' = id

theorem Sound.stands (hs : k.Sound) (h : k.Lists m id r) : k.Stands m id r := by
  obtain ⟨i, hi, -⟩ := hs.resident ⟨m, id, h⟩
  exact ⟨lt_of_record hi, fun h' => hs.key_unique h' h⟩

theorem Stands.adds (h : k.Stands m id r) (ha : k.Adds k') : k'.Stands m id r :=
  ⟨Nat.lt_of_lt_of_le h.made ha.records, fun hl => h.only (ha.lists h.made hl)⟩

end Core

/-- Every row that a view has resolved has its key in view, and keeps the record
that stands under it. -/
def View.Backed (k : Core) (x : View) : Prop :=
  ∀ e ∈ x.rows, ∃ id, x.window.keys[e.1]? = some id ∧ k.Stands x.map id e.2

theorem View.Backed.adds {k k' : Core} {x : View} (h : x.Backed k) (ha : k.Adds k') :
    x.Backed k' := by
  intro e he
  obtain ⟨id, hid, hstands⟩ := h e he
  exact ⟨id, hid, hstands.adds ha⟩

theorem View.backed_nil {k : Core} {x : View} (h : x.rows = []) : x.Backed k := by
  intro e he
  simp [h] at he

/-- Keys that come in at the end leave what a view has resolved. -/
theorem View.Backed.grow {k : Core} {x y : View} (h : x.Backed k) (hm : y.map = x.map)
    (hr : y.rows = x.rows) (hk : x.window.keys <+: y.window.keys) : y.Backed k := by
  intro e he
  rw [hr] at he
  obtain ⟨id, hid, hstands⟩ := h e he
  obtain ⟨more, hmore⟩ := hk
  refine ⟨id, ?_, hm ▸ hstands⟩
  rw [← hmore, List.getElem?_append_left (List.getElem?_eq_some_iff.mp hid).1]
  exact hid

namespace Workspace

variable {w w' w'' : Workspace} {own : Prop} {P : Deed → Core → Prop}

/-- All views are backed. -/
def Shown (w : Workspace) : Prop := ∀ x ∈ w.views, x.Backed w.core

/-- No view reads another key, and what views have resolved stays backed. -/
structure Lasts (w w' : Workspace) : Prop where
  adds : w.core.Adds w'.core
  shown : w.Shown → w'.Shown
  windows : ∀ {v : ViewRef} {x}, w.views[v]? = some x →
    ∃ y, w'.views[v]? = some y ∧ y.map = x.map ∧ y.window = x.window

theorem Lasts.refl (w : Workspace) : Lasts w w :=
  ⟨.refl _, id, fun h => ⟨_, h, rfl, rfl⟩⟩

theorem Lasts.trans (h : Lasts w w') (h' : Lasts w' w'') : Lasts w w'' where
  adds := h.adds.trans h'.adds
  shown hw := h'.shown (h.shown hw)
  windows hx := by
    obtain ⟨y, hy, hmap, hwindow⟩ := h.windows hx
    obtain ⟨z, hz, hmap', hwindow'⟩ := h'.windows hy
    exact ⟨z, hz, hmap'.trans hmap, hwindow'.trans hwindow⟩

theorem Lasts.of_views (ha : w.core.Adds w'.core) (hv : w'.views = w.views) : Lasts w w' where
  adds := ha
  shown hw x hx := (hw x (hv ▸ hx)).adds ha
  windows hx := ⟨_, hv ▸ hx, rfl, rfl⟩

theorem Lasts.of_core (hc : w'.core = w.core) (hv : w'.views = w.views) : Lasts w w' :=
  .of_views (hc ▸ .refl _) hv

theorem Acts.adds (h : Acts own P w w') : w.core.Adds w'.core := by
  obtain ⟨⟨ds, hc⟩, -⟩ := h
  exact Chain.preserves (P := w.core.Adds) (fun hd ha => ha.trans hd.2.adds) hc (.refl _)

theorem Still.lasts (h : Still w w') : Lasts w w' := .of_core h.1 h.2.views

theorem Goes.lasts (h : Goes P w w') : Lasts w w' := by
  obtain ⟨ds, hc, hk⟩ := h
  have hadds := Chain.preserves (P := w.core.Adds) (fun hd ha => ha.trans hd.2.adds) hc (.refl _)
  exact .of_views hadds hk.views

theorem Shown.setView (hw : w.Shown) {v : ViewRef} {f : View → View}
    (hf : ∀ x, w.views[v]? = some x → x.Backed w.core → (f x).Backed w.core) :
    (w.setView v f).Shown := by
  intro y hy
  obtain ⟨j, hj⟩ := List.mem_iff_getElem?.mp hy
  simp only [Workspace.setView, List.getElem?_modify] at hj
  obtain ⟨x, hx, rfl⟩ := Option.map_eq_some_iff.mp hj
  have hxb := hw x (List.mem_of_getElem? hx)
  by_cases hvj : v = j
  · subst hvj
    simp only [if_true]
    exact hf x hx hxb
  · simp only [hvj, if_false]
    exact hxb

/-- A change of one view that leaves its window. -/
theorem setView_lasts {v : ViewRef} {f : View → View} (hm : ∀ x, (f x).map = x.map)
    (hf : ∀ x, (f x).window = x.window)
    (hb : ∀ x, w.views[v]? = some x → x.Backed w.core → (f x).Backed w.core) :
    Lasts w (w.setView v f) where
  adds := .refl _
  shown hw := hw.setView hb
  windows {j x} hx := by
    by_cases hvj : v = j
    · subst hvj
      exact ⟨f x, by simp [setView, hx], hm x, hf x⟩
    · exact ⟨x, by simp [setView, hvj, hx], rfl, rfl⟩

/-- A change of what rows do not depend on. -/
theorem setView_lasts_of_rows {v : ViewRef} {f : View → View} (hm : ∀ x, (f x).map = x.map)
    (hf : ∀ x, (f x).window = x.window) (hr : ∀ x, (f x).rows = x.rows) :
    Lasts w (w.setView v f) :=
  setView_lasts hm hf fun x _ hx => hx.grow (hm x) (hr x) (by simp [hf x])

/-- A view that was opened has resolved nothing yet. -/
theorem addView_lasts (m : MapRef) (f : Filter) (parent : Option RecordId) (fetchSize : Nat)
    (w : Workspace) : Lasts w (w.addView m f parent fetchSize).2 := by
  unfold addView
  split
  · exact .refl w
  · have hstill := still_prefetchWindow w m fetchSize { filter := f, fetchSize }
    dsimp only
    split
    · exact hstill.lasts
    · refine hstill.lasts.trans ⟨.refl _, fun hw x hx => ?_, fun hx => ⟨_, ?_, rfl, rfl⟩⟩
      · rcases List.mem_append.mp hx with hx | hx
        · exact hw x hx
        · rcases List.mem_singleton.mp hx with rfl
          exact View.backed_nil rfl
      · rw [List.getElem?_append_left (List.getElem?_eq_some_iff.mp hx).1]
        exact hx

theorem addChildView_lasts (m : MapRef) (parent : RecordId) (fetchSize : Nat) (w : Workspace) :
    Lasts w (w.addChildView m parent fetchSize).2 := by
  unfold addChildView
  split
  · exact .refl w
  · exact addView_lasts m _ _ _ w

theorem childView_lasts (v : ViewRef) (parent : RecordId) (w : Workspace) :
    Lasts w (w.childView v parent).2 := by
  unfold childView
  split
  · exact .refl w
  · next view _ =>
    split
    · exact .refl w
    · have hnew := addChildView_lasts view.map parent view.window.fetchSize w
      split
      · next hq => rw [hq] at hnew; exact hnew
      · next hq =>
        rw [hq] at hnew
        exact hnew.trans (setView_lasts_of_rows (fun _ => rfl) (fun _ => rfl) fun _ => rfl)

/-! ## Rows -/

/-- The record for a key stands under it. -/
theorem recordFor_lasts (hs : w.core.Sound) {m : MapRef} (hm : m < w.maps.length)
    (id : RecordId) :
    Lasts w (w.recordFor m id).2 ∧
      ∀ r, (w.recordFor m id).1 = .ok r → (w.recordFor m id).2.core.Lists m id r := by
  have hgoes := (recordFor_goes (P := fun _ _ => True) hs hm id fun _ _ _ _ _ => trivial).1
  refine ⟨hgoes.lasts, ?_⟩
  obtain ⟨map, hmap⟩ := map_of_lt hm
  have hload := load_cases hs hmap id
  unfold recordFor
  split
  · next r' hreg =>
    intro r hr
    cases hr
    exact lists_of_registered hreg
  · split
    · intro r hr
      cases hr
    · next r' w₁ hq =>
      rw [hq] at hload
      intro r hr
      cases hr
      obtain ⟨-, hnone⟩ | ⟨image, r'', hr'', -, hl, hid⟩ := hload
      · exact absurd rfl (hnone _)
      · cases hr''
        exact hid ▸ hl
    · intro r hr
      cases hr

theorem key?_eq_some {x : Window} {row : Nat} {id : RecordId} (h : x.key? row = some id) :
    x.keys[row]? = some id := by
  unfold Window.key? at h
  split at h
  · exact h
  · cases h

/-- A row that is resolved is backed, and nothing is given up for it. -/
theorem recordAt_lasts (hs : w.core.Sound) {v : ViewRef} {x : View} (hx : w.views[v]? = some x)
    (hm : x.map < w.maps.length) (row : Nat) :
    Lasts w (w.recordAt v row).2 ∧ w.core.Stays (w.recordAt v row).2.core ∧
      (w.recordAt v row).2.core.Sound := by
  have hrefl : Lasts w w ∧ w.core.Stays w.core ∧ w.core.Sound := ⟨.refl w, .refl _, hs⟩
  unfold recordAt
  rw [hx]
  dsimp only
  split
  · exact hrefl
  · next id hid =>
    split
    · exact hrefl
    · obtain ⟨hlasts, hl⟩ := recordFor_lasts hs hm id
      have hgoes := (recordFor_goes (P := fun d _ => True ∧ d.isGentle = true) hs hm id
        fun _ _ _ _ _ => ⟨trivial, rfl⟩).1
      split
      · next hq =>
        rw [hq] at hlasts hgoes
        exact ⟨hlasts, hgoes.stays, hgoes.sound hs⟩
      · next r w₁ hq =>
        rw [hq] at hlasts hl hgoes
        have hs₁ := hgoes.sound hs
        refine ⟨hlasts.trans (setView_lasts (fun _ => rfl) (fun _ => rfl) fun y hy hb e he => ?_),
          hgoes.stays, hs₁⟩
        rcases List.mem_cons.mp he with rfl | he
        · rw [hgoes.keeps.views, hx] at hy
          cases hy
          exact ⟨id, key?_eq_some hid, hs₁.stands (hl r rfl)⟩
        · exact hb e he

theorem addView_core (m : MapRef) (f : Filter) (parent : Option RecordId) (fetchSize : Nat)
    (w : Workspace) : (w.addView m f parent fetchSize).2.core = w.core := by
  unfold addView
  split
  · rfl
  · have hstill := still_prefetchWindow w m fetchSize { filter := f, fetchSize }
    dsimp only
    split
    · exact hstill.1
    · exact hstill.1

theorem childView_core (v : ViewRef) (parent : RecordId) (w : Workspace) :
    (w.childView v parent).2.core = w.core := by
  have hadd : ∀ (m : MapRef) (n : Nat), (w.addChildView m parent n).2.core = w.core := by
    intro m n
    unfold addChildView
    split
    · rfl
    · exact addView_core m _ _ _ w
  unfold childView
  split
  · rfl
  · next view _ =>
    split
    · rfl
    · have hnew := hadd view.map view.window.fetchSize
      split
      · next hq => rw [hq] at hnew; exact hnew
      · next hq => rw [hq] at hnew; exact hnew

theorem data_lasts (hs : w.core.Sound) {v : ViewRef} {x : View} (hx : w.views[v]? = some x)
    (hm : x.map < w.maps.length) (row : Nat) (role : Role) :
    Lasts w (w.data v row role).2 ∧ w.core.Stays (w.data v row role).2.core ∧
      (w.data v row role).2.core.Sound := by
  have hall := recordAt_lasts hs hx hm row
  unfold data
  split
  · next hq => rw [hq] at hall; exact hall
  · next r w₁ hq =>
    rw [hq] at hall
    cases role with
    | field name => exact hall
    | record => exact hall
    | children =>
      dsimp only
      split
      · exact hall
      · next id _ =>
        obtain ⟨hlasts, hstays, hs₁⟩ := hall
        refine ⟨hlasts.trans (childView_lasts v id _), ?_⟩
        rw [childView_core]
        exact ⟨hstays, hs₁⟩

theorem columnFrom_lasts (hs : w.core.Sound) {v : ViewRef} {x : View}
    (hx : w.views[v]? = some x) (hm : x.map < w.maps.length) (field : String) (n row : Nat) :
    Lasts w (columnFrom v field n row w).2 := by
  induction n generalizing row w x with
  | zero => exact .refl w
  | succ n ih =>
    obtain ⟨hlasts, hstays, hs₁⟩ := data_lasts hs hx hm row (.field field)
    obtain ⟨y, hy, hmap, -⟩ := hlasts.windows hx
    unfold columnFrom
    exact hlasts.trans (ih hs₁ hy (hmap ▸ maps_lt_of_stays hstays hm) (row + 1))

theorem setData_lasts (hs : w.core.Sound) (hw : Holding own w) {v : ViewRef} (hv : w.Reaches v)
    (row : Nat) (role : Role) (value : Value) : Lasts w (w.setData v row role value).2 := by
  cases role with
  | children => exact .refl w
  | record => exact .refl w
  | field field =>
    obtain ⟨x, hx⟩ : ∃ x, w.views[v]? = some x := ⟨_, List.getElem?_eq_getElem (hv.lt hw)⟩
    have hlasts := (recordAt_lasts hs hx (hw.viewMaps x (List.mem_of_getElem? hx)) row).1
    obtain ⟨hacts, -, hl⟩ := recordAt_acts (P := fun _ _ => True) hs hw hv row
      fun _ _ _ _ _ => trivial
    unfold setData
    dsimp only
    split
    · next hq => rw [hq] at hlasts; exact hlasts
    · next r w₁ hq =>
      rw [hq] at hlasts hacts hl
      have hrun := (run_goes (P := fun _ _ => True) (hacts.sound hs) (hl r rfl) (.set field value)
        fun _ _ _ => trivial).lasts
      split
      · next hq' => rw [hq'] at hrun; exact hlasts.trans hrun
      · next hq' =>
        rw [hq'] at hrun
        exact hlasts.trans (hrun.trans (still_announceView v _ _).lasts)
      · next hq' => rw [hq'] at hrun; exact hlasts.trans hrun

/-! ## Staging -/

theorem setStaging_lasts (v : ViewRef) (staging : Option RecordRef) (w : Workspace) :
    Lasts w (announceView v (w.setView v fun view => { view with staging }) .stagingChanged) := by
  have hset : Lasts w (w.setView v fun view => { view with staging }) :=
    setView_lasts_of_rows (fun _ => rfl) (fun _ => rfl) fun _ => rfl
  exact hset.trans (still_announceView v _ _).lasts

theorem createStaging_lasts (hs : w.core.Sound) {v : ViewRef} {view : View}
    (hview : w.views[v]? = some view) (hm : view.map < w.maps.length) (key : RecordId) :
    Lasts w (w.createStaging v key).2 := by
  have hreg := (register_goes (P := fun _ _ => True) hm key true trivial).lasts
  have hl := register_listed hs hm key true
  generalize hq : w.register view.map key true = p at hreg hl
  obtain ⟨r, w₁⟩ := p
  unfold createStaging
  rw [hview]
  dsimp only
  rw [hq]
  dsimp only
  split
  · next parent i _ hi =>
    obtain ⟨cs, hasked, hk, -⟩ :=
      carryOut_asked hi ⟨_, _, hl⟩ (i.record.setParent (some parent))
    have hplaced : Lasts w (w₁.carryOut r (i.record.setParent (some parent))) :=
      hreg.trans (.of_views ((Core.adds_impose _ _ _).trans hasked.adds) hk.views)
    exact hplaced.trans (setStaging_lasts v (some r) _)
  · exact hreg.trans (setStaging_lasts v (some r) _)

theorem discardStaging_lasts (v : ViewRef) (w : Workspace) :
    Lasts w (w.discardStaging v).2 := by
  unfold discardStaging
  split
  · exact .refl w
  · exact setStaging_lasts v none w

end Workspace

/-! ## Pages -/

/-- A page of keys with which a window reaches down to a row. -/
def Core.ReadsKeys (k : Core) (map : IdentityMap) (x : Window) (count : Nat)
    (page : List RecordId) : Prop :=
  (count ≤ x.keys.length ∧ page = []) ∨
    ∃ l : Link, l.database = k.databaseOf map.connection ∧
      (l.selectKeys map.schema x.filter x.keys.length (count - x.keys.length)).1 = .ok page

/-- A page was read for a window, or it is as it was. -/
inductive Core.Turns (k : Core) (m : MapRef) : Window → Window → Prop
  | stay (x : Window) : Turns k m x x
  | page {x : Window} {map : IdentityMap} {count : Nat} {page : List RecordId} :
      k.maps[m]? = some map → x.atEnd = false → x.bottom < count →
      k.ReadsKeys map x count page → Turns k m x (x.extend count (x.keys ++ page))

theorem Core.Turns.grows {k : Core} {m : MapRef} {x y : Window} (h : k.Turns m x y) :
    x.keys <+: y.keys := by
  cases h with
  | stay => exact List.prefix_refl _
  | page => exact List.prefix_append _ _

namespace Workspace

variable {w w' w'' : Workspace} {own : Prop} {v : ViewRef} {x : View}

theorem seek_eq_ok {s : Schema} {count : Nat} {x : Window} {l : Link} {keys : List RecordId}
    (h : (x.seek s count l).1 = .ok keys) :
    ∃ page, keys = x.keys ++ page ∧ ((count ≤ x.keys.length ∧ page = []) ∨
      (l.selectKeys s x.filter x.keys.length (count - x.keys.length)).1 = .ok page) := by
  unfold Window.seek at h
  split at h
  · next hle =>
    cases h
    exact ⟨[], by simp, .inl ⟨hle, rfl⟩⟩
  · split at h
    · next page l' hq =>
      cases h
      exact ⟨page, rfl, .inr (by rw [hq])⟩
    · cases h

theorem prefetchWindow_turns (m : MapRef) (count : Nat) (window : Window) (w : Workspace) :
    w.core.Turns m window (w.prefetchWindow m count window).1.2 := by
  unfold prefetchWindow
  split
  · exact .stay _
  · next map hmap =>
    show w.core.Turns m window (window.prefetch map.schema count (w.link map.connection)).1.2
    unfold Window.prefetch
    split
    · exact .stay _
    · next hmore =>
      simp only [Bool.or_eq_true, decide_eq_true_eq, not_or, Bool.not_eq_true, Nat.not_le] at hmore
      split
      · exact .stay _
      · next keys l hseek =>
        obtain ⟨page, rfl, hpage⟩ := seek_eq_ok (congrArg Prod.fst hseek)
        refine .page hmap hmore.1 hmore.2 (hpage.imp_right fun hread => ?_)
        exact ⟨w.link map.connection, (core_databaseOf w _).symm, hread⟩

/-- Pages are read for one view, from where it starts. -/
structure Turned (start : Window → Window) (v : ViewRef) (w w' : Workspace) : Prop where
  adds : w.core.Adds w'.core
  shown : w.Shown → w'.Shown
  windows : ∀ {j : ViewRef} {x}, w.views[j]? = some x →
    ∃ y, w'.views[j]? = some y ∧ y.map = x.map ∧
      (y.window = x.window ∨ j = v ∧ w'.core.Turns x.map (start x.window) y.window)

theorem Lasts.turned (h : Lasts w w') (start : Window → Window) (v : ViewRef) :
    Turned start v w w' where
  adds := h.adds
  shown := h.shown
  windows hx := by
    obtain ⟨y, hy, hmap, hwindow⟩ := h.windows hx
    exact ⟨y, hy, hmap, .inl hwindow⟩

/-- What lasts may come before pages are read. -/
theorem Lasts.trans_turned {start : Window → Window} (h : Lasts w w')
    (h' : Turned start v w' w'') : Turned start v w w'' where
  adds := h.adds.trans h'.adds
  shown hw := h'.shown (h.shown hw)
  windows hx := by
    obtain ⟨y, hy, hmap, hwindow⟩ := h.windows hx
    obtain ⟨z, hz, hmap', hz'⟩ := h'.windows hy
    refine ⟨z, hz, hmap'.trans hmap, ?_⟩
    rwa [hmap, hwindow] at hz'

theorem Turned.trans_still {start : Window → Window} (h : Turned start v w w')
    (h' : Still w' w'') : Turned start v w w'' where
  adds := h'.1 ▸ h.adds
  shown hw := h'.lasts.shown (h.shown hw)
  windows hx := by
    rw [h'.1, h'.2.views]
    exact h.windows hx

/-- A view is changed before pages are read for it. -/
theorem setView_turned {start : Window → Window} {f : View → View} (hx : w.views[v]? = some x)
    (hm : (f x).map = x.map) (hf : (f x).window = start x.window)
    (hb : x.Backed w.core → (f x).Backed w.core) (h : Turned id v (w.setView v f) w') :
    Turned start v w w' where
  adds := h.adds
  shown hw := h.shown <| hw.setView fun z hz hzb => by
    cases hx.symm.trans hz
    exact hb hzb
  windows {j z} hz := by
    by_cases hvj : v = j
    · subst hvj
      cases hx.symm.trans hz
      obtain ⟨y, hy, hmap, hwindow⟩ := h.windows (j := v) (x := f x) (by simp [setView, hx])
      refine ⟨y, hy, hmap.trans hm, .inr ⟨rfl, ?_⟩⟩
      rw [hm, hf] at hwindow
      obtain hwindow | ⟨-, hwindow⟩ := hwindow
      · rw [hwindow]
        exact .stay _
      · exact hwindow
    · obtain ⟨y, hy, hmap, hwindow⟩ := h.windows (j := j) (x := z) (by simp [setView, hvj, hz])
      exact ⟨y, hy, hmap, hwindow.imp_right fun h => absurd h.1.symm hvj⟩

/-- A page that was read takes its place in the view. -/
theorem setWindow_turned (window : Window) (hx : w.views[v]? = some x)
    (ht : w.core.Turns x.map x.window window) :
    Turned id v w (w.setView v fun view => { view with window }) where
  adds := .refl _
  shown hw := hw.setView fun z hz hzb => by
    cases hx.symm.trans hz
    exact hzb.grow rfl rfl ht.grows
  windows {j z} hz := by
    by_cases hvj : v = j
    · subst hvj
      cases hx.symm.trans hz
      exact ⟨{ x with window }, by simp [setView, hx], rfl, .inr ⟨rfl, ht⟩⟩
    · exact ⟨z, by simp [setView, hvj, hz], rfl, .inl rfl⟩

theorem prefetch_turned (v : ViewRef) (count : Nat) (w : Workspace) :
    Turned id v w (w.prefetch v count).2 := by
  unfold prefetch
  split
  · exact (Lasts.refl w).turned _ v
  · next view hview =>
    have hturns := prefetchWindow_turns view.map count view.window w
    have hstill := still_prefetchWindow w view.map count view.window
    have hview' : (w.prefetchWindow view.map count view.window).2.views[v]? = some view := by
      rw [hstill.2.views]
      exact hview
    have hturns' := hstill.1 ▸ hturns
    have hall := hstill.lasts.trans_turned (setWindow_turned _ hview' hturns')
    dsimp only
    split
    · exact hall
    · exact hall.trans_still (foldl_related .refl .trans _ (fun s e => still_announceView v s e) _ _)

theorem fetchMore_turned (v : ViewRef) (w : Workspace) : Turned id v w (w.fetchMore v).2 := by
  unfold fetchMore
  split
  · exact (Lasts.refl w).turned _ v
  · exact prefetch_turned v _ w

theorem reset_turned (v : ViewRef) (w : Workspace) :
    Turned Window.cleared v w (w.reset v).2 := by
  unfold reset
  split
  · exact (Lasts.refl w).turned _ v
  · next view hview =>
    refine setView_turned hview (f := fun view => { view with
      window := view.window.cleared, rows := [], children := [] }) rfl rfl
      (fun _ => View.backed_nil rfl) ?_
    exact (still_announceView v _ .reset).lasts.trans_turned (prefetch_turned v _ _)

theorem commitStaging_turned (hs : w.core.Sound) (hw : Holding own w) (hv : w.Reaches v) :
    Turned (fun x => { x with atEnd := false }) v w (w.commitStaging v).2 := by
  unfold commitStaging
  split
  · exact (Lasts.refl w).turned _ v
  · next r hr =>
    obtain ⟨view, hview, hst⟩ := Option.bind_eq_some_iff.mp hr
    have hl : w.core.Listed r := hw.rows hv hview r (List.mem_append_right _ (by simp [hst]))
    have hrun := run_goes (P := fun _ _ => True) hs hl .commit fun _ _ _ => trivial
    split
    · next hq => rw [hq] at hrun; exact hrun.lasts.turned _ v
    · next w₁ hq =>
      rw [hq] at hrun
      have hview₁ : w₁.views[v]? = some view := by rw [hrun.keeps.views, hview]
      have hmore : Turned (fun x => { x with atEnd := false }) v w₁ ((w₁.setView v fun view =>
          { view with staging := none, window := { view.window with atEnd := false } }).fetchMore
            v).2 :=
        setView_turned hview₁ rfl rfl
          (fun hb => View.Backed.grow (k := w₁.core) hb rfl rfl (List.prefix_refl _))
          (fetchMore_turned v _)
      dsimp only
      split
      · next hq' =>
        rw [hq'] at hmore
        exact hrun.lasts.trans_turned hmore
      · next hq' =>
        rw [hq'] at hmore
        exact hrun.lasts.trans_turned (hmore.trans_still (still_announceView v _ _))

end Workspace

end LiveRecords
