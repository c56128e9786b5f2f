import LiveRecords.Proofs.Operations

/-!
# Views as deeds

Reading keys changes a view and nothing of the core. Rows are resolved by
reading records, which the view then holds; so does the staging place. Each
operation on a view that is reached keeps what the workspace holds good.
-/

namespace LiveRecords.Workspace

variable {w w' : Workspace} {P : Deed → Core → Prop} {own : Prop}

/-- Names, views and stores stay good while the core stays what it is. -/
def Idle (w w' : Workspace) : Prop :=
  w'.core = w.core ∧ ∀ {own : Prop}, Holding own w → Holding own w'

theorem Idle.trans {w₁ w₂ w₃ : Workspace} (h₁ : Idle w₁ w₂) (h₂ : Idle w₂ w₃) : Idle w₁ w₃ :=
  ⟨h₂.1.trans h₁.1, fun h => h₂.2 (h₁.2 h)⟩

theorem Still.idle (h : Still w w') : Idle w w' := ⟨h.1, fun hw => hw.still h⟩

/-- Allowed deeds were done, and names, views and stores are good. -/
def Acts (own : Prop) (P : Deed → Core → Prop) (w w' : Workspace) : Prop :=
  (∃ ds, Core.Course P ds w.core w'.core) ∧ Holding own w'

theorem Acts.trans {w₁ w₂ w₃ : Workspace} (h₁ : Acts own P w₁ w₂) (h₂ : Acts own P w₂ w₃) :
    Acts own P w₁ w₃ := by
  obtain ⟨⟨ds₁, hc₁⟩, -⟩ := h₁
  obtain ⟨⟨ds₂, hc₂⟩, hw⟩ := h₂
  exact ⟨⟨ds₁ ++ ds₂, Chain.append hc₁ hc₂⟩, hw⟩

theorem Acts.sound (h : Acts own P w w') (hs : w.core.Sound) : w'.core.Sound := by
  obtain ⟨⟨ds, hc⟩, -⟩ := h
  exact hs.course hc

theorem Idle.acts (hw : Holding own w) (h : Idle w w') : Acts own P w w' :=
  ⟨⟨[], by rw [h.1]; exact .nil _⟩, h.2 hw⟩

/-- Allowed deeds of which all are gentle. -/
theorem Goes.acts (hw : Holding own w)
    (h : Goes (fun d k => P d k ∧ d.isGentle = true) w w') : Acts own P w w' := by
  refine ⟨?_, hw.goes h⟩
  obtain ⟨ds, hc, -⟩ := h
  have hmap : Core.Course P (ds.map id) w.core w'.core :=
    Chain.map (fun hd => ⟨hd.1.1, hd.2⟩) hc
  exact ⟨_, hmap⟩

/-! ## Windows -/

theorem setView_idle {v : ViewRef} {f : View → View} (hf : ∀ view, w.Tends v view (f view)) :
    Idle w (w.setView v f) :=
  ⟨rfl, fun hw => hw.setView fun view _ => hf view⟩

/-- A change that leaves what a view holds and keeps. -/
theorem tends_of_eq {v : ViewRef} {old new : View} (hm : new.map = old.map)
    (hr : ∀ r ∈ new.held, r ∈ old.held) (hc : ∀ e ∈ new.children, e ∈ old.children) :
    w.Tends v old new :=
  ⟨hm, fun r h => .inl (hr r h), fun e h => .inl (hc e h)⟩

theorem database_prefetch (s : Schema) (count : Nat) (window : Window) (l : Link) :
    (window.prefetch s count l).2.database = l.database := by
  unfold Window.prefetch
  split
  · rfl
  · have hseek : (window.seek s count l).2.database = l.database := by
      unfold Window.seek
      split
      · rfl
      · have hd := l.database_selectKeys s window.filter window.keys.length
          (count - window.keys.length)
        split
        · next hq => rw [hq] at hd; exact hd
        · next hq => rw [hq] at hd; exact hd
    split
    · next hq => rw [hq] at hseek; exact hseek
    · next hq => rw [hq] at hseek; exact hseek

theorem still_prefetchWindow (w : Workspace) (m : MapRef) (count : Nat) (window : Window) :
    Still w (w.prefetchWindow m count window).2 := by
  unfold prefetchWindow
  split
  · exact .refl w
  · exact still_through (database_prefetch _ _ _ _)

theorem foldl_announceView_idle (v : ViewRef) (es : List ViewEvent) (w : Workspace) :
    Idle w (es.foldl (announceView v) w) :=
  (foldl_related .refl .trans _ (fun s e => still_announceView v s e) es w).idle

theorem setWindow_idle (v : ViewRef) (window : View → Window) (w : Workspace) :
    Idle w (w.setView v fun view => { view with window := window view }) :=
  setView_idle fun _ => tends_of_eq rfl (fun _ h => h) (fun _ h => h)

theorem prefetch_idle (v : ViewRef) (count : Nat) (w : Workspace) :
    Idle w (w.prefetch v count).2 := by
  unfold prefetch
  split
  · exact (Still.refl w).idle
  · next view _ =>
    have hset := (still_prefetchWindow w view.map count view.window).idle.trans
      (setWindow_idle v (fun _ => (w.prefetchWindow view.map count view.window).1.2) _)
    dsimp only
    split
    · exact hset
    · exact hset.trans (foldl_announceView_idle v _ _)

theorem fetchMore_idle (v : ViewRef) (w : Workspace) : Idle w (w.fetchMore v).2 := by
  unfold fetchMore
  split
  · exact (Still.refl w).idle
  · exact prefetch_idle v _ w

theorem reset_idle (v : ViewRef) (w : Workspace) : Idle w (w.reset v).2 := by
  unfold reset
  split
  · exact (Still.refl w).idle
  · refine Idle.trans (setView_idle (f := fun view =>
      { view with window := view.window.cleared, rows := [], children := [] }) fun view => ?_)
      ((still_announceView v _ .reset).idle.trans (prefetch_idle v _ _))
    refine tends_of_eq rfl (fun r hr => ?_) (by simp)
    have hr' : r ∈ view.staging.toList := by simpa [View.held] using hr
    exact List.mem_append_right _ hr'

theorem isBlank_append (w : Workspace) {view : View} (hr : view.held = [])
    (hc : view.children = []) :
    IsBlank { w with views := w.views ++ [view] } w.views.length :=
  ⟨view, by simp, hr, hc⟩

/-- A view that was opened is blank, and all others are as before. -/
theorem addView_idle {m : MapRef} (hm : m < w.maps.length) (f : Filter)
    (parent : Option RecordId) (fetchSize : Nat) :
    Idle w (w.addView m f parent fetchSize).2 ∧
      ∀ v, (w.addView m f parent fetchSize).1 = .ok v →
        v = w.views.length ∧ (w.addView m f parent fetchSize).2.IsBlank v ∧
          (w.addView m f parent fetchSize).2.viewNames = w.viewNames ∧
          ∀ {j : ViewRef} {x}, w.views[j]? = some x →
            (w.addView m f parent fetchSize).2.views[j]? = some x := by
  unfold addView
  split
  · exact ⟨(Still.refl w).idle, by intro v h; cases h⟩
  · have hw₁ := still_prefetchWindow w m fetchSize { filter := f, fetchSize }
    dsimp only
    split
    · exact ⟨hw₁.idle, by intro v h; cases h⟩
    · have hlen := hw₁.2.views
      refine ⟨⟨hw₁.1, fun hw => ?_⟩, ?_⟩
      · exact (hw.still hw₁).addView (maps_lt_of_stays hw₁.stays hm) rfl rfl
      · intro v h
        cases h
        refine ⟨by rw [hlen], isBlank_append _ rfl rfl, hw₁.2.viewNames, ?_⟩
        intro j x hx
        rw [hlen, List.getElem?_append_left (List.getElem?_eq_some_iff.mp hx).1, hx]

theorem addChildView_idle {m : MapRef} (hm : m < w.maps.length) (parent : RecordId)
    (fetchSize : Nat) :
    Idle w (w.addChildView m parent fetchSize).2 ∧
      ∀ v, (w.addChildView m parent fetchSize).1 = .ok v →
        v = w.views.length ∧ (w.addChildView m parent fetchSize).2.IsBlank v ∧
          (w.addChildView m parent fetchSize).2.viewNames = w.viewNames ∧
          ∀ {j : ViewRef} {x}, w.views[j]? = some x →
            (w.addChildView m parent fetchSize).2.views[j]? = some x := by
  unfold addChildView
  split
  · exact ⟨(Still.refl w).idle, by intro v h; cases h⟩
  · exact addView_idle hm _ _ _

theorem Reaches.of_grown (hn : w'.viewNames = w.viewNames)
    (hv : ∀ {j : ViewRef} {x}, w.views[j]? = some x → w'.views[j]? = some x) {v : ViewRef}
    (h : w.Reaches v) : w'.Reaches v := by
  induction h with
  | named h => exact .named (by rw [hn]; exact h)
  | child _ hview hc ih => exact .child ih (hv hview) hc

/-- What a view keeps is reached as long as it keeps it. -/
theorem Reaches.setView {v j : ViewRef} {f : View → View} (h : w.Reaches j)
    (hf : ∀ view : View, ∀ e ∈ view.children, e ∈ (f view).children) :
    (w.setView v f).Reaches j := by
  induction h with
  | named h => exact .named h
  | @child u view id c _ hview hc ih =>
    by_cases hu : v = u
    · subst hu
      exact .child ih (by simp [Workspace.setView, hview]) (hf view _ hc)
    · exact .child ih (by simp [Workspace.setView, hu, hview]) hc

/-- The child view for a parent is reached from the view. -/
theorem childView_idle (hw : Holding own w) {v : ViewRef} (hv : w.Reaches v) (parent : RecordId) :
    Idle w (w.childView v parent).2 ∧
      ∀ c, (w.childView v parent).1 = .ok c → (w.childView v parent).2.Reaches c := by
  unfold childView
  split
  · exact ⟨(Still.refl w).idle, by intro c h; cases h; exact hv⟩
  · next view hview =>
    split
    · next child hchild =>
      refine ⟨(Still.refl w).idle, ?_⟩
      intro c h
      cases h
      exact .child hv hview (mem_of_lookup hchild)
    · have hm := hw.viewMaps view (List.mem_of_getElem? hview)
      obtain ⟨hidle, hnew⟩ := addChildView_idle hm parent view.window.fetchSize
      split
      · next hq => rw [hq] at hidle; exact ⟨hidle, by intro c h; cases h⟩
      · next child w₁ hq =>
        rw [hq] at hidle hnew
        obtain ⟨hlen, hblank, hnames, hgrown⟩ := hnew child rfl
        have hlt : v < child := hlen ▸ hv.lt hw
        refine ⟨hidle.trans (setView_idle fun old => ⟨rfl, fun r hr => .inl hr, ?_⟩), ?_⟩
        · intro e he
          rcases List.mem_cons.mp he with rfl | he
          · exact .inr ⟨hlt, hblank⟩
          · exact .inl he
        · intro c h
          cases h
          have hv₁ : w₁.Reaches v := hv.of_grown hnames hgrown
          have hview₁ : (w₁.setView v fun view =>
              { view with children := (parent, child) :: view.children }).views[v]? =
              some { view with children := (parent, child) :: view.children } := by
            simp [setView, hgrown hview]
          exact .child (hv₁.setView fun view e he => List.mem_cons_of_mem _ he) hview₁
            List.mem_cons_self

/-! ## Rows -/

/-- The record for a key is registered, once it was read if it was not. -/
theorem recordFor_goes (hs : w.core.Sound) {m : MapRef} (hm : m < w.maps.length)
    (id : RecordId) (ha : LetsRead P w) :
    Goes P w (w.recordFor m id).2 ∧
      ∀ r, (w.recordFor m id).1 = .ok r → (w.recordFor m id).2.core.Listed r := by
  unfold recordFor
  split
  · next r hr =>
    refine ⟨.refl w, ?_⟩
    intro r' h
    cases h
    rw [registered?, Option.bind_eq_some_iff] at hr
    obtain ⟨map, hmap, hlook⟩ := hr
    exact ⟨m, id, map, hmap, mem_of_lookup hlook⟩
  · obtain ⟨hgoes, hl⟩ := load_goes hs hm id ha
    split
    · next hq => rw [hq] at hgoes; exact ⟨hgoes, by intro r h; cases h⟩
    · next r _ hq =>
      rw [hq] at hgoes hl
      exact ⟨hgoes, by intro r' h; cases h; exact hl r rfl⟩
    · next hq => rw [hq] at hgoes; exact ⟨hgoes, by intro r h; cases h⟩

theorem holdRow_idle (v : ViewRef) (row : Nat) {r : RecordRef} (hr : w.core.Listed r) :
    Idle w (w.setView v fun view => { view with rows := (row, r) :: view.rows }) := by
  refine setView_idle fun view => ⟨rfl, fun j hj => ?_, fun e he => .inl he⟩
  rcases List.mem_cons.mp hj with rfl | hj
  · exact .inr hr
  · exact .inl hj

/-- The record of a row in view is registered, and the view holds it. -/
theorem recordAt_acts (hs : w.core.Sound) (hw : Holding own w) {v : ViewRef} (hv : w.Reaches v)
    (row : Nat) (ha : LetsRead P w) :
    Acts own P w (w.recordAt v row).2 ∧ ((w.recordAt v row).2.viewNames = w.viewNames ∧
      ∀ r, (w.recordAt v row).2.armed r ≤ w.armed r) ∧
      ∀ r, (w.recordAt v row).1 = .ok r → (w.recordAt v row).2.core.Listed r := by
  have hrefl : Acts own P w w := ⟨⟨[], .nil _⟩, hw⟩
  unfold recordAt
  split
  · exact ⟨hrefl, ⟨rfl, fun _ => Nat.le_refl _⟩, by intro r h; cases h⟩
  · next view hview =>
    split
    · exact ⟨hrefl, ⟨rfl, fun _ => Nat.le_refl _⟩, by intro r h; cases h⟩
    · next id _ =>
      split
      · next r hr =>
        refine ⟨hrefl, ⟨rfl, fun _ => Nat.le_refl _⟩, ?_⟩
        intro r' h
        cases h
        refine hw.rows hv hview r (List.mem_append_left _ ?_)
        exact List.mem_map.mpr ⟨_, mem_of_lookup hr, rfl⟩
      · have hm := hw.viewMaps view (List.mem_of_getElem? hview)
        obtain ⟨hgoes, hl⟩ := recordFor_goes hs hm id ha.gently
        have hk := hgoes.keeps
        split
        · next hq =>
          rw [hq] at hgoes hk
          exact ⟨hgoes.acts hw, ⟨hk.viewNames, hk.armed⟩, by intro r h; cases h⟩
        · next r w₁ hq =>
          rw [hq] at hgoes hl hk
          have hlr := hl r rfl
          refine ⟨(hgoes.acts hw).trans ((holdRow_idle v row hlr).acts (hw.goes hgoes)),
            ⟨hk.viewNames, hk.armed⟩, ?_⟩
          intro r' h
          cases h
          exact hlr

/-- What a view shows of a row is reached or registered. -/
theorem data_acts (hs : w.core.Sound) (hw : Holding own w) {name : String} {v : ViewRef}
    (hv : w.viewNames.lookup name = some v) (row : Nat) (role : Role)
    (ha : LetsRead P w) :
    Acts own P w (w.data v row role).2 ∧
      (∀ r, (w.data v row role).1 = .ok (.record r) → (w.data v row role).2.core.Listed r) ∧
      ∀ c, (w.data v row role).1 = .ok (.children c) → (w.data v row role).2.Reaches c := by
  obtain ⟨hacts, ⟨hnames, -⟩, hl⟩ := recordAt_acts hs hw (.of_lookup hv) row ha
  unfold data
  split
  · next hq =>
    rw [hq] at hacts
    exact ⟨hacts, (by intro r h; cases h), by intro c h; cases h⟩
  · next r w₁ hq =>
    rw [hq] at hacts hnames hl
    have hlr := hl r rfl
    cases role with
    | field field =>
      refine ⟨hacts, ?_, ?_⟩
      · intro r' h
        dsimp only at h
        cases hval : w₁.valueOf r field <;> rw [hval] at h <;> cases h
      · intro c h
        dsimp only at h
        cases hval : w₁.valueOf r field <;> rw [hval] at h <;> cases h
    | record =>
      exact ⟨hacts, by intro r' h; cases h; exact hlr, by intro c h; cases h⟩
    | children =>
      dsimp only
      split
      · exact ⟨hacts, by intro r' h; cases h; exact hlr, by intro c h; cases h⟩
      · next id _ =>
        have hv₁ : w₁.Reaches v := .of_lookup (by rw [hnames]; exact hv)
        obtain ⟨hidle, hreach⟩ := childView_idle hacts.2 hv₁ id
        refine ⟨hacts.trans (hidle.acts hacts.2), ?_, ?_⟩
        · intro r' h
          cases hc : (w₁.childView v id).1 <;> rw [hc] at h <;> cases h
        · intro c h
          cases hc : (w₁.childView v id).1 with
          | error e => rw [hc] at h; cases h
          | ok child => rw [hc] at h; cases h; exact hreach c hc

theorem columnFrom_acts (hs : w.core.Sound) (hw : Holding own w) {name : String} {v : ViewRef}
    (hv : w.viewNames.lookup name = some v) (field : String) (n row : Nat)
    (ha : LetsRead P w) :
    Acts own P w (columnFrom v field n row w).2 := by
  induction n generalizing row w with
  | zero => exact ⟨⟨[], .nil _⟩, hw⟩
  | succ n ih =>
    obtain ⟨hacts, -⟩ := data_acts hs hw hv row (.field field) ha
    have hkeep : (w.data v row (.field field)).2.viewNames = w.viewNames ∧
        ∀ r, (w.data v row (.field field)).2.armed r ≤ w.armed r := by
      obtain ⟨-, hn, -⟩ := recordAt_acts hs hw (.of_lookup hv) row ha
      unfold data
      split
      · next hq => rw [hq] at hn; exact hn
      · next hq => rw [hq] at hn; exact hn
    unfold columnFrom
    exact hacts.trans (ih (hacts.sound hs) hacts.2 (by rw [hkeep.1]; exact hv) (row + 1)
      (ha.later hkeep.2))

/-- An edit through a view is a command on the record of the row. -/
theorem setData_acts (hs : w.core.Sound) (hw : Holding own w) {name : String} {v : ViewRef}
    (hv : w.viewNames.lookup name = some v) (row : Nat) (role : Role) (value : Value)
    (ha : LetsRead P w)
    (hc : ∀ r, (w.recordAt v row).1 = .ok r → ∀ c reply k, P (.command r c reply) k) :
    Acts own P w (w.setData v row role value).2 := by
  have hrefl : Acts own P w w := ⟨⟨[], .nil _⟩, hw⟩
  cases role with
  | children => exact hrefl
  | record => exact hrefl
  | field field =>
    obtain ⟨hacts, -, hl⟩ := recordAt_acts hs hw (.of_lookup hv) row ha
    unfold setData
    dsimp only
    split
    · next hq => rw [hq] at hacts; exact hacts
    · next r w₁ hq =>
      rw [hq] at hacts hl
      have hrun : Acts own P w₁ (w₁.run r (.set field value)).2 :=
        (run_goes (hacts.sound hs) (hl r rfl) _
          fun c reply k => ⟨hc r (by rw [hq]) c reply k, rfl⟩).acts hacts.2
      split
      · next hq' => rw [hq'] at hrun; exact hacts.trans hrun
      · next hq' =>
        rw [hq'] at hrun
        exact hacts.trans (hrun.trans ((still_announceView v _ _).idle.acts hrun.2))
      · next hq' => rw [hq'] at hrun; exact hacts.trans hrun

/-! ## Staging -/

theorem setStaging_idle (v : ViewRef) {staging : Option RecordRef}
    (hr : ∀ r ∈ staging, w.core.Listed r) :
    Idle w (w.setView v fun view => { view with staging }) := by
  refine setView_idle fun view => ⟨rfl, fun j hj => ?_, fun e he => .inl he⟩
  rcases List.mem_append.mp hj with hj | hj
  · exact .inl (List.mem_append_left _ hj)
  · exact .inr (hr j (by simpa using hj))

/-- A staged record is enrolled if its key is new, and placed below the parent
of the view if there is one. -/
theorem createStaging_acts (hs : w.core.Sound) (hw : Holding own w) {v : ViewRef} {view : View}
    (hview : w.views[v]? = some view) (key : RecordId)
    (he : P (.enrol view.map key true) w.core)
    (hp : ∀ r parent k, Core.Meets view.map key true r w.core k → P (.place r parent) k)
    (hc : 0 < w.armed (w.register view.map key true).1 →
      ∀ c reply k, P (.command (w.register view.map key true).1 c reply) k) :
    Acts own P w (w.createStaging v key).2 ∧
      (w.createStaging v key).2.core.Listed (w.createStaging v key).1 := by
  have hm := hw.viewMaps view (List.mem_of_getElem? hview)
  obtain ⟨hmeets, hkeep⟩ := register_meets hm key true
  have hl := register_listed hs hm key true
  have hreg : Acts own P w (w.register view.map key true).2 :=
    (register_goes (P := fun d k => P d k ∧ d.isGentle = true) hm key true
      ⟨he, rfl⟩).acts hw
  generalize hq : w.register view.map key true = p at hmeets hkeep hl hreg hc
  obtain ⟨r, w₁⟩ := p
  have hstage : ∀ u : Workspace, Acts own P w₁ u → u.core.Listed r →
      Acts own P w (announceView v (u.setView v fun view => { view with staging := some r })
        .stagingChanged) ∧
        (announceView v (u.setView v fun view => { view with staging := some r })
          .stagingChanged).core.Listed r := by
    intro u hu hlu
    have hidle : Idle u (announceView v (u.setView v fun view => { view with staging := some r })
        .stagingChanged) :=
      (setStaging_idle v fun j hj => by cases hj; exact hlu).trans (still_announceView v _ _).idle
    refine ⟨hreg.trans (hu.trans (hidle.acts hu.2)), ?_⟩
    rw [hidle.1]
    exact hlu
  unfold createStaging
  rw [hview]
  dsimp only
  rw [hq]
  dsimp only
  split
  · next parent i _ hi =>
    obtain ⟨cs, hasked, hk, hans⟩ :=
      carryOut_asked hi ⟨_, _, hl⟩ (i.record.setParent (some parent))
    have hgoes : Goes (fun d k => P d k ∧ d.isGentle = true) w₁
        (w₁.carryOut r (i.record.setParent (some parent))) :=
      ⟨.place r (some parent) :: cs.map fun a => .command r a.1 a.2,
        .cons ⟨⟨hp r (some parent) _ hmeets, rfl⟩, _, core_records_of_some hi, ⟨_, _, hl⟩, rfl⟩
          (course_of_asked hasked fun hne c reply k => ⟨hc
            (Nat.lt_of_lt_of_le (hans hne) (hkeep.armed r)) c reply k, rfl⟩), hk⟩
    exact hstage _ (hgoes.acts hreg.2) (hgoes.stays.listed ⟨_, _, hl⟩)
  · exact hstage w₁ ⟨⟨[], .nil _⟩, hreg.2⟩ ⟨_, _, hl⟩

/-- A commit of the staged record is a command on it. -/
theorem commitStaging_acts (hs : w.core.Sound) (hw : Holding own w) {v : ViewRef}
    (hv : w.Reaches v)
    (hc : ∀ r, (w.views[v]?).bind (·.staging) = some r →
      ∀ c reply k, P (.command r c reply) k) :
    Acts own P w (w.commitStaging v).2 ∧
      ∀ r, (w.commitStaging v).1 = .ok (some r) → (w.commitStaging v).2.core.Listed r := by
  unfold commitStaging
  split
  · exact ⟨⟨⟨[], .nil _⟩, hw⟩, by intro r h; cases h⟩
  · next r hr =>
    have hl : w.core.Listed r := by
      obtain ⟨view, hview, hst⟩ := Option.bind_eq_some_iff.mp hr
      exact hw.rows hv hview r (List.mem_append_right _ (by simp [hst]))
    have hgoes : Goes (fun d k => P d k ∧ d.isGentle = true) w (w.run r .commit).2 :=
      run_goes hs hl _ fun c reply k => ⟨hc r hr c reply k, rfl⟩
    have hl₁ := hgoes.stays.listed hl
    have hrun : Acts own P w (w.run r .commit).2 := hgoes.acts hw
    split
    · next hq => rw [hq] at hrun; exact ⟨hrun, by intro r h; cases h⟩
    · next w₁ hq =>
      rw [hq] at hrun hl₁
      have hset : Idle w₁ (w₁.setView v fun view =>
          { view with staging := none, window := { view.window with atEnd := false } }) := by
        refine setView_idle fun view => tends_of_eq rfl (fun j hj => ?_) (fun _ h => h)
        exact List.mem_append_left _ (by simpa [View.held] using hj)
      have hmore := hset.trans (fetchMore_idle v _)
      dsimp only
      split
      · next hq' => rw [hq'] at hmore; exact ⟨hrun.trans (hmore.acts hrun.2), by intro r h; cases h⟩
      · next hq' =>
        rw [hq'] at hmore
        have hall := hmore.trans (still_announceView v _ .stagingChanged).idle
        refine ⟨hrun.trans (hall.acts hrun.2), ?_⟩
        intro r' h
        cases h
        rw [hall.1]
        exact hl₁

theorem discardStaging_acts (hw : Holding own w) {v : ViewRef} (hv : w.Reaches v) :
    Acts own P w (w.discardStaging v).2 ∧
      ∀ r, (w.discardStaging v).1 = some r → (w.discardStaging v).2.core.Listed r := by
  unfold discardStaging
  split
  · exact ⟨⟨⟨[], .nil _⟩, hw⟩, by intro r h; cases h⟩
  · next r hr =>
    have hl : w.core.Listed r := by
      obtain ⟨view, hview, hst⟩ := Option.bind_eq_some_iff.mp hr
      exact hw.rows hv hview r (List.mem_append_right _ (by simp [hst]))
    have hnone : ∀ r ∈ (none : Option RecordRef), w.core.Listed r := by simp
    have hidle := (setStaging_idle v hnone).trans
      (still_announceView v _ .stagingChanged).idle
    refine ⟨hidle.acts hw, ?_⟩
    intro r' h
    cases h
    rw [hidle.1]
    exact hl

end LiveRecords.Workspace
