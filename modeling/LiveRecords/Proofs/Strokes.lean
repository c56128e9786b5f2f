import Mathlib.Logic.Relation
import LiveRecords.Proofs.Bypassing
import LiveRecords.Proofs.Filling
import LiveRecords.Proofs.Tiling

/-!
# The smallest changes of views

Whatever is done with views is done in strokes: a view is added, a name is given, a
row is resolved, a page comes in, listeners are told. Every stroke keeps views
consistent, and a view tells its listeners how many rows it shows.
-/

namespace LiveRecords

/-- Nothing was asked of a view yet. -/
structure View.Fresh (x : View) : Prop where
  rows : x.rows = []
  children : x.children = []
  listeners : x.listeners = {}
  filled : x.window.Filled

/-- A view that starts again. -/
def View.restarted (x : View) : View :=
  { x with window := x.window.cleared, rows := [], children := [] }

/-- What a view becomes while it tells events: it shows the number of rows that they
lead to, and keeps the records of its rows until it is reset. -/
structure View.Leads (es : List ViewEvent) (x y : View) : Prop where
  lead : ViewEvent.Lead x.window.bottom es y.window.bottom
  kept : .reset ∉ es → ∀ {row r}, x.rows.lookup row = some r → y.rows.lookup row = some r

theorem View.Leads.refl (x : View) : View.Leads [] x x := ⟨.nil _, fun _ _ _ h => h⟩

theorem View.Leads.trans {es es' : List ViewEvent} {x y z : View} (h : View.Leads es x y)
    (h' : View.Leads es' y z) : View.Leads (es ++ es') x z where
  lead := h.lead.trans h'.lead
  kept hr _ _ hlook := by
    rw [List.mem_append, not_or] at hr
    exact h'.kept hr.2 (h.kept hr.1 hlook)

namespace Workspace

def IsFresh (w : Workspace) (v : ViewRef) : Prop := ∃ x, w.views[v]? = some x ∧ x.Fresh

/-- Every window shows the keys that it has read. A child view is one for the key that
it is kept under. A row that was resolved has a key, and the record that is registered
under it. -/
structure Consistent (w : Workspace) : Prop where
  filled : w.Filled
  ordered : w.Ordered
  parents : ∀ {v : ViewRef} {x}, w.views[v]? = some x →
    ∀ e ∈ x.children, ∃ y, w.views[e.2]? = some y ∧ y.parent = some e.1
  rows : ∀ {v : ViewRef} {x}, w.Reaches v → w.views[v]? = some x →
    ∀ e ∈ x.rows, ∃ id, x.window.keys[e.1]? = some id ∧ w.registered? x.map id = some e.2
  labelled : w.Labelled

/-- What a view may become: it keeps rows only with their keys, and takes in
registered records and fresh views. -/
structure Becomes (w : Workspace) (v : ViewRef) (x y : View) : Prop where
  map : y.map = x.map
  parent : y.parent = x.parent
  filled : x.window.Filled → y.window.Filled
  children : ∀ e ∈ y.children, e ∈ x.children ∨
    v < e.2 ∧ ∃ c, w.views[e.2]? = some c ∧ c.Fresh ∧ c.parent = some e.1
  rows : ∀ e ∈ y.rows, e ∈ x.rows ∧ x.window.keys <+: y.window.keys ∨
    ∃ id, y.window.keys[e.1]? = some id ∧ w.registered? x.map id = some e.2

theorem Becomes.refl (w : Workspace) (v : ViewRef) (x : View) : Becomes w v x x :=
  ⟨rfl, rfl, id, fun _ he => .inl he, fun _ he => .inl ⟨he, List.prefix_refl _⟩⟩

/-- A change of a view that shows as many rows as before and forgets none of them. -/
structure Alters (w : Workspace) (v : ViewRef) (x y : View) : Prop extends Becomes w v x y where
  listeners : y.listeners = x.listeners
  bottom : y.window.bottom = x.window.bottom
  kept : ∀ {row r}, x.rows.lookup row = some r → y.rows.lookup row = some r

/-- A single change of what views there are, how they are named, what they hold and
what they told. `R` says which views may be reset. -/
inductive Stroke (R : ViewRef → Prop) : Workspace → Workspace → Prop
  | aside {w w'} (h : Bypasses w w') : Stroke R w w'
  | freed {w rs} (m : MapRef) (h : ∀ r ∈ rs, w.isHeld r = false) : Stroke R w (w.unregister m rs)
  | named {w names} (h : ∀ e ∈ names, w.Reaches e.2 ∨ w.IsFresh e.2) :
      Stroke R w { w with viewNames := names }
  | added {w view} (h : view.Fresh) : Stroke R w { w with views := w.views ++ [view] }
  | altered {w v x f} (hx : w.views[v]? = some x) (h : w.Alters v x (f x)) :
      Stroke R w (w.setView v f)
  | paged {w v x window} (hx : w.views[v]? = some x) (hk : x.window.keys <+: window.keys)
      (hb : x.window.bottom ≤ window.bottom) (hf : x.window.Filled → window.Filled) :
      Stroke R w ((Window.growth x.window window).foldl (announceView v)
        (w.setView v fun x => { x with window }))
  | told {w v x e} (hx : w.views[v]? = some x) (h : e.isLocal = true) :
      Stroke R w (announceView v w e)
  | reset {w v x} (hx : w.views[v]? = some x) (h : R v) :
      Stroke R w (announceView v (w.setView v View.restarted) .reset)

/-- Strokes one after another. -/
abbrev Strokes (R : ViewRef → Prop) : Workspace → Workspace → Prop :=
  Relation.ReflTransGen (Stroke R)

variable {w w' w'' : Workspace} {v j : ViewRef} {x y : View} {m : MapRef} {r : RecordRef}
  {rs : List RecordRef} {f : View → View} {name : String}

/-! ## Listeners -/

/-- How often a view tells something to those who listen under a name. -/
def hearers (name : String) (v : ViewRef) (w : Workspace) : Nat :=
  (w.views[v]?).elim 0 fun x => x.listeners.listeners.countP (·.2 == name)

theorem heard_foldl_write (ls : List (Nat × String)) (e : ViewEvent) (w : Workspace) :
    ls.foldl (fun w l => w.write (.view l.2 e)) w =
      { w with heard := w.heard ++ ls.map fun l => .view l.2 e } := by
  induction ls generalizing w with
  | nil => simp
  | cons l ls ih => rw [List.foldl_cons, ih]; simp [write]

/-- Telling something changes what was heard, and nothing else. -/
theorem announceView_eq (v : ViewRef) (w : Workspace) (e : ViewEvent) :
    ∃ hs, announceView v w e = { w with heard := w.heard ++ hs } ∧
      ∀ name, hs.filterMap (Heard.news? name) = List.replicate (w.hearers name v) e := by
  unfold announceView hearers
  cases hv : w.views[v]? with
  | none => exact ⟨[], by simp, fun _ => rfl⟩
  | some x =>
    refine ⟨_, heard_foldl_write x.listeners.listeners e w, fun name => ?_⟩
    rw [Option.elim_some]
    generalize x.listeners.listeners = ls
    induction ls with
    | nil => rfl
    | cons l ls ih =>
      by_cases hl : l.2 = name <;> simp [Heard.news?, hl, ih, List.replicate_succ]

theorem views_announceView (v : ViewRef) (w : Workspace) (e : ViewEvent) :
    (announceView v w e).views = w.views := by
  obtain ⟨hs, heq, -⟩ := announceView_eq v w e
  rw [heq]

theorem hearers_of_views (h : w'.views = w.views) (name : String) (v : ViewRef) :
    w'.hearers name v = w.hearers name v := by
  rw [hearers, h, hearers]

theorem hearers_setView (hf : ∀ x, w.views[v]? = some x → (f x).listeners = x.listeners)
    (name : String) (j : ViewRef) : (w.setView v f).hearers name j = w.hearers name j := by
  unfold hearers setView
  rw [List.getElem?_modify]
  cases hj : w.views[j]? with
  | none => rfl
  | some x =>
    by_cases hvj : v = j
    · subst hvj
      simp [hf x hj]
    · simp [hvj]

/-- Those who listen under a name listen to one view, once. -/
def Listens (name : String) (v : ViewRef) (w : Workspace) : Prop :=
  ∀ j, w.hearers name j = if j = v then 1 else 0

theorem Listens.of_hearers (h : w.Listens name v)
    (hh : ∀ name j, w'.hearers name j = w.hearers name j) : w'.Listens name v :=
  fun j => (hh name j).trans (h j)

theorem news_announceView (v : ViewRef) (w : Workspace) (e : ViewEvent) (name : String) :
    (announceView v w e).news name = w.news name ++ List.replicate (w.hearers name v) e := by
  obtain ⟨hs, heq, hnews⟩ := announceView_eq v w e
  rw [heq, news, List.filterMap_append, hnews name, news]

theorem Listens.news_foldl (h : w.Listens name v) (j : ViewRef) (es : List ViewEvent) :
    (es.foldl (announceView j) w).news name = w.news name ++ if j = v then es else [] := by
  induction es generalizing w with
  | nil => simp
  | cons e es ih =>
    have hl := h.of_hearers (hearers_of_views (views_announceView j w e))
    rw [List.foldl_cons, ih hl, news_announceView, h j]
    by_cases hj : j = v <;> simp [hj]

/-! ## Views that fit together -/

theorem Reaches.of_fresh (hn : ∀ e ∈ w'.viewNames, w.Reaches e.2 ∨ w.IsFresh e.2)
    (hc : ∀ {v : ViewRef} {y}, w'.views[v]? = some y → ∀ e ∈ y.children,
      (∃ x, w.views[v]? = some x ∧ e ∈ x.children) ∨ w.IsFresh e.2)
    (h : w'.Reaches j) : w.Reaches j ∨ w.IsFresh j := by
  induction h with
  | named he => exact hn _ he
  | @child v y id c _ hy he ih =>
    obtain ⟨x, hx, he⟩ | hfresh := hc hy _ he
    · obtain hv | ⟨x', hx', hfresh⟩ := ih
      · exact .inl (.child hv hx he)
      · cases hx.symm.trans hx'
        rw [hfresh.children] at he
        cases he
    · exact .inr hfresh

namespace Consistent

/-- Views may become others and fresh ones may come in, as long as registered records
stay what they are. -/
theorem mono (h : w.Consistent) (hn : ∀ e ∈ w'.viewNames, w.Reaches e.2 ∨ w.IsFresh e.2)
    (hviews : ∀ {v : ViewRef} {y}, w'.views[v]? = some y →
      y.Fresh ∨ ∃ x, w.views[v]? = some x ∧ w.Becomes v x y)
    (hkept : ∀ {v : ViewRef} {x}, w.views[v]? = some x →
      ∃ y, w'.views[v]? = some y ∧ y.parent = x.parent)
    (hr : ∀ {m id r}, w.registered? m id = some r → w'.registered? m id = some r)
    (hl : w'.Labelled) : w'.Consistent := by
  have hchildren : ∀ {v : ViewRef} {y}, w'.views[v]? = some y → ∀ e ∈ y.children,
      (∃ x, w.views[v]? = some x ∧ e ∈ x.children) ∨
        v < e.2 ∧ ∃ c, w.views[e.2]? = some c ∧ c.Fresh ∧ c.parent = some e.1 := by
    intro v y hy e he
    obtain hfresh | ⟨x, hx, hbecomes⟩ := hviews hy
    · rw [hfresh.children] at he
      cases he
    · exact (hbecomes.children e he).imp_left fun he => ⟨x, hx, he⟩
  have hlt : ∀ {v : ViewRef} {x}, w.views[v]? = some x → v < w'.views.length := by
    intro v x hx
    obtain ⟨y, hy, -⟩ := hkept hx
    exact (List.getElem?_eq_some_iff.mp hy).1
  refine ⟨fun y hy => ?_, fun {v y} hy e he => ?_, fun {v y} hy e he => ?_,
    fun {v y} hv hy e he => ?_, hl⟩
  · obtain ⟨v, hv⟩ := List.mem_iff_getElem?.mp hy
    obtain hfresh | ⟨x, hx, hbecomes⟩ := hviews hv
    · exact hfresh.filled
    · exact hbecomes.filled (h.filled x (List.mem_of_getElem? hx))
  · obtain ⟨x, hx, he⟩ | ⟨hve, c, hc, -⟩ := hchildren hy e he
    · have hlen := (h.ordered hx e he).2
      exact ⟨(h.ordered hx e he).1, hlt (List.getElem?_eq_getElem hlen)⟩
    · exact ⟨hve, hlt hc⟩
  · obtain ⟨x, hx, he⟩ | ⟨-, c, hc, -, hparent⟩ := hchildren hy e he
    · obtain ⟨c, hc, hparent⟩ := h.parents hx e he
      obtain ⟨d, hd, hsame⟩ := hkept hc
      exact ⟨d, hd, hsame.trans hparent⟩
    · obtain ⟨d, hd, hsame⟩ := hkept hc
      exact ⟨d, hd, hsame.trans hparent⟩
  · obtain hfresh | ⟨x, hx, hbecomes⟩ := hviews hy
    · rw [hfresh.rows] at he
      cases he
    rw [hbecomes.map]
    obtain ⟨hold, hprefix⟩ | ⟨id, hid, hreg⟩ := hbecomes.rows e he
    · have hreach : w.Reaches v ∨ w.IsFresh v := by
        refine hv.of_fresh hn fun hy e he => (hchildren hy e he).imp_right ?_
        rintro ⟨-, c, hc, hfresh, -⟩
        exact ⟨c, hc, hfresh⟩
      obtain hv | ⟨x', hx', hfresh⟩ := hreach
      · obtain ⟨id, hid, hreg⟩ := h.rows hv hx e hold
        obtain ⟨more, hmore⟩ := hprefix
        refine ⟨id, ?_, hr hreg⟩
        rw [← hmore, List.getElem?_append_left (List.getElem?_eq_some_iff.mp hid).1]
        exact hid
      · cases hx.symm.trans hx'
        rw [hfresh.rows] at hold
        cases hold
    · exact ⟨id, hid, hr hreg⟩

/-- A change of what views do not see, and neither do registered records. -/
theorem of_views (h : w.Consistent) (hv : w'.views = w.views) (hn : w'.viewNames = w.viewNames)
    (hr : ∀ {m id r}, w.registered? m id = some r → w'.registered? m id = some r)
    (hl : w'.Labelled) : w'.Consistent := by
  refine h.mono (fun e he => .inl (.named (hn ▸ he))) (fun {v y} hy => ?_) (fun hx => ?_) hr hl
  · rw [hv] at hy
    exact .inr ⟨y, hy, .refl w v y⟩
  · rw [hv]
    exact ⟨_, hx, rfl⟩

theorem setView (h : w.Consistent) (hx : w.views[v]? = some x) (hf : w.Becomes v x (f x)) :
    (w.setView v f).Consistent := by
  refine h.mono (fun e he => .inl (.named he)) (fun {j y} hy => ?_) (fun {j z} hz => ?_) id
    h.labelled
  · obtain ⟨old, hold, rfl⟩ := views_setView hy
    refine .inr ⟨old, hold, ?_⟩
    split
    · next hj =>
      subst hj
      cases hx.symm.trans hold
      exact hf
    · exact .refl w j old
  · by_cases hvj : v = j
    · subst hvj
      cases hx.symm.trans hz
      exact ⟨f x, by simp [Workspace.setView, hx], hf.parent⟩
    · exact ⟨z, by simp [Workspace.setView, hvj, hz], rfl⟩

/-- Records that nobody holds may go. -/
theorem unregister (h : w.Consistent) (m : MapRef) (hfree : ∀ r ∈ rs, w.isHeld r = false) :
    (w.unregister m rs).Consistent := by
  refine ⟨h.filled, h.ordered, h.parents, fun {v x} hv hx e he => ?_,
    h.labelled.unregister m rs⟩
  have hreach : w.Reaches v := hv.of_views (by rfl) (by rfl)
  obtain ⟨id, hid, hreg⟩ := h.rows hreach hx e he
  have hheld : w.isHeld e.2 = true :=
    isHeld_of_reaches h.ordered hreach hx (List.mem_append_left _ (List.mem_map_of_mem he))
  have hstays : e.2 ∉ rs := fun hin => by
    rw [hfree e.2 hin] at hheld
    cases hheld
  exact ⟨id, hid, registered?_unregister_of_some hreg hstays⟩

theorem addView (h : w.Consistent) (hx : x.Fresh) :
    Consistent { w with views := w.views ++ [x] } := by
  refine h.mono (fun e he => .inl (.named he)) (fun {v y} hy => ?_) (fun {v z} hz => ?_) id
    h.labelled
  · rw [List.getElem?_append] at hy
    split at hy
    · exact .inr ⟨y, hy, .refl w v y⟩
    · rw [List.mem_singleton.mp (List.mem_of_getElem? hy)]
      exact .inl hx
  · refine ⟨z, ?_, rfl⟩
    rw [List.getElem?_append_left (List.getElem?_eq_some_iff.mp hz).1]
    exact hz

theorem announceView (h : w.Consistent) (v : ViewRef) (e : ViewEvent) :
    (announceView v w e).Consistent := by
  obtain ⟨hs, heq, -⟩ := announceView_eq v w e
  rw [heq]
  exact h.of_views rfl rfl id h.labelled

/-- Every stroke keeps views consistent. -/
theorem stroke {R : ViewRef → Prop} (h : w.Consistent) (hs : Stroke R w w') : w'.Consistent := by
  cases hs with
  | aside hb => exact h.of_views hb.views hb.viewNames hb.registered (hb.labelled h.labelled)
  | freed m hfree => exact h.unregister m hfree
  | named hn =>
    exact h.mono hn (fun {v y} hy => .inr ⟨y, hy, .refl w v y⟩) (fun hx => ⟨_, hx, rfl⟩) id
      h.labelled
  | added hfresh => exact h.addView hfresh
  | altered hx ha => exact h.setView hx ha.toBecomes
  | @paged v x window hx hk _ hf =>
    have hset : (w.setView v fun x => { x with window }).Consistent :=
      h.setView hx ⟨rfl, rfl, hf, fun e he => .inl he, fun e he => .inl ⟨he, hk⟩⟩
    exact List.foldlRecOn _ _ hset fun _ hw e _ => hw.announceView v e
  | told _ _ => exact h.announceView _ _
  | @reset v x hx _ =>
    have hset : (w.setView v View.restarted).Consistent :=
      h.setView hx ⟨rfl, rfl, fun _ => rfl, nofun, nofun⟩
    exact hset.announceView v _

theorem strokes {R : ViewRef → Prop} (h : w.Consistent)
    (hs : Strokes R w w') : w'.Consistent := by
  induction hs with
  | refl => exact h
  | tail _ hs ih => exact ih.stroke hs

end Consistent

/-! ## What a view tells -/

/-- What becomes of a view, and what those hear who listen to it. -/
structure Unfolds (R : ViewRef → Prop) (v : ViewRef) (es : List ViewEvent) (w w' : Workspace) :
    Prop where
  views : ∀ {x}, w.views[v]? = some x → ∃ y, w'.views[v]? = some y ∧ View.Leads es x y
  news : ∀ {name}, w.Listens name v → w'.news name = w.news name ++ es
  resets : .reset ∈ es → R v

namespace Unfolds

variable {R : ViewRef → Prop} {es es' : List ViewEvent}

theorem refl (R : ViewRef → Prop) (v : ViewRef) (w : Workspace) : Unfolds R v [] w w where
  views hx := ⟨_, hx, .refl _⟩
  news _ := by rw [List.append_nil]
  resets := nofun

theorem trans (h : Unfolds R v es w w') (h' : Unfolds R v es' w' w'')
    (hl : ∀ {name}, w.Listens name v → w'.Listens name v) : Unfolds R v (es ++ es') w w'' where
  views hx := by
    obtain ⟨y, hy, hleads⟩ := h.views hx
    obtain ⟨z, hz, hleads'⟩ := h'.views hy
    exact ⟨z, hz, hleads.trans hleads'⟩
  news hname := by rw [h'.news (hl hname), h.news hname, List.append_assoc]
  resets hr := (List.mem_append.mp hr).elim h.resets h'.resets

/-- Nothing is told, and the view is left as it is. -/
theorem of_views (hv : w'.views = w.views) (hn : ∀ name, w'.news name = w.news name) :
    Unfolds R v [] w w' where
  views hx := ⟨_, hv ▸ hx, .refl _⟩
  news _ := by rw [hn, List.append_nil]
  resets := nofun

end Unfolds

/-- A view is changed and tells of it; nobody begins or stops to listen. -/
theorem unfolds_tell {R : ViewRef → Prop} (es : List ViewEvent) (hx : w.views[j]? = some x)
    (hf : (f x).listeners = x.listeners) (hleads : View.Leads es x (f x))
    (hr : .reset ∈ es → R j) (v : ViewRef) :
    ∃ es', Unfolds R v es' w (es.foldl (announceView j) (w.setView j f)) ∧
      ∀ name i, (es.foldl (announceView j) (w.setView j f)).hearers name i = w.hearers name i := by
  have hviews : (es.foldl (announceView j) (w.setView j f)).views = (w.setView j f).views :=
    List.foldlRecOn (motive := fun u => u.views = (w.setView j f).views) _ _ rfl
      fun u hu e _ => (views_announceView j u e).trans hu
  have hset : ∀ name i, (w.setView j f).hearers name i = w.hearers name i :=
    hearers_setView fun z hz => by cases hx.symm.trans hz; exact hf
  refine ⟨if j = v then es else [], ⟨fun {z} hz => ?_, fun hl => ?_, fun hin => ?_⟩,
    fun name i => (hearers_of_views hviews name i).trans (hset name i)⟩
  · rw [hviews]
    by_cases hj : j = v
    · subst hj
      cases hx.symm.trans hz
      exact ⟨f x, by simp [setView, hx], by simpa using hleads⟩
    · exact ⟨z, by simp [setView, hj, hz], by simpa [hj] using .refl z⟩
  · exact (hl.of_hearers hset).news_foldl j es
  · split at hin
    · next hj => exact hj ▸ hr hin
    · cases hin

/-- What a view tells in one stroke. -/
theorem Stroke.unfolds {R : ViewRef → Prop} (h : Stroke R w w') (v : ViewRef) :
    ∃ es, Unfolds R v es w w' ∧ ∀ name j, w'.hearers name j = w.hearers name j := by
  cases h with
  | aside hb => exact ⟨[], .of_views hb.views hb.news, hearers_of_views hb.views⟩
  | freed m _ => exact ⟨[], .of_views rfl fun _ => rfl, fun _ _ => rfl⟩
  | named _ => exact ⟨[], .of_views rfl fun _ => rfl, fun _ _ => rfl⟩
  | @added x hfresh =>
    refine ⟨[], ⟨fun hz => ⟨_, ?_, .refl _⟩, fun _ => (List.append_nil _).symm, nofun⟩,
      fun name j => ?_⟩
    · rw [List.getElem?_append_left (List.getElem?_eq_some_iff.mp hz).1]
      exact hz
    · simp only [hearers, List.getElem?_append]
      split
      · rfl
      · next hj =>
        rw [List.getElem?_eq_none (Nat.le_of_not_lt hj)]
        cases hc : [x][j - w.views.length]? with
        | none => rfl
        | some c =>
          rw [List.mem_singleton.mp (List.mem_of_getElem? hc), Option.elim_some,
            hfresh.listeners]
          rfl
  | altered hx ha =>
    exact unfolds_tell [] hx ha.listeners ⟨ha.bottom ▸ .nil _, fun _ _ _ => ha.kept⟩
      nofun v
  | paged hx _ hb _ =>
    exact unfolds_tell _ hx rfl ⟨ViewEvent.lead_growth hb, fun _ _ _ h => h⟩
      (fun hr => absurd hr (ViewEvent.reset_notMem_growth _ _)) v
  | @told j x e hx he =>
    have hsame : w.setView j id = w := by simp [setView]
    have htell := unfolds_tell (R := R) (f := id) [e] hx rfl
      ⟨.aside he (.nil _), fun _ _ _ h => h⟩
      (fun hr => by rw [← List.mem_singleton.mp hr] at he; cases he) v
    rwa [hsame] at htell
  | reset hx hr =>
    exact unfolds_tell [.reset] hx rfl
      ⟨.reset (.nil _), fun hno => absurd List.mem_cons_self hno⟩ (fun _ => hr) v

theorem unfolds_of_strokes {R : ViewRef → Prop} (h : Strokes R w w') (v : ViewRef) :
    ∃ es, Unfolds R v es w w' ∧ ∀ name j, w'.hearers name j = w.hearers name j := by
  induction h with
  | refl => exact ⟨[], .refl R v w, fun _ _ => rfl⟩
  | tail _ hs ih =>
    obtain ⟨es, hu, hh⟩ := ih
    obtain ⟨es', hu', hh'⟩ := hs.unfolds v
    exact ⟨es ++ es', hu.trans hu' fun hl => hl.of_hearers hh,
      fun name j => (hh' name j).trans (hh name j)⟩

end Workspace

end LiveRecords
