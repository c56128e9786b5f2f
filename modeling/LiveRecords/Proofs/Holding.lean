import LiveRecords.Proofs.Delivery
import LiveRecords.Proofs.Soundness

/-!
# What a workspace holds

The invariant of the names, views and stores around the core: whatever is held
is registered, every reference leads somewhere, and the identity maps that work
with the coordinator of an open store are those of the store, as long as stores
share their coordinators with no other identity map. Which views are held is
reachability from names; the one pass that computes it finds every reachable
view, since a child view comes after the view that keeps it.
-/

namespace LiveRecords

/-- An identity map without what is registered. -/
def IdentityMap.bare (map : IdentityMap) : IdentityMap := { map with registered := [] }

namespace Core

/-- The identity maps without what is registered. -/
def shape (k : Core) : List IdentityMap := k.maps.map IdentityMap.bare

theorem shape_setMap (k : Core) (m : MapRef) {f : IdentityMap → IdentityMap}
    (hf : ∀ map, (f map).bare = map.bare) : (k.setMap m f).shape = k.shape := by
  ext j x
  simp only [shape, setMap, List.getElem?_map, List.getElem?_modify]
  cases k.maps[j]? with
  | none => rfl
  | some map => by_cases hj : m = j <;> simp [hj, hf]

theorem shape_of_maps {k k' : Core} (h : k'.maps = k.maps) : k'.shape = k.shape := by
  rw [shape, h, shape]

theorem length_maps_of_shape {k k' : Core} (h : k'.shape = k.shape) :
    k'.maps.length = k.maps.length := by
  simpa [shape] using congrArg List.length h

theorem shape_of_map {k : Core} {m : MapRef} {map : IdentityMap} (h : k.maps[m]? = some map) :
    k.shape[m]? = some map.bare := by
  rw [shape, List.getElem?_map, h, Option.map_some]

/-- An identity map is alike to every other of its shape. -/
theorem map_of_bare {k : Core} {m : MapRef} {map : IdentityMap}
    (h : k.shape[m]? = some map.bare) : ∃ map', k.maps[m]? = some map' ∧ map'.Alike map := by
  rw [shape, List.getElem?_map, Option.map_eq_some_iff] at h
  obtain ⟨map', hmap', he⟩ := h
  have hschema : map'.bare.schema = map.bare.schema := by rw [he]
  have hconnection : map'.bare.connection = map.bare.connection := by rw [he]
  have hhub : map'.bare.hub = map.bare.hub := by rw [he]
  exact ⟨map', hmap', hschema, hconnection, hhub⟩

/-- Cores of one shape have alike identity maps. -/
theorem map_of_shape {k k' : Core} (h : k'.shape = k.shape) {m : MapRef} {map : IdentityMap}
    (hm : k.maps[m]? = some map) : ∃ map', k'.maps[m]? = some map' ∧ map'.Alike map :=
  map_of_bare (h ▸ shape_of_map hm)

end Core

/-- A deed that neither frees a record nor makes anything but records. -/
def Deed.isGentle : Deed → Bool
  | .free .. | .ground | .addMap .. => false
  | _ => true

namespace Core

variable {k k' : Core}

/-- The same identity maps and connections, and as many databases and
coordinators. -/
structure Frame (k k' : Core) : Prop where
  shape : k'.shape = k.shape
  databases : k'.databases.length = k.databases.length
  connections : k'.connections = k.connections
  hubs : k'.coordinators.length = k.coordinators.length

theorem Frame.refl (k : Core) : Frame k k := ⟨rfl, rfl, rfl, rfl⟩

theorem Frame.trans {k₁ k₂ k₃ : Core} (h₁ : Frame k₁ k₂) (h₂ : Frame k₂ k₃) : Frame k₁ k₃ :=
  ⟨h₂.shape.trans h₁.shape, h₂.databases.trans h₁.databases,
    h₂.connections.trans h₁.connections, h₂.hubs.trans h₁.hubs⟩

/-- What gentle deeds leave: all of this, and what is registered. -/
structure Stays (k k' : Core) : Prop where
  frame : Frame k k'
  lists : ∀ {m id r}, k.Lists m id r → k'.Lists m id r

theorem Stays.refl (k : Core) : Stays k k := ⟨.refl k, id⟩

theorem Stays.trans {k₁ k₂ k₃ : Core} (h₁ : Stays k₁ k₂) (h₂ : Stays k₂ k₃) : Stays k₁ k₃ :=
  ⟨h₁.frame.trans h₂.frame, fun h => h₂.lists (h₁.lists h)⟩

theorem Stays.listed (h : Stays k k') {r : RecordRef} (hl : k.Listed r) : k'.Listed r := by
  obtain ⟨m, id, hl⟩ := hl
  exact ⟨m, id, h.lists hl⟩

theorem stays_setDatabase (k : Core) (c : ConnectionRef) (d : Database) :
    Stays k (k.setDatabase c d) :=
  ⟨⟨shape_of_maps (by simp), by simp, by simp, by simp⟩, fun h => h.of_maps (by simp)⟩

theorem stays_impose (k : Core) (r : RecordRef) (e : Effect) : Stays k (k.impose r e) :=
  ⟨⟨shape_of_maps (by simp), by simp, by simp, by simp⟩, fun h => h.of_maps (by simp)⟩

theorem stays_enrol {m : MapRef} {map : IdentityMap} (hm : k.maps[m]? = some map)
    (id : RecordId) (isNew : Bool) : Stays k (k.enrol m map id isNew) :=
  ⟨⟨shape_setMap k m fun _ => rfl, rfl, rfl, rfl⟩, fun h => (lists_enrol hm).mpr (.inl h)⟩

theorem Commands.stays {r : RecordRef} {c : Record.Command}
    {reply : Except StoreError Record.Reply} (h : Commands r c reply k k') : Stays k k' := by
  obtain ⟨i, l, -, -, -, -, rfl⟩ := h
  exact (stays_setDatabase k _ _).trans (stays_impose _ r _)

theorem Asked.stays {r : RecordRef} {cs : List (Record.Command × Except StoreError Record.Reply)}
    (h : Asked r cs k k') : Stays k k' :=
  Chain.preserves (P := Stays k) (fun hc hs => hs.trans hc.stays) h (.refl k)

theorem Meets.stays {m : MapRef} {id : RecordId} {isNew : Bool} {r : RecordRef}
    (h : Meets m id isNew r k k') : Stays k k' := by
  obtain ⟨map, hm, ⟨-, rfl⟩ | ⟨-, -, rfl⟩⟩ := h
  · exact .refl k'
  · exact stays_enrol hm id isNew

theorem TakenIn.stays {m : MapRef} {answered : RecordRef → Prop} {images : List RowImage}
    (h : TakenIn m answered images k k') : Stays k k' := by
  induction h with
  | nil k => exact .refl k
  | cons hm _ hc _ _ ih => exact hm.stays.trans ((stays_impose _ _ _).trans (hc.stays.trans ih))

theorem Does.stays {d : Deed} (hd : d.isGentle = true) (h : Does d k k') : Stays k k' := by
  cases d with
  | command r c reply => exact Commands.stays h
  | read m images answered =>
    obtain ⟨map, -, -, h⟩ := h
    exact h.stays
  | enrol m id isNew =>
    obtain ⟨map, hm, -, rfl⟩ := h
    exact stays_enrol hm id isNew
  | place r parent =>
    obtain ⟨i, -, -, rfl⟩ := h
    exact stays_impose k r _
  | adopt m r parent =>
    obtain ⟨map, i, l, -, -, -, -, -, rfl⟩ := h
    exact (stays_setDatabase k _ _).trans (stays_impose _ r _)
  | foreign d =>
    obtain ⟨x, rfl⟩ := h
    exact ⟨⟨rfl, by simp, rfl, rfl⟩, id⟩
  | free m r => cases hd
  | ground => cases hd
  | addMap s c h => cases hd

theorem stays_of_course {allowed : Deed → Core → Prop} {ds : List Deed}
    (h : Course (fun d k => allowed d k ∧ d.isGentle = true) ds k k') : Stays k k' :=
  Chain.preserves (P := Stays k) (fun hd hs => hs.trans (Does.stays hd.1.2 hd.2)) h (.refl k)

end Core

namespace Workspace

/-! ## Reachable views -/

/-- A view has a name, or a view that is reached keeps it. -/
inductive Reaches (w : Workspace) : ViewRef → Prop
  | named {name : String} {v : ViewRef} : (name, v) ∈ w.viewNames → Reaches w v
  | child {v : ViewRef} {view : View} {id : RecordId} {c : ViewRef} :
      Reaches w v → w.views[v]? = some view → (id, c) ∈ view.children → Reaches w c

/-- Every child view comes after the view that keeps it. -/
def Ordered (w : Workspace) : Prop :=
  ∀ {v : ViewRef} {view : View}, w.views[v]? = some view →
    ∀ e ∈ view.children, v < e.2 ∧ e.2 < w.views.length

/-- The views found in one pass over the first `n`. -/
def foundViews (w : Workspace) (n : Nat) : List ViewRef :=
  (List.range n).foldl
    (fun found v => if found.contains v then found ++ w.childrenOf v else found)
    (w.viewNames.map (·.2))

theorem foundViews_succ (w : Workspace) (n : Nat) :
    w.foundViews (n + 1) =
      if (w.foundViews n).contains n then w.foundViews n ++ w.childrenOf n
      else w.foundViews n := by
  simp [foundViews, List.range_succ]

theorem foundViews_mono (w : Workspace) {i n : Nat} (h : i ≤ n) {v : ViewRef}
    (hv : v ∈ w.foundViews i) : v ∈ w.foundViews n := by
  induction n with
  | zero => rwa [Nat.le_zero.mp h] at hv
  | succ n ih =>
    rcases Nat.lt_or_eq_of_le h with hlt | rfl
    · have hn := ih (Nat.le_of_lt_succ hlt)
      rw [foundViews_succ]
      split
      · exact List.mem_append_left _ hn
      · exact hn
    · exact hv

theorem mem_childrenOf {w : Workspace} {v c : ViewRef} :
    c ∈ w.childrenOf v ↔ ∃ view, w.views[v]? = some view ∧ ∃ id, (id, c) ∈ view.children := by
  unfold childrenOf
  cases w.views[v]? with
  | none => simp
  | some view => simp

/-- What is found at all is found before its own turn. -/
theorem mem_foundViews_of_le {w : Workspace} (ho : w.Ordered) {i n : Nat} (h : i ≤ n)
    {v : ViewRef} (hv : v ∈ w.foundViews n) (hvi : v ≤ i) : v ∈ w.foundViews i := by
  induction n with
  | zero => rwa [Nat.le_zero.mp h]
  | succ n ih =>
    rcases Nat.lt_or_eq_of_le h with hlt | rfl
    · have hin : i ≤ n := Nat.le_of_lt_succ hlt
      rw [foundViews_succ] at hv
      split at hv
      · rcases List.mem_append.mp hv with hv | hv
        · exact ih hin hv
        · obtain ⟨view, hview, id, hc⟩ := mem_childrenOf.mp hv
          exact absurd (Nat.le_trans hvi hin) (Nat.not_le_of_lt (ho hview _ hc).1)
      · exact ih hin hv
    · exact hv

theorem mem_reachableViews {w : Workspace} (ho : w.Ordered) {v : ViewRef} (h : w.Reaches v) :
    v ∈ w.reachableViews := by
  induction h with
  | named hv => exact w.foundViews_mono (Nat.zero_le _) (List.mem_map_of_mem hv)
  | @child v view id c _ hview hc ih =>
    have hlt : v < w.views.length := (List.getElem?_eq_some_iff.mp hview).1
    have hv : v ∈ w.foundViews v := mem_foundViews_of_le ho (Nat.le_of_lt hlt) ih (Nat.le_refl v)
    refine w.foundViews_mono (i := v + 1) hlt ?_
    rw [foundViews_succ, if_pos (by simpa using hv)]
    exact List.mem_append_right _ (mem_childrenOf.mpr ⟨view, hview, id, hc⟩)

/-- A record in a view that is reached is held. -/
theorem isHeld_of_reaches {w : Workspace} (ho : w.Ordered) {v : ViewRef} (h : w.Reaches v)
    {view : View} (hview : w.views[v]? = some view) {r : RecordRef} (hr : r ∈ view.held) :
    w.isHeld r = true := by
  rw [isHeld, List.contains_iff_mem, heldRecords]
  refine List.mem_append_right _ (List.mem_flatMap.mpr ⟨v, mem_reachableViews ho h, ?_⟩)
  simpa [hview] using hr

theorem isHeld_of_handle {w : Workspace} {e : String × RecordRef} (h : e ∈ w.handles) :
    w.isHeld e.2 = true := by
  rw [isHeld, List.contains_iff_mem, heldRecords]
  exact List.mem_append_left _ (List.mem_map_of_mem h)

end Workspace

/-! ## The invariant -/

/-- A store that is open works with its identity maps, which are all there are
with its coordinator if coordinators of stores are their own. -/
structure Core.Serves (k : Core) (own : Prop) (s : Store) : Prop where
  connection : s.connection < k.connections.length
  hub : s.hub < k.coordinators.length
  maps : ∀ e ∈ s.maps, ∃ map, k.shape[e.2]? = some map ∧
    map.connection = s.connection ∧ map.hub = s.hub
  all : own → ∀ {m : MapRef} {map}, k.shape[m]? = some map → map.hub = s.hub →
    m ∈ s.maps.map (·.2)

theorem Core.Serves.frame {k k' : Core} {own : Prop} {s : Store} (h : k.Serves own s)
    (hs : k.Frame k') : k'.Serves own s where
  connection := hs.connections ▸ h.connection
  hub := hs.hubs ▸ h.hub
  maps := by rw [hs.shape]; exact h.maps
  all := by rw [hs.shape]; exact h.all

namespace Workspace

structure Holding (own : Prop) (w : Workspace) : Prop where
  handles : ∀ e ∈ w.handles, w.core.Listed e.2
  rows : ∀ {v : ViewRef} {view}, w.Reaches v → w.views[v]? = some view →
    ∀ r ∈ view.held, w.core.Listed r
  viewNames : ∀ e ∈ w.viewNames, e.2 < w.views.length
  ordered : w.Ordered
  viewMaps : ∀ view ∈ w.views, view.map < w.maps.length
  mapNames : ∀ e ∈ w.mapNames, e.2 < w.maps.length
  stores : ∀ e ∈ w.stores, w.core.Serves own e.2
  apart : ∀ e ∈ w.stores, ∀ e' ∈ w.stores, e.2.hub = e'.2.hub → e = e'
  files : ∀ e ∈ w.volumes.files, e.2 < w.databases.length

theorem Holding.of_own {own : Prop} {w : Workspace} (h : Holding own w) (ho : own) :
    Holding True w :=
  eq_true ho ▸ h

theorem Reaches.of_views {w w' : Workspace} (hv : w'.views = w.views)
    (hn : w'.viewNames = w.viewNames) {v : ViewRef} (h : w'.Reaches v) : w.Reaches v := by
  induction h with
  | named h => exact .named (hn ▸ h)
  | child _ hview hc ih => exact .child ih (hv ▸ hview) hc

variable {w w' : Workspace} {own : Prop}

/-- What is held may not be freed; all else may change that names do not see. -/
theorem Holding.of_frame (h : Holding own w) (hf : w.core.Frame w'.core)
    (hl : ∀ r, w.isHeld r = true → w.core.Listed r → w'.core.Listed r)
    (hv : w'.views = w.views) (hst : w'.stores = w.stores) (hh : w'.handles = w.handles)
    (hm : w'.mapNames = w.mapNames) (hn : w'.viewNames = w.viewNames)
    (hf' : w'.volumes = w.volumes) : Holding own w' := by
  have hlen : w'.maps.length = w.maps.length := Core.length_maps_of_shape hf.shape
  refine ⟨?_, ?_, ?_, ?_, ?_, ?_, ?_, ?_, ?_⟩
  · rw [hh]
    exact fun e he => hl e.2 (isHeld_of_handle he) (h.handles e he)
  · intro v view hr hview r hmem
    rw [hv] at hview
    have hr' := hr.of_views hv hn
    exact hl r (isHeld_of_reaches h.ordered hr' hview hmem) (h.rows hr' hview r hmem)
  · rw [hn, hv]
    exact h.viewNames
  · intro v view hview e he
    rw [hv] at hview ⊢
    exact h.ordered hview e he
  · rw [hv, hlen]
    exact h.viewMaps
  · rw [hm, hlen]
    exact h.mapNames
  · rw [hst]
    exact fun e he => (h.stores e he).frame hf
  · rw [hst]
    exact h.apart
  · have hd : w'.databases.length = w.databases.length := hf.databases
    rw [hf', hd]
    exact h.files

theorem Holding.of_stays (h : Holding own w) (hs : w.core.Stays w'.core) (hv : w'.views = w.views)
    (hst : w'.stores = w.stores) (hh : w'.handles = w.handles) (hm : w'.mapNames = w.mapNames)
    (hn : w'.viewNames = w.viewNames) (hf : w'.volumes = w.volumes) : Holding own w' :=
  h.of_frame hs.frame (fun _ _ hl => hs.listed hl) hv hst hh hm hn hf

theorem Holding.keeps (h : Holding own w) (hs : w.core.Stays w'.core) (hk : Keeps w w') :
    Holding own w' :=
  h.of_stays hs hk.views hk.stores hk.handles hk.mapNames hk.viewNames hk.volumes

theorem Holding.still (h : Holding own w) (hs : Still w w') : Holding own w' :=
  h.keeps (hs.1 ▸ .refl _) hs.2

/-! ## Names -/

theorem Holding.withHandles (h : Holding own w) {handles : List (String × RecordRef)}
    (hh : ∀ e ∈ handles, w.core.Listed e.2) : Holding own { w with handles } :=
  ⟨hh, fun hr => h.rows (hr.of_views (by rfl) (by rfl)), h.viewNames, h.ordered, h.viewMaps,
    h.mapNames, h.stores, h.apart, h.files⟩

theorem mem_bind {name : String} {ref : Nat} {names : List (String × Nat)} {e : String × Nat}
    (h : e ∈ bind name ref names) : e ∈ names ∨ e = (name, ref) := by
  rw [bind, List.mem_append, List.mem_singleton] at h
  exact h.imp_left fun h => (List.mem_filter.mp h).1

theorem mem_unbind {name : String} {names : List (String × Nat)} {e : String × Nat}
    (h : e ∈ unbind name names) : e ∈ names :=
  (List.mem_filter.mp h).1

theorem Holding.hold (h : Holding own w) (name : String) {r : RecordRef} (hr : w.core.Listed r) :
    Holding own (w.hold name r) := by
  refine h.withHandles fun e he => ?_
  rcases mem_bind he with he | rfl
  · exact h.handles e he
  · exact hr

theorem Holding.holdAs (h : Holding own w) (name : Option String) {r : RecordRef}
    (hr : w.core.Listed r) : Holding own (w.holdAs name r) := by
  cases name with
  | none => exact h
  | some name => exact h.hold name hr

theorem Holding.letGo (h : Holding own w) (name : String) : Holding own (w.letGo name) :=
  h.withHandles fun e he => h.handles e (mem_unbind he)

theorem Holding.holdAll (h : Holding own w) (name : String) (n : Nat) {rs : List RecordRef}
    (hrs : ∀ r ∈ rs, w.core.Listed r) : Holding own (Workspace.holdAll name n rs w) := by
  induction rs generalizing n w with
  | nil => exact h
  | cons r rs ih =>
    exact ih (h.hold _ (hrs r (by simp))) (n + 1) fun s hs => hrs s (by simp [hs])

theorem Holding.holdMap (h : Holding own w) (name : String) {m : MapRef} (hm : m < w.maps.length) :
    Holding own (w.holdMap name m) := by
  refine ⟨h.handles, fun hr => h.rows (hr.of_views (by rfl) (by rfl)), h.viewNames, h.ordered,
    h.viewMaps, ?_, h.stores, h.apart, h.files⟩
  intro e he
  rcases mem_bind he with he | rfl
  · exact h.mapNames e he
  · exact hm

/-- A view from which nothing else is reached. -/
def IsBlank (w : Workspace) (v : ViewRef) : Prop :=
  ∃ view, w.views[v]? = some view ∧ view.held = [] ∧ view.children = []

/-- Names are given to views that are reached already, or lead nowhere. -/
theorem Holding.nameViews (h : Holding own w) {names : List (String × ViewRef)}
    (hn : ∀ e ∈ names, w.Reaches e.2 ∨ w.IsBlank e.2) (hlt : ∀ e ∈ names, e.2 < w.views.length) :
    Holding own { w with viewNames := names } := by
  have hreach : ∀ {v}, Reaches { w with viewNames := names } v → w.Reaches v ∨ w.IsBlank v := by
    intro v hv
    induction hv with
    | named hv => exact hn _ hv
    | child _ hview hc ih =>
      rcases ih with ih | ⟨view, hv, -, hb⟩
      · exact .inl (.child ih hview hc)
      · replace hview := hv.symm.trans hview
        cases hview
        rw [hb] at hc
        simp at hc
  refine ⟨h.handles, ?_, hlt, h.ordered, h.viewMaps, h.mapNames, h.stores, h.apart, h.files⟩
  intro v view hr hview r hmem
  rcases hreach hr with hr | ⟨blank, hv, hb, -⟩
  · exact h.rows hr hview r hmem
  · replace hview := hv.symm.trans hview
    cases hview
    rw [hb] at hmem
    simp at hmem

theorem Holding.holdView (h : Holding own w) (name : Option String) {v : ViewRef}
    (hv : w.Reaches v ∨ w.IsBlank v) (hlt : v < w.views.length) :
    Holding own (w.holdView name v) := by
  cases name with
  | none => exact h
  | some name =>
    refine h.nameViews (fun e he => ?_) (fun e he => ?_)
    · rcases mem_bind he with he | rfl
      · exact .inl (.named he)
      · exact hv
    · rcases mem_bind he with he | rfl
      · exact h.viewNames e he
      · exact hlt

theorem Reaches.lt (h : Holding own w) {v : ViewRef} (hv : w.Reaches v) : v < w.views.length := by
  cases hv with
  | named hv => exact h.viewNames _ hv
  | child _ hview hc => exact (h.ordered hview _ hc).2

theorem Reaches.of_lookup {name : String} {v : ViewRef} (h : w.viewNames.lookup name = some v) :
    w.Reaches v :=
  .named (mem_of_lookup h)

/-! ## Views -/

/-- What a change of a view may do: it keeps the identity map and, besides what
the view had, takes in registered records and child views that lead nowhere. -/
structure Tends (w : Workspace) (v : ViewRef) (old new : View) : Prop where
  map : new.map = old.map
  held : ∀ r ∈ new.held, r ∈ old.held ∨ w.core.Listed r
  children : ∀ e ∈ new.children, e ∈ old.children ∨ v < e.2 ∧ w.IsBlank e.2

theorem views_setView {v j : ViewRef} {f : View → View} {view : View}
    (h : (w.setView v f).views[j]? = some view) :
    ∃ old, w.views[j]? = some old ∧ view = if j = v then f old else old := by
  simp only [setView, List.getElem?_modify] at h
  cases hold : w.views[j]? with
  | none => rw [hold] at h; simp at h
  | some old =>
    rw [hold] at h
    refine ⟨old, rfl, ?_⟩
    by_cases hj : v = j
    · simpa [hj, eq_comm] using h
    · simpa [hj, Ne.symm hj, eq_comm] using h

theorem Reaches.of_setView {v : ViewRef} {f : View → View}
    (hf : ∀ view, w.views[v]? = some view → w.Tends v view (f view)) {j : ViewRef}
    (h : (w.setView v f).Reaches j) : w.Reaches j ∨ w.IsBlank j := by
  induction h with
  | named h => exact .inl (.named h)
  | @child u view id c _ hview hc ih =>
    obtain ⟨old, hold, rfl⟩ := views_setView hview
    have hmem : (id, c) ∈ old.children ∨ w.IsBlank c := by
      split at hc
      · next he =>
        subst he
        exact ((hf old hold).children _ hc).imp_right fun h => h.2
      · exact .inl hc
    rcases hmem with hmem | hblank
    · rcases ih with ih | ⟨view, hv, -, hb⟩
      · exact .inl (.child ih hold hmem)
      · cases hv.symm.trans hold
        rw [hb] at hmem
        simp at hmem
    · exact .inr hblank

theorem Holding.setView (h : Holding own w) {v : ViewRef} {f : View → View}
    (hf : ∀ view, w.views[v]? = some view → w.Tends v view (f view)) :
    Holding own (w.setView v f) := by
  have hlen : (w.setView v f).views.length = w.views.length := by simp [Workspace.setView]
  refine ⟨h.handles, ?_, ?_, ?_, ?_, h.mapNames, h.stores, h.apart, h.files⟩
  · intro j view hr hview r hmem
    obtain ⟨old, hold, rfl⟩ := views_setView hview
    have hin : r ∈ old.held ∨ w.core.Listed r := by
      split at hmem
      · next he => subst he; exact (hf old hold).held r hmem
      · exact .inl hmem
    rcases hin with hin | hl
    · rcases Reaches.of_setView hf hr with hr | ⟨view, hv, hb, -⟩
      · exact h.rows hr hold r hin
      · cases hv.symm.trans hold
        rw [hb] at hin
        simp at hin
    · exact hl
  · rw [hlen]
    exact h.viewNames
  · intro j view hview e he
    rw [hlen]
    obtain ⟨old, hold, rfl⟩ := views_setView hview
    split at he
    · next hj =>
      subst hj
      rcases (hf old hold).children e he with he | ⟨hlt, view, hv, -⟩
      · exact h.ordered hold e he
      · exact ⟨hlt, (List.getElem?_eq_some_iff.mp hv).1⟩
    · exact h.ordered hold e he
  · intro view hview
    obtain ⟨j, hj⟩ := List.mem_iff_getElem?.mp hview
    obtain ⟨old, hold, rfl⟩ := views_setView hj
    have hmap : (if j = v then f old else old).map = old.map := by
      split
      · next he => subst he; exact (hf old hold).map
      · rfl
    rw [hmap]
    exact h.viewMaps old (List.mem_of_getElem? hold)

/-- A new view, from which nothing is reached and which is not reached. -/
theorem Holding.addView (h : Holding own w) {view : View} (hm : view.map < w.maps.length)
    (hh : view.held = []) (hc : view.children = []) :
    Holding own { w with views := w.views ++ [view] } := by
  have hold : ∀ {j : ViewRef} {x}, (w.views ++ [view])[j]? = some x →
      w.views[j]? = some x ∨ j = w.views.length ∧ x = view := by
    intro j x hx
    rw [List.getElem?_append] at hx
    split at hx
    · exact .inl hx
    · next hj =>
      have hlt := (List.getElem?_eq_some_iff.mp hx).1
      refine .inr ⟨?_, List.mem_singleton.mp (List.mem_of_getElem? hx)⟩
      simp only [List.length_singleton] at hlt
      exact Nat.le_antisymm (by omega) (Nat.le_of_not_lt hj)
  have hreach : ∀ {j}, Reaches { w with views := w.views ++ [view] } j → w.Reaches j := by
    intro j hj
    induction hj with
    | named hj => exact .named hj
    | child _ hview hcmem ih =>
      rcases hold hview with hview | ⟨-, rfl⟩
      · exact .child ih hview hcmem
      · rw [hc] at hcmem
        simp at hcmem
  refine ⟨h.handles, ?_, ?_, ?_, ?_, h.mapNames, h.stores, h.apart, h.files⟩
  · intro j x hr hx r hmem
    rcases hold hx with hx | ⟨-, rfl⟩
    · exact h.rows (hreach hr) hx r hmem
    · rw [hh] at hmem
      simp at hmem
  · intro e he
    rw [List.length_append]
    exact Nat.lt_add_right _ (h.viewNames e he)
  · intro j x hx e he
    rw [List.length_append]
    rcases hold hx with hx | ⟨-, rfl⟩
    · exact ⟨(h.ordered hx e he).1, Nat.lt_add_right _ (h.ordered hx e he).2⟩
    · rw [hc] at he
      simp at he
  · intro x hx
    rcases List.mem_append.mp hx with hx | hx
    · exact h.viewMaps x hx
    · rw [List.mem_singleton.mp hx]
      exact hm

end Workspace

end LiveRecords
