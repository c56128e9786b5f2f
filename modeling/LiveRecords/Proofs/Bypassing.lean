import LiveRecords.Proofs.Pervading

/-!
# What leaves views alone

Whatever records, stores and statements are used for, views do not hear of it: no
view changes, nothing is told to those who listen to one, records keep their keys
and stay registered. This holds in every state, also where the coordinator of a
store is asked to step through records that it does not know.
-/

namespace LiveRecords

/-- What a report tells those who listen to a view under a name. -/
def Heard.news? (name : String) : Heard → Option ViewEvent
  | .view n e => if n = name then some e else none
  | _ => none

namespace Workspace

variable {w w' w'' : Workspace}

/-- What was told of views under a name. -/
def news (name : String) (w : Workspace) : List ViewEvent := w.heard.filterMap (Heard.news? name)

/-- Every registered record has the key that it is registered under. -/
def Labelled (w : Workspace) : Prop :=
  ∀ map ∈ w.maps, ∀ e ∈ map.registered, w.keyOf e.2 = some e.1

/-- No view changed or was heard of; records are still there under their keys. -/
structure Bypasses (w w' : Workspace) : Prop where
  views : w'.views = w.views
  viewNames : w'.viewNames = w.viewNames
  news : ∀ name, w'.news name = w.news name
  keys : ∀ {r id}, w.keyOf r = some id → w'.keyOf r = some id
  registered : ∀ {m id r}, w.registered? m id = some r → w'.registered? m id = some r
  labelled : w.Labelled → w'.Labelled

/-- An action that looks at a view, opens one or listens to one. -/
def Action.watches : Action → Bool
  | .subscribe (.view _) _ | .unsubscribe (.view _) _ | .openView .. | .fetchMore _ | .prefetch ..
  | .reset _ | .row .. | .data .. | .column .. | .setData .. | .childView .. | .createStaging ..
  | .commitStaging .. | .discardStaging .. => true
  | _ => false

/-- An action that gives up a view, or lets records go that nobody holds. -/
def Action.releases : Action → Bool
  | .dropView _ | .release .. | .sweep _ => true
  | _ => false

/-! ## Parts -/

theorem registered?_setMap {m j : MapRef} {f : IdentityMap → IdentityMap} {id : RecordId} :
    (w.setMap m f).registered? j id =
      (w.maps[j]?).bind fun map => (if j = m then f map else map).registered.lookup id := by
  rw [registered?, setMap, List.getElem?_modify]
  cases w.maps[j]? with
  | none => rfl
  | some map => by_cases hj : m = j <;> simp [hj, Ne.symm]

theorem lookup_filter {es : List (RecordId × RecordRef)} {p : RecordId × RecordRef → Bool}
    {id : RecordId} {r : RecordRef} (h : es.lookup id = some r) (hp : p (id, r) = true) :
    (es.filter p).lookup id = some r := by
  induction es with
  | nil => cases h
  | cons e es ih =>
    by_cases he : id = e.1
    · subst he
      rw [List.lookup_cons_self] at h
      cases h
      rw [List.filter_cons_of_pos hp, List.lookup_cons_self]
    · rw [List.lookup_cons, beq_false_of_ne he] at h
      rw [List.filter_cons]
      split
      · rw [List.lookup_cons, beq_false_of_ne he]
        exact ih h
      · exact ih h

/-- A record that is not taken out stays registered. -/
theorem registered?_unregister_of_some {m m' : MapRef} {rs : List RecordRef} {id : RecordId}
    {r : RecordRef} (h : w.registered? m' id = some r) (hr : r ∉ rs) :
    (w.unregister m rs).registered? m' id = some r := by
  obtain ⟨map, hmap, hlook⟩ := Option.bind_eq_some_iff.mp h
  rw [unregister, registered?_setMap, hmap, Option.bind_some]
  split
  · exact lookup_filter hlook (by simpa using hr)
  · exact hlook

theorem Labelled.unregister (h : w.Labelled) (m : MapRef) (rs : List RecordRef) :
    (w.unregister m rs).Labelled := by
  intro map hmap e he
  obtain ⟨j, hj⟩ := List.mem_iff_getElem?.mp hmap
  obtain ⟨old, hold, rfl⟩ := maps_setMap hj
  have hmem : e ∈ old.registered := by
    split at he
    · exact (List.mem_filter.mp he).1
    · exact he
  exact h old (List.mem_of_getElem? hold) e hmem

namespace Bypasses

theorem refl (w : Workspace) : Bypasses w w := ⟨rfl, rfl, fun _ => rfl, id, id, id⟩

theorem trans (h : Bypasses w w') (h' : Bypasses w' w'') : Bypasses w w'' where
  views := h'.views.trans h.views
  viewNames := h'.viewNames.trans h.viewNames
  news name := (h'.news name).trans (h.news name)
  keys hr := h'.keys (h.keys hr)
  registered hr := h'.registered (h.registered hr)
  labelled hw := h'.labelled (h.labelled hw)

/-- A change that no identity map sees. -/
theorem of_maps (hviews : w'.views = w.views) (hnames : w'.viewNames = w.viewNames)
    (hheard : w'.heard = w.heard) (hmaps : w'.maps = w.maps)
    (hkeys : ∀ {r id}, w.keyOf r = some id → w'.keyOf r = some id) : Bypasses w w' where
  views := hviews
  viewNames := hnames
  news name := by rw [Workspace.news, Workspace.news, hheard]
  keys := hkeys
  registered hr := by rwa [registered?, hmaps]
  labelled hw := by
    rw [Labelled, hmaps]
    exact fun map hmap e he => hkeys (hw map hmap e he)

/-- A change of what neither views nor records are about. -/
theorem of_same (hviews : w'.views = w.views) (hnames : w'.viewNames = w.viewNames)
    (hheard : w'.heard = w.heard) (hmaps : w'.maps = w.maps) (hrecords : w'.records = w.records) :
    Bypasses w w' :=
  .of_maps hviews hnames hheard hmaps fun hr => by rwa [keyOf, hrecords]

/-! ## Reports -/

theorem write (w : Workspace) {h : Heard} (hh : ∀ name, h.news? name = none) :
    Bypasses w (w.write h) where
  views := rfl
  viewNames := rfl
  news name := by simp [Workspace.news, Workspace.write, hh name]
  keys := id
  registered := id
  labelled := id

/-- A change of a record that leaves its key. -/
theorem setRecord (w : Workspace) (r : RecordRef) {f : Instance → Instance}
    (hf : ∀ i, w.records[r]? = some i → (f i).record.id = i.record.id) :
    Bypasses w (w.setRecord r f) := by
  refine .of_maps rfl rfl rfl rfl fun {j id} hj => ?_
  rw [keyOf, Workspace.setRecord, List.getElem?_modify]
  obtain ⟨i, hi, rfl⟩ := Option.map_eq_some_iff.mp hj
  rw [hi]
  by_cases hrj : r = j
  · subst hrj
    simpa using hf i hi
  · simp [hrj]

/-- A new record is registered under its key, behind all others. -/
theorem enrol (w : Workspace) (m : MapRef) (i : Instance) :
    Bypasses w ({ w with records := w.records ++ [i] }.setMap m fun map =>
      { map with registered := map.registered ++ [(i.record.id, w.records.length)] }) := by
  have hkeys : ∀ {r key}, w.keyOf r = some key →
      ((w.records ++ [i])[r]?).map (·.record.id) = some key := by
    intro r key hr
    obtain ⟨x, hx, -⟩ := Option.map_eq_some_iff.mp hr
    rw [List.getElem?_append_left (List.getElem?_eq_some_iff.mp hx).1]
    exact hr
  refine ⟨rfl, rfl, fun _ => rfl, hkeys, fun {j key r} hr => ?_, fun hw map' hmap' e he => ?_⟩
  · obtain ⟨old, hold, hlook⟩ := Option.bind_eq_some_iff.mp hr
    rw [registered?_setMap, hold, Option.bind_some]
    split
    · rw [List.lookup_append, hlook, Option.some_or]
    · exact hlook
  · obtain ⟨j, hj⟩ := List.mem_iff_getElem?.mp hmap'
    obtain ⟨old, hold, rfl⟩ := maps_setMap hj
    have hmem := hw old (List.mem_of_getElem? hold)
    split at he
    · rcases List.mem_append.mp he with he | he
      · exact hkeys (hmem e he)
      · rw [List.mem_singleton.mp he]
        simp [keyOf, setMap]
    · exact hkeys (hmem e he)

/-- A new identity map comes in, in which nothing is registered. -/
theorem addMap (w : Workspace) {map : IdentityMap} (hnone : map.registered = []) :
    Bypasses w { w with maps := w.maps ++ [map] } := by
  refine ⟨rfl, rfl, fun _ => rfl, id, fun {m id r} hr => ?_, fun hw map' hmap' => ?_⟩
  · obtain ⟨old, hold, hlook⟩ := Option.bind_eq_some_iff.mp hr
    refine Option.bind_eq_some_iff.mpr ⟨old, ?_, hlook⟩
    rw [List.getElem?_append_left (List.getElem?_eq_some_iff.mp hold).1]
    exact hold
  · rcases List.mem_append.mp hmap' with hmap' | hmap'
    · exact hw map' hmap'
    · rw [List.mem_singleton.mp hmap', hnone]
      exact fun _ he => nomatch he

end Bypasses

/-- Views pass by all that is done with records and stores. -/
theorem pervades_bypasses : Pervades Bypasses where
  refl := .refl
  trans := .trans
  write w h hne := .write w fun name => by
    cases h with
    | view l e => exact absurd rfl (hne l e)
    | record | reacted | coordinator => rfl
  setRecord w r f := .setRecord w r
  enrol := .enrol
  addMap w map := .addMap w
  beside hh hv hn hm _ _ hr := .of_same hv hn hh hm hr

/-! ## Actions -/

theorem bypasses_registerUnder (store as : String) (d : Draft) (s : Store) (w : Workspace) :
    Bypasses w (registerUnder store as d s w).2 := by
  unfold registerUnder
  split
  · exact .refl w
  · next schema _ =>
    have htype := pervades_bypasses.registerType schema s w
    split
    · next hq => rw [hq] at htype; exact htype
    · next hq => rw [hq] at htype; exact htype.trans (.of_same rfl rfl rfl rfl rfl)

/-- An action that neither looks at views nor lets anything go leaves views alone. -/
theorem bypasses_perform {a : Action} (h : a.watches = false) (hr : a.releases = false)
    (w : Workspace) : Bypasses w (w.perform a).2 := by
  cases hdeals : a.deals with
  | true => exact pervades_bypasses.perform hdeals w
  | false =>
  cases a with
  | openStore name s =>
    have hopen := (pervades_bypasses.openStore s w).1
    rw [perform]
    split
    · next hq => rw [hq] at hopen; exact hopen
    · next hq => rw [hq] at hopen; exact hopen.trans (.of_same rfl rfl rfl rfl rfl)
  | closeStore name => exact .of_same rfl rfl rfl rfl rfl
  | registerType store d as =>
    exact withStore_preserves (.refl w) fun s _ => bypasses_registerUnder store as d s w
  | openMap d store as =>
    exact pervades_bypasses.openMap d store fun h _ => h.trans (.of_same rfl rfl rfl rfl rfl)
  | subscribe s l =>
    cases s with
    | view name => cases h
    | _ => cases hdeals
  | unsubscribe s as =>
    cases s with
    | view name => cases h
    | _ => cases hdeals
  | release map record => cases hr
  | sweep map => cases hr
  | dropView view => cases hr
  | openView | fetchMore | prefetch | reset | row | data | column | setData | childView
  | createStaging | commitStaging | discardStaging => cases h
  | _ => cases hdeals

end Workspace

end LiveRecords
