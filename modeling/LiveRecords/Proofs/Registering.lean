import LiveRecords.Proofs.Bookkeeping

/-!
# Registering record types

A store files its identity maps under the exact names of their tables. So two
registrations in one store lead to one identity map exactly if they name the
table alike, and a name that is known takes no other type. The database does
not tell names apart by the case of letters; such names are two to the store
and one to the database.
-/

namespace LiveRecords

/-- A store has one identity map for each name, which is for a table of that name. -/
structure Store.Filed (store : Store) (w : Workspace) : Prop where
  names : (store.maps.map (·.1)).Nodup
  table : ∀ e ∈ store.maps, ∃ map, w.maps[e.2]? = some map ∧ map.schema.table = e.1

theorem Store.Filed.lookup_unique {store : Store} {w : Workspace} {name name' : String}
    {m : MapRef} (h : store.Filed w) (hm : store.maps.lookup name = some m)
    (hm' : store.maps.lookup name' = some m) : name = name' := by
  obtain ⟨map, hmap, ht⟩ := h.table _ (mem_of_lookup hm)
  obtain ⟨map', hmap', ht'⟩ := h.table _ (mem_of_lookup hm')
  cases hmap.symm.trans hmap'
  exact ht.symm.trans ht'

namespace Workspace

variable {w w' : Workspace} {store store' : Store} {s s' : Schema} {m m' : MapRef}

/-- Types are registered in a store one after another: what each registration
answers, and the store and the workspace after all of them. -/
def registerTypes : List Schema → Store → Workspace →
    List (Except StoreError MapRef) × Store × Workspace
  | [], store, w => ([], store, w)
  | s :: ss, store, w =>
    match w.registerType s store with
    | (.error e, w) =>
      let (answers, after) := registerTypes ss store w
      (.error e :: answers, after)
    | (.ok (m, store), w) =>
      let (answers, after) := registerTypes ss store w
      (.ok m :: answers, after)

/-! ## One registration -/

theorem maps_setLink (w : Workspace) (c : ConnectionRef) (l : Link) :
    (w.setLink c l).maps = w.maps := by
  unfold setLink
  split <;> rfl

/-- An identity map is put after all others, or none is made. -/
theorem maps_addMap (s : Schema) (c : ConnectionRef) (h : HubRef) (w : Workspace) :
    (∃ e, (w.addMap s c h).1 = .error e ∧ (w.addMap s c h).2.maps = w.maps) ∨
      ((w.addMap s c h).1 = .ok w.maps.length ∧
        (w.addMap s c h).2.maps = w.maps ++ [{ schema := s, connection := c, hub := h }]) := by
  have hmaps : (w.through c fun l => l.ensureTable s).2.maps = w.maps := maps_setLink w c _
  unfold addMap
  split
  · next hq =>
    rw [hq] at hmaps
    exact .inl ⟨_, rfl, hmaps⟩
  · next hq =>
    rw [hq] at hmaps
    refine .inr ⟨?_, ?_⟩
    · rw [hmaps]
    · rw [hmaps]

/-- What is filed stays filed. -/
structure Retains (w : Workspace) (store : Store) (w' : Workspace) (store' : Store) : Prop where
  names : ∀ {name : String} {m}, store.maps.lookup name = some m →
    store'.maps.lookup name = some m
  maps : ∀ {m : MapRef} {map}, w.maps[m]? = some map → w'.maps[m]? = some map

theorem Retains.refl (w : Workspace) (store : Store) : Retains w store w store := ⟨id, id⟩

theorem Retains.trans {w₁ w₂ w₃ : Workspace} {s₁ s₂ s₃ : Store} (h₁ : Retains w₁ s₁ w₂ s₂)
    (h₂ : Retains w₂ s₂ w₃ s₃) : Retains w₁ s₁ w₃ s₃ :=
  ⟨fun h => h₂.names (h₁.names h), fun h => h₂.maps (h₁.maps h)⟩

/-- A registration that fails changes neither the store nor the identity maps. -/
theorem registerType_error {e : StoreError} (h : w.registerType s store = (.error e, w')) :
    w'.maps = w.maps := by
  unfold registerType at h
  split at h
  · split at h
    · cases h
    · cases h
      rfl
  · obtain ⟨_, -, hmaps⟩ | ⟨hok, -⟩ := maps_addMap s store.connection store.hub w
    · split at h
      · next hq =>
        cases h
        rw [hq] at hmaps
        exact hmaps
      · cases h
    · split at h
      · next hq =>
        rw [hq] at hok
        cases hok
      · cases h

/-- After a registration the name is filed, with an identity map of the type. -/
theorem registerType_ok (hf : store.Filed w) (h : w.registerType s store = (.ok (m, store'), w')) :
    store'.Filed w' ∧ Retains w store w' store' ∧ store'.maps.lookup s.table = some m ∧
      (w'.maps[m]?).map (·.schema) = some s := by
  unfold registerType at h
  split at h
  · next known hknown =>
    split at h
    · next hschema =>
      cases h
      exact ⟨hf, .refl _ _, hknown, hschema⟩
    · cases h
  · next hnone =>
    obtain ⟨_, herr, -⟩ | ⟨hok, hmaps⟩ := maps_addMap s store.connection store.hub w
    · split at h
      · cases h
      · next hq =>
        rw [hq] at herr
        cases herr
    split at h
    · cases h
    next w₁ hq =>
    rw [hq] at hok hmaps
    cases hok
    cases h
    have hold : ∀ {m : MapRef} {map}, w.maps[m]? = some map → w₁.maps[m]? = some map := by
      intro m map hm
      rw [hmaps, List.getElem?_append_left (List.getElem?_eq_some_iff.mp hm).1, hm]
    have hself : w₁.maps[w.maps.length]? =
        some { schema := s, connection := store.connection, hub := store.hub } := by
      rw [hmaps]
      exact List.getElem?_concat_length
    refine ⟨⟨?_, fun e he => ?_⟩, ⟨fun {name m} hm => ?_, hold⟩, ?_, ?_⟩
    · rw [List.map_append, List.nodup_append]
      refine ⟨hf.names, by simp, fun a ha b hb => ?_⟩
      obtain ⟨e, he, rfl⟩ := List.mem_map.mp ha
      rw [List.mem_singleton.mp hb]
      have hne := List.lookup_eq_none_iff.mp hnone e he
      rintro heq
      simp [heq] at hne
    · rcases List.mem_append.mp he with he | he
      · obtain ⟨map, hm, ht⟩ := hf.table e he
        exact ⟨map, hold hm, ht⟩
      · rw [List.mem_singleton.mp he]
        exact ⟨_, hself, rfl⟩
    · rw [List.lookup_append, hm]
      rfl
    · rw [List.lookup_append, hnone]
      simp
    · show (w₁.maps[w.maps.length]?).map (·.schema) = some s
      rw [hself]
      rfl

/-- A name that is known takes no other type, and nothing changes. -/
theorem registerType_conflict {known : Schema} (hm : store.maps.lookup s.table = some m)
    (hk : (w.maps[m]?).map (·.schema) = some known) (hne : known ≠ s) :
    w.registerType s store = (.error (.invalidInput .schemaConflict), w) := by
  unfold registerType
  rw [hm]
  dsimp only
  rw [hk, if_neg fun h => hne (Option.some.inj h)]

/-! ## Many registrations -/

theorem registerTypes_retains (ss : List Schema) (hf : store.Filed w) :
    (registerTypes ss store w).2.1.Filed (registerTypes ss store w).2.2 ∧
      Retains w store (registerTypes ss store w).2.2 (registerTypes ss store w).2.1 := by
  induction ss generalizing store w with
  | nil => exact ⟨hf, .refl w store⟩
  | cons s ss ih =>
    unfold registerTypes
    split
    · next w₁ hq =>
      have hmaps := registerType_error hq
      have hf₁ : store.Filed w₁ := ⟨hf.names, fun e he => hmaps ▸ hf.table e he⟩
      obtain ⟨hfiled, hretains⟩ := ih hf₁
      exact ⟨hfiled, hretains.names, fun hm => hretains.maps (hmaps ▸ hm)⟩
    · next hq =>
      obtain ⟨hf₁, hkeep, -, -⟩ := registerType_ok hf hq
      obtain ⟨hfiled, hretains⟩ := ih hf₁
      exact ⟨hfiled, hkeep.trans hretains⟩

/-- Whatever was registered is filed in the end. -/
theorem registerTypes_files (ss : List Schema) (hf : store.Filed w) {i : Nat}
    (hs : ss[i]? = some s) (hm : (registerTypes ss store w).1[i]? = some (.ok m)) :
    (registerTypes ss store w).2.1.maps.lookup s.table = some m ∧
      ((registerTypes ss store w).2.2.maps[m]?).map (·.schema) = some s := by
  induction ss generalizing store w i with
  | nil => cases hs
  | cons s₀ ss ih =>
    unfold registerTypes at hm ⊢
    split at hm
    · next w₁ hq =>
      have hmaps := registerType_error hq
      have hf₁ : store.Filed w₁ := ⟨hf.names, fun e he => hmaps ▸ hf.table e he⟩
      cases i with
      | zero =>
        rw [List.getElem?_cons_zero] at hm
        cases hm
      | succ i => exact ih hf₁ (by simpa using hs) (by simpa using hm)
    · next hq =>
      obtain ⟨hf₁, -, hlook, hschema⟩ := registerType_ok hf hq
      cases i with
      | zero =>
        rw [List.getElem?_cons_zero] at hs hm
        cases hs
        cases hm
        have hretains := (registerTypes_retains ss hf₁).2
        refine ⟨hretains.names hlook, ?_⟩
        obtain ⟨map, hmap, rfl⟩ := Option.map_eq_some_iff.mp hschema
        exact Option.map_eq_some_iff.mpr ⟨map, hretains.maps hmap, rfl⟩
      | succ i => exact ih hf₁ (by simpa using hs) (by simpa using hm)

/-- Among the registrations in a store, two that succeed lead to one identity
map exactly if they give the table the same name; and another type under a name
that was given is refused then, and changes nothing. -/
theorem registerTypes_same_iff (ss : List Schema) (hf : store.Filed w) {i j : Nat}
    (hs : ss[i]? = some s) (hs' : ss[j]? = some s')
    (hm : (registerTypes ss store w).1[i]? = some (.ok m))
    (hm' : (registerTypes ss store w).1[j]? = some (.ok m')) :
    (m = m' ↔ s.table = s'.table) ∧
      ∀ other : Schema, other.table = s.table → other ≠ s →
        (registerTypes ss store w).2.2.registerType other (registerTypes ss store w).2.1 =
          (.error (.invalidInput .schemaConflict), (registerTypes ss store w).2.2) := by
  obtain ⟨hfiled, -⟩ := registerTypes_retains ss hf
  obtain ⟨hlook, hschema⟩ := registerTypes_files ss hf hs hm
  obtain ⟨hlook', -⟩ := registerTypes_files ss hf hs' hm'
  refine ⟨⟨?_, fun ht => ?_⟩, fun other ht hne => ?_⟩
  · rintro rfl
    exact hfiled.lookup_unique hlook hlook'
  · rw [ht, hlook'] at hlook
    exact (Option.some.inj hlook).symm
  · exact registerType_conflict (ht ▸ hlook) hschema fun he => hne he.symm

/-- A store that was just opened. -/
theorem filed_nil (h : store.maps = []) : store.Filed w :=
  ⟨by rw [h]; exact .nil, by simp [h]⟩

/-- Two types of one table, as the database sees it. -/
def twoSpellings : List Schema :=
  [{ table := "Note", fields := [⟨"title", .text, true⟩], parentColumn := none },
    { table := "NOTE", fields := [⟨"count", .integer, true⟩], parentColumn := none }]

/-- A store that was just opened, and the workspace it was opened in. -/
def opened : Store × Workspace :=
  ({ settings := .inMemory, connection := 0, hub := 0 },
    performAll {} [.openStore "store" .inMemory])

/-- Both are registered, each with an identity map of its own. -/
theorem registerTypes_twoSpellings : opened.2.stores = [("store", opened.1)] ∧
    (∀ s ∈ twoSpellings, ∃ d : Draft, d.build = .ok s) ∧ sameName "Note" "NOTE" = true ∧
    (registerTypes twoSpellings opened.1 opened.2).1.map Except.toOption = [some 0, some 1] := by
  refine ⟨rfl, fun s hs => ?_, by decide, by rfl⟩
  rcases List.mem_cons.mp hs with rfl | hs
  · exact ⟨{ table := "Note", fields := [⟨"title", .text, true⟩] }, rfl⟩
  · rw [List.mem_singleton.mp hs]
    exact ⟨{ table := "NOTE", fields := [⟨"count", .integer, true⟩] }, rfl⟩

/-- They are two because their names are. -/
theorem same_iff_twoSpellings : opened.1.Filed opened.2 ∧
    (0 = 1 ↔ "Note" = "NOTE") ∧
      ∀ other : Schema, other.table = "Note" → other ≠ twoSpellings[0] →
        (registerTypes twoSpellings opened.1 opened.2).2.2.registerType other
            (registerTypes twoSpellings opened.1 opened.2).2.1 =
          (.error (.invalidInput .schemaConflict),
            (registerTypes twoSpellings opened.1 opened.2).2.2) :=
  ⟨filed_nil rfl, registerTypes_same_iff twoSpellings (filed_nil rfl) (i := 0) (j := 1)
    rfl rfl (by rfl) (by rfl)⟩

end Workspace

end LiveRecords
