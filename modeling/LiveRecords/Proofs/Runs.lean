import LiveRecords.Proofs.Actions

/-!
# Runs

A program starts with nothing in memory, whatever there is on disk. What every
action preserves, every run preserves; which actions a program takes may depend
on the state it takes them in.
-/

namespace LiveRecords.Workspace

/-- Nothing is in memory yet. -/
structure Boots (w : Workspace) : Prop where
  connections : w.connections = []
  hubs : w.hubs = []
  records : w.records = []
  maps : w.maps = []
  views : w.views = []
  stores : w.stores = []
  handles : w.handles = []
  mapNames : w.mapNames = []
  viewNames : w.viewNames = []
  /-- Every file on disk holds a database. -/
  files : ∀ e ∈ w.volumes.files, e.2 < w.databases.length

theorem boots_empty : Boots {} :=
  ⟨rfl, rfl, rfl, rfl, rfl, rfl, rfl, rfl, rfl, by simp⟩

variable {w : Workspace}

theorem Boots.core (hb : Boots w) : w.core = ⟨w.databases, [], [], [], []⟩ := by
  simp [Workspace.core, hb.connections, hb.hubs, hb.records, hb.maps]

theorem Boots.sound (hb : Boots w) : w.core.Sound := by
  rw [hb.core]
  exact Core.sound_empty.of_databases (Nat.zero_le _)

theorem Boots.holding {own : Prop} (hb : Boots w) : Holding own w where
  handles := by simp [hb.handles]
  rows {v view} _ hview := by simp [hb.views] at hview
  viewNames := by simp [hb.viewNames]
  ordered := by
    intro v view hview
    simp [hb.views] at hview
  viewMaps := by simp [hb.views]
  mapNames := by simp [hb.mapNames]
  stores := by simp [hb.stores]
  apart := by simp [hb.stores]
  files := hb.files

/-! ## Keys -/

theorem lists_of_registered {m : MapRef} {id : RecordId} {r : RecordRef}
    (h : w.registered? m id = some r) : w.core.Lists m id r := by
  obtain ⟨map, hm, hlook⟩ := Option.bind_eq_some_iff.mp h
  exact ⟨map, hm, mem_of_lookup hlook⟩

theorem registered_of_lists (hs : w.core.Sound) {m : MapRef} {id : RecordId} {r : RecordRef}
    (h : w.core.Lists m id r) : w.registered? m id = some r := by
  obtain ⟨map, hm, hmem⟩ := h
  exact Option.bind_eq_some_iff.mpr ⟨map, hm, hs.lookup hm hmem⟩

/-! ## Runs -/

/-- Each action of a run is one that the program may take where it takes it. -/
def Follows (D : Workspace → Action → Prop) : Workspace → List Action → Prop
  | _, [] => True
  | w, a :: actions => D w a ∧ Follows D (w.perform a).2 actions

theorem Follows.preserves {D : Workspace → Action → Prop} {P : Workspace → Prop}
    (hP : ∀ {w a}, D w a → P w → P (w.perform a).2) {actions : List Action}
    (h : Follows D w actions) (hw : P w) : P (w.performAll actions) := by
  induction actions generalizing w with
  | nil => exact hw
  | cons a actions ih => exact ih h.2 (hP h.1 hw)

theorem follows_of_forall {p : Action → Prop} {actions : List Action} (h : ∀ a ∈ actions, p a) :
    Follows (fun _ a => p a) w actions := by
  induction actions generalizing w with
  | nil => trivial
  | cons a actions ih => exact ⟨h a (by simp), ih fun b hb => h b (by simp [hb])⟩

theorem Follows.mono {D D' : Workspace → Action → Prop} (hD : ∀ {w a}, D w a → D' w a)
    {actions : List Action} (h : Follows D w actions) : Follows D' w actions := by
  induction actions generalizing w with
  | nil => trivial
  | cons a actions ih => exact ⟨hD h.1, ih h.2⟩

theorem Follows.and {D D' : Workspace → Action → Prop} {actions : List Action}
    (h : Follows D w actions) (h' : Follows D' w actions) :
    Follows (fun w a => D w a ∧ D' w a) w actions := by
  induction actions generalizing w with
  | nil => trivial
  | cons a actions ih => exact ⟨⟨h.1, h'.1⟩, ih h.2 h'.2⟩

theorem follows_append {D : Workspace → Action → Prop} {as bs : List Action} :
    Follows D w (as ++ bs) ↔ Follows D w as ∧ Follows D (w.performAll as) bs := by
  induction as generalizing w with
  | nil => exact ⟨fun h => ⟨trivial, h⟩, fun h => h.2⟩
  | cons a as ih =>
    exact ⟨fun h => ⟨⟨h.1, (ih.mp h.2).1⟩, (ih.mp h.2).2⟩, fun h => ⟨h.1.1, ih.mpr ⟨h.1.2, h.2⟩⟩⟩

theorem Follows.take {D : Workspace → Action → Prop} {actions : List Action}
    (h : Follows D w actions) (n : Nat) : Follows D w (actions.take n) := by
  rw [← List.take_append_drop n actions] at h
  exact (follows_append.mp h).1

/-- The invariants of the core and of what is around it hold along every run. -/
theorem Follows.good {own : Prop} {D : Workspace → Action → Prop}
    (hD : ∀ {w a}, D w a → a.Suits own) {actions : List Action} (ha : Follows D w actions)
    (hs : w.core.Sound) (hw : Holding own w) :
    (w.performAll actions).core.Sound ∧ Holding own (w.performAll actions) := by
  refine ha.preserves (P := fun w => w.core.Sound ∧ Holding own w) ?_ ⟨hs, hw⟩
  intro w a hd hgood
  have hacts := perform_acts hgood.1 hgood.2 (hD hd)
  exact ⟨hacts.sound hgood.1, hacts.2⟩

/-- Identity maps may work with the coordinators of stores where no store steps
through its tracks. -/
theorem suits_of_run {actions : List Action}
    (h : (∀ a ∈ actions, a.sharesHub = false) ∨ ∀ a ∈ actions, a.steps = false) :
    ∀ a ∈ actions, a.Suits (∀ a ∈ actions, a.sharesHub = false) := by
  refine fun a ha => ⟨fun ho => ho a ha, fun hst => ?_⟩
  obtain ho | hn := h
  · exact ho
  · rw [hn a ha] at hst
    cases hst

theorem Boots.good (hb : Boots w) {actions : List Action}
    (h : (∀ a ∈ actions, a.sharesHub = false) ∨ ∀ a ∈ actions, a.steps = false) :
    (w.performAll actions).core.Sound ∧
      Holding (∀ a ∈ actions, a.sharesHub = false) (w.performAll actions) :=
  (follows_of_forall (suits_of_run h)).good id hb.sound hb.holding

end LiveRecords.Workspace
