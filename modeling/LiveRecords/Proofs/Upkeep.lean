import LiveRecords.Proofs.Orderly
import LiveRecords.Proofs.Runs

/-!
# Upkeep along runs

When a connection is the only one that writes to its database, and how its
records stay faithful along a run whose actions keep to their part. What is
asked of connections and identity maps is asked of the workspace that the run
ends in, which has all there ever were.
-/

namespace LiveRecords.Workspace

open LiveRecords.Core

/-- No other connection has record types on a database, and the tables of this
one are told apart. -/
structure SoleWriter (w : Workspace) (c : ConnectionRef) (d : DatabaseRef) : Prop where
  connection : (w.connections[c]?).map (·.database) = some d
  only : ∀ map ∈ w.maps,
    (w.connections[map.connection]?).map (·.database) = some d → map.connection = c
  distinct : w.maps.Pairwise fun a b => a.connection = c → b.connection = c →
    sameName a.schema.table b.schema.table = false
  unnumbered : ∀ map ∈ w.maps, map.connection = c → map.schema.Unnumbered

/-- A database has the tables of record types as the types made them, if at all. -/
structure Prepared (w : Workspace) (c : ConnectionRef) (d : Database) : Prop where
  plain : d.Plain
  ready : ∀ map ∈ w.maps, map.connection = c → d.Ready map.schema

theorem prepared_empty (w : Workspace) (c : ConnectionRef) : w.Prepared c {} :=
  ⟨Database.plain_empty, fun map _ _ => Database.ready_empty map.schema⟩

/-- The only record type there is has its connection to itself. -/
theorem soleWriter_of_single {w : Workspace} {c : ConnectionRef} {d : DatabaseRef}
    {n : List String} (hc : (w.connections[c]?).map (·.database) = some d)
    (hm : w.maps.map (fun map => (map.connection, map.schema.columnNames)) = [(c, n)])
    (hn : ∀ name ∈ n, sameName name "rowid" = false) : w.SoleWriter c d := by
  have hmap : ∀ map ∈ w.maps, (map.connection, map.schema.columnNames) = (c, n) :=
    fun map hmem => List.mem_singleton.mp (hm ▸ List.mem_map_of_mem hmem)
  have hlen : w.maps.length = 1 := by
    have hmapped := congrArg List.length hm
    rwa [List.length_map] at hmapped
  refine ⟨hc, fun map hmem _ => congrArg Prod.fst (hmap map hmem), ?_,
    fun map hmem _ name hname => ?_⟩
  · obtain ⟨map, he⟩ := List.length_eq_one_iff.mp hlen
    rw [he]
    exact List.pairwise_singleton _ _
  · have hnames : map.schema.columnNames = n := congrArg Prod.snd (hmap map hmem)
    exact hn name (hnames ▸ hname)

/-- Several record types have a connection to themselves. -/
theorem soleWriter_of_types {w : Workspace} {c : ConnectionRef} {d : DatabaseRef}
    {l : List (ConnectionRef × String × List String)}
    (hc : (w.connections[c]?).map (·.database) = some d)
    (hm : w.maps.map (fun map => (map.connection, map.schema.table, map.schema.columnNames)) = l)
    (hl : ∀ e ∈ l, e.1 = c ∧ ∀ name ∈ e.2.2, sameName name "rowid" = false)
    (hdistinct : l.Pairwise fun a b => sameName a.2.1 b.2.1 = false) : w.SoleWriter c d := by
  subst hm
  have hall : ∀ map ∈ w.maps, map.connection = c ∧ map.schema.Unnumbered :=
    fun map hmem => hl _ (List.mem_map_of_mem hmem)
  refine ⟨hc, fun map hmem _ => (hall map hmem).1, ?_, fun map hmem _ => (hall map hmem).2⟩
  exact (List.pairwise_map.mp hdistinct).imp fun h _ _ => h

/-- What a run is looked at with that ends in a workspace. -/
def outlook (w : Workspace) (c : ConnectionRef) (d : DatabaseRef) (strict : Bool) : Outlook :=
  ⟨w.core, c, d, strict⟩

@[simp] theorem connection_outlook (w : Workspace) (c : ConnectionRef) (d : DatabaseRef)
    (strict : Bool) : (w.outlook c d strict).connection = c := rfl

variable {w w' : Workspace} {c : ConnectionRef} {d : DatabaseRef} {b : Bool} {o : Outlook}
  {apart : RecordRef → Prop} {a : Action} {own : Prop}

theorem mem_maps_of_types {m : MapRef} {s : Schema} (h : (w.outlook c d b).Types w.core m s) :
    ∃ map, w.maps[m]? = some map ∧ map ∈ w.maps ∧ map.connection = c ∧ map.schema = s := by
  obtain ⟨map, hm, hc, hs⟩ := h
  exact ⟨map, hm, List.mem_of_getElem? hm, hc, hs⟩

theorem SoleWriter.sole (h : w.SoleWriter c d) (b : Bool) : (w.outlook c d b).Sole where
  connection := (core_connections w c).trans h.connection
  only {m map} hm hc :=
    h.only map (List.mem_of_getElem? hm) ((core_connections w map.connection).symm.trans hc)
  distinct {m m' s s'} hm hm' hne := by
    obtain ⟨map, hget, -, hc, rfl⟩ := mem_maps_of_types hm
    obtain ⟨map', hget', -, hc', rfl⟩ := mem_maps_of_types hm'
    obtain ⟨hlt, rfl⟩ := List.getElem?_eq_some_iff.mp hget
    obtain ⟨hlt', rfl⟩ := List.getElem?_eq_some_iff.mp hget'
    have hpairs := List.pairwise_iff_getElem.mp h.distinct
    obtain hmm | hmm := Nat.lt_or_gt_of_ne hne
    · exact hpairs m m' hlt hlt' hmm hc hc'
    · rw [sameName_comm]
      exact hpairs m' m hlt' hlt hmm hc' hc
  unnumbered {m s} hm := by
    obtain ⟨map, -, hmem, hc, rfl⟩ := mem_maps_of_types hm
    exact h.unnumbered map hmem hc

/-- Nothing is registered at first. -/
theorem Boots.faithful (hb : Boots w) (hp : w'.Prepared c (w.core.database d)) :
    (w'.outlook c d b).Faithful apart w.core := by
  have hnone : ∀ {m : MapRef} {map}, w.core.maps[m]? ≠ some map := by
    intro m map hm
    rw [hb.core] at hm
    cases hm
  refine ⟨hp.plain, fun hm => ?_, fun ⟨map, hm, _⟩ => absurd hm hnone,
    fun hx => ?_, fun hx => ?_⟩
  · obtain ⟨map, -, hmem, hc, rfl⟩ := mem_maps_of_types hm
    exact hp.ready map hmem hc
  · obtain ⟨map, hm, -⟩ := hx.types
    exact absurd hm hnone
  · obtain ⟨map, hm, -⟩ := hx.types
    exact absurd hm hnone

/-- An action that does orderly deeds, where it does them. -/
structure Action.Upholds (a : Action) (o : Outlook) (apart : RecordRef → Prop) (w : Workspace) :
    Prop where
  sharesHub : a.sharesHub = false
  orderly : ∀ {e : Deed} {k k' : Core}, a.May w e k → Does e k k' → o.Orderly apart e k

theorem perform_precedes (hs : w.core.Sound) (hw : Holding own w) (h : a.Suits own) :
    w.core.Precedes (w.perform a).2.core := by
  obtain ⟨⟨ds, hc⟩, -⟩ := perform_acts hs hw h
  exact Course.precedes hc

theorem performAll_precedes {D : Workspace → Action → Prop}
    (hD : ∀ {w a}, D w a → a.Suits own) {actions : List Action}
    (ha : Follows D w actions) (hs : w.core.Sound) (hw : Holding own w) :
    w.core.Precedes (w.performAll actions).core := by
  induction actions generalizing w with
  | nil => exact .refl _
  | cons a actions ih =>
    have hacts := perform_acts hs hw (hD ha.1)
    exact (perform_precedes hs hw (hD ha.1)).trans (ih ha.2 (hacts.sound hs) hacts.2)

/-- One action keeps the records of a connection faithful. -/
theorem perform_faithful (hs : w.core.Sound) (hw : Holding True w) (ho : o.Sole)
    (hf : o.Faithful apart w.core) (ha : a.Upholds o apart w)
    (hlast : (w.perform a).2.core.Precedes o.last) :
    o.Faithful apart (w.perform a).2.core := by
  obtain ⟨⟨ds, hc⟩, -⟩ := perform_acts hs hw (.of_sharesHub ha.sharesHub)
  have horderly : Course (o.Orderly apart) (ds.map id) w.core (w.perform a).2.core :=
    Chain.map (fun hd => ⟨ha.orderly hd.1 hd.2, hd.2⟩) hc
  exact hf.course ho hs horderly hlast

/-- Runs whose actions all keep to their part keep the records of a connection
faithful, whatever fails on the way. -/
theorem performAll_faithful {D : Workspace → Action → Prop}
    (hD : ∀ {w a}, w.core.Sound → Holding True w → w.core.Precedes o.last → D w a →
      a.Upholds o apart w) (hhub : ∀ {w a}, D w a → a.sharesHub = false)
    {actions : List Action} (ha : Follows D w actions) (hs : w.core.Sound) (hw : Holding True w)
    (ho : o.Sole) (hf : o.Faithful apart w.core)
    (hlast : (w.performAll actions).core.Precedes o.last) :
    o.Faithful apart (w.performAll actions).core := by
  induction actions generalizing w with
  | nil => exact hf
  | cons a actions ih =>
    have hacts := perform_acts hs hw (.of_sharesHub (hhub ha.1))
    have hs' := hacts.sound hs
    have hnext : (w.perform a).2.core.Precedes o.last :=
      (performAll_precedes (fun h => .of_sharesHub (hhub h)) ha.2 hs' hacts.2).trans hlast
    have hfirst := (perform_precedes hs hw (.of_sharesHub (hhub ha.1))).trans hnext
    exact ih ha.2 hs' hacts.2
      (perform_faithful hs hw ho hf (hD hs hw hfirst ha.1) hnext) hlast

end LiveRecords.Workspace
