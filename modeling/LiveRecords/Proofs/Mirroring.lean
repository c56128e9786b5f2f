import LiveRecords.Proofs.Bookkeeping
import LiveRecords.Proofs.Upkeep

/-!
# Memory and store

In a program that keeps to its part, memory and store stay aligned whatever
fails: a record that is registered on a connection of its own is new as long as
no row is stored under its key, and afterwards its baselines and its parent are
what the row holds. So a field without an edit reads what is stored.
-/

namespace LiveRecords

/-- A record and the row under its key in the table of its type agree. -/
structure Record.Reflects (x : Record) (t : Table) : Prop where
  fields : x.slots.map (·.field) = x.schema.fields
  new : x.isNew = true → t.row? x.id = none
  stored : x.isNew = false → ∃ row, t.row? x.id = some row ∧
    (∀ u ∈ x.slots, t.cell row u.name = Table.Cell.ofValue u.baseline) ∧
    (∀ p, x.schema.parentColumn = some p → t.cell row p = Table.Cell.ofValue (.ofId? x.parent)) ∧
    ∀ field v, x.get field = .ok v → x.isFieldDirty field = .ok false →
      t.cell row field = Table.Cell.ofValue v

theorem Record.Aligned.reflects {x : Record} {s : Schema} {es : List Shelved} (hx : x.Intact)
    (hs : x.schema = s) (hes : Shelf s es) (ha : x.Aligned true (stored? es x.id)) :
    x.Reflects (tableOf s es) where
  fields := hx.fields
  new hnew := by
    have hnone : stored? es x.id = none := ha.absent rfl hnew
    rw [row?_tableOf, Option.map_eq_none_iff.mp hnone]
    rfl
  stored hnew := by
    subst hs
    obtain ⟨y, hy, hagree⟩ := ha.stored hnew
    have hparent := ha.parent rfl y hy
    obtain ⟨e, he, rfl⟩ := Option.map_eq_some_iff.mp hy
    have hmem := (mem_of_shelved? he).1
    have hn : x.schema.Named := hes.named (List.ne_nil_of_mem hmem)
    have hbase : ∀ u ∈ x.slots,
        (tableOf x.schema es).cell (e.row x.schema) u.name = Table.Cell.ofValue u.baseline := by
      intro u hu
      obtain ⟨i, hi⟩ := List.mem_iff_getElem?.mp hu
      have hfield := hx.getElem?_slots hi
      have hval := hagree u hu
      rw [Record.value?_of_slot hx hfield] at hval
      exact cell_field hx.proper hn hfield hval
    refine ⟨e.row x.schema, ?_, hbase, fun p hp => ?_, fun field v hv hclean => ?_⟩
    · rw [row?_tableOf, he]
      rfl
    · rw [cell_parent hx.proper hn hp, hparent (by simp [hp])]
    · obtain ⟨u, hu, rfl⟩ := map_eq_ok.mp hv
      obtain ⟨u', hu', hdirty⟩ := map_eq_ok.mp hclean
      rw [hu] at hu'
      cases hu'
      obtain ⟨hmem, rfl⟩ := Record.mem_of_slotOf hu
      rw [(hx.slots u hmem).current_eq hdirty]
      exact hbase u hmem

namespace Workspace

open LiveRecords.Core

/-- No record is registered under a key, and no row is stored. -/
def Unused (w : Workspace) (m : MapRef) (id : RecordId) : Prop :=
  w.registered? m id = none ∧ ∀ map, w.maps[m]? = some map →
    ∀ t, (w.databaseOf map.connection).table? map.schema.table = some t → t.row? id = none

/-- An identity map is on a connection. -/
def IsOn (w : Workspace) (m : MapRef) (c : ConnectionRef) : Prop :=
  ∃ map, w.maps[m]? = some map ∧ map.connection = c

/-- What an action with the records of a connection must be given: a key that is
registered, or for a new record one that is unused, and children that are
registered in the identity map they are given to. -/
def Action.IsGiven (w : Workspace) (c : ConnectionRef) : Action → Prop
  | .withId map id _ => ∀ m, w.mapNames.lookup map = some m → w.IsOn m c →
      w.registered? m id ≠ none
  | .newRecord map id _ => ∀ m, w.mapNames.lookup map = some m → w.IsOn m c → w.Unused m id
  | .createStaging view id _ => ∀ v x, w.viewNames.lookup view = some v → w.views[v]? = some x →
      w.IsOn x.map c → w.Unused x.map id
  | .addChild map _ child | .removeChild map child => ∀ m r i, w.mapNames.lookup map = some m →
      w.handle? child = some r → w.records[r]? = some i → w.IsOn m c ∨ i.connection = c →
      ∃ id, w.registered? m id = some r
  | _ => True

/-- An action keeps to its part: no identity map gets a coordinator that is not
its own, the database is not changed past the records, and the action is given
what it should be. -/
structure Action.Tidy (c : ConnectionRef) (d : DatabaseRef) (w : Workspace) (a : Action) :
    Prop where
  sharesHub : a.sharesHub = false
  overwrites : ¬a.Overwrites w d
  given : a.IsGiven w c

variable {w W : Workspace} {c : ConnectionRef} {d : DatabaseRef} {a : Action} {m : MapRef}
  {s : Schema} {id : RecordId} {r : RecordRef}

theorem isOn_of_types {o : Outlook} (h : o.Types w.core m s) : w.IsOn m o.connection := by
  obtain ⟨map, hm, hc, -⟩ := h
  exact ⟨map, hm, hc⟩

/-- Nothing is read under an unused key. -/
theorem Unused.image? {o : Outlook} (h : w.Unused m id) (ho : o.Sole) (hs : w.core.Sound)
    (hk : w.core.Precedes o.last) (ht : o.Types w.core m s) :
    (w.core.database o.database).image? s id = none := by
  have hconn := (ht.connection ho hs hk).1
  obtain ⟨map, hm, hc, rfl⟩ := ht
  have hrow := h.2 map hm
  rw [← core_databaseOf, hc, databaseOf_eq hconn] at hrow
  unfold Database.image?
  cases htable : (w.core.database o.database).table? map.schema.table with
  | none => rfl
  | some t => rw [Option.bind_some, hrow t htable, Option.bind_none]

/-- The record that a new key meets is new. -/
theorem Unused.meets {o : Outlook} (h : w.IsOn m o.connection → w.Unused m id)
    (hs : w.core.Sound) {k : Core} (hd : Meets m id true r w.core k) {x : Resident}
    (hx : k.records[r]? = some x) (hc : x.connection = o.connection) : x.record.isNew = true := by
  obtain ⟨map, hm, ⟨hid, rfl⟩ | ⟨-, rfl, rfl⟩⟩ := hd
  · obtain ⟨y, hy, hof⟩ := hs.kept hm (mem_of_lookup hid)
    rw [hx] at hy
    cases hy
    have hunused := (h ⟨map, hm, hof.connection.symm.trans hc⟩).1
    have hreg : w.registered? m id = some r := Option.bind_eq_some_iff.mpr ⟨map, hm, hid⟩
    rw [hunused] at hreg
    cases hreg
  · rw [records_enrol_self] at hx
    cases hx
    rfl

/-- A child is registered where it is adopted. -/
theorem orderly_adopt {o : Outlook}
    (h : ∀ i, w.records[r]? = some i → w.IsOn m o.connection ∨ i.connection = o.connection →
      ∃ id, w.registered? m id = some r) (p : Option RecordId) :
    o.Orderly (fun _ => False) (.adopt m r p) w.core := by
  intro _ map x hm hx hc
  rw [core_records, Option.map_eq_some_iff] at hx
  obtain ⟨i, hi, rfl⟩ := hx
  obtain ⟨id, hid⟩ := h i hi (hc.imp_left fun hc => ⟨map, hm, hc⟩)
  obtain ⟨map', hm', hlook⟩ := Option.bind_eq_some_iff.mp hid
  exact ⟨id, map', hm', mem_of_lookup hlook⟩

/-- A tidy action does orderly deeds. -/
theorem Action.Tidy.upholds {o : Outlook} (h : a.Tidy o.connection o.database w) (ho : o.Sole)
    (hs : w.core.Sound) (hk : w.core.Precedes o.last) : a.Upholds o (fun _ => False) w := by
  refine ⟨h.sharesHub, fun {e k k'} hmay hdoes => ?_⟩
  have hgiven := h.given
  cases hmay with
  | read _ => trivial
  | ground => trivial
  | addMap => trivial
  | free => trivial
  | command _ => trivial
  | foreign hover =>
    rintro rfl
    exact h.overwrites hover
  | withId hm =>
    obtain ⟨map, hmap, hid, -⟩ := hdoes
    intro s ht
    refine absurd ?_ (hgiven _ hm (isOn_of_types ht))
    exact Option.bind_eq_none_iff.mpr fun map' hmap' => by
      rw [show w.maps[_]? = some map from hmap] at hmap'
      cases hmap'
      exact hid
  | newRecord hm =>
    intro s ht
    exact ⟨(fun he => by cases he), fun _ _ =>
      (hgiven _ hm (isOn_of_types ht)).image? ho hs hk ht⟩
  | stage hv hx =>
    intro s ht
    exact ⟨(fun he => by cases he), fun _ _ =>
      (hgiven _ _ hv hx (isOn_of_types ht)).image? ho hs hk ht⟩
  | place hv hx hmeets =>
    intro _ y hy hc
    exact Unused.meets (fun hon => hgiven _ _ hv hx hon) hs hmeets hy hc
  | addChild hm hr => exact orderly_adopt (fun i => hgiven _ _ i hm hr) _
  | removeChild hm hr => exact orderly_adopt (fun i => hgiven _ _ i hm hr) _

/-- In every state of a run in which a connection is the only writer of its
database, whichever statements fail, every record that is registered on the
connection agrees with the row under its key. -/
theorem reflects_of_run {w : Workspace} (hb : Boots w) {actions : List Action}
    {c : ConnectionRef} {d : DatabaseRef} (ha : Follows (Action.Tidy c d) w actions)
    (hc : (w.performAll actions).SoleWriter c d)
    (hd : (w.performAll actions).Prepared c (w.core.database d))
    {m : MapRef} {map : IdentityMap} {id : RecordId} {r : RecordRef}
    (hm : (w.performAll actions).maps[m]? = some map) (hmc : map.connection = c)
    (hr : (w.performAll actions).registered? m id = some r) :
    ∃ i t, (w.performAll actions).records[r]? = some i ∧ i.record.id = id ∧
      i.record.schema = map.schema ∧
      ((w.performAll actions).databaseOf c).table? map.schema.table = some t ∧
      i.record.Reflects t := by
  have hsole := hc.sole true
  have hf := performAll_faithful (fun hs _ hk ht => Action.Tidy.upholds ht hsole hs hk)
    (fun ht => ht.sharesHub) ha hb.sound hb.holding hsole (hb.faithful hd) (.refl _)
  obtain ⟨hs, -⟩ := ha.good (fun ht => .of_sharesHub ht.sharesHub) hb.sound hb.holding
  have hl := lists_of_registered hr
  obtain ⟨i, hi⟩ := instance_of_listed hs ⟨m, id, hl⟩
  have ht : ((w.performAll actions).outlook c d true).Types (w.performAll actions).core m
      map.schema := ⟨map, hm, hmc, rfl⟩
  have hsees : ((w.performAll actions).outlook c d true).Sees (w.performAll actions).core m
      map.schema id r i.resident := ⟨ht, hl, core_records_of_some hi⟩
  obtain ⟨hid, hschema, -⟩ := hsees.of hs
  obtain ⟨es, hes⟩ := hf.holds ht
  have hdb : (w.performAll actions).core.database d = (w.performAll actions).databaseOf c := by
    rw [← core_databaseOf]
    exact (databaseOf_eq (ht.connection hsole hs (.refl _)).1).symm
  have haligned := hf.aligned hsees (fun h => h)
  rw [hes.image? (ht.proper hs), ← hid] at haligned
  refine ⟨i, _, hi, hid, hschema, ?_, haligned.reflects (hf.intact hsees) hschema hes.shelf⟩
  rw [← hdb]
  exact hes.table

/-- The key of the new record in `saveTwice` is not in use when it is made. -/
theorem unused_saveTwice : (performAll {} (saveTwice.take 2)).Unused 0 (.ofOrdinal 1) := by
  refine ⟨by rfl, fun map hm t ht => ?_⟩
  have hrows : ((performAll {} (saveTwice.take 2)).maps[0]?).map (fun map =>
      (((performAll {} (saveTwice.take 2)).databaseOf map.connection).table?
        map.schema.table).map (·.rows)) = some (some []) := by rfl
  rw [hm, Option.map_some, ht, Option.map_some] at hrows
  have hempty : t.rows = [] := Option.some.inj (Option.some.inj hrows)
  rw [Table.row?, hempty]
  rfl

theorem tidy_saveTwice : Follows (Action.Tidy 0 0) {} saveTwice := by
  refine ⟨⟨rfl, id, trivial⟩, ⟨rfl, id, trivial⟩, ⟨rfl, id, fun m hm _ => ?_⟩,
    ⟨rfl, id, trivial⟩, ⟨rfl, id, trivial⟩, ⟨rfl, id, trivial⟩, trivial⟩
  have hname : (performAll {} (saveTwice.take 2)).mapNames.lookup "notes" = some 0 := by rfl
  rw [show (performAll {} (saveTwice.take 2)).mapNames.lookup "notes" = some m from hm] at hname
  cases hname
  exact unused_saveTwice

theorem soleWriter_saveTwice : (performAll {} saveTwice).SoleWriter 0 0 :=
  soleWriter_of_single (n := ["TITLE"]) (by rfl) (by rfl) (by decide)

theorem reflects_saveTwice : Boots {} ∧ Follows (Action.Tidy 0 0) {} saveTwice ∧
    (performAll {} saveTwice).SoleWriter 0 0 ∧
    (performAll {} saveTwice).registered? 0 (.ofOrdinal 1) = some 0 ∧
    ∃ map i t, (performAll {} saveTwice).maps[0]? = some map ∧
      (performAll {} saveTwice).records[0]? = some i ∧
      ((performAll {} saveTwice).databaseOf 0).table? map.schema.table = some t ∧
      i.record.Reflects t := by
  have hprepared : (performAll {} saveTwice).Prepared 0 {} := prepared_empty _ _
  have hlt : 0 < (performAll {} saveTwice).maps.length := by decide
  have hm := List.getElem?_eq_getElem hlt
  have hr : (performAll {} saveTwice).registered? 0 (.ofOrdinal 1) = some 0 := by rfl
  obtain ⟨i, t, hi, -, -, ht, hx⟩ := reflects_of_run boots_empty tidy_saveTwice
    soleWriter_saveTwice hprepared hm (by rfl) hr
  exact ⟨boots_empty, tidy_saveTwice, soleWriter_saveTwice, hr, _, i, t, hm, hi, ht, hx⟩

end Workspace

end LiveRecords
