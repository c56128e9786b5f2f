import LiveRecords.Proofs.Exchanges
import LiveRecords.Proofs.Provenance
import LiveRecords.Proofs.Unrefused

/-!
# Tended workspaces

What is known of a state that a program reaches on its own database, and of the
commands that follow from there: a command that nobody answers changes one
record and its row, and goes on as far as nothing is refused.
-/

namespace LiveRecords.Workspace

open LiveRecords.Core

/-- A record is registered on a connection, with its type and its key. -/
structure Finds (w : Workspace) (c : ConnectionRef) (s : Schema) (id : RecordId) (r : RecordRef)
    (i : Instance) : Prop where
  registered : ∃ m map, w.maps[m]? = some map ∧ map.connection = c ∧ map.schema = s ∧
    w.registered? m id = some r
  record : w.records[r]? = some i

/-- From here on no statement on a connection is refused for a reason of its own. -/
def Unrefused (w : Workspace) (c : ConnectionRef) : Prop := (w.link c).Unrefused

theorem Unrefused.later {w w' : Workspace} {c : ConnectionRef} (h : w.Unrefused c)
    (hl : Later w w') : w'.Unrefused c :=
  Link.Unrefused.later h ⟨congrArg (· c) hl.outage, hl.total c⟩

/-- What holds of a state that a program reaches on its own database, except that
some records may be unread. -/
structure Tended (o : Outlook) (unread : RecordRef → Prop) (w : Workspace) : Prop where
  sound : w.core.Sound
  holding : Holding True w
  sole : o.Sole
  ahead : w.core.Precedes o.last
  faithful : o.Faithful unread w.core

variable {w w' : Workspace} {o : Outlook} {unread : RecordRef → Prop} {m : MapRef} {s : Schema}
  {id : RecordId} {r : RecordRef} {i : Instance} {x : Resident} {c : ConnectionRef}
  {d : DatabaseRef} {fields : List String}

/-- Every state of a private run is tended, seen from any later state. -/
theorem tended_within (hb : Boots w) (ho : o.Sole) (hlax : o.strict = false)
    {actions : List Action} (ha : Follows (Action.Private o.database) w actions)
    (hf : o.Faithful (fun _ => False) w.core)
    (hlast : (w.performAll actions).core.Precedes o.last) :
    Tended o (Unread w actions) (w.performAll actions) := by
  obtain ⟨hs, hw⟩ := ha.good (fun h => .of_sharesHub h.sharesHub) hb.sound hb.holding
  have hunread : o.Faithful (Unread w actions) (w.performAll actions).core :=
    unreadFrom_faithful ho (fun _ _ h hmade => h.upholds hlax hmade) (fun h => h.sharesHub) ha
      hb.sound hb.holding (fun _ _ hr => hr.elim) hf hlast
  exact ⟨hs, hw, ho, hlast, hunread⟩

theorem tended_of_run (hb : Boots w) {actions : List Action}
    (ha : Follows (Action.Private d) w actions) (hc : (w.performAll actions).SoleWriter c d)
    (hd : (w.performAll actions).Prepared c (w.core.database d)) :
    Tended ((w.performAll actions).outlook c d false) (Unread w actions)
      (w.performAll actions) :=
  tended_within hb (hc.sole false) rfl ha (hb.faithful hd) (.refl _)

theorem Finds.sees (h : w.Finds o.connection s id r i) :
    ∃ m, o.Sees w.core m s id r i.resident := by
  obtain ⟨m, map, hm, hc, hs, hr⟩ := h.registered
  exact ⟨m, ⟨map, hm, hc, hs⟩, lists_of_registered hr, core_records_of_some h.record⟩

theorem finds_of_sees (hs : w.core.Sound) (h : o.Sees w.core m s id r x) :
    ∃ i, w.Finds o.connection s id r i ∧ i.resident = x := by
  obtain ⟨map, hm, hc, hschema⟩ := h.types
  obtain ⟨i, hi, hx⟩ := instance_of_core h.record
  exact ⟨i, ⟨⟨m, map, hm, hc, hschema, registered_of_lists hs h.lists⟩, hi⟩, hx⟩

/-- A commit that updates is of a record whose row was written or read. -/
theorem isNew_of_updated (hi : w.records[r]? = some i)
    (hok : (w.run r .commit).1 = .ok (.committed (.updated fields))) :
    i.record.isNew = false ∧ i.record.deletePending = false := by
  rw [fst_run hi] at hok
  exact Record.stored_of_updated hok

namespace Tended

theorem goes (h : Tended o unread w)
    (hg : Goes (fun e k => o.Orderly unread e k ∧ e.isGentle = true) w w') :
    Tended o unread w' := by
  have hahead := hg.stays.precedes_of h.ahead
  refine ⟨hg.sound h.sound, h.holding.goes hg, h.sole, hahead, ?_⟩
  obtain ⟨ds, hc, -⟩ := hg
  have horderly : Course (o.Orderly unread) (ds.map fun e => e) w.core w'.core :=
    Chain.map (fun hd => ⟨hd.1.1, hd.2⟩) hc
  exact h.faithful.course h.sole h.sound horderly hahead

theorem run (h : Tended o unread w) (hl : w.core.Listed r) (e : Record.Command) :
    Tended o unread (w.run r e).2 :=
  h.goes (run_goes h.sound hl e fun _ _ _ => ⟨trivial, rfl⟩)

/-- What an action of such a run leaves is tended still. -/
theorem performed (h : Tended o unread w) {a : Action} (ha : a.Upholds o unread w)
    (hlast : (w.perform a).2.core.Precedes o.last) : Tended o unread (w.perform a).2 := by
  have hacts := perform_acts h.sound h.holding (.of_sharesHub ha.sharesHub)
  exact ⟨hacts.sound h.sound, hacts.2, h.sole, hlast,
    perform_faithful h.sound h.holding h.sole h.faithful ha hlast⟩

theorem hub_lt (h : Tended o unread w) (hx : o.Sees w.core m s id r x) :
    x.hub < w.core.coordinators.length :=
  h.sound.hub_lt ⟨m, id, hx.lists⟩ hx.record

theorem databaseOf (h : Tended o unread w) (ht : o.Types w.core m s) :
    w.databaseOf o.connection = w.core.database o.database := by
  rw [← core_databaseOf, databaseOf_eq (ht.connection h.sole h.sound h.ahead).1]

/-- The rows of a type, as they are read. -/
theorem holds (h : Tended o unread w) (ht : o.Types w.core m s) :
    ∃ es, (w.core.database o.database).Holds s es ∧
      ∀ id, (w.databaseOf o.connection).image? s id = stored? es id := by
  obtain ⟨es, hes⟩ := h.faithful.holds ht
  refine ⟨es, hes, fun id => ?_⟩
  rw [h.databaseOf ht]
  exact hes.image? (ht.proper h.sound) id

/-- A command on a record that nobody answers, as it goes on the connection. -/
theorem run_unanswered (h : Tended o unread w) (hx : o.Sees w.core m s id r x)
    {e : Record.Command} (ha : w.Unanswered r e) :
    ∃ l : Link, l.database = w.core.database o.database ∧
      (x.record.run l e).1.1 = (w.run r e).1 ∧
      (w.run r e).2.core =
        (w.core.setDatabase o.connection (x.record.run l e).2.database).impose r
          (x.record.run l e).1.2 ∧ Keeps w (w.run r e).2 := by
  obtain ⟨i, hi, rfl⟩ := instance_of_core hx.record
  obtain ⟨⟨y, l, hy, -, hdb, hreply, hcore⟩, hk⟩ :=
    Workspace.run_unanswered hi ⟨m, id, hx.lists⟩ ha
  rw [hx.record] at hy
  cases hy
  have hc : i.resident.connection = o.connection := (hx.of h.sound).2.2
  rw [hc] at hcore
  rw [hc, databaseOf_eq (hx.types.connection h.sole h.sound h.ahead).1] at hdb
  exact ⟨l, hdb, hreply, hcore, hk⟩

/-- What is known after a command that nobody answers. -/
theorem after (h : Tended o unread w) (hx : o.Sees w.core m s id r x) {l : Link}
    {e : Record.Command}
    (hcore : (w.run r e).2.core =
      (w.core.setDatabase o.connection (x.record.run l e).2.database).impose r
        (x.record.run l e).1.2) :
    Tended o unread (w.run r e).2 ∧
      o.Sees (w.run r e).2.core m s id r { x with record := (x.record.run l e).1.2.record } ∧
      (w.run r e).2.core.database o.database = (x.record.run l e).2.database := by
  have hconn := hx.types.connection h.sole h.sound h.ahead
  refine ⟨h.run ⟨m, id, hx.lists⟩ e, ?_, ?_⟩
  · have hmaps : (w.run r e).2.core.maps = w.core.maps := by
      rw [hcore, impose_maps, setDatabase_maps]
    refine ⟨?_, hx.lists.of_maps hmaps, ?_⟩
    · obtain ⟨map, hm, hc⟩ := hx.types
      exact ⟨map, hmaps ▸ hm, hc⟩
    · rw [hcore]
      exact records_impose_self (by rw [setDatabase_records]; exact hx.record) _
  · rw [hcore, database_impose]
    exact database_setDatabase hconn.1 hconn.2 _

/-- A commit that updates fields saves the record. -/
theorem commit_saves (h : Tended o unread w) (hx : o.Sees w.core m s id r x)
    (hok : (w.run r .commit).1 = .ok (.committed (.updated fields)))
    (hq : w.Unanswered r .commit) :
    ∃ l : Link, l.database = w.core.database o.database ∧
      (x.record.commitFields l).1.1 = .ok (.updated fields) ∧
      (w.run r .commit).2.core =
        (w.core.setDatabase o.connection (x.record.commitFields l).2.database).impose r
          (x.record.commitFields l).1.2 ∧
      Tended o unread (w.run r .commit).2 ∧
      o.Sees (w.run r .commit).2.core m s id r { x with record := x.record.saved } ∧
      (w.run r .commit).2.core.database o.database = (x.record.commitFields l).2.database := by
  obtain ⟨l, hl, hreply, hcore, -⟩ := h.run_unanswered hx hq
  obtain ⟨h₁, hx₁, hdb₁⟩ := h.after hx hcore
  rw [hok] at hreply
  obtain ⟨hnew, hpending⟩ := Record.stored_of_updated hreply
  rw [Record.run_commit_of_stored hnew hpending] at hreply hcore hx₁ hdb₁
  obtain ⟨out, hout, heq⟩ := map_eq_ok.mp hreply
  cases heq
  obtain ⟨-, hunchanged, -⟩ | ⟨-, -, hsaved, -⟩ :=
    Record.commitFields_of_success (h.faithful.intact hx) hout
  · cases hunchanged
  · exact ⟨l, hl, hout, hcore, h₁, hsaved ▸ hx₁, hdb₁⟩

/-- Where nothing is refused, a record whose row is stored can be replayed. -/
theorem replay_ok (h : Tended o unread w) (hx : o.Sees w.core m s id r x)
    (hu : w.Unrefused o.connection)
    (hrow : ((w.databaseOf o.connection).image? s id).isSome) (t : Track) :
    (w.run r (.replay t)).1 = .ok (.flag !(x.record.stack t).isEmpty) := by
  obtain ⟨hid, hschema, hconn⟩ := hx.of h.sound
  obtain ⟨es, hes, hstored⟩ := h.holds hx.types
  obtain ⟨i, hi, rfl⟩ := instance_of_core hx.record
  subst hid hschema
  have hdb : (w.link i.connection).database = w.core.database o.database :=
    (congrArg w.databaseOf hconn).trans (h.databaseOf hx.types)
  have hunrefused : (w.link i.connection).Unrefused := by
    rw [show i.connection = o.connection from hconn]
    exact hu
  have hok := Record.replay_of_unrefused hunrefused (h.faithful.intact hx)
    (hdb ▸ h.faithful.plain) (hdb ▸ hes) (hstored _ ▸ hrow) t
  rw [fst_run hi]
  show Record.Reply.flag <$> (i.record.replay t (w.link i.connection)).1.1 = _
  rw [show (i.record.replay t (w.link i.connection)).1.1 = _ from hok]
  rfl

end Tended

theorem private_saveTwice : Follows (Action.Private 0) {} saveTwice :=
  ⟨⟨rfl, id⟩, ⟨rfl, id⟩, ⟨rfl, id⟩, ⟨rfl, id⟩, ⟨rfl, id⟩, ⟨rfl, id⟩, trivial⟩

/-- The record type of `saveTwice`. -/
def notes : Schema := { table := "NOTES", fields := [⟨"TITLE", .text, true⟩], parentColumn := none }

theorem unrefused_of_outage {w : Workspace} (h : w.outage = fun _ _ => none) (c : ConnectionRef) :
    w.Unrefused c := by
  intro n _
  show w.outage c n = none
  rw [h]

end LiveRecords.Workspace
