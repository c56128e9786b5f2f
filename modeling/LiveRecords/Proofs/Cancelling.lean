import LiveRecords.Proofs.Chronicles
import LiveRecords.Proofs.Confining

/-!
# Calling off a deletion

A deletion that was staged is called off by a commit, which writes the whole row
from memory. The row keeps its place, and it is what it was exactly if the record
mirrors it: in every field, and in the parent where there is a column for it. A
record that is not unread mirrors the fields. It mirrors the parent too where
parents are given to the records of an identity map by that identity map only,
since nobody looks whether an update of a parent found a row.
-/

namespace LiveRecords

/-- A row that is there and is saved as it was leaves all rows as they were. -/
theorem Saved.eq_of_stored {es es' : List Shelved} {id : RecordId} (h : Saved id es es')
    (hn : (es.map (·.image.id)).Nodup) (hrow : stored? es id ≠ none)
    (hs : stored? es' id = stored? es id) : es' = es := by
  cases h with
  | @revised f hf =>
    apply revise_eq_self hn
    intro x hx
    rw [stored?_revise hf, if_pos rfl, hx] at hs
    exact Option.some.inj hs
  | placed _ hnone _ => exact absurd (congrArg (Option.map Shelved.image) hnone) hrow

namespace Record

variable {x : Record} {image : RowImage}

/-- Two rows of a type that agree in key, parent and fields are the same. -/
theorem image_eq_iff (hx : x.Intact) (hi : image.Fits x.schema) (hid : image.id = x.id) :
    x.image = image ↔ (∀ t ∈ x.slots, image.value? x.schema t.name = some t.current) ∧
      (x.schema.parentColumn ≠ none → image.parent = x.parent) := by
  constructor
  · rintro rfl
    refine ⟨fun t ht => ?_, fun hcol => parent_image hcol⟩
    exact image_agrees hx t.settle (List.mem_map_of_mem ht)
  · rintro ⟨hvalues, hparent⟩
    have hvalue : x.slots.map (·.current) = image.values := by
      refine List.ext_getElem? fun n => ?_
      rw [List.getElem?_map]
      cases ht : x.slots[n]? with
      | none =>
        rw [Option.map_none, eq_comm, List.getElem?_eq_none_iff, hi.length, ← hx.fields,
          List.length_map]
        exact List.getElem?_eq_none_iff.mp ht
      | some t =>
        have hsame := hvalues t (List.mem_of_getElem? ht)
        rw [value?_of_slot hx (hx.getElem?_slots ht)] at hsame
        exact hsame.symm
    have hcolumn : (x.schema.parentColumn.bind fun _ => x.parent) = image.parent := by
      cases hcol : x.schema.parentColumn with
      | none => exact (hi.parent hcol).symm
      | some p => exact (hparent (by simp [hcol])).symm
    unfold Record.image
    rw [hcolumn, hvalue, ← hid]

/-- A commit of the whole row that succeeds takes back a staged deletion. -/
theorem commitRow_unstaged {l : Link} {out : CommitOutcome} (h : (x.commitRow l).1.1 = .ok out) :
    (x.commitRow l).1.2.record.Unstaged := by
  unfold commitRow at h ⊢
  split at h
  · cases h
  · rfl

/-- Staging a deletion changes nothing that is written. -/
theorem stageDelete_eq (x : Record) : x.stageDelete.record = { x with deletePending := true } := by
  unfold Record.stageDelete
  split
  · next h =>
    rw [← h]
    rfl
  · rfl

end Record

namespace Workspace

open LiveRecords.Core

variable {w w' : Workspace} {o : Outlook} {unread : RecordRef → Prop} {a : Action} {m : MapRef}
  {s : Schema} {id : RecordId} {r : RecordRef} {x : Resident} {image : RowImage}
  {c : ConnectionRef} {d : DatabaseRef}

/-! ## Letting go of a record without a staged deletion -/

/-- An action that stages no deletion of a record: it does not ask for it, and the
listeners of the record ask for nothing. -/
structure Action.Unstaging (r : RecordRef) (w : Workspace) (a : Action) : Prop where
  sharesHub : a.sharesHub = false
  quiet : w.armed r = 0
  asks : a.asks w r ≠ some .stageDelete

theorem keeps_of_shuns {d : Deed} {P : Record → Prop} (h : d.Shuns r) : d.Keeps P r := by
  cases d with
  | command j c reply => exact fun hj => absurd hj h
  | read m images answered => exact fun ha => absurd ha h
  | _ => trivial

/-- An action that stages no deletion leaves none staged. -/
theorem perform_unstaged (hs : w.core.Sound) (hw : Holding True w) (ha : a.Unstaging r w)
    (hl : w.core.Listed r) (h : w.core.Has r Record.Unstaged) :
    (w.perform a).2.core.Has r Record.Unstaged := by
  cases hc : a.asks w r with
  | none =>
    obtain hadd | hsame := not_addresses_of_asks ha.quiet hc
    · obtain ⟨⟨ds, hcourse⟩, -⟩ := perform_acts hs hw (.of_sharesHub ha.sharesHub)
      exact Course.has Record.lasting_unstaged
        (fun hmay => keeps_of_shuns (hmay.shuns ha.quiet hadd)) hcourse h
    · rw [hsame]
      exact h
  | some c =>
    obtain ⟨k, reply, ⟨ds, hreads⟩, hcommand, -⟩ :=
      perform_asks (P := fun d _ => d.Shuns r) hs hw hl ha.quiet (fun _ _ _ _ hans => hans) hc
    have hk : k.Has r Record.Unstaged := Course.has Record.lasting_unstaged keeps_of_shuns hreads h
    have hne : c ≠ .stageDelete := fun he => ha.asks (he ▸ hc)
    exact hk.commands (fun _ => Record.keeps_unstaged hne) hcommand

/-- A run that stages no deletion of a record that is registered in the end. -/
theorem performAll_unstaged {actions : List Action} (hs : w.core.Sound) (hw : Holding True w)
    (ha : Follows (Action.Unstaging r) w actions) (hl : (w.performAll actions).core.Listed r)
    (h : w.core.Has r Record.Unstaged) : (w.performAll actions).core.Has r Record.Unstaged := by
  induction actions generalizing w with
  | nil => exact h
  | cons a actions ih =>
    have hsuits : ∀ {w a}, Action.Unstaging r w a → a.Suits True :=
      fun hd => .of_sharesHub hd.sharesHub
    have hacts := perform_acts hs hw (hsuits ha.1)
    have hadds : w.core.Adds (w.performAll (a :: actions)).core :=
      (perform_adds hs hw (hsuits ha.1)).trans
        ((ha.2.mono hsuits).adds (hacts.sound hs) hacts.2)
    obtain ⟨y, hy, -⟩ := id h
    obtain ⟨m, id, hlists⟩ := id hl
    have hlisted : w.core.Listed r := ⟨m, id, hadds.lists (lt_of_record hy) hlists⟩
    exact ih (hacts.sound hs) hacts.2 ha.2 hl (perform_unstaged hs hw ha.1 hlisted h)

/-- No statement has run on any connection, and no database has changed. -/
structure Silent (w w' : Workspace) : Prop where
  databases : w'.databases = w.databases
  connections : w'.connections = w.connections

theorem Silent.refl (w : Workspace) : Silent w w := ⟨rfl, rfl⟩

theorem Silent.trans {w₁ w₂ w₃ : Workspace} (h : Silent w₁ w₂) (h' : Silent w₂ w₃) :
    Silent w₁ w₃ :=
  ⟨h'.databases.trans h.databases, h'.connections.trans h.connections⟩

theorem silent_announce (w : Workspace) (h : HubRef) (e : CoordinatorEvent) :
    Silent w (w.announce h e) := by
  unfold announce
  split
  · exact .refl w
  · next hub _ =>
    exact foldl_related .refl .trans _ (fun _ _ => ⟨rfl, rfl⟩) hub.listeners.listeners w

theorem silent_tell (w : Workspace) (h : HubRef)
    (act : Coordinator → Coordinator × List CoordinatorEvent) : Silent w (w.tell h act) := by
  have hset : Silent w (w.setCoordinator h (act (w.coordinatorOf h)).1) := ⟨rfl, rfl⟩
  exact hset.trans (foldl_related .refl .trans _ (fun u e => silent_announce u h e) _ _)

theorem silent_finish {i : Instance} (hi : w.records[r]? = some i)
    (hp : i.record.deletePending = false) : Silent w (w.finish m r).2 := by
  unfold finish
  rw [hi]
  dsimp only
  rw [hp, if_neg Bool.false_ne_true]
  exact (silent_tell w i.hub _).trans ⟨rfl, rfl⟩

/-- Letting go of a record whose deletion is not staged runs no statement. -/
theorem silent_release (h : w.core.Has r Record.Unstaged) (m : MapRef) :
    Silent w (w.release m r).2 := by
  obtain ⟨y, hy, hp⟩ := h
  obtain ⟨i, hi, rfl⟩ := instance_of_core hy
  have hfinish : Silent w ((w.unregister m [r]).finish m r).2 :=
    have h := silent_finish (w := w.unregister m [r]) (m := m) hi hp
    ⟨h.databases, h.connections⟩
  unfold release
  split
  · split
    · next hq => rwa [hq] at hfinish
    · next hq => rwa [hq] at hfinish
  · exact ⟨rfl, rfl⟩

/-! ## Parents in memory -/

/-- A private action that gets what it must be given; but a record may be asked for
by any key. -/
structure Action.Sheltered (c : ConnectionRef) (d : DatabaseRef) (w : Workspace) (a : Action) :
    Prop where
  isPrivate : a.Private d w
  given : a.asksByKey = false → a.IsGiven w c

theorem Action.Upholds.mono {apart apart' : RecordRef → Prop} (h : a.Upholds o apart w)
    (ha : ∀ j, apart j → apart' j) : a.Upholds o apart' w := by
  refine ⟨h.sharesHub, fun {e k k'} hmay hdoes => ?_⟩
  have horderly := h.orderly hmay hdoes
  cases e with
  | enrol m id isNew =>
    exact fun s ht => ⟨fun hnew => ha _ ((horderly s ht).1 hnew), (horderly s ht).2⟩
  | _ => exact horderly

/-- A sheltered action does orderly deeds, where records that are made up are set
apart. -/
theorem Action.Sheltered.upholds (h : a.Sheltered o.connection o.database w) (ho : o.Sole)
    (hs : w.core.Sound) (hk : w.core.Precedes o.last) {apart : RecordRef → Prop}
    (hmade : ∀ j, a.MakesUp w j → apart j) : a.Upholds o apart w := by
  cases hkey : a.asksByKey with
  | false =>
    have htidy : a.Tidy o.connection o.database w :=
      ⟨h.isPrivate.sharesHub, h.isPrivate.overwrites, h.given hkey⟩
    exact (htidy.upholds ho hs hk).mono fun _ hj => hj.elim
  | true =>
    cases a with
    | withId name id as =>
      refine ⟨h.isPrivate.sharesHub, fun {e k k'} hmay hdoes => ?_⟩
      cases hmay with
      | foreign hover => exact hover.elim
      | @withId _ m _ _ hm =>
        obtain ⟨map, hmap, hid, -⟩ := hdoes
        refine fun s _ => ⟨fun _ => hmade _ ⟨m, hm, ?_, by simp [core]⟩,
          fun _ hnew => by cases hnew⟩
        rw [registered?, show w.maps[m]? = some map from hmap]
        exact hid
      | _ => trivial
    | _ => cases hkey

/-- Every state of a sheltered run is tended, strictly but for the unread records. -/
theorem tended_of_sheltered (hb : Boots w) {actions : List Action}
    (ha : Follows (Action.Sheltered c d) w actions) (hc : (w.performAll actions).SoleWriter c d)
    (hd : (w.performAll actions).Prepared c (w.core.database d)) :
    Tended ((w.performAll actions).outlook c d true) (Unread w actions)
      (w.performAll actions) := by
  have hhub : ∀ {w a}, Action.Sheltered c d w a → a.sharesHub = false :=
    fun h => h.isPrivate.sharesHub
  have hsole := hc.sole true
  obtain ⟨hs, hw⟩ := ha.good (fun h => .of_sharesHub (hhub h)) hb.sound hb.holding
  refine ⟨hs, hw, hsole, .refl _, ?_⟩
  exact unreadFrom_faithful hsole (fun hs hk h hmade => h.upholds hsole hs hk hmade) hhub ha
    hb.sound hb.holding (fun _ _ hr => hr.elim) (hb.faithful hd) (.refl _)

/-! ## Calling off -/

/-- The deletion of a record is staged, and the record committed. -/
def callOff (w : Workspace) (r : RecordRef) : Except StoreError Record.Reply × Workspace :=
  (w.run r .stageDelete).2.run r .commit

/-- What calling off a deletion leaves of a record and its row. -/
structure CalledOff (w w' : Workspace) (m : MapRef) (id : RecordId) (r : RecordRef)
    (image : RowImage) (x : Record) : Prop where
  /-- The row is the record's. -/
  row : stored? (w'.rows m) id = some x.image
  /-- All rows stand where they stood, and the other rows are as they were. -/
  places : (w'.rows m).map Shelved.place = (w.rows m).map Shelved.place
  others : ∀ j, j ≠ id → shelved? (w'.rows m) j = shelved? (w.rows m) j
  /-- The row is what it was exactly if the record mirrored it, and then no database
  has changed. -/
  same_iff : x.image = image ↔
    (∀ t ∈ x.slots, image.value? x.schema t.name = some t.current) ∧
      (x.schema.parentColumn ≠ none → image.parent = x.parent)
  unchanged : x.image = image → w'.databases = w.databases
  /-- Letting go of the record later runs no statement. -/
  released : ∀ later, Follows (Action.Unstaging r) w' later → ∀ m,
    Silent (w'.performAll later) ((w'.performAll later).release m r).2

namespace Tended

/-- Staging a deletion changes no database. -/
theorem staged (h : Tended o unread w) (hx : o.Sees w.core m s id r x)
    (hq : w.Unanswered r .stageDelete) :
    Tended o unread (w.run r .stageDelete).2 ∧
      o.Sees (w.run r .stageDelete).2.core m s id r
        { x with record := { x.record with deletePending := true } } ∧
      (w.run r .stageDelete).2.core.databases = w.core.databases ∧
      (w.run r .stageDelete).2.core.connections = w.core.connections := by
  obtain ⟨l, hl, -, hcore, -⟩ := h.run_unanswered hx hq
  obtain ⟨h₁, hx₁, -⟩ := h.after hx hcore
  have hself : l.database = w.core.databaseOf o.connection :=
    hl.trans (databaseOf_eq (hx.types.connection h.sole h.sound h.ahead).1).symm
  have hrun : x.record.run l .stageDelete = ((.ok .done, x.record.stageDelete), l) := rfl
  rw [hrun, Record.stageDelete_eq] at hx₁
  refine ⟨h₁, hx₁, ?_, ?_⟩
  · rw [hcore, hrun, impose_databases, hself, setDatabase_databaseOf]
  · rw [hcore, impose_connections, setDatabase_connections]

/-- A deletion that is called off, as the row and the record are then. -/
theorem callOff (h : Tended o unread w) (hx : o.Sees w.core m s id r x)
    (himage : stored? (w.rows m) id = some image) (hq : w.Unanswered r .stageDelete)
    (hq' : (w.run r .stageDelete).2.Unanswered r .commit) {reply : Record.Reply}
    (hok : (w.callOff r).1 = .ok reply) :
    CalledOff w (w.callOff r).2 m id r image x.record := by
  obtain ⟨hid, hschema, -⟩ := hx.of h.sound
  subst hid hschema
  obtain ⟨h₁, hx₁, hdatabases, hconnections⟩ := h.staged hx hq
  have hintact : ({ x.record with deletePending := true } : Record).Intact := h₁.faithful.intact hx₁
  have hes := h.holds_rows hx.types
  have hdb : (w.run r .stageDelete).2.core.database o.database = w.core.database o.database := by
    unfold Core.database
    rw [hdatabases]
  obtain ⟨l, hl, hreply, hcore, -⟩ := h₁.run_unanswered hx₁ hq'
  obtain ⟨h₂, hx₂, hdb₂⟩ := h₁.after hx₁ hcore
  rw [show ((w.run r .stageDelete).2.run r .commit).1 = .ok reply from hok] at hreply
  have habsent : ({ x.record with deletePending := true } : Record).isNew ||
      ({ x.record with deletePending := true } : Record).deletePending = true := by simp
  rw [Record.run_commit_of_absent habsent] at hreply hx₂ hdb₂ hcore
  obtain ⟨out, hout, -⟩ := map_eq_ok.mp hreply
  obtain ⟨⟨e, he⟩, -⟩ | ⟨-, -, es', hedits, hsaved, hown⟩ := Record.commitRow_cases hintact
    (hl ▸ h₁.faithful.plain) (hl ▸ hdb ▸ hes)
    (h.sole.unnumbered (hx.types.ahead h.ahead))
  · rw [he] at hout
    cases hout
  have hes' := hedits.holds (hl ▸ hdb ▸ hes)
  have hrows : (w.callOff r).2.rows m = es' := h₂.rows_of_holds hx₂.types (hdb₂ ▸ hes')
  have hnone : shelved? (w.rows m) x.record.id ≠ none := by
    intro hnone
    rw [stored?, hnone] at himage
    cases himage
  have hkey : image.id = x.record.id := by
    obtain ⟨e, he, rfl⟩ := Option.map_eq_some_iff.mp himage
    exact (mem_of_shelved? he).2
  refine ⟨hrows ▸ hown, hrows ▸ hsaved.places hnone,
    fun j hj => hrows ▸ hsaved.of_ne hes.shelf.ids hj,
    Record.image_eq_iff (h.faithful.intact hx) (hes.shelf.stored_fits himage) hkey,
    fun hsame => ?_, fun later hlater m' => ?_⟩
  · have heq : es' = w.rows m := by
      apply hsaved.eq_of_stored hes.shelf.ids
      · rw [himage]
        exact Option.some_ne_none _
      · rw [himage, ← hsame]
        exact hown
    have hsame' : (({ x.record with deletePending := true } : Record).commitRow l).2.database =
        (w.run r .stageDelete).2.core.databaseOf o.connection := by
      rw [hedits.database, heq, Database.Holds.shelve_self (hl ▸ hdb ▸ hes)
        (hl ▸ h₁.faithful.plain), hl]
      exact (databaseOf_eq (hx₁.types.connection h.sole h₁.sound h₁.ahead).1).symm
    have hcore' := congrArg Core.databases hcore
    rw [impose_databases, hsame', setDatabase_databaseOf, hdatabases] at hcore'
    exact hcore'
  · by_cases hfree : ((w.callOff r).2.performAll later).isFree m' r = true
    · obtain ⟨⟨id, hlists⟩, -⟩ := isFree_iff hfree
      have hstart : (w.callOff r).2.core.Has r Record.Unstaged :=
        ⟨_, hx₂.record, Record.commitRow_unstaged hout⟩
      exact silent_release
        (performAll_unstaged h₂.sound h₂.holding hlater ⟨m', id, hlists⟩ hstart) m'
    · unfold release
      rw [if_neg hfree]
      exact .refl _

/-- The row of a record that is not unread holds the values of the record where
it has no edit. -/
theorem mirrors (h : Tended o unread w) (hx : o.Sees w.core m s id r x)
    (himage : stored? (w.rows m) id = some image) (hr : ¬unread r)
    (hnew : x.record.isNew = false) (hclean : x.record.Unedited) :
    (∀ t ∈ x.record.slots, image.value? x.record.schema t.name = some t.current) ∧
      (o.strict = true → x.record.schema.parentColumn ≠ none →
        image.parent = x.record.parent) := by
  have haligned := h.faithful.aligned hx hr
  rw [(h.holds_rows hx.types).image? (hx.types.proper h.sound), himage] at haligned
  refine ⟨fun t ht => ?_, fun hb hcol => haligned.parent hb image rfl hcol⟩
  obtain ⟨y, hy, hagree⟩ := haligned.stored hnew
  cases hy
  rw [((h.faithful.intact hx).slots t ht).current_eq (hclean t ht)]
  exact hagree t ht

end Tended

/-- In every state of a run in which a connection is the only writer of its
database, whatever failed before: staging the deletion of a record that is stored
and has no edit, and then a commit that succeeds, leave the row in its place as the
record has it. That is as it was in every field unless the record is unread, and in
the parent too if the run gave parents to the records of an identity map by that
identity map. Letting go of the record later deletes nothing. -/
theorem calledOff_of_run (hb : Boots w) {actions : List Action}
    (ha : Follows (Action.Private d) w actions) (hc : (w.performAll actions).SoleWriter c d)
    (hd : (w.performAll actions).Prepared c (w.core.database d)) {map : IdentityMap}
    (hm : (w.performAll actions).maps[m]? = some map) (hmc : map.connection = c)
    (hr : (w.performAll actions).registered? m id = some r) {i : Instance}
    (hi : (w.performAll actions).records[r]? = some i) (hnew : i.record.isNew = false)
    (hclean : i.record.Unedited) (himage : stored? ((w.performAll actions).rows m) id = some image)
    (hq : (w.performAll actions).Unanswered r .stageDelete)
    (hq' : ((w.performAll actions).run r .stageDelete).2.Unanswered r .commit)
    {reply : Record.Reply} (hok : ((w.performAll actions).callOff r).1 = .ok reply) :
    CalledOff (w.performAll actions) ((w.performAll actions).callOff r).2 m id r image i.record ∧
      (¬Unread w actions r →
        ∀ t ∈ i.record.slots, image.value? map.schema t.name = some t.current) ∧
      (¬Unread w actions r → Follows (Action.Sheltered c d) w actions →
        i.record.image = image) := by
  have h := tended_of_run hb ha hc hd
  have hsees : ∀ b, ((w.performAll actions).outlook c d b).Sees (w.performAll actions).core m
      map.schema id r i.resident :=
    fun _ => ⟨⟨map, hm, hmc, rfl⟩, lists_of_registered hr, core_records_of_some hi⟩
  have hcalled := h.callOff (hsees false) himage hq hq' hok
  refine ⟨hcalled, fun hread => ?_, fun hread hshelter => ?_⟩
  · obtain ⟨-, hschema, -⟩ := (hsees false).of h.sound
    rw [← hschema]
    exact (h.mirrors (hsees false) himage hread hnew hclean).1
  · have hstrict := tended_of_sheltered hb hshelter hc hd
    obtain ⟨hvalues, hparent⟩ := hstrict.mirrors (hsees true) himage hread hnew hclean
    exact hcalled.same_iff.mpr ⟨hvalues, hparent rfl⟩

/-- A program that puts one note below another. -/
def nestsNotes : List Action :=
  [.openStore "store" .inMemory,
    .registerType "store"
      { table := "NOTES", fields := [⟨"TITLE", .text, true⟩], parentColumn := some "PARENT" }
      "notes",
    .newRecord "notes" (.ofOrdinal 1) (some "list"), .command "list" .commit,
    .newRecord "notes" (.ofOrdinal 2) (some "note"),
    .command "note" (.set "TITLE" (.text "milk")), .command "note" .commit,
    .addChild "notes" "list" "note"]

theorem unused_of_rows {w : Workspace} {m : MapRef} {id : RecordId}
    (hreg : w.registered? m id = none)
    (hrow : (w.maps[m]?).map (fun map => ((w.databaseOf map.connection).table?
      map.schema.table).bind (·.row? id)) = some none) : w.Unused m id := by
  refine ⟨hreg, fun map hm t ht => ?_⟩
  rw [hm, Option.map_some, ht] at hrow
  exact Option.some.inj hrow

theorem given_newRecord {w : Workspace} {map : String} {m : MapRef} {as : Option String}
    (hm : w.mapNames.lookup map = some m) (h : w.Unused m id) :
    (Action.newRecord map id as).IsGiven w c := by
  intro m' hm' _
  rw [hm] at hm'
  cases hm'
  exact h

theorem sheltered_nestsNotes : Follows (Action.Sheltered 0 0) {} nestsNotes := by
  refine ⟨⟨⟨rfl, id⟩, fun _ => trivial⟩, ⟨⟨rfl, id⟩, fun _ => trivial⟩, ⟨⟨rfl, id⟩, fun _ => ?_⟩,
    ⟨⟨rfl, id⟩, fun _ => trivial⟩, ⟨⟨rfl, id⟩, fun _ => ?_⟩, ⟨⟨rfl, id⟩, fun _ => trivial⟩,
    ⟨⟨rfl, id⟩, fun _ => trivial⟩, ⟨⟨rfl, id⟩, fun _ m r i hm hr _ _ => ?_⟩, trivial⟩
  · exact given_newRecord (m := 0) (by rfl) (unused_of_rows (by rfl) (by decide +kernel))
  · exact given_newRecord (m := 0) (by rfl) (unused_of_rows (by rfl) (by decide +kernel))
  · have hname : (performAll {} (nestsNotes.take 7)).mapNames.lookup "notes" = some 0 := by rfl
    have hhandle : (performAll {} (nestsNotes.take 7)).handle? "note" = some 1 := by rfl
    cases (show some 0 = some m from hname.symm.trans hm)
    cases (show some 1 = some r from hhandle.symm.trans hr)
    exact ⟨.ofOrdinal 2, by rfl⟩

/-- The deletion of the note that was put below another is called off. -/
theorem calledOff_nestsNotes : Boots {} ∧ Follows (Action.Private 0) {} nestsNotes ∧
    Follows (Action.Sheltered 0 0) {} nestsNotes ∧ (performAll {} nestsNotes).SoleWriter 0 0 ∧
    ¬Unread {} nestsNotes 1 ∧
    ((performAll {} nestsNotes).callOff 1).1 = .ok (.committed .inserted) ∧
    ∃ image, stored? ((performAll {} nestsNotes).rows 0) (.ofOrdinal 2) = some image ∧
      image.parent = some (.ofOrdinal 1) ∧
      stored? (((performAll {} nestsNotes).callOff 1).2.rows 0) (.ofOrdinal 2) = some image ∧
      ((performAll {} nestsNotes).callOff 1).2.databases =
        (performAll {} nestsNotes).databases := by
  have hsole : (performAll {} nestsNotes).SoleWriter 0 0 :=
    soleWriter_of_single (n := ["TITLE", "PARENT"]) (by rfl) (by rfl) (by decide)
  have hprivate := sheltered_nestsNotes.mono fun h => h.isPrivate
  have hread : ¬Unread {} nestsNotes 1 := not_unreadFrom (by decide) id
  have hlt : 1 < (performAll {} nestsNotes).records.length := by decide
  have hlt' : 0 < (performAll {} nestsNotes).maps.length := by decide
  have himage : stored? ((performAll {} nestsNotes).rows 0) (.ofOrdinal 2) =
      some ⟨.ofOrdinal 2, some (.ofOrdinal 1), [.text "milk"]⟩ := by rfl
  have hq : (performAll {} nestsNotes).Unanswered 1 .stageDelete := by
    unfold Unanswered
    decide +kernel
  have hq' : ((performAll {} nestsNotes).run 1 .stageDelete).2.Unanswered 1 .commit := by
    unfold Unanswered
    decide +kernel
  have hok : ((performAll {} nestsNotes).callOff 1).1 = .ok (.committed .inserted) := by rfl
  have hclean : ∀ i ∈ (performAll {} nestsNotes).records, ∀ t ∈ i.record.slots,
      t.dirty = false := by
    decide +kernel
  obtain ⟨hcalled, -, hmirrored⟩ := calledOff_of_run boots_empty hprivate hsole
    (prepared_empty _ _) (List.getElem?_eq_getElem hlt') (by rfl) (by rfl)
    (List.getElem?_eq_getElem hlt) (by rfl) (hclean _ (List.getElem_mem hlt)) himage hq hq' hok
  have hsame := hmirrored hread sheltered_nestsNotes
  exact ⟨boots_empty, hprivate, sheltered_nestsNotes, hsole, hread, hok, _, himage, rfl,
    hsame ▸ hcalled.row, hcalled.unchanged hsame⟩

/-- The deletion of a stored record without an edit is called off, and another row
is stored under its key. -/
structure CallOffDiffers (w : Workspace) (m : MapRef) (id : RecordId) (r : RecordRef) : Prop where
  registered : w.registered? m id = some r
  settled : ∃ i, w.records[r]? = some i ∧ i.record.isNew = false ∧ i.record.Unedited
  stored : (stored? (w.rows m) id).isSome = true
  unanswered : w.Unanswered r .stageDelete ∧ (w.run r .stageDelete).2.Unanswered r .commit
  committed : (w.callOff r).1 = .ok (.committed .inserted)
  differs : stored? ((w.callOff r).2.rows m) id ≠ stored? (w.rows m) id

/-- A program that saves a note, lets go of it, and asks for it by its key alone. -/
def recallsNote : List Action :=
  [.openStore "store" .inMemory,
    .registerType "store" { table := "NOTES", fields := [⟨"TITLE", .text, true⟩] } "notes",
    .newRecord "notes" (.ofOrdinal 1) (some "note"),
    .command "note" (.set "TITLE" (.text "milk")), .command "note" .commit,
    .release "notes" "note", .withId "notes" (.ofOrdinal 1) (some "note")]

/-- A program that puts a note below a list, in the identity map of lists. -/
def nestsAbroad : List Action :=
  [.openStore "store" .inMemory,
    .registerType "store"
      { table := "NOTES", fields := [⟨"TITLE", .text, true⟩], parentColumn := some "PARENT" }
      "notes",
    .registerType "store"
      { table := "LISTS", fields := [⟨"TITLE", .text, true⟩], parentColumn := some "PARENT" }
      "lists",
    .newRecord "notes" (.ofOrdinal 1) (some "note"), .command "note" .commit,
    .newRecord "lists" (.ofOrdinal 2) (some "list"), .command "list" .commit,
    .addChild "lists" "list" "note"]

/-- A record that is unread overwrites its row, and so does one whose parent was
stored nowhere. -/
theorem callOffDiffers :
    Boots {} ∧ Follows (Action.Private 0) {} recallsNote ∧
      (performAll {} recallsNote).SoleWriter 0 0 ∧
      (performAll {} recallsNote).CallOffDiffers 0 (.ofOrdinal 1) 1 ∧
      Follows (Action.Private 0) {} nestsAbroad ∧ (performAll {} nestsAbroad).SoleWriter 0 0 ∧
      (performAll {} nestsAbroad).CallOffDiffers 0 (.ofOrdinal 1) 0 := by
  have hlt : 1 < (performAll {} recallsNote).records.length := by decide
  have hlt' : 0 < (performAll {} nestsAbroad).records.length := by decide
  have hclean : ∀ i ∈ (performAll {} recallsNote).records, ∀ t ∈ i.record.slots,
      t.dirty = false := by decide +kernel
  have hclean' : ∀ i ∈ (performAll {} nestsAbroad).records, ∀ t ∈ i.record.slots,
      t.dirty = false := by decide +kernel
  refine ⟨boots_empty, ⟨⟨rfl, id⟩, ⟨rfl, id⟩, ⟨rfl, id⟩, ⟨rfl, id⟩, ⟨rfl, id⟩, ⟨rfl, id⟩,
    ⟨rfl, id⟩, trivial⟩, soleWriter_of_single (n := ["TITLE"]) (by rfl) (by rfl) (by decide), ?_,
    ⟨⟨rfl, id⟩, ⟨rfl, id⟩, ⟨rfl, id⟩, ⟨rfl, id⟩, ⟨rfl, id⟩, ⟨rfl, id⟩, ⟨rfl, id⟩, ⟨rfl, id⟩,
      trivial⟩,
    soleWriter_of_types (l := [(0, "NOTES", ["TITLE", "PARENT"]),
      (0, "LISTS", ["TITLE", "PARENT"])]) (by rfl) (by rfl) (by decide) (by decide), ?_⟩
  · refine ⟨by rfl, ⟨_, List.getElem?_eq_getElem hlt, by rfl, hclean _ (List.getElem_mem hlt)⟩,
      by rfl, ?_, by rfl, by decide +kernel⟩
    unfold Unanswered
    decide +kernel
  · refine ⟨by rfl, ⟨_, List.getElem?_eq_getElem hlt', by rfl, hclean' _ (List.getElem_mem hlt')⟩,
      by rfl, ?_, by rfl, by decide +kernel⟩
    unfold Unanswered
    decide +kernel

end Workspace

end LiveRecords
