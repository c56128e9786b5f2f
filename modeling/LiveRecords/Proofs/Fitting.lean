import LiveRecords.Proofs.Lives
import LiveRecords.Proofs.Typing
import LiveRecords.Proofs.Upkeep

/-!
# Values that fit

The tables of a database were made for the record types that use them, and only
records write to it. Then whatever a program does and whatever fails, what its
records hold in memory fits their fields, edits and change sets included; so does
what they bind in statements, with all the answers of their listeners; and so does
every row that is read.

A table that was made for another type is used as it is: values of other types
are stored there, and turned to the types of its columns.
-/

namespace LiveRecords

/-! ## Records -/

namespace Record

variable {x : Record}

/-- The values in the slots and in the change sets of a record fit its fields. -/
structure Fits (x : Record) : Prop where
  fields : x.slots.map (·.field) = x.schema.fields
  current : ∀ t ∈ x.slots, t.current.fits t.field.type t.field.notNull = true
  baseline : ∀ t ∈ x.slots, t.baseline.fits t.field.type t.field.notNull = true
  changes : ∀ t, ∀ c ∈ x.stack t, ∀ e ∈ c.entries, ∀ f ∈ x.schema.fields, f.name = e.1 →
    e.2.fits f.type f.notNull = true

theorem Intact.fits (h : x.Intact) : x.Fits where
  fields := h.fields
  current t ht := (h.slots t ht).current
  baseline t ht := (h.slots t ht).baseline
  changes t c hc e he f hf hname := by
    have hsuits := h.changes t c hc
    have hnodup : (c.entries.map (·.1)).Nodup :=
      List.pairwise_map.mpr (hsuits.ordered.imp fun hlt => Std.ne_of_lt hlt)
    exact hsuits.fits f hf e.2 (hname ▸ lookup_of_mem hnodup he)

/-- A row that is handed to a record is a stored one that fits. -/
def Turn.Suits (s : Schema) : Turn → Prop
  | .handed row => ∃ image : RowImage, image.Fits s ∧ row = .ofImage s image
  | _ => True

theorem Intact.turn (h : x.Intact) {t : Turn} (ht : t.Suits x.schema) :
    (x.turn t).record.Intact := by
  cases t with
  | asked c l => exact h.run l c
  | handed row =>
    obtain ⟨image, himage, rfl⟩ := ht
    show (x.takeRow _).record.Intact
    rw [takeRow_ofImage h.proper h.fields]
    exact h.hydrate himage
  | moved parent => exact h.setParent parent

theorem Intact.after (h : x.Intact) {ts : List Turn} (hts : ∀ t ∈ ts, t.Suits x.schema) :
    (x.after ts).Intact := by
  induction ts generalizing x with
  | nil => exact h
  | cons t ts ih =>
    refine ih (h.turn (hts t List.mem_cons_self)) fun u hu => ?_
    rw [(x.turn_remains t).2]
    exact hts u (List.mem_cons_of_mem _ hu)

end Record

/-! ## Commands of programs -/

namespace Workspace

open LiveRecords.Core

variable {w w' w₁ w₂ : Workspace} {r : RecordRef} {s : Schema} {act : Act} {d : DatabaseRef}
  {c : ConnectionRef}

/-- A record of a type is in memory, and its values fit. -/
def HasIntact (w : Workspace) (r : RecordRef) (s : Schema) : Prop :=
  ∃ x, w.core.records[r]? = some x ∧ x.record.Intact ∧ x.record.schema = s

/-- While the values of a record fit, they go on to fit, and so do those it binds. -/
def Utters (r : RecordRef) (s : Schema) (w w' : Workspace) : Prop :=
  w.HasIntact r s → w'.HasIntact r s ∧ Sends s w.log w'.log

theorem Utters.refl (r : RecordRef) (s : Schema) (w : Workspace) : Utters r s w w :=
  fun h => ⟨h, .refl s w.log⟩

theorem Utters.trans (h₁ : Utters r s w w₁) (h₂ : Utters r s w₁ w₂) : Utters r s w w₂ := by
  intro hx
  obtain ⟨hx₁, hsends₁⟩ := h₁ hx
  obtain ⟨hx₂, hsends₂⟩ := h₂ hx₁
  exact ⟨hx₂, hsends₁.trans hsends₂⟩

theorem Still.utters (h : Still w w') (hl : w'.log = w.log) : Utters r s w w' := by
  rintro hx
  refine ⟨?_, hl ▸ .refl s w.log⟩
  unfold HasIntact
  rw [h.1]
  exact hx

theorem log_foldl {α : Type} {f : Workspace → α → Workspace} (h : ∀ w a, (f w a).log = w.log)
    (as : List α) (w : Workspace) : (as.foldl f w).log = w.log := by
  induction as generalizing w with
  | nil => rfl
  | cons a as ih => exact (ih (f w a)).trans (h w a)

theorem log_announce (h : HubRef) (e : CoordinatorEvent) (w : Workspace) :
    (announce h e w).log = w.log := by
  unfold announce
  split
  · rfl
  · exact log_foldl (f := fun w (l : Nat × String) => w.write (.coordinator l.2 e))
      (fun _ _ => rfl) _ w

theorem log_tell (w : Workspace) (h : HubRef)
    (act : Coordinator → Coordinator × List CoordinatorEvent) : (w.tell h act).log = w.log :=
  log_foldl (fun w e => log_announce h e w) _ (w.setCoordinator h _)

theorem hear_utters (ha : ∀ c w, Utters r s w (act r c w).2) (e : RecordEvent)
    (l : Nat × RecordListener) (w : Workspace) : Utters r s w (hear act r e l w) := by
  unfold hear
  dsimp only
  generalize hnote : Heard.record l.2.name e _ = note
  have hheard : Utters r s w (w.write note) := (still_write w note).utters rfl
  split
  · exact hheard
  · next c _ =>
    exact (hheard.trans ((still_disarm _ r l.1).utters rfl)).trans
      ((ha c _).trans ((still_write _ _).utters rfl))

theorem deliver_utters (ha : ∀ c w, Utters r s w (act r c w).2) (w : Workspace)
    (e : RecordEvent) : Utters r s w (deliver act r w e) := by
  unfold deliver
  split
  · exact .refl r s w
  · exact foldl_related (.refl r s) .trans _ (fun w l => hear_utters ha e l w) _ w

theorem carryOutWith_utters (ha : ∀ c w, Utters r s w (act r c w).2) {e : Effect}
    (he : e.record.Intact) (hs : e.record.schema = s) (w : Workspace) :
    Utters r s w (carryOutWith act r e w) := by
  unfold carryOutWith
  split
  · exact .refl r s w
  · next i hr =>
    have htold : Utters r s w (e.notices.foldl (fun w n => w.tell i.hub (n.apply r))
        (w.setRecord r fun i => { i with record := e.record })) := by
      refine fun _ => ⟨⟨{ i.resident with record := e.record }, ?_, he, hs⟩, ?_⟩
      · rw [core_impose hr, records_impose_self (core_records_of_some hr)]
      · rw [log_foldl fun w (n : Notice) => log_tell w i.hub (n.apply r)]
        exact .refl s w.log
    exact htold.trans (foldl_related (.refl r s) .trans _ (deliver_utters ha) _ _)

theorem sends_through {α : Type} {f : Link → α × Link}
    (h : Sends s w.log (f (w.link c)).2.log) : Sends s w.log (w.through c f).2.log := by
  unfold through setLink
  dsimp only
  split
  · exact .refl s w.log
  · exact h

theorem runWith_utters (ha : ∀ c w, Utters r s w (act r c w).2) (c : Record.Command)
    (w : Workspace) : Utters r s w (runWith act r c w).2 := by
  unfold runWith
  split
  · exact .refl r s w
  · next i hr =>
    rintro ⟨x, hx, hfit, hs⟩
    cases (core_records_of_some hr).symm.trans hx
    have hthrough : Utters r s w (w.through i.connection fun l => i.record.run l c).2 := by
      refine fun hw => ⟨⟨i.resident, ?_, hfit, hs⟩, sends_through ?_⟩
      · rw [core_through, setDatabase_records]
        exact core_records_of_some hr
      · exact hs ▸ (hfit.works (w.link i.connection) c).sends
    have hrun := (i.record.run_remains (w.link i.connection) c).2.trans hs
    exact (hthrough.trans (carryOutWith_utters ha (hfit.run _ c) hrun _))
      ⟨i.resident, core_records_of_some hr, hfit, hs⟩

theorem runNested_utters (r : RecordRef) (s : Schema) (n : Nat) (c : Record.Command)
    (w : Workspace) : Utters r s w (runNested n r c w).2 := by
  induction n generalizing c w with
  | zero => exact runWith_utters (fun _ w => .refl r s w) c w
  | succ n ih => exact runWith_utters ih c w

/-- A command on a record binds values that fit, and so do those that listeners
answer with. -/
theorem run_sends {i : Instance} (hr : w.records[r]? = some i) (h : i.record.Intact)
    (c : Record.Command) : Sends i.record.schema w.log (w.run r c).2.log :=
  (runNested_utters r i.record.schema _ c w ⟨i.resident, core_records_of_some hr, h, rfl⟩).2

/-! ## Runs -/

/-- A connection is to a database. -/
def Uses (w : Workspace) (c : ConnectionRef) (d : DatabaseRef) : Prop :=
  (w.connections[c]?).map (·.database) = some d

/-- Record types that share a table of a database are one type. -/
def Uniform (w : Workspace) (d : DatabaseRef) : Prop :=
  ∀ map ∈ w.maps, ∀ map' ∈ w.maps, w.Uses map.connection d → w.Uses map'.connection d →
    sameName map.schema.table map'.schema.table = true → map.schema = map'.schema

/-- The tables of a database are as the record types that use them make and fill
them, as far as there are any. -/
structure Furnished (w : Workspace) (d : DatabaseRef) (db : Database) : Prop where
  plain : db.Plain
  ready : ∀ map ∈ w.maps, w.Uses map.connection d → db.Ready map.schema

theorem furnished_empty (w : Workspace) (d : DatabaseRef) : w.Furnished d {} :=
  ⟨Database.plain_empty, fun map _ _ => Database.ready_empty map.schema⟩

/-- All values that have to do with a database fit the fields they are for. -/
structure WellTyped (w : Workspace) (d : DatabaseRef) : Prop where
  /-- Whatever becomes of a record, what it holds and what it binds. -/
  records : ∀ {r : RecordRef} {i}, w.records[r]? = some i → w.Uses i.connection d →
    ∀ ts, (∀ t ∈ ts, Record.Turn.Suits i.record.schema t) → (i.record.after ts).Fits ∧
      ∀ l c, Sends i.record.schema l.log ((i.record.after ts).run l c).2.log
  /-- What a command binds, with the answers of listeners. -/
  commands : ∀ {r : RecordRef} {i}, w.records[r]? = some i → w.Uses i.connection d →
    ∀ c, Sends i.record.schema w.log (w.run r c).2.log
  /-- What is read, if nothing fails. -/
  rows : ∀ map ∈ w.maps, w.Uses map.connection d →
    ∀ l : Link, l.database = w.databaseOf map.connection →
      (∀ f images, (l.selectWhere map.schema f).1 = .ok images →
        ∀ image ∈ images, image.Fits map.schema) ∧
      ∀ id image, (l.selectOne map.schema id).1 = .ok (some image) → image.Fits map.schema
  /-- What is stored, for the next run. -/
  furnished : w.Furnished d (w.core.database d)

theorem uses_of_core (h : w.core.connections[c]? = some d) : w.Uses c d :=
  (core_connections w c).symm.trans h

theorem mem_of_hosts (h : w.core.Hosts d s) :
    ∃ map ∈ w.maps, w.Uses map.connection d ∧ map.schema = s := by
  obtain ⟨m, map, hm, hc, hs⟩ := h
  exact ⟨map, List.mem_of_getElem? hm, uses_of_core hc, hs⟩

theorem Uniform.core (h : w.Uniform d) : w.core.Uniform d := by
  intro s s' hs hs' hn
  obtain ⟨map, hm, hu, rfl⟩ := mem_of_hosts hs
  obtain ⟨map', hm', hu', rfl⟩ := mem_of_hosts hs'
  exact h map hm map' hm' hu hu' hn

/-- Nothing is in memory at first. -/
theorem Boots.typed (hb : Boots w) (hf : w'.Furnished d (w.core.database d)) :
    w'.core.Typed d w.core := by
  refine ⟨hf.plain, fun hs => ?_, fun {r x} hx => ?_⟩
  · obtain ⟨map, hm, hu, rfl⟩ := mem_of_hosts hs
    exact hf.ready map hm hu
  · rw [hb.core] at hx
    cases hx

/-- One action keeps what is typed. -/
theorem perform_typed {own : Prop} {k : Core} {a : Action} (hs : w.core.Sound)
    (hw : Holding own w) (ha : a.Suits own) (ho : ¬a.Overwrites w d) (hu : k.Uniform d)
    (hlast : (w.perform a).2.core.Precedes k) (ht : k.Typed d w.core) :
    k.Typed d (w.perform a).2.core := by
  obtain ⟨⟨ds, hc⟩, -⟩ := perform_acts hs hw ha
  have hcourse : Course (fun e _ => e ≠ .foreign d) (ds.map id) w.core (w.perform a).2.core := by
    refine Chain.map (fun hd => ⟨?_, hd.2⟩) hc
    rintro rfl
    cases hd.1 with
    | foreign hover => exact ho hover
  exact ht.course hu hs hcourse hlast

/-- What is typed at first is typed after a run, seen from where the run ends. -/
theorem performAll_typed {own : Prop} {k : Core} {actions : List Action}
    (ha : Follows (fun w a => a.Suits own ∧ ¬a.Overwrites w d) w actions) (hs : w.core.Sound)
    (hw : Holding own w) (hu : k.Uniform d) (hlast : (w.performAll actions).core.Precedes k)
    (ht : k.Typed d w.core) : k.Typed d (w.performAll actions).core := by
  induction actions generalizing w with
  | nil => exact ht
  | cons a actions ih =>
    have hacts := perform_acts hs hw ha.1.1
    have hs' := hacts.sound hs
    have hnext := (performAll_precedes (fun h => h.1) ha.2 hs' hacts.2).trans hlast
    exact ih ha.2 hs' hacts.2 hlast (perform_typed hs hw ha.1.1 ha.1.2 hu hnext ht)

theorem Uses.core (h : w.Uses c d) : w.core.connections[c]? = some d :=
  (core_connections w c).trans h

theorem databaseOf_of_uses (h : w.Uses c d) : w.databaseOf c = w.core.database d := by
  rw [← core_databaseOf, databaseOf_eq h.core]

/-- Where the core is typed, so is all that comes of it. -/
theorem wellTyped_of_typed (hs : w.core.Sound) (ht : w.core.Typed d w.core) : w.WellTyped d where
  records {r i} hr hu ts hts := by
    have hfit : (i.record.after ts).Intact :=
      (ht.intact (core_records_of_some hr) hu.core).after hts
    refine ⟨hfit.fits, fun l c => ?_⟩
    have hsends := (hfit.works l c).sends
    rwa [(i.record.after_remains ts).2] at hsends
  commands hr hu c := run_sends hr (ht.intact (core_records_of_some hr) hu.core) c
  rows map hm hu l hl := by
    obtain ⟨m, hm⟩ := List.mem_iff_getElem?.mp hm
    have hready := ht.ready ⟨m, map, hm, hu.core, rfl⟩
    rw [databaseOf_of_uses hu] at hl
    have hp := hs.proper hm
    refine ⟨fun f images hok => ?_, fun id image hok => ?_⟩
    · obtain ⟨k, hread⟩ := Link.read_of_selectWhere hok
      rw [hl] at hread
      exact Database.fits_of_read hready hp hread
    · obtain ⟨k, images, hread, hhead⟩ := Link.read_of_selectOne hok
      rw [hl] at hread
      exact Database.fits_of_read hready hp hread image (List.mem_of_head? hhead)
  furnished := by
    refine ⟨ht.plain, fun map hm hu => ?_⟩
    obtain ⟨m, hm⟩ := List.mem_iff_getElem?.mp hm
    exact ht.ready ⟨m, map, hm, hu.core, rfl⟩

/-- Whatever a program does and whatever fails: where only records write to a
database, and its tables were made for the types that use them, values fit. -/
theorem wellTyped_of_run (hb : Boots w) {actions : List Action}
    (h : (∀ a ∈ actions, a.sharesHub = false) ∨ ∀ a ∈ actions, a.steps = false)
    (ho : Follows (fun w a => ¬a.Overwrites w d) w actions)
    (hu : (w.performAll actions).Uniform d)
    (hf : (w.performAll actions).Furnished d (w.core.database d)) :
    (w.performAll actions).WellTyped d := by
  have hsuits := follows_of_forall (w := w) (suits_of_run h)
  refine wellTyped_of_typed (hb.good h).1 (performAll_typed (hsuits.and ho) hb.sound hb.holding
    hu.core (.refl _) (hb.typed hf))

/-- The only record type there is shares its table with no other. -/
theorem uniform_of_single {map : IdentityMap} (h : w.maps = [map]) : w.Uniform d := by
  intro a ha b hb _ _ _
  rw [h] at ha hb
  rw [List.mem_singleton.mp ha, List.mem_singleton.mp hb]

/-- A workspace in which the fourth statement is refused. -/
def failing : Workspace := { outage := fun _ n => if n = 3 then some .reference else none }

theorem boots_failing : Boots failing :=
  ⟨rfl, rfl, rfl, rfl, rfl, rfl, rfl, rfl, rfl, by simp [failing]⟩

/-- A commit that is refused half way, and an undo of what it wrote. -/
def halfSaved : List Action :=
  [.openStore "store" .inMemory,
    .registerType "store"
      { table := "NOTES", fields := [⟨"TITLE", .text, true⟩, ⟨"RANK", .integer, false⟩] } "notes",
    .newRecord "notes" (.ofOrdinal 1) (some "note"), .command "note" .commit,
    .command "note" (.set "TITLE" (.text "milk")), .command "note" (.set "RANK" (.integer 7)),
    .command "note" .commit, .command "note" (.replay .undo)]

/-- The rank was not written and has an edit still; the title can be redone. -/
theorem wellTyped_halfSaved : Boots failing ∧ (∀ a ∈ halfSaved, a.sharesHub = false) ∧
    Follows (fun w a => ¬a.Overwrites w 0) failing halfSaved ∧
    (failing.performAll halfSaved).Uniform 0 ∧
    (failing.performAll halfSaved).Furnished 0 (failing.core.database 0) ∧
    (failing.performAll halfSaved).records.map (·.record.values) =
      [[("TITLE", .text ""), ("RANK", .integer 7)]] ∧
    (failing.performAll halfSaved).records.map (·.record.dirtyFields) = [["RANK"]] ∧
    (failing.performAll halfSaved).records.map (·.record.redo) =
      [[⟨[("TITLE", .text "milk")]⟩]] ∧
    (failing.performAll halfSaved).WellTyped 0 := by
  have hfollows : Follows (fun w a => ¬a.Overwrites w 0) failing halfSaved :=
    ⟨id, id, id, id, id, id, id, id, trivial⟩
  have huniform : (failing.performAll halfSaved).Uniform 0 := uniform_of_single rfl
  have hfurnished := (failing.performAll halfSaved).furnished_empty 0
  exact ⟨boots_failing, by decide, hfollows, huniform, hfurnished, by rfl, by rfl, by rfl,
    wellTyped_of_run boots_failing (.inl (by decide)) hfollows huniform hfurnished⟩

/-! ## A table of another type -/

/-- Notes with a count. -/
def counted (t : FieldType) : Schema :=
  { table := "NOTES", fields := [⟨"COUNT", t, false⟩], parentColumn := none }

/-- A file in the directory that the program runs in. -/
def nearby : Settings := (Settings.onDisk "").withFileName "n"

/-- What a session leaves on disk in which the count is a text. -/
def leftover : Workspace where
  databases := [(({} : Link).ensureTable (counted .text)).2.database]
  volumes := { files := [(Path.place "n", 0)] }

theorem boots_leftover : Boots leftover :=
  ⟨rfl, rfl, rfl, rfl, rfl, rfl, rfl, rfl, rfl, by simp [leftover]⟩

/-- The next session, in which the count is a number. -/
def retyped : List Action :=
  [.openStore "store" nearby,
    .registerType "store" { table := "NOTES", fields := [⟨"COUNT", .integer, false⟩] } "notes",
    .newRecord "notes" (.ofOrdinal 1) (some "note"),
    .command "note" (.set "COUNT" (.integer 5)), .command "note" .commit]

/-- The workspace once the store is open. -/
def reopened : Workspace where
  databases := leftover.databases
  volumes := leftover.volumes
  connections := [{ database := 0 }]
  hubs := [{}]
  stores := [("store", { settings := nearby, connection := 0, hub := 0 })]
  log := [.databaseOpened "n", .storeOpened "n" 255]

theorem path_nearby : nearby.path? = some "n" := by
  simp [nearby, Settings.path?, Settings.onDisk, Settings.withFileName, Path.join]

theorem parts_nil : Path.parts "" = [] := by
  have hsplit : "".splitOn "/" = [""] := by
    unfold String.splitOn
    rw [if_neg (by decide)]
    unfold String.splitOnAux
    rw [if_pos (show String.Pos.Raw.atEnd "" 0 = true from rfl)]
    rfl
  rw [Path.parts, hsplit]
  rfl

theorem makeDirectory_leftover : leftover.makeDirectory "" = (.ok (), leftover) := by
  have hvolumes : leftover.volumes.makeDirectory "" = .ok leftover.volumes := by
    unfold Volumes.makeDirectory
    rw [parts_nil, Volumes.makeAll]
    simp [Volumes.maxPath]
  rw [makeDirectory, hvolumes]

theorem databaseAt_leftover : leftover.databaseAt "n" = (.ok 0, leftover) := by
  have hfile : leftover.volumes.files.lookup (Path.place "n") = some 0 := List.lookup_cons_self
  unfold databaseAt
  dsimp only
  rw [hfile, show nulPlace? "n" = none from rfl]

theorem perform_reopen : (leftover.perform (.openStore "store" nearby)).2 = reopened := by
  have hopen : leftover.openDatabase nearby = (.ok 0, leftover.report (.databaseOpened "n")) := by
    rw [openDatabase, path_nearby, show nearby.directory = some "" from rfl]
    dsimp only
    rw [makeDirectory_leftover]
    dsimp only
    rw [databaseAt_leftover]
  have hstorage : nearby.storage = "n" := by
    rw [Settings.storage, path_nearby]
    rfl
  rw [perform, openStore, hopen, hstorage]
  rfl

theorem performAll_retyped : leftover.performAll retyped = reopened.performAll retyped.tail :=
  congrArg (performAll · retyped.tail) perform_reopen

/-- All rows of the store are of the one type and written by its records, yet the
number is read as a text. -/
theorem not_wellTyped_retyped : Boots leftover ∧ (∀ a ∈ retyped, a.sharesHub = false) ∧
    Follows (fun w a => ¬a.Overwrites w 0) leftover retyped ∧
    (leftover.databases.flatMap (·.tables)).flatMap (·.rows) = [] ∧
    (leftover.performAll retyped).records.map (·.record.schema) = [counted .integer] ∧
    (((leftover.performAll retyped).link 0).selectOne (counted .integer) (.ofOrdinal 1)).1 =
      .ok (some ⟨.ofOrdinal 1, none, [.text "5"]⟩) ∧
    ¬(leftover.performAll retyped).WellTyped 0 := by
  rw [performAll_retyped]
  have hread : (((reopened.performAll retyped.tail).link 0).selectOne (counted .integer)
      (.ofOrdinal 1)).1 = .ok (some ⟨.ofOrdinal 1, none, [.text "5"]⟩) := by rfl
  refine ⟨boots_leftover, by decide, ⟨id, id, id, id, id, trivial⟩, by rfl, by rfl, hread,
    fun h => ?_⟩
  obtain ⟨map, hm, hschema, hconnection⟩ : ∃ map,
      (reopened.performAll retyped.tail).maps[0]? = some map ∧
        map.schema = counted .integer ∧ map.connection = 0 := ⟨_, rfl, rfl, rfl⟩
  have hrows := (h.rows map (List.mem_of_getElem? hm) (by rw [hconnection]; rfl)
    ((reopened.performAll retyped.tail).link 0) (by rw [hconnection]; rfl)).2
  rw [hschema] at hrows
  have hfits := (hrows _ _ hread).values (i := 0) (f := ⟨"COUNT", .integer, false⟩)
    (v := .text "5") rfl rfl
  cases hfits

end Workspace

end LiveRecords
