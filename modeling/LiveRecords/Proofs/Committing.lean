import LiveRecords.Proofs.Landing

/-!
# Commits from end to end

What a commit does in memory, in the store, to the statistics and in its answer,
for every record and every point at which a statement may fail. A commit of the
whole row is one statement, and all or nothing. A commit of fields sends one
update for each edited field and stops at the first that fails: what was written
before it counts as stored and is remembered in one change set, and from the
field that failed on everything is as it was.
-/

namespace LiveRecords

namespace Link

variable {l l' : Link} {s : Schema} {id : RecordId} {vs : List Value} {parent : Option RecordId}

/-- The statement that writes a whole row. -/
def insertion (s : Schema) (id : RecordId) (vs : List Value) (parent : Option RecordId) :
    Statement :=
  ⟨s, .insertRow id vs parent⟩

theorem insertRow_eq_ok (h : l.insertRow s id vs parent = (.ok (), l')) :
    ∃ n d, l.database.execute (insertion s id vs parent) = .ok (n, d) ∧
      l' = l.passed (insertion s id vs parent) d := by
  unfold insertRow at h
  split at h
  · cases h
  split at h
  · next n l₁ hex =>
    cases h
    obtain ⟨-, d, hd, hl⟩ := execute_eq_ok hex
    exact ⟨n, d, hd, hl⟩
  · cases h

theorem insertRow_eq_error {e : StoreError} (hlen : vs.length = s.fields.length)
    (h : l.insertRow s id vs parent = (.error e, l')) :
    ∃ r, e = .sql r ∧ l' = l.stopped (insertion s id vs parent) r := by
  unfold insertRow at h
  rw [if_neg (not_not_intro hlen)] at h
  split at h
  · cases h
  · next e' l₁ hex =>
    cases h
    exact execute_eq_error hex

end Link

namespace Record

open Database (Docile Stores Revised)
open Link (Writes)
open Slot (previous)

variable {x : Record} {l : Link}

/-! ## Commits of the whole row -/

/-- What a commit of the whole row comes to. -/
structure Inserts (x : Record) (l : Link) : Prop where
  /-- One statement is sent, with all current values and the parent. -/
  sent : (x.commit l).2.sent =
    l.sent ++ [Link.insertion x.schema x.id (x.slots.map (·.current)) x.parent]
  /-- Where it fails, nothing is different and nobody is told anything. -/
  refused : ∀ e, (x.commit l).1.1 = .error e →
    (x.commit l).1.2 = x.unchanged ∧ (x.commit l).2.stats = l.stats.fail ∧
      (x.commit l).2.database = l.database
  /-- Where it passes, all values are stored; stacks and the coordinator stay. -/
  passed : ∀ o, (x.commit l).1.1 = .ok o →
    o = .inserted ∧ (x.commit l).1.2.record =
        { x with isNew := false, deletePending := false, slots := x.slots.map Slot.settle,
                 dirty := false } ∧
      (x.commit l).1.2.notices = [] ∧
      (x.commit l).2.stats = { l.stats with inserts := l.stats.inserts + 1 } ∧
      ∃ n, l.database.execute (Link.insertion x.schema x.id (x.slots.map (·.current)) x.parent) =
        .ok (n, (x.commit l).2.database)

/-- A record whose flags are up to date, once all of its slots are settled. -/
theorem refresh_settled (h : x.refresh.1 = x) :
    (Record.refresh { x with
      isNew := false, deletePending := false, slots := x.slots.map Slot.settle }).1 =
      { x with isNew := false, deletePending := false, slots := x.slots.map Slot.settle,
               dirty := false } := by
  have hundo := congrArg Record.canUndo h
  have hredo := congrArg Record.canRedo h
  have hclean : (x.slots.map Slot.settle).any (·.dirty) = false := by
    rw [List.any_map, List.any_eq_false]
    exact fun _ _ => Bool.false_ne_true
  simp only [refresh] at hundo hredo ⊢
  rw [hclean, hundo, hredo]

theorem inserts_of_absent (hx : x.Coherent) (h : (x.isNew || x.deletePending) = true) :
    x.Inserts l := by
  have hlen : (x.slots.map (·.current)).length = x.schema.fields.length := by
    rw [← hx.fields, List.length_map, List.length_map]
  have hcommit : x.commit l = x.commitRow l := by rw [Record.commit, if_pos h]
  cases hw : l.insertRow x.schema x.id (x.slots.map (·.current)) x.parent with
  | mk result l' =>
    cases result with
    | error e =>
      have hrow : x.commitRow l = ((.error e, x.unchanged), l') := by rw [commitRow, hw]
      obtain ⟨r, -, rfl⟩ := Link.insertRow_eq_error hlen hw
      refine ⟨?_, ?_, ?_⟩ <;> rw [hcommit, hrow]
      · exact Link.sent_stopped _ _ _
      · exact fun _ _ => ⟨rfl, rfl, rfl⟩
      · intro o ho
        cases ho
    | ok u =>
      obtain ⟨n, d, hd, hl⟩ := Link.insertRow_eq_ok hw
      have hrow : ∃ after : Effect,
          x.commitRow l = ((.ok .inserted, after), l'.report (.recordInserted x.table x.id)) ∧
            after.record = (Record.refresh { x with
              isNew := false, deletePending := false, slots := x.slots.map Slot.settle }).1 ∧
            after.notices = [] := by
        rw [commitRow, hw]
        exact ⟨_, rfl, rfl, rfl⟩
      obtain ⟨after, hrow, hrecord, hnotices⟩ := hrow
      subst hl
      refine ⟨?_, ?_, ?_⟩ <;> rw [hcommit, hrow]
      · rw [Link.sent_report, Link.sent_passed]
        exact List.append_nil _
      · intro e he
        cases he
      · intro o ho
        cases ho
        exact ⟨rfl, hrecord.trans (refresh_settled hx.flags), hnotices, rfl, n, hd⟩

/-! ## Commits of fields -/

/-- What was taken for stored before becomes one change set, unless it is nothing. -/
structure Remembers (x : Record) (es : List (String × Value)) (e : Effect) : Prop where
  nothing : es = [] → e.record.undo = x.undo ∧ e.notices = []
  something : es ≠ [] →
    ∃ c : ChangeSet, c.entries.Perm es ∧ e.record.undo = c :: x.undo ∧ e.notices = [.gained .undo]
  redo : e.record.redo = x.redo

/-- What a commit of fields comes to where all updates pass. -/
structure Saves (x : Record) (l l' : Link) : Prop where
  result : (x.commit l).1.1 =
    .ok (if x.dirtyFields = [] then .unchanged else .updated x.dirtyFields)
  sent : (x.commit l).2.sent = l.sent ++ x.edits.map (Link.update x.schema x.id)
  stats : (x.commit l).2.stats = { l.stats with updates := l.stats.updates + x.dirtyFields.length }
  slots : (x.commit l).1.2.record.slots = x.slots.map Slot.settle
  remembers : x.Remembers (previous x.slots) (x.commit l).1.2
  database : (x.commit l).2.database = l'.database

/-- What a commit of fields comes to where the update of the edit in a slot fails
after the edits before it were written. -/
structure Breaks (x : Record) (l : Link) (done : List Slot) (t : Slot) (rest : List Slot)
    (l₁ : Link) (e : StoreError) : Prop where
  result : (x.commit l).1.1 = .error (if previous done = [] then e else
    .partialCommit x.table t.name ((previous done).map (·.1)) e)
  sent : (x.commit l).2.sent =
    l.sent ++ (Slot.edits done ++ [(t.name, t.current)]).map (Link.update x.schema x.id)
  stats : (x.commit l).2.stats =
    { l.stats with updates := l.stats.updates + (previous done).length,
                   failures := l.stats.failures + 1 }
  slots : (x.commit l).1.2.record.slots = done.map Slot.settle ++ t :: rest
  remembers : x.Remembers (previous done) (x.commit l).1.2
  database : (x.commit l).2.database = l₁.database

/-- What a commit makes of the slots that it wrote. -/
theorem commitFields_of_written {w : Written} {l' : Link}
    (hw : writeDirty x.schema x.id x.slots l = (w, l'))
    (hn : (w.previous.map (·.1)).Nodup) :
    (x.commitFields l).1.1 = (w.result x l').1 ∧ (x.commitFields l).2 = (w.result x l').2 ∧
      (x.commitFields l).1.2.record.slots = w.slots ∧
      x.Remembers w.previous (x.commitFields l).1.2 := by
  have hempty : w.changes.isEmpty = w.previous.isEmpty := by
    rw [Written.changes, isEmpty_foldl_record]
    exact Bool.true_and _
  unfold commitFields
  rw [hw]
  dsimp only
  cases hprev : w.previous with
  | nil =>
    rw [hprev] at hempty
    rw [List.isEmpty_nil] at hempty
    rw [if_pos hempty]
    exact ⟨rfl, rfl, rfl, fun _ => ⟨rfl, rfl⟩, fun h => absurd rfl h, rfl⟩
  | cons e es =>
    have hperm : w.changes.entries.Perm (e :: es) := hprev ▸ ChangeSet.ofEntries_perm hn
    rw [hprev, List.isEmpty_cons] at hempty
    rw [if_neg (by rw [hempty]; exact Bool.false_ne_true)]
    exact ⟨rfl, rfl, rfl, fun h => absurd h (List.cons_ne_nil e es),
      fun _ => ⟨w.changes, hperm, rfl, rfl⟩, rfl⟩

theorem commit_of_stored (h : (x.isNew || x.deletePending) = false) (l : Link) :
    x.commit l = x.commitFields l := by
  rw [Record.commit, if_neg (Bool.not_eq_true _ ▸ h)]

theorem names_previous (x : Record) : (previous x.slots).map (·.1) = x.dirtyFields := by
  simp [previous, dirtyFields]

theorem saves_of_writes (hx : x.Coherent) (h : (x.isNew || x.deletePending) = false) {l' : Link}
    (hw : Writes x.schema x.id x.edits l l') : x.Saves l l' := by
  have hcommit := commit_of_stored h l
  have hwritten := writeDirty_of_writes hx.marks hw
  have hlen : x.edits.length = x.dirtyFields.length := by
    rw [edits, dirtyFields, List.length_map, List.length_map]
  obtain ⟨hresult, hlink, hslots, hremembers⟩ :=
    commitFields_of_written hwritten (Slot.previous_nodup hx.toFramed.names_nodup)
  have hdone : Written.result ⟨x.slots.map Slot.settle, previous x.slots, none⟩ x l' =
      (.ok (if x.dirtyFields = [] then .unchanged else .updated x.dirtyFields), l') := by
    have hpersisted : Written.persisted ⟨x.slots.map Slot.settle, previous x.slots, none⟩ =
        x.dirtyFields := x.names_previous
    simp only [Written.result, hpersisted, List.isEmpty_iff]
  rw [hdone] at hresult hlink
  refine ⟨?_, ?_, ?_, ?_, ?_, ?_⟩ <;> rw [hcommit]
  · exact hresult
  · rw [hlink, hw.sent]
  · rw [hlink, hw.stats, hlen]
  · exact hslots
  · exact hremembers
  · rw [hlink]

theorem breaks_of_halts (hx : x.Coherent) (h : (x.isNew || x.deletePending) = false)
    {done rest : List Slot} {t : Slot} {l₁ l₂ : Link} {e : StoreError}
    (hs : x.slots = done ++ t :: rest) (hh : Halts x.schema x.id l done t l₁ e l₂) :
    x.Breaks l done t rest l₁ e := by
  have hcommit := commit_of_stored h l
  have hmarks : ∀ u ∈ done, u.dirty = (u.current != u.baseline) := fun u hu =>
    hx.marks u (by rw [hs]; exact List.mem_append_left _ hu)
  have hwritten := writeDirty_of_halts hmarks hh rest
  rw [← hs] at hwritten
  have hn : ((previous done).map (·.1)).Nodup := by
    refine Slot.previous_nodup ?_
    have hall := hx.toFramed.names_nodup
    rw [hs, List.map_append] at hall
    exact (List.nodup_append.mp hall).1
  obtain ⟨r, -, hl₂⟩ := Link.updateField_eq_error
    (hx.toFramed.known (by rw [hs]; simp)) hh.fails
  obtain ⟨hresult, hlink, hslots, hremembers⟩ := commitFields_of_written hwritten hn
  have hdone : ∃ l₃, Written.result
      ⟨done.map Slot.settle ++ t :: rest, previous done, some (t.name, e)⟩ x l₂ =
        (.error (if previous done = [] then e else
          .partialCommit x.table t.name ((previous done).map (·.1)) e), l₃) ∧
      l₃.sent = l₂.sent ∧ l₃.stats = l₂.stats ∧ l₃.database = l₂.database := by
    simp only [Written.result, Written.persisted, List.isEmpty_iff, List.map_eq_nil_iff]
    split
    · exact ⟨_, rfl, rfl, rfl, rfl⟩
    · exact ⟨_, rfl, (Link.sent_report _ _).trans (List.append_nil _), rfl, rfl⟩
  obtain ⟨l₃, hdone, hsent, hstats, hdb⟩ := hdone
  rw [hdone] at hresult hlink
  refine ⟨?_, ?_, ?_, ?_, ?_, ?_⟩ <;> rw [hcommit]
  · exact hresult
  · rw [hlink, hsent, hl₂, Link.sent_stopped, hh.writes.sent, List.map_append, List.append_assoc]
    rfl
  · rw [hlink, hstats, hl₂, Slot.length_previous]
    show l₁.stats.fail = _
    rw [hh.writes.stats]
    rfl
  · exact hslots
  · exact hremembers
  · rw [hlink, hdb, hl₂]
    rfl

/-! ## The stored row -/

/-- No two slots have the name of one column. -/
theorem Framed.apart (h : x.Framed) {us : List Slot} (hu : us.Sublist x.slots) :
    us.Pairwise fun a b => sameName a.name b.name = false := by
  have hnames : x.slots.map (·.name) = x.schema.fieldNames := by
    rw [Schema.fieldNames, ← h.fields, List.map_map]
    rfl
  have hfields := (List.pairwise_append.mp h.proper.distinct).1
  rw [← hnames] at hfields
  exact (List.pairwise_map.mp hfields).sublist hu

/-- No field has the name of the key. -/
theorem Framed.unkeyed (h : x.Framed) {t : Slot} (ht : t ∈ x.slots) :
    sameName t.name keyColumn = false :=
  h.proper.unkeyed _ (List.mem_append_left _ (h.name_mem ht))

/-- After edits of some slots were written, the row under the key holds them and
is otherwise as it was. -/
theorem revised_of_writes (hx : x.Framed) {us : List Slot} (hu : us.Sublist x.slots) {l' : Link}
    (hw : Writes x.schema x.id (Slot.edits us) l l') (hd : l.database.Docile x.schema) {t : Table}
    {r : Table.Row} (hr : l.database.Stores x.schema x.id t r) :
    ∃ t' r', t'.columns = t.columns ∧ l'.database.Stores x.schema x.id t' r' ∧
      Revised t (Slot.edits us) r r' := by
  have hkey : ∀ e ∈ Slot.edits us, sameName e.1 keyColumn = false := by
    intro e he
    obtain ⟨t, ht, -, rfl⟩ := Slot.mem_edits he
    exact hx.unkeyed (hu.subset ht)
  have hapart : (Slot.edits us).Pairwise fun a b => sameName a.1 b.1 = false :=
    List.pairwise_map.mpr (hx.apart (List.filter_sublist.trans hu))
  exact Database.revised_of_updates hd hkey hapart hr hw.database

/-- Of every record that has lived, and over every link: a commit of a new record,
or of one whose deletion is staged, is one statement, and all or nothing. Any other
commit writes all edits, or those before the first whose update fails, and there
is no third; what it wrote is what the row under the key comes to differ in. -/
theorem commit_end_to_end (hx : x.Lived) (l : Link) :
    ((x.isNew || x.deletePending) = true → x.Inserts l) ∧
    ((x.isNew || x.deletePending) = false →
      (∀ l', Writes x.schema x.id x.edits l l' →
        x.Saves l l' ∧ (l.database.Docile x.schema → ∀ t r,
          l.database.Stores x.schema x.id t r → ∃ t' r', t'.columns = t.columns ∧
            (x.commit l).2.database.Stores x.schema x.id t' r' ∧ Revised t x.edits r r')) ∧
      (∀ done t rest l₁ e l₂, x.slots = done ++ t :: rest →
        Halts x.schema x.id l done t l₁ e l₂ →
        x.Breaks l done t rest l₁ e ∧ (l.database.Docile x.schema → ∀ t r,
          l.database.Stores x.schema x.id t r → ∃ t' r', t'.columns = t.columns ∧
            (x.commit l).2.database.Stores x.schema x.id t' r' ∧
            Revised t (Slot.edits done) r r')) ∧
      ((∃ l', Writes x.schema x.id x.edits l l') ∨ ∃ done t rest l₁ e l₂,
        x.slots = done ++ t :: rest ∧ Halts x.schema x.id l done t l₁ e l₂)) := by
  have hc := hx.coherent
  refine ⟨fun habsent => inserts_of_absent hc habsent, fun hstored => ⟨?_, ?_, ?_⟩⟩
  · intro l' hw
    have hsaves := saves_of_writes hc hstored hw
    refine ⟨hsaves, fun hd t r hr => ?_⟩
    rw [hsaves.database]
    exact revised_of_writes hc.toFramed (List.Sublist.refl _) hw hd hr
  · intro done t rest l₁ e l₂ hs hh
    have hbreaks := breaks_of_halts hc hstored hs hh
    refine ⟨hbreaks, fun hd t r hr => ?_⟩
    rw [hbreaks.database]
    have hsub : done.Sublist x.slots := hs ▸ List.sublist_append_left _ _
    exact revised_of_writes hc.toFramed hsub hh.writes hd hr
  · exact writes_or_halts x.schema x.id x.slots l

/-- Both fields of a stored record are edited. -/
def bothEdited : Record :=
  (Record.initial (.ofOrdinal 1) ranked false).after
    [.asked (.set "TITLE" (.text "milk")) {}, .asked (.set "RANK" (.integer 1)) {}]

/-- A link to one table, in which the rank cannot be written. -/
def rankFrozen (t : Table) : Link :=
  { database := { tables := [{ t with guards := [⟨.update, some "RANK"⟩] }] } }

def editedTitle : Slot := ⟨⟨"TITLE", .text, true⟩, .text "milk", .text "", true⟩

def editedRank : Slot := ⟨⟨"RANK", .integer, false⟩, .integer 1, .null, true⟩

/-- A table of the record type with the row of one record. -/
def oneNote : Table := tableOf ranked [⟨1, ⟨.ofOrdinal 1, none, [.text "", .null]⟩⟩]

theorem docile_oneNote : oneNote.Docile := by
  refine Database.docile_tableOf ⟨by simp, by simp [Table.maxNumber], by simp, ?_,
    fun _ => by unfold Schema.Named; decide⟩
  intro e he
  rw [List.mem_singleton.mp he]
  refine ⟨rfl, ?_, fun _ => rfl⟩
  intro i f v hf hv
  match i with
  | 0 =>
    cases hf
    cases hv
    rfl
  | 1 =>
    cases hf
    cases hv
    rfl
  | i + 2 => cases hf

/-- The title is written and the rank is not; both are where that is allowed; and a
new record is inserted. -/
theorem commit_end_to_end_note :
    bothEdited.slots = [editedTitle] ++ editedRank :: [] ∧
      (∃ l₁, bothEdited.Breaks (rankFrozen oneNote) [editedTitle] editedRank [] l₁ (.sql .frozen)) ∧
      (∃ t r t' r', (rankFrozen oneNote).database.Stores ranked (.ofOrdinal 1) t r ∧
        (bothEdited.commit (rankFrozen oneNote)).2.database.Stores ranked (.ofOrdinal 1) t' r' ∧
        Revised t [("TITLE", .text "milk")] r r') ∧
      (∃ l', bothEdited.Saves { database := { tables := [oneNote] } } l') ∧
      (Record.initial (.ofOrdinal 2) ranked true).Inserts (rankFrozen oneNote) := by
  have hdraft : Draft.build ⟨ranked.table, ranked.fields, ranked.parentColumn⟩ = .ok ranked := by
    rfl
  have hlived : bothEdited.Lived := ⟨_, ranked, _, _, _, hdraft, rfl⟩
  have hnew : (Record.initial (.ofOrdinal 2) ranked true).Lived :=
    ⟨_, ranked, _, _, [], hdraft, rfl⟩
  have hdocile : (rankFrozen oneNote).database.Docile ranked :=
    Database.docile_alone (Database.docile_guards docile_oneNote _) rfl
  have hhalts : Halts ranked (.ofOrdinal 1) (rankFrozen oneNote) [editedTitle] editedRank
      ((rankFrozen oneNote).updateField ranked (.ofOrdinal 1) "TITLE" (.text "milk")).2
      (.sql .frozen) _ := ⟨.cons rfl (.nil _), rfl, rfl⟩
  have hstores : (rankFrozen oneNote).database.Stores ranked (.ofOrdinal 1)
      { oneNote with guards := [⟨.update, some "RANK"⟩] }
      ⟨1, [.blob (RecordId.ofOrdinal 1).bytes, .text [], .null]⟩ := ⟨rfl, rfl⟩
  have hwrites : ∃ l', Writes ranked (.ofOrdinal 1) bothEdited.edits
      { database := { tables := [oneNote] } } l' := ⟨_, .cons rfl (.cons rfl (.nil _))⟩
  obtain ⟨l', hwrites⟩ := hwrites
  have hfields := (commit_end_to_end hlived (rankFrozen oneNote)).2 rfl
  obtain ⟨hbreaks, hrow⟩ := hfields.2.1 [editedTitle] editedRank [] _ _ _ rfl hhalts
  obtain ⟨t', r', -, hstores', hrevised⟩ := hrow hdocile _ _ hstores
  exact ⟨rfl, ⟨_, hbreaks⟩, ⟨_, _, t', r', hstores, hstores', hrevised⟩,
    ⟨l', (((commit_end_to_end hlived _).2 rfl).1 l' hwrites).1⟩,
    (commit_end_to_end hnew (rankFrozen oneNote)).1 rfl⟩

/-! ## Beyond the fields -/

/-- The row of a record in a table with one more column, which is empty like the
title. -/
def emptyRow : Table.Row :=
  ⟨1, [.blob (RecordId.ofOrdinal 1).bytes, .text [], .null, .text []]⟩

/-- One more column is computed from the title. -/
def computing : Table :=
  { name := "NOTES"
    columns := Table.Column.ofSchema ranked ++
      [{ name := "ECHO", affinity := .text, generated := some (.name "TITLE" false) }]
    rows := [emptyRow] }

/-- One more column refers to the title, and follows it. -/
def following : Table :=
  { name := "NOTES"
    columns := Table.Column.ofSchema ranked ++ [{ name := "ECHO", affinity := .text }]
    keys := [.primary, ⟨[("TITLE", .binary)], none⟩]
    references := [{ columns := ["ECHO"], parent := "NOTES", parentColumns := ["TITLE"],
                     onUpdate := .cascade }]
    rows := [emptyRow] }

/-- A title that another row has is passed over. -/
def ignoring : Table :=
  { name := "NOTES"
    columns := Table.Column.ofSchema ranked
    keys := [.primary, ⟨[("TITLE", .binary)], some .ignore⟩]
    rows := [⟨1, [.blob (RecordId.ofOrdinal 1).bytes, .text [], .null]⟩,
      ⟨2, [.blob (RecordId.ofOrdinal 2).bytes, .text (Text.Utf8.bytes "milk"), .null]⟩] }

/-- What is stored of a record in a column. -/
def storedCell (x : Record) (l : Link) (column : String) : Option Table.Cell :=
  (l.database.table? x.table).bind fun t => (t.row? x.id).map fun r => t.cell r column

/-- In such tables a commit that stops after the title has another column changed
too, or has not changed the title. -/
theorem commit_beyond_fields :
    (∀ t ∈ [computing, following, ignoring], (bothEdited.commit (rankFrozen t)).1.1 =
      .error (.partialCommit "NOTES" "RANK" ["TITLE"] (.sql .frozen))) ∧
    (∀ t ∈ [computing, following],
      bothEdited.storedCell (rankFrozen t) "ECHO" = some (.text []) ∧
      bothEdited.storedCell (bothEdited.commit (rankFrozen t)).2 "ECHO" =
        some (.text (Text.Utf8.bytes "milk"))) ∧
    bothEdited.storedCell (bothEdited.commit (rankFrozen ignoring)).2 "TITLE" =
      some (.text []) := by
  refine ⟨?_, ?_, ?_⟩
  · intro t ht
    simp only [List.mem_cons, List.not_mem_nil, or_false] at ht
    rcases ht with rfl | rfl | rfl
    · rfl
    · rfl
    · rfl
  · intro t ht
    simp only [List.mem_cons, List.not_mem_nil, or_false] at ht
    rcases ht with rfl | rfl
    · exact ⟨rfl, rfl⟩
    · exact ⟨rfl, rfl⟩
  · rfl

end Record

end LiveRecords
