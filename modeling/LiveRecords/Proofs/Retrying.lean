import LiveRecords.Proofs.Committing
import LiveRecords.Proofs.Retracing
import Mathlib.Data.List.Nodup
import Mathlib.Data.List.Perm.Basic

/-!
# Commits that are tried again

A commit that stops half way is called again, until one succeeds. All calls
together come to what one commit would have done that succeeds at once. What
was stored before is divided among them: each edited field is remembered by the
call that wrote it. So as many undos as there are change sets take the record
and its row back to what was stored before the first call, the edits being given
up.
-/

namespace LiveRecords

namespace Slot

variable {t : Slot} {ts : List Slot} {cs : List ChangeSet}

/-- A slot after one replay after another, each of which was written. -/
def replayed (cs : List ChangeSet) (t : Slot) : Slot := cs.foldl (fun t c => t.restored c) t

theorem replayed_of_held
    (h : ∀ c ∈ cs, ∀ v, c.get? t.name = some v → t = .clean t.field v) : t.replayed cs = t := by
  induction cs with
  | nil => rfl
  | cons c cs ih =>
    have hfirst : t.restored c = t := by
      unfold restored
      split
      · rfl
      · next v hv => exact (h c List.mem_cons_self v hv).symm
    show (t.restored c).replayed cs = t
    rw [hfirst]
    exact ih fun c' hc' => h c' (List.mem_cons_of_mem _ hc')

/-- Where all that is recorded for a slot is one value, that is what it comes to. -/
theorem replayed_of_named {v : Value} (h : ∀ c ∈ cs, ∀ u, c.get? t.name = some u → u = v)
    (hc : ∃ c ∈ cs, c.get? t.name = some v) : t.replayed cs = .clean t.field v := by
  induction cs with
  | nil =>
    obtain ⟨c, hc, -⟩ := hc
    cases hc
  | cons c cs ih =>
    have hrest : ∀ c' ∈ cs, ∀ u, c'.get? t.name = some u → u = v := fun c' hc' =>
      h c' (List.mem_cons_of_mem _ hc')
    show (t.restored c).replayed cs = .clean t.field v
    unfold restored
    split
    · next hnone =>
      obtain ⟨c', hc', hv⟩ := hc
      rcases List.mem_cons.mp hc' with rfl | hc'
      · rw [hnone] at hv
        cases hv
      · exact ih hrest ⟨c', hc', hv⟩
    · next u hu =>
      rw [h c List.mem_cons_self u hu]
      exact replayed_of_held fun c' hc' w hw => by rw [hrest c' hc' w hw]; rfl

/-- Change sets that hold between them what was stored under the edits of some
slots take those slots back, after the edits were written. -/
theorem replayed_settle (hm : ∀ t ∈ ts, t.dirty = (t.current != t.baseline))
    (hn : (ts.map (·.name)).Nodup) (hcs : (cs.flatMap (·.entries)).Perm (previous ts))
    (ht : t ∈ ts) : t.settle.replayed cs = t.revert := by
  have hheld : ∀ c ∈ cs, ∀ v, c.get? t.name = some v → t.dirty = true ∧ t.baseline = v := by
    intro c hc v hv
    obtain ⟨u, hu, hdirty, hname, hbase⟩ :=
      mem_previous.mp (hcs.subset (List.mem_flatMap.mpr ⟨c, hc, mem_of_lookup hv⟩))
    rw [← Record.eq_of_name hn hu ht hname]
    exact ⟨hdirty, hbase⟩
  cases hd : t.dirty with
  | false =>
    rw [settle_of_clean (hm t ht) hd, revert_of_clean (hm t ht) hd]
    refine replayed_of_held fun c hc v hv => ?_
    rw [hd] at hheld
    cases (hheld c hc v hv).1
  | true =>
    refine replayed_of_named (v := t.baseline) (fun c hc v hv => (hheld c hc v hv).2.symm) ?_
    obtain ⟨c, hc, he⟩ := List.mem_flatMap.mp
      (hcs.symm.subset (mem_previous.mpr ⟨t, ht, hd, rfl, rfl⟩))
    have hnamed : t.name ∈ c.fields := List.mem_map_of_mem he
    obtain ⟨v, hv⟩ := Option.isSome_iff_exists.mp (ChangeSet.isSome_get?_iff.mpr hnamed)
    exact ⟨c, hc, by rw [name_settle, hv, (hheld c hc v hv).2]⟩

end Slot

namespace Record

open Database (Docile Stores)
open Link (Writes)
open Slot (previous)

variable {x y z w : Record} {l : Link} {d d' d'' : Database} {cs : List ChangeSet}

/-! ## Until one succeeds -/

/-- A commit is called again until it succeeds, each time over a link of its own to
the database as the call before it left that. A link may refuse any statement, for
whatever reason, and what one refuses the next may pass. -/
inductive Retried : Record → Database → Record → Database → Prop
  | done {x : Record} {l : Link} {o : CommitOutcome} : (x.commit l).1.1 = .ok o →
      Retried x l.database (x.commit l).1.2.record (x.commit l).2.database
  | again {x z : Record} {l : Link} {d : Database} {e : StoreError} :
      (x.commit l).1.1 = .error e →
      Retried (x.commit l).1.2.record (x.commit l).2.database z d → Retried x l.database z d

/-- What commits come to together of which the last succeeds. -/
structure Completes (x : Record) (d : Database) (z : Record) (d' : Database)
    (pushed : List ChangeSet) : Prop where
  remains : x.Remains z
  slots : z.slots = x.slots.map Slot.settle
  undo : z.undo = pushed ++ x.undo
  entries : (pushed.flatMap (·.entries)).Perm (previous x.slots)
  updates : d.updates x.schema x.id x.edits = .ok d'

theorem Completes.names (h : x.Completes d z d' cs) :
    z.slots.map (·.name) = x.slots.map (·.name) := by
  rw [h.slots, List.map_map]
  rfl

theorem stored_commit (h : (x.isNew || x.deletePending) = false) (l : Link) :
    ((x.commit l).1.2.record.isNew || (x.commit l).1.2.record.deletePending) = false := by
  rw [commit_of_stored h l]
  unfold commitFields
  dsimp only
  split <;> exact h

/-- What one call remembers. -/
theorem Remembers.pushed {es : List (String × Value)} {e : Effect} (h : x.Remembers es e) :
    ∃ cs, e.record.undo = cs ++ x.undo ∧ (cs.flatMap (·.entries)).Perm es := by
  by_cases hes : es = []
  · exact ⟨[], (h.nothing hes).1, by rw [hes]; exact .refl _⟩
  · obtain ⟨c, hc, hundo, -⟩ := h.something hes
    exact ⟨[c], hundo, by simpa using hc⟩

theorem Saves.completes {l l' : Link} (hw : Writes x.schema x.id x.edits l l')
    (h : x.Saves l l') :
    ∃ cs, x.Completes l.database (x.commit l).1.2.record (x.commit l).2.database cs := by
  obtain ⟨cs, hundo, hentries⟩ := h.remembers.pushed
  exact ⟨cs, x.run_remains l .commit, h.slots, hundo, hentries, h.database ▸ hw.database⟩

/-- A call that fails does its part, and the others the rest. -/
theorem Breaks.completes {done rest : List Slot} {t : Slot} {l₁ l₂ : Link} {e : StoreError}
    (hs : x.slots = done ++ t :: rest) (hh : Halts x.schema x.id l done t l₁ e l₂)
    (h : x.Breaks l done t rest l₁ e) {later : List ChangeSet}
    (hz : (x.commit l).1.2.record.Completes (x.commit l).2.database z d' later) :
    ∃ cs, x.Completes l.database z d' cs := by
  obtain ⟨cs, hundo, hentries⟩ := h.remembers.pushed
  have hremains : x.Remains (x.commit l).1.2.record := x.run_remains l .commit
  refine ⟨later ++ cs, ⟨hz.remains.1.trans hremains.1, hz.remains.2.trans hremains.2⟩,
    ?_, ?_, ?_, ?_⟩
  · rw [hz.slots, h.slots, hs]
    simp [Function.comp_def, Slot.settle]
  · rw [hz.undo, hundo, List.append_assoc]
  · have hlater := hz.entries
    rw [h.slots, Slot.previous_append, Slot.previous_settle, List.nil_append] at hlater
    rw [List.flatMap_append, hs, Slot.previous_append]
    exact (hlater.append hentries).trans List.perm_append_comm
  · have hrest := hz.updates
    have hsplit : x.edits = Slot.edits done ++ Slot.edits (t :: rest) :=
      (congrArg Slot.edits hs).trans (Slot.edits_append done (t :: rest))
    have hleft : (x.commit l).1.2.record.edits = Slot.edits (t :: rest) := by
      show Slot.edits (x.commit l).1.2.record.slots = _
      rw [h.slots, Slot.edits_append, Slot.edits_settle, List.nil_append]
    rw [hleft, hremains.1, hremains.2, h.database] at hrest
    rw [hsplit, Database.updates_append, hh.writes.database]
    exact hrest

theorem Retried.completes (h : Retried x d z d') (hx : x.Coherent)
    (hstored : (x.isNew || x.deletePending) = false) : ∃ cs, x.Completes d z d' cs := by
  induction h with
  | @done x l o hok =>
    obtain ⟨l', hw⟩ | ⟨done, t, rest, l₁, e, l₂, hs, hh⟩ :=
      writes_or_halts x.schema x.id x.slots l
    · exact (saves_of_writes hx hstored hw).completes hw
    · rw [(breaks_of_halts hx hstored hs hh).result] at hok
      cases hok
  | @again x z l d e herror _ ih =>
    obtain ⟨l', hw⟩ | ⟨done, t, rest, l₁, e, l₂, hs, hh⟩ :=
      writes_or_halts x.schema x.id x.slots l
    · rw [(saves_of_writes hx hstored hw).result] at herror
      cases herror
    · obtain ⟨later, hz⟩ := ih (hx.commit l) (stored_commit hstored l)
      exact (breaks_of_halts hx hstored hs hh).completes hs hh hz

/-! ## Back again -/

/-- Undo is called so many times, and succeeds each time. -/
inductive Undone : Nat → Record → Database → Record → Database → Prop
  | none (x : Record) (d : Database) : Undone 0 x d x d
  | next {n : Nat} {x y : Record} {l : Link} {d : Database} : (x.replay .undo l).1.1 = .ok true →
      Undone n (x.replay .undo l).1.2.record (x.replay .undo l).2.database y d →
      Undone (n + 1) x l.database y d

theorem recorded_of_same_names {c : ChangeSet} {ts us : List Slot}
    (h : us.map (·.name) = ts.map (·.name)) : recorded c us = recorded c ts := by
  have hnames : ∀ ts : List Slot, recorded c ts =
      (ts.map (·.name)).filterMap fun name => (c.get? name).map fun v => (name, v) := fun ts => by
    rw [List.filterMap_map]
    rfl
  rw [hnames, hnames, h]

/-- What undos come to together. -/
theorem Undone.replayed {older : List ChangeSet} (h : Undone cs.length z d w d')
    (hn : (z.slots.map (·.name)).Nodup) (hz : z.undo = cs ++ older) :
    w.slots = z.slots.map (Slot.replayed cs) ∧ w.undo = older ∧
      d.updates z.schema z.id (cs.flatMap fun c => recorded c z.slots) = .ok d' := by
  induction cs generalizing z d with
  | nil =>
    cases h
    exact ⟨(List.map_id _).symm, hz, rfl⟩
  | cons c cs ih =>
    cases h with
    | @next _ _ _ l _ hok hrest =>
      have hs : z.stack .undo = c :: (cs ++ older) := hz
      obtain ⟨hslots, hwrites⟩ := replay_of_ok hn hs hok
      have hreplay := exchanged_replay hn hs l
      have hnames := hreplay.names
      obtain ⟨hw, hundo, hupdates⟩ := ih hrest (hnames.symm ▸ hn) hreplay.taken
      refine ⟨?_, hundo, ?_⟩
      · rw [hw, hslots, List.map_map]
        rfl
      · have hback : (cs.flatMap fun c => recorded c (z.replay .undo l).1.2.record.slots) =
            cs.flatMap fun c => recorded c z.slots := by
          congr 1
          funext c'
          exact recorded_of_same_names hnames
        rw [hback, hreplay.remains.1, hreplay.remains.2] at hupdates
        rw [List.flatMap_cons, Database.updates_append, hwrites.database]
        exact hupdates

/-- A change set is what it holds for slots among which are all that it names. -/
theorem recorded_perm {c : ChangeSet} {ts : List Slot} (hc : (c.entries.map (·.1)).Nodup)
    (hn : (ts.map (·.name)).Nodup) (h : ∀ e ∈ c.entries, e.1 ∈ ts.map (·.name)) :
    (recorded c ts).Perm c.entries := by
  have hnodup : (recorded c ts).Nodup :=
    List.Nodup.of_map _ (hn.sublist (recorded_names_sublist c ts))
  refine (List.perm_ext_iff_of_nodup hnodup (List.Nodup.of_map _ hc)).mpr fun e => ?_
  constructor
  · intro he
    obtain ⟨t, -, -, hv⟩ := mem_recorded.mp he
    exact mem_of_lookup hv
  · intro he
    obtain ⟨t, ht, hname⟩ := List.mem_map.mp (h e he)
    exact mem_recorded.mpr ⟨t, ht, hname, lookup_of_mem hc he⟩

/-- The undos write what was stored under the edits. -/
theorem Completes.back (h : x.Completes d z d' cs) (hn : (x.slots.map (·.name)).Nodup) :
    (cs.flatMap fun c => recorded c z.slots).Perm (previous x.slots) := by
  have hnodup : ((cs.flatMap (·.entries)).map (·.1)).Nodup :=
    (h.entries.map _).nodup_iff.mpr (Slot.previous_nodup hn)
  refine (List.Perm.flatMap_left cs fun c hc => ?_).trans h.entries
  rw [recorded_of_same_names h.names]
  have hsub : c.entries.Sublist (cs.flatMap (·.entries)) := by
    rw [List.flatMap_def]
    exact List.sublist_flatten_of_mem (List.mem_map_of_mem hc)
  refine recorded_perm (hnodup.sublist (hsub.map _)) hn fun e he => ?_
  obtain ⟨t, ht, -, hname, -⟩ := Slot.mem_previous.mp (h.entries.subset (hsub.subset he))
  exact hname ▸ List.mem_map_of_mem ht

/-! ## Together -/

/-- A row holds what a record takes for stored, as its columns store it. -/
def AgreesWith (x : Record) (t : Table) (r : Table.Row) : Prop :=
  ∀ u ∈ x.slots, t.hasColumn u.name = true ∧
    t.cell r u.name = (t.affinity u.name).store (Table.Cell.ofValue u.baseline)

/-- In the table of a record type a row agrees with a record if it has its baselines. -/
theorem agreesWith_tableOf (hp : x.schema.Proper) {es : List Shelved} (h : Shelf x.schema es)
    {e : Shelved} (he : e ∈ es) (hagree : e.image.Agrees x.schema x.slots) :
    x.AgreesWith (tableOf x.schema es) (e.row x.schema) := by
  have hn : x.schema.Named := h.named (List.ne_nil_of_mem he)
  intro u hu
  obtain ⟨i, hi, hv⟩ := Option.bind_eq_some_iff.mp (hagree u hu)
  obtain ⟨f, hf, hname⟩ := RowImage.fieldIndex?_eq_some hi
  have hcolumn : (tableOf x.schema es).column? u.name = some (.ofField f) :=
    hname ▸ hasColumn_field hp hn hf
  have hcell : (tableOf x.schema es).cell (e.row x.schema) u.name =
      Table.Cell.ofValue u.baseline := hname ▸ cell_field hp hn hf hv
  refine ⟨by rw [Table.hasColumn, hcolumn]; rfl, ?_⟩
  rw [hcell, Table.affinity, hcolumn]
  exact (Table.Affinity.store_ofValue_of_fits ((h.fits e he).values hf hv)).symm

/-- What commits of a record come to together, beside one commit in their place,
and what so many undos as they have change sets pushed make of that. -/
structure Converges (x : Record) (d : Database) (z : Record) (d' : Database)
    (pushed : List ChangeSet) : Prop where
  /-- One commit would have done, if nothing had failed for other reasons. -/
  possible : ∀ l : Link, l.database = d → l.Unrefused → ∃ o, (x.commit l).1.1 = .ok o
  once : ∀ (l : Link) (o : CommitOutcome), l.database = d → (x.commit l).1.1 = .ok o →
    (x.commit l).1.2.record.slots = z.slots ∧ (x.commit l).2.database = d'
  slots : z.slots = x.slots.map Slot.settle
  undo : z.undo = pushed ++ x.undo
  /-- Each edited field is named by one of the change sets, and once. -/
  fields : (pushed.flatMap ChangeSet.fields).Perm x.dirtyFields
  undone : ∀ w d'', Undone pushed.length z d' w d'' →
    w.slots = x.slots.map Slot.revert ∧ w.undo = x.undo
  row : d.Docile x.schema → ∀ t r, d.Stores x.schema x.id t r → x.AgreesWith t r →
    ∀ w d'', Undone pushed.length z d' w d'' →
      ∃ t' r', t'.columns = t.columns ∧ d''.Stores x.schema x.id t' r' ∧ t.Alike r r'

theorem Completes.row (hx : x.Framed) (h : x.Completes d z d' cs) (hu : Undone cs.length z d' w d'')
    (hd : d.Docile x.schema) {t : Table} {r : Table.Row} (hr : d.Stores x.schema x.id t r)
    (hagree : x.AgreesWith t r) :
    ∃ t' r', t'.columns = t.columns ∧ d''.Stores x.schema x.id t' r' ∧ t.Alike r r' := by
  have hn := hx.names_nodup
  have hback := h.back hn
  obtain ⟨-, -, hupdates⟩ := hu.replayed (h.names.symm ▸ hn) h.undo
  rw [h.remains.1, h.remains.2] at hupdates
  have hall : d.updates x.schema x.id (x.edits ++ cs.flatMap fun c => recorded c z.slots) =
      .ok d'' := by
    rw [Database.updates_append, h.updates]
    exact hupdates
  have hslot : ∀ e ∈ cs.flatMap fun c => recorded c z.slots,
      ∃ u ∈ x.slots, u.name = e.1 ∧ u.baseline = e.2 := fun e he => by
    obtain ⟨u, hu, -, hname, hvalue⟩ := Slot.mem_previous.mp (hback.subset he)
    exact ⟨u, hu, hname, hvalue⟩
  have hapart : (cs.flatMap fun c => recorded c z.slots).Pairwise
      fun a b => sameName a.1 b.1 = false := by
    refine (hback.pairwise_iff fun hab => (sameName_comm _ _).trans hab).mpr ?_
    exact List.pairwise_map.mpr (hx.apart List.filter_sublist)
  refine Database.alike_of_updates_back hd ?_ hapart hr ?_ ?_ hall
  · intro e he
    obtain ⟨u, hu, hname, -⟩ := hslot e he
    exact hname ▸ hx.unkeyed hu
  · intro e he
    obtain ⟨u, hu, hname, hvalue⟩ := hslot e he
    exact hname ▸ hvalue ▸ hagree u hu
  · intro e he
    obtain ⟨u, hu, hdirty, rfl⟩ := Slot.mem_edits he
    exact ⟨_, hback.symm.subset (Slot.mem_previous.mpr ⟨u, hu, hdirty, rfl, rfl⟩), rfl⟩

/-- However many commits fail, and wherever, before one succeeds: together they
leave what one commit leaves that succeeds, and can be undone one by one. -/
theorem commits_converge (hx : x.Lived) (hstored : (x.isNew || x.deletePending) = false)
    (h : Retried x d z d') : ∃ pushed, x.Converges d z d' pushed := by
  have hc := hx.coherent
  have hn := hc.toFramed.names_nodup
  obtain ⟨cs, hall⟩ := h.completes hc hstored
  refine ⟨cs, ⟨?_, ?_, hall.slots, hall.undo, ?_, ?_, ?_⟩⟩
  · intro l hl hun
    have hknown : ∀ e ∈ x.edits, (x.schema.field? e.1).isSome := fun e he => by
      obtain ⟨t, ht, -, rfl⟩ := Slot.mem_edits he
      exact hc.toFramed.known ht
    obtain ⟨l', hw, -⟩ := Link.writes_of_unrefused hun hknown (hl ▸ hall.updates)
    exact ⟨_, (saves_of_writes hc hstored hw).result⟩
  · intro l o hl hok
    obtain ⟨cs', hdone⟩ := (Retried.done hok).completes hc hstored
    have hsame := hdone.updates
    rw [hl, hall.updates] at hsame
    exact ⟨hdone.slots.trans hall.slots.symm, (Except.ok.inj hsame).symm⟩
  · have hfields : cs.flatMap ChangeSet.fields = (cs.flatMap (·.entries)).map (·.1) :=
      List.map_flatMap.symm
    rw [hfields, ← x.names_previous]
    exact hall.entries.map _
  · intro w d'' hu
    obtain ⟨hw, hundo, -⟩ := hu.replayed (hall.names.symm ▸ hn) hall.undo
    refine ⟨?_, hundo⟩
    rw [hw, hall.slots, List.map_map]
    exact List.map_congr_left fun t ht => Slot.replayed_settle hc.marks hn hall.entries ht
  · exact fun hd t r hr hagree w d'' hu => hall.row hc.toFramed hu hd hr hagree

/-- A link to a database on which only so many statements pass. -/
def halting (n : Nat) (d : Database) : Link :=
  { database := d, outage := fun i => if i < n then none else some .reference }

/-- A record with a database, after a command over such a link. -/
def called (c : Command) (n : Nat) (p : Record × Database) : Record × Database :=
  ((p.1.run (halting n p.2) c).1.2.record, (p.1.run (halting n p.2) c).2.database)

/-- What is stored before. -/
def storedNote : Table.Row := ⟨1, [.blob (RecordId.ofOrdinal 1).bytes, .text [], .null]⟩

/-- The edits of both fields, beside a database of one table. -/
def beside (t : Table) : Record × Database := (bothEdited, { tables := [t] })

def edited : Record × Database := beside oneNote

theorem agreesWith_bothEdited {t : Table} {r : Table.Row}
    (htitle : t.hasColumn "TITLE" = true ∧ t.cell r "TITLE" = (t.affinity "TITLE").store (.text []))
    (hrank : t.hasColumn "RANK" = true ∧ t.cell r "RANK" = (t.affinity "RANK").store .null) :
    bothEdited.AgreesWith t r := by
  intro u hu
  have hslots : bothEdited.slots = [editedTitle, editedRank] := rfl
  rw [hslots, List.mem_cons, List.mem_singleton] at hu
  rcases hu with rfl | rfl
  · exact htitle
  · exact hrank

/-- One commit stops after the title, and the next writes the rank. -/
def retried : Record × Database := called .commit 9 (called .commit 1 edited)

/-- Two undos take both back, and the row is as it was. -/
theorem commits_converge_note :
    (called .commit 1 edited).1.dirtyFields = ["RANK"] ∧
    ∃ pushed, edited.1.Converges edited.2 retried.1 retried.2 pushed ∧ pushed.length = 2 ∧
      (called (.replay .undo) 9 (called (.replay .undo) 9 retried)).1.values =
        [("TITLE", .text ""), ("RANK", .null)] ∧
      ∃ t r, (called (.replay .undo) 9 (called (.replay .undo) 9 retried)).2.Stores ranked
        (.ofOrdinal 1) t r ∧ oneNote.Alike storedNote r := by
  have hdraft : Draft.build ⟨ranked.table, ranked.fields, ranked.parentColumn⟩ = .ok ranked := by
    rfl
  have hlived : edited.1.Lived := ⟨_, ranked, _, _, _, hdraft, rfl⟩
  have hretried : Retried edited.1 edited.2 retried.1 retried.2 :=
    .again (l := halting 1 edited.2) rfl (.done (l := halting 9 (called .commit 1 edited).2) rfl)
  have hundone : Undone 2 retried.1 retried.2
      (called (.replay .undo) 9 (called (.replay .undo) 9 retried)).1
      (called (.replay .undo) 9 (called (.replay .undo) 9 retried)).2 :=
    .next (l := halting 9 retried.2) rfl
      (.next (l := halting 9 (called (.replay .undo) 9 retried).2) rfl (.none _ _))
  obtain ⟨pushed, hconverges⟩ := commits_converge hlived rfl hretried
  have hlen := congrArg List.length hconverges.undo
  rw [List.length_append] at hlen
  have htwo : pushed.length = 2 := hlen.symm
  have hstores : edited.2.Stores ranked (.ofOrdinal 1) oneNote storedNote := ⟨rfl, rfl⟩
  have hagree : edited.1.AgreesWith oneNote storedNote :=
    agreesWith_bothEdited ⟨rfl, rfl⟩ ⟨rfl, rfl⟩
  obtain ⟨t, r, -, hrow⟩ := hconverges.row (Database.docile_alone docile_oneNote rfl) _ _ hstores
    hagree _ _ (htwo.symm ▸ hundone)
  exact ⟨rfl, pushed, hconverges, htwo, rfl, t, r, hrow⟩

/-! ## What does not come back -/

/-- One more column refers to the title, and is cleared where that changes. -/
def clearing : Table :=
  { name := "NOTES"
    columns := Table.Column.ofSchema ranked ++ [{ name := "ECHO", affinity := .text }]
    keys := [.primary, ⟨[("TITLE", .binary)], none⟩]
    references := [{ columns := ["ECHO"], parent := "NOTES", parentColumns := ["TITLE"],
                     onUpdate := .setNull }]
    rows := [emptyRow] }

/-- A title and a rank that another row has together are passed over; it has the
title that is stored with the rank that is edited. -/
def crowded : Table :=
  { name := "NOTES"
    columns := Table.Column.ofSchema ranked
    keys := [.primary, ⟨[("TITLE", .binary), ("RANK", .binary)], some .ignore⟩]
    rows := [storedNote, ⟨2, [.blob (RecordId.ofOrdinal 2).bytes, .text [], .integer 1]⟩] }

/-- One commit and one undo, and all statements pass: the fields are without the
edits that they had before. In such tables the row is not what it was either. -/
theorem undo_without_edits :
    (∀ t ∈ [oneNote, clearing, crowded],
      (∃ r, (beside t).2.Stores ranked (.ofOrdinal 1) t r ∧ bothEdited.AgreesWith t r) ∧
      Retried bothEdited (beside t).2 (called .commit 9 (beside t)).1
        (called .commit 9 (beside t)).2 ∧
      Undone 1 (called .commit 9 (beside t)).1 (called .commit 9 (beside t)).2
        (called (.replay .undo) 9 (called .commit 9 (beside t))).1
        (called (.replay .undo) 9 (called .commit 9 (beside t))).2) ∧
    bothEdited.values = [("TITLE", .text "milk"), ("RANK", .integer 1)] ∧
    (called (.replay .undo) 9 (called .commit 9 edited)).1.values =
      [("TITLE", .text ""), ("RANK", .null)] ∧
    bothEdited.storedCell (halting 9 (beside clearing).2) "ECHO" = some (.text []) ∧
    bothEdited.storedCell (halting 9
      (called (.replay .undo) 9 (called .commit 9 (beside clearing))).2) "ECHO" = some .null ∧
    bothEdited.storedCell (halting 9 (beside crowded).2) "TITLE" = some (.text []) ∧
    bothEdited.storedCell (halting 9
      (called (.replay .undo) 9 (called .commit 9 (beside crowded))).2) "TITLE" =
      some (.text (Text.Utf8.bytes "milk")) := by
  refine ⟨fun t ht => ?_, rfl, rfl, rfl, rfl, rfl, rfl⟩
  simp only [List.mem_cons, List.not_mem_nil, or_false] at ht
  rcases ht with rfl | rfl | rfl
  · exact ⟨⟨storedNote, ⟨rfl, rfl⟩, agreesWith_bothEdited ⟨rfl, rfl⟩ ⟨rfl, rfl⟩⟩,
      .done (l := halting 9 (beside oneNote).2) rfl,
      .next (l := halting 9 (called .commit 9 (beside oneNote)).2) rfl (.none _ _)⟩
  · exact ⟨⟨emptyRow, ⟨rfl, rfl⟩, agreesWith_bothEdited ⟨rfl, rfl⟩ ⟨rfl, rfl⟩⟩,
      .done (l := halting 9 (beside clearing).2) rfl,
      .next (l := halting 9 (called .commit 9 (beside clearing)).2) rfl (.none _ _)⟩
  · exact ⟨⟨storedNote, ⟨rfl, rfl⟩, agreesWith_bothEdited ⟨rfl, rfl⟩ ⟨rfl, rfl⟩⟩,
      .done (l := halting 9 (beside crowded).2) rfl,
      .next (l := halting 9 (called .commit 9 (beside crowded)).2) rfl (.none _ _)⟩

end Record

end LiveRecords
