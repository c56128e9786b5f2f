import LiveRecords.Proofs.Carrying
import LiveRecords.Proofs.Outlook

/-!
# What statements bind

A record whose values fit binds values that fit in every statement of every
command, whatever fails. Such statements leave rows of the type in its table and
nothing else changed, so what is read from there fits again.
-/

namespace LiveRecords

/-- The values that a statement binds fit the columns they go into. -/
def Statement.Binds (q : Statement) : Prop :=
  match q.request with
  | .insertRow _ values _ => values.length = q.schema.fields.length ∧
      ∀ e ∈ q.schema.fields.zip values, e.2.fits e.1.type e.1.notNull = true
  | .updateColumn _ column v =>
    (∃ f ∈ q.schema.fields, f.name = column ∧ v.fits f.type f.notNull = true) ∨
      q.schema.parentColumn = some column ∧ ∃ parent, v = .ofId? parent
  | _ => True

/-- All statements that a log comes to have besides are of a type and bind values
that fit. -/
def Sends (s : Schema) (log log' : List Diagnostic) : Prop :=
  ∃ ds, log' = log ++ ds ∧ ∀ q, .statement q ∈ ds → q.schema = s ∧ q.Binds

variable {s s' : Schema} {q : Request} {id : RecordId} {n : Nat}

theorem Sends.refl (s : Schema) (log : List Diagnostic) : Sends s log log :=
  ⟨[], by simp, by simp⟩

theorem Sends.trans {log log₁ log₂ : List Diagnostic} (h₁ : Sends s log log₁)
    (h₂ : Sends s log₁ log₂) : Sends s log log₂ := by
  obtain ⟨ds₁, hlog₁, hds₁⟩ := h₁
  obtain ⟨ds₂, hlog₂, hds₂⟩ := h₂
  refine ⟨ds₁ ++ ds₂, by rw [hlog₂, hlog₁, List.append_assoc], fun q hq => ?_⟩
  exact (List.mem_append.mp hq).elim (hds₁ q) (hds₂ q)

namespace Database

variable {d d' d₁ d₂ : Database}

/-- A database with other rows of a type in its table, if any, and nothing else
changed. -/
def Refills (d : Database) (s : Schema) (d' : Database) : Prop :=
  d' = d ∨ ∃ es es', d.Holds s es ∧ Shelf s es' ∧ d' = d.shelve s es'

theorem Refills.plain (h : d.Refills s d') (hd : d.Plain) : d'.Plain := by
  obtain rfl | ⟨es, es', -, -, rfl⟩ := h
  · exact hd
  · exact hd.shelve s es'

theorem Refills.ready (h : d.Refills s d') (hr : d.Ready s) : d'.Ready s := by
  obtain rfl | ⟨es, es', hes, hshelf, rfl⟩ := h
  · exact hr
  · exact .inr ⟨es', hes.shelve hshelf⟩

/-- Tables of other names are as before. -/
theorem Refills.ready_of_ne (h : d.Refills s d') (hn : sameName s.table s'.table = false)
    (hr : d.Ready s') : d'.Ready s' := by
  obtain rfl | ⟨es, es', hes, -, rfl⟩ := h
  · exact hr
  · exact hr.of_ne hes es' hn

theorem Refills.trans (h₁ : d.Refills s d₁) (h₂ : d₁.Refills s d₂) : d.Refills s d₂ := by
  obtain rfl | ⟨es, es', hes, hshelf, rfl⟩ := h₁
  · exact h₂
  · obtain rfl | ⟨es₁, es₂, -, hshelf₂, rfl⟩ := h₂
    · exact .inr ⟨es, es', hes, hshelf, rfl⟩
    · exact .inr ⟨es, es₂, hes, hshelf₂, shelve_shelve s es' es₂⟩

/-- A statement that succeeds has a table to be about, with rows of the type. -/
theorem holds_of_target (hr : d.Ready s) {t : Table} (h : d.target ⟨s, q⟩ = .ok t) :
    ∃ es, d.Holds s es ∧ t = tableOf s es := by
  obtain ⟨-, ht⟩ := target_eq_ok h
  obtain hnone | ⟨es, hes⟩ := hr
  · rw [hnone] at ht
    cases ht
  · rw [hes.table] at ht
    cases ht
    exact ⟨es, hes, rfl⟩

/-- A statement that binds values that fit leaves rows of the type. -/
theorem execute_refills (hd : d.Plain) (hr : d.Ready s) (hp : s.Proper)
    (hb : Statement.Binds ⟨s, q⟩) (hq : q ≠ .createTable)
    (hok : d.execute ⟨s, q⟩ = .ok (n, d')) : d.Refills s d' := by
  cases q with
  | createTable => exact absurd rfl hq
  | insertRow id values parent =>
    simp only [execute, bind_eq_ok] at hok
    obtain ⟨t, htarget, d₁, hinsert, hpair⟩ := hok
    cases hpair
    obtain ⟨es, hes, rfl⟩ := holds_of_target hr htarget
    have hfits : RowImage.Fits ⟨id, s.parentColumn.bind fun _ => parent, values⟩ s := by
      refine ⟨hb.1, fun {i f v} hf hv => ?_, fun hs => by rw [hs]; rfl⟩
      exact hb.2 (f, v) (List.mem_iff_getElem?.mpr ⟨i, List.getElem?_zip_eq_some.mpr ⟨hf, hv⟩⟩)
    have hparent : s.parentColumn ≠ none → (s.parentColumn.bind fun _ => parent) = parent := by
      intro hs
      obtain ⟨p, hs⟩ := Option.ne_none_iff_exists'.mp hs
      rw [hs]
      rfl
    obtain ⟨es', hshelf, hd'⟩ := insertRow_keeps hd hes hp
      (named_of_insert (target_eq_ok htarget).1) hfits hparent hinsert
    exact .inr ⟨es, es', hes, hshelf, hd'⟩
  | updateColumn id column v =>
    have htarget : ∃ t, d.target ⟨s, .updateColumn id column v⟩ = .ok t := by
      simp only [execute, bind_eq_ok] at hok
      exact ⟨_, hok.choose_spec.1⟩
    obtain ⟨es, hes, -⟩ := holds_of_target hr htarget.choose_spec
    obtain ⟨f, hw⟩ : ∃ f, Writes s es column v f := by
      obtain ⟨f, hf, rfl, hv⟩ | ⟨hs, parent, rfl⟩ := hb
      · obtain ⟨i, hi⟩ := List.mem_iff_getElem?.mp hf
        exact ⟨_, writes_field es hp (hp.fieldIndex? hi) hi hv⟩
      · exact ⟨_, writes_parent es hp hs parent⟩
    exact .inr ⟨es, _, hes, hes.shelf.revise hw.id hw.fits,
      execute_updateColumn hd hes hp hw hok⟩
  | deleteRow id =>
    have htarget : ∃ t, d.target ⟨s, .deleteRow id⟩ = .ok t := by
      simp only [execute, bind_eq_ok] at hok
      exact ⟨_, hok.choose_spec.1⟩
    obtain ⟨es, hes, -⟩ := holds_of_target hr htarget.choose_spec
    exact .inr ⟨es, _, hes, hes.shelf.unshelve id, execute_deleteRow hd hes hok⟩
  | selectRows k =>
    cases hok
    exact .inl rfl
  | selectKeys k limit offset =>
    cases hok
    exact .inl rfl

/-- What is read of a type fits it. -/
theorem fits_of_read (hr : d.Ready s) (hp : s.Proper) {clause : Clause} {limit offset : Nat}
    {found : List RowImage}
    (h : Link.read d ⟨s, .selectRows clause⟩ clause limit offset (RowImage.ofRow s) = .ok found) :
    ∀ x ∈ found, x.Fits s := by
  obtain hnone | ⟨es, hes⟩ := hr
  · unfold Link.read Database.query at h
    split at h
    · cases h
    · next hquery =>
      split at hquery
      · cases hquery
      split at hquery
      · cases hquery
      · next t htarget =>
        obtain ⟨-, ht⟩ := target_eq_ok htarget
        rw [hnone] at ht
        cases ht
  · intro x hx
    obtain ⟨e, he, rfl⟩ := Option.map_eq_some_iff.mp ((read_eq_ok hes hp h).2 x hx)
    exact hes.shelf.fits e (mem_of_shelved? he).1

end Database

/-! ## Links -/

namespace Link

variable {l l' l₁ l₂ : Link}

/-- All that a link is sent from one state to another are statements of a type
that bind values that fit. -/
structure Works (s : Schema) (l l' : Link) : Prop where
  sends : Sends s l.log l'.log
  refills : l.database.Plain → l.database.Ready s → l.database.Refills s l'.database

theorem Works.refl (s : Schema) (l : Link) : l.Works s l :=
  ⟨.refl s l.log, fun _ _ => .inl rfl⟩

theorem Works.trans (h₁ : l.Works s l₁) (h₂ : l₁.Works s l₂) : l.Works s l₂ := by
  refine ⟨h₁.sends.trans h₂.sends, fun hd hr => ?_⟩
  have hfirst := h₁.refills hd hr
  exact hfirst.trans (h₂.refills (hfirst.plain hd) (hfirst.ready hr))

theorem works_report (s : Schema) (l : Link) {d : Diagnostic} (hd : ∀ q, d ≠ .statement q) :
    l.Works s (l.report d) :=
  ⟨⟨[d], rfl, fun q hq => absurd (List.mem_singleton.mp hq).symm (hd q)⟩, fun _ _ => .inl rfl⟩

theorem works_execute (hp : s.Proper) (hb : Statement.Binds ⟨s, q⟩) (hq : q ≠ .createTable)
    (l : Link) : l.Works s (l.execute ⟨s, q⟩).2 := by
  constructor
  · have hown : ∀ q', Diagnostic.statement q' ∈ [Diagnostic.statement ⟨s, q⟩] →
        q'.schema = s ∧ q'.Binds := by
      intro q' hq'
      cases List.mem_singleton.mp hq'
      exact ⟨rfl, hb⟩
    have hrefused : ∀ e, ∀ q', Diagnostic.statement q' ∈
        [Diagnostic.statement ⟨s, q⟩, .refused ⟨s, q⟩ e] → q'.schema = s ∧ q'.Binds := by
      intro e q' hq'
      rcases List.mem_cons.mp hq' with hq' | hq'
      · exact hown q' (List.mem_singleton.mpr hq')
      · cases List.mem_singleton.mp hq'
    unfold execute
    dsimp only
    split
    · next e _ => exact ⟨_, List.append_assoc _ _ _, hrefused e⟩
    · split
      · next e _ => exact ⟨_, List.append_assoc _ _ _, hrefused e⟩
      · exact ⟨_, rfl, hown⟩
  · intro hd hr
    obtain ⟨e, -, hdb⟩ | ⟨n, d, -, hok, hdb⟩ := l.execute_cases ⟨s, q⟩
    · exact .inl hdb
    · rw [hdb]
      exact Database.execute_refills hd hr hp hb hq hok

theorem works_setColumn (hp : s.Proper) {column : String} {v : Value}
    (hb : Statement.Binds ⟨s, .updateColumn id column v⟩) (l : Link) :
    l.Works s (l.setColumn s id column v).2 := by
  have hx := works_execute hp hb (fun h => by cases h) l
  unfold setColumn
  split
  · next hs => rw [hs] at hx; exact hx
  · next hs => rw [hs] at hx; exact hx

theorem works_updateField (hp : s.Proper) {f : Field} (hf : f ∈ s.fields) {v : Value}
    (hv : v.fits f.type f.notNull = true) (l : Link) :
    l.Works s (l.updateField s id f.name v).2 := by
  unfold updateField
  split
  · exact .refl s l
  · exact works_setColumn hp (.inl ⟨f, hf, rfl, hv⟩) l

theorem works_updateParent (hp : s.Proper) (parent : Option RecordId) (l : Link) :
    l.Works s (l.updateParent s id parent).2 := by
  unfold updateParent
  split
  · exact .refl s l
  · next p hs => exact works_setColumn hp (.inr ⟨hs, parent, rfl⟩) l

theorem works_insertRow (hp : s.Proper) {x : RowImage} (hf : x.Fits s) (parent : Option RecordId)
    (l : Link) : l.Works s (l.insertRow s x.id x.values parent).2 := by
  have hb : Statement.Binds ⟨s, .insertRow x.id x.values parent⟩ := by
    refine ⟨hf.length, fun e he => ?_⟩
    obtain ⟨i, hi⟩ := List.mem_iff_getElem?.mp he
    obtain ⟨hfield, hvalue⟩ := List.getElem?_zip_eq_some.mp hi
    exact hf.values hfield hvalue
  have hx := works_execute hp hb (fun h => by cases h) l
  unfold insertRow
  split
  · exact .refl s l
  split
  · next hs => rw [hs] at hx; exact hx
  · next hs => rw [hs] at hx; exact hx

end Link

/-! ## Commands -/

namespace Record

variable {x : Record}

open Link

theorem works_writeDirty (hp : s.Proper) (id : RecordId) {ts : List Slot}
    (hts : ∀ t ∈ ts, t.In s) (l : Link) : l.Works s (writeDirty s id ts l).2 := by
  induction ts generalizing l with
  | nil => exact .refl s l
  | cons t ts ih =>
    have ht := hts t List.mem_cons_self
    have hrest := fun l => ih (fun u hu => hts u (List.mem_cons_of_mem _ hu)) l
    have hfirst : l.Works s (l.updateField s id t.name t.current).2 :=
      works_updateField hp ht.field ht.fits l
    unfold writeDirty
    split
    · split
      · next hs =>
        rw [hs] at hfirst
        exact hfirst.trans (hrest _)
      · next hs =>
        rw [hs] at hfirst
        exact hfirst
    · exact hrest l

theorem works_writeThrough (hp : s.Proper) (id : RecordId) {t : Slot} (ht : t.In s)
    (failure : Option StoreError) (l : Link) :
    l.Works s (writeThrough s id t failure l).2.2 := by
  have hfirst : l.Works s (l.updateField s id t.name t.current).2 :=
    works_updateField hp ht.field ht.fits l
  unfold writeThrough
  split
  · exact .refl s l
  · split
    · next hs => rw [hs] at hfirst; exact hfirst
    · next hs => rw [hs] at hfirst; exact hfirst

/-- Values that are swapped in come from the change set, those of other slots are
left there. -/
theorem works_replaySlots (hp : s.Proper) (id : RecordId) {ts : List Slot} (c : ChangeSet)
    (failure : Option StoreError) (hts : ∀ t ∈ ts, t.field ∈ s.fields)
    (hc : ∀ t ∈ ts, ∀ v, c.get? t.name = some v → v.fits t.field.type t.field.notNull = true)
    (hn : (ts.map (·.name)).Nodup) (l : Link) :
    l.Works s (replaySlots s id ts c failure l).2 := by
  induction ts generalizing l c failure with
  | nil => exact .refl s l
  | cons t ts ih =>
    rw [List.map_cons, List.nodup_cons] at hn
    have hrest : ∀ u ∈ ts, u.field ∈ s.fields := fun u hu => hts u (List.mem_cons_of_mem _ hu)
    unfold replaySlots
    split
    · exact ih c failure hrest (fun u hu => hc u (List.mem_cons_of_mem _ hu)) hn.2 l
    · next restored c' hswap =>
      obtain ⟨old, hold, hpair⟩ := Option.map_eq_some_iff.mp hswap
      cases hpair
      have ht : Slot.In { t with current := restored } s :=
        ⟨hts t List.mem_cons_self, hc t List.mem_cons_self restored hold⟩
      refine (works_writeThrough hp id ht failure l).trans
        (ih _ _ hrest (fun u hu v hv => ?_) hn.2 _)
      have hne : u.name ≠ t.name := fun he => hn.1 (he ▸ List.mem_map_of_mem hu)
      rw [ChangeSet.get?_record_of_ne c hne] at hv
      exact hc u (List.mem_cons_of_mem _ hu) v hv

theorem works_commitRow (h : x.Intact) (l : Link) : l.Works x.schema (x.commitRow l).2 := by
  have hfirst : l.Works x.schema (l.insertRow x.schema x.id (x.slots.map (·.current)) x.parent).2 :=
    works_insertRow h.proper (image_fits h) x.parent l
  unfold commitRow
  split
  · next hs => rw [hs] at hfirst; exact hfirst
  · next hs =>
    rw [hs] at hfirst
    exact hfirst.trans (works_report _ _ fun q hq => by cases hq)

theorem works_result (s : Schema) (w : Written) (x : Record) (l : Link) :
    l.Works s (w.result x l).2 := by
  unfold Written.result
  split
  · exact .refl s l
  · split
    · exact .refl s l
    · exact works_report s l fun q hq => by cases hq

theorem works_commitFields (h : x.Intact) (l : Link) : l.Works x.schema (x.commitFields l).2 := by
  have hfirst := works_writeDirty h.proper x.id h.slots_in l
  have hdone := hfirst.trans (works_result x.schema (writeDirty x.schema x.id x.slots l).1 x _)
  unfold commitFields
  dsimp only
  split
  · exact hdone
  · exact hdone

theorem works_replay (h : x.Intact) (t : Track) (l : Link) :
    l.Works x.schema (x.replay t l).2 := by
  cases hs : x.stack t with
  | nil =>
    rw [replay_nil hs]
    exact .refl _ l
  | cons c older =>
    have hc := h.changes t c (by rw [hs]; exact List.mem_cons_self)
    simp only [Record.replay, hs]
    exact works_replaySlots h.proper x.id c none (fun t ht => field_mem h.toShaped ht)
      (fun t ht v hv => hc.fits _ (field_mem h.toShaped ht) v hv) (names_nodup h.toShaped) l

/-- Whatever is asked of a record and whatever fails, it binds values that fit. -/
theorem Intact.works (h : x.Intact) (l : Link) (c : Command) :
    l.Works x.schema (x.run l c).2 := by
  cases c with
  | commit =>
    show l.Works x.schema (x.commit l).2
    unfold Record.commit
    split
    · exact works_commitRow h l
    · exact works_commitFields h l
  | replay t => exact works_replay h t l
  | _ => exact .refl _ l

end Record

end LiveRecords
