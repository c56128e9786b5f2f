import LiveRecords.Proofs.Alignment
import LiveRecords.Proofs.Lives

/-!
# Properties that last

A record in memory changes by commands, by rows that it takes in and by parents
that it is given, and by nothing else. So what rows and parents leave alone lasts
along every course in which no command on the record ends it: a record that is
stored stays so whatever it is asked, and a deletion is staged by one command
only.
-/

namespace LiveRecords

namespace Record

variable {P : Record → Prop} {x : Record}

/-- Neither a row that is taken in nor a parent ends a property of records. -/
structure Lasting (P : Record → Prop) : Prop where
  hydrate : ∀ (x : Record) (image : RowImage), P x → P (x.hydrate image).record
  setParent : ∀ (x : Record) (parent : Option RecordId), P x → P (x.setParent parent).record

/-- A command does not end a property of records. -/
def Command.Keeps (c : Command) (P : Record → Prop) : Prop :=
  ∀ (x : Record) (l : Link), P x → P (x.run l c).1.2.record

/-- What depends on neither slots nor parents lasts. -/
theorem lasting_of_flags (h : ∀ (x : Record) (ts : List Slot) (parent : Option RecordId),
    P x → P { x with slots := ts, parent := parent }) : Lasting P where
  hydrate x image hx := by
    have hrecord : (x.hydrate image).record =
        { x with slots := (takeIn x.slots image.values).1, parent := image.parent } :=
      record_setParent { x with slots := (takeIn x.slots image.values).1 } image.parent
    rw [hrecord]
    exact h x _ _ hx
  setParent x parent hx := by
    rw [record_setParent]
    exact h x x.slots parent hx

/-- The row of a record was written or read once. -/
def Stored (x : Record) : Prop := x.isNew = false

theorem lasting_stored : Lasting Stored := lasting_of_flags fun _ _ _ h => h

theorem keeps_stored (c : Command) : c.Keeps Stored := fun _ _ h => run_stored h c

/-- No deletion of the record is staged. -/
def Unstaged (x : Record) : Prop := x.deletePending = false

theorem lasting_unstaged : Lasting Unstaged := lasting_of_flags fun _ _ _ h => h

theorem commit_unstaged {l : Link} (h : x.Unstaged) : (x.commit l).1.2.record.Unstaged := by
  unfold Record.commit
  split
  · unfold commitRow
    split
    · exact h
    · rfl
  · unfold commitFields
    dsimp only
    split <;> exact h

theorem replay_unstaged {l : Link} (h : x.Unstaged) (t : Track) :
    (x.replay t l).1.2.record.Unstaged := by
  cases hs : x.stack t with
  | nil =>
    rw [replay_nil hs]
    exact h
  | cons c older =>
    simp only [Record.replay, hs]
    cases t <;> exact h

/-- Only one command stages a deletion. -/
theorem keeps_unstaged {c : Command} (hc : c ≠ .stageDelete) : c.Keeps Unstaged := by
  intro x l h
  cases c with
  | set field v =>
    show (x.set field v).2.record.Unstaged
    obtain ⟨hsame, -⟩ | ⟨t, -, -, -, -, hset⟩ := x.set_cases field v
    · rw [hsame]
      exact h
    · rw [hset]
      exact h
  | discard field =>
    show (x.discard field).2.record.Unstaged
    obtain hsame | ⟨t, -, -, hdiscard⟩ := x.discard_cases field
    · rw [hsame]
      exact h
    · rw [hdiscard]
      exact h
  | discardAll => exact h
  | stageDelete => exact absurd rfl hc
  | commit => exact commit_unstaged h
  | replay t => exact replay_unstaged h t

end Record

/-- No command that a deed may carry out on a record ends a property of it. -/
def Deed.Keeps (P : Record → Prop) (r : RecordRef) : Deed → Prop
  | .command j c _ => j = r → c.Keeps P
  | .read _ _ answered => answered r → ∀ c : Record.Command, c.Keeps P
  | _ => True

namespace Core

open Record (Lasting)

variable {P : Record → Prop} {k k' : Core} {m : MapRef} {r j : RecordRef}

/-- A record in memory has a property. -/
def Has (k : Core) (r : RecordRef) (P : Record → Prop) : Prop :=
  ∃ x, k.records[r]? = some x ∧ P x.record

theorem Has.of_eq (h : k.Has r P) (he : k'.records[r]? = k.records[r]?) : k'.Has r P := by
  obtain ⟨x, hx, hp⟩ := h
  exact ⟨x, he.trans hx, hp⟩

theorem Has.of_records (h : k.Has r P) (he : k'.records = k.records) : k'.Has r P :=
  h.of_eq (by rw [he])

/-- Another record may take the place of one only if it has the property too. -/
theorem Has.impose (h : k.Has r P) {x : Resident} (hx : k.records[j]? = some x) {e : Effect}
    (he : P x.record → P e.record) : (k.impose j e).Has r P := by
  by_cases hj : r = j
  · subst hj
    obtain ⟨y, hy, hp⟩ := h
    cases hx.symm.trans hy
    exact ⟨_, records_impose_self hx e, he hp⟩
  · exact h.of_eq (records_impose_of_ne k hj e)

theorem Has.commands (h : k.Has r P) {c : Record.Command}
    {reply : Except StoreError Record.Reply} (hc : j = r → c.Keeps P)
    (hd : Commands j c reply k k') : k'.Has r P := by
  by_cases hj : j = r
  · obtain ⟨x, l, hx, -, -, -, rfl⟩ := hd
    have hdb := setDatabase_records k x.connection (x.record.run l c).2.database
    exact (h.of_records hdb).impose (by rw [hdb]; exact hx) (hc hj x.record l)
  · exact h.of_eq (hd.records_of_ne fun he => hj he.symm)

theorem Has.asked (h : k.Has r P) {cs : List (Record.Command × Except StoreError Record.Reply)}
    (hc : cs ≠ [] → j = r → ∀ c : Record.Command, c.Keeps P) (hd : Asked j cs k k') :
    k'.Has r P := by
  induction hd with
  | nil _ => exact h
  | cons hcommand _ ih =>
    have hall := hc (List.cons_ne_nil _ _)
    exact ih (h.commands (fun hj => hall hj _) hcommand) fun _ => hall

theorem Has.enrol (h : k.Has r P) (m : MapRef) (map : IdentityMap) (id : RecordId)
    (isNew : Bool) : (k.enrol m map id isNew).Has r P := by
  obtain ⟨x, hx, hp⟩ := h
  exact ⟨x, (records_enrol_of_lt k m map id isNew (lt_of_record hx)).trans hx, hp⟩

theorem Has.takenIn (hP : Lasting P) (h : k.Has r P) {answered : RecordRef → Prop}
    {images : List RowImage} (ha : answered r → ∀ c : Record.Command, c.Keeps P)
    (hd : TakenIn m answered images k k') : k'.Has r P := by
  induction hd with
  | nil _ => exact h
  | @cons image images j x cs k₀ k₁ k₂ k₃ hmeets hx hasked hans _ ih =>
    have h₁ : k₁.Has r P := by
      obtain ⟨map, -, ⟨-, rfl⟩ | ⟨-, -, rfl⟩⟩ := hmeets
      · exact h
      · exact h.enrol m map _ _
    have h₂ := h₁.impose hx (hP.hydrate x.record image)
    exact ih (h₂.asked (fun hne hj => ha (hj ▸ hans hne)) hasked)

/-- A deed keeps a property that lasts, if its commands do. -/
theorem Does.has (hP : Lasting P) {d : Deed} (hd : Does d k k') (hk : d.Keeps P r)
    (h : k.Has r P) : k'.Has r P := by
  cases d with
  | command j c reply => exact h.commands hk hd
  | read m images answered =>
    obtain ⟨map, -, -, htaken⟩ := hd
    exact h.takenIn hP hk htaken
  | enrol m id isNew =>
    obtain ⟨map, -, -, rfl⟩ := hd
    exact h.enrol m map id isNew
  | place j parent =>
    obtain ⟨x, hx, -, rfl⟩ := hd
    exact h.impose hx (hP.setParent x.record parent)
  | adopt m j parent =>
    obtain ⟨map, x, l, -, hx, -, -, -, rfl⟩ := hd
    have hdb := setDatabase_records k map.connection
      (l.updateParent map.schema x.record.id parent).2.database
    exact (h.of_records hdb).impose (by rw [hdb]; exact hx) (hP.setParent x.record parent)
  | free m j =>
    obtain ⟨map, x, l, -, -, -, -, rfl⟩ := hd
    split
    · exact h.of_records (setDatabase_records _ _ _)
    · exact h.of_records rfl
  | ground =>
    obtain ⟨n, cs, i, -, rfl⟩ := hd
    exact h.of_records rfl
  | addMap s c i =>
    obtain ⟨l, -, -, -, -, -, rfl⟩ := hd
    exact h.of_records (setDatabase_records _ _ _)
  | foreign d =>
    obtain ⟨y, rfl⟩ := hd
    exact h.of_records rfl

theorem Course.has (hP : Lasting P) {allowed : Deed → Core → Prop}
    (ha : ∀ {d k}, allowed d k → d.Keeps P r) {ds : List Deed} (hd : Course allowed ds k k')
    (h : k.Has r P) : k'.Has r P :=
  Chain.preserves (P := fun k => k.Has r P) (fun hd hk => hd.2.has hP (ha hd.1) hk) hd h

end Core

end LiveRecords
