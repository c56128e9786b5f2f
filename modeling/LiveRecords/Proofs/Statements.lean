import LiveRecords.Link

/-!
# Statements on a link

What a statement does to the database behind a link: nothing if it reads, and
nothing if it fails, whatever it fails for.
-/

namespace LiveRecords.Link

/-- A statement is refused and changes nothing, or the database runs it. -/
theorem execute_cases (l : Link) (s : Statement) :
    (∃ e, (l.execute s).1 = .error e ∧ (l.execute s).2.database = l.database) ∨
      ∃ n d, (l.execute s).1 = .ok n ∧ l.database.execute s = .ok (n, d) ∧
        (l.execute s).2.database = d := by
  unfold execute
  dsimp only
  split
  · exact .inl ⟨_, rfl, rfl⟩
  · split
    · exact .inl ⟨_, rfl, rfl⟩
    · next n d hd => exact .inr ⟨n, d, rfl, hd, rfl⟩

theorem database_query {α : Type} (l : Link) (s : Statement) (k : Clause) (limit offset : Nat)
    (decode : Table → Table.Row → Except StoreError α) :
    (l.query s k limit offset decode).2.database = l.database := by
  unfold query
  dsimp only
  split
  · rfl
  · split <;> rfl

theorem read_of_query {α : Type} {l : Link} {s : Statement} {k : Clause} {limit offset : Nat}
    {decode : Table → Table.Row → Except StoreError α} {found : List α}
    (h : (l.query s k limit offset decode).1 = .ok found) :
    read l.database s k limit offset decode = .ok found := by
  unfold query at h
  dsimp only at h
  split at h
  · cases h
  · split at h
    · next hf => cases h; exact hf
    · cases h
    · cases h

theorem database_selectWhere (l : Link) (s : Schema) (f : Filter) :
    (l.selectWhere s f).2.database = l.database := by
  unfold selectWhere
  split
  · rfl
  · exact database_query l _ _ _ _ _

/-- The rows that a filter selects are rows that a statement reads. -/
theorem read_of_selectWhere {l : Link} {s : Schema} {f : Filter} {images : List RowImage}
    (h : (l.selectWhere s f).1 = .ok images) :
    ∃ k, read l.database ⟨s, .selectRows k⟩ k Database.maxPage 0 (RowImage.ofRow s) =
      .ok images := by
  unfold selectWhere at h
  split at h
  · cases h
  · next k _ => exact ⟨k, read_of_query h⟩

theorem database_selectOne (l : Link) (s : Schema) (id : RecordId) :
    (l.selectOne s id).2.database = l.database := by
  have hd := database_selectWhere l s (keyFilter id)
  unfold selectOne
  split
  · next h => rw [h] at hd; exact hd
  · next h => rw [h] at hd; exact hd

theorem read_of_selectOne {l : Link} {s : Schema} {id : RecordId} {image : RowImage}
    (h : (l.selectOne s id).1 = .ok (some image)) :
    ∃ k images, read l.database ⟨s, .selectRows k⟩ k Database.maxPage 0 (RowImage.ofRow s) =
      .ok images ∧ images.head? = some image := by
  unfold selectOne at h
  split at h
  · next images _ hs =>
    have hwhere : (l.selectWhere s (keyFilter id)).1 = .ok images := by rw [hs]
    obtain ⟨k, hk⟩ := read_of_selectWhere hwhere
    exact ⟨k, images, hk, by simpa using h⟩
  · cases h

theorem database_selectKeys (l : Link) (s : Schema) (f : Filter) (offset limit : Nat) :
    (l.selectKeys s f offset limit).2.database = l.database := by
  unfold selectKeys
  split
  · rfl
  · exact database_query l _ _ _ _ _

/-- A key and a value go into a row, or nothing changes. -/
theorem setColumn_cases (l : Link) (s : Schema) (id : RecordId) (column : String) (v : Value) :
    (∃ e, (l.setColumn s id column v).1 = .error e ∧
        (l.setColumn s id column v).2.database = l.database) ∨
      ∃ n d, (l.setColumn s id column v).1 = .ok () ∧
        l.database.execute ⟨s, .updateColumn id column v⟩ = .ok (n, d) ∧
        (l.setColumn s id column v).2.database = d := by
  have hx := l.execute_cases ⟨s, .updateColumn id column v⟩
  unfold setColumn
  split
  · next hs =>
    rw [hs] at hx
    obtain ⟨e, he, -⟩ | ⟨n, d, -, hd, hdd⟩ := hx
    · cases he
    · exact .inr ⟨n, d, rfl, hd, hdd⟩
  · next hs =>
    rw [hs] at hx
    obtain ⟨e, he, hd⟩ | ⟨n, d, he, -, -⟩ := hx
    · exact .inl ⟨_, rfl, hd⟩
    · cases he

theorem updateParent_error {l : Link} {s : Schema} {id : RecordId} {parent : Option RecordId}
    {e : StoreError} (h : (l.updateParent s id parent).1 = .error e) :
    (l.updateParent s id parent).2.database = l.database := by
  unfold updateParent at h ⊢
  split at h
  · rfl
  · next p _ =>
    obtain ⟨e', -, hd⟩ | ⟨n, d, ho, -⟩ := l.setColumn_cases s id p (.ofId? parent)
    · exact hd
    · rw [ho] at h
      cases h

theorem ensureTable_cases (l : Link) (s : Schema) :
    (∃ e, (l.ensureTable s).1 = .error e ∧ (l.ensureTable s).2.database = l.database) ∨
      ∃ n d, (l.ensureTable s).1 = .ok () ∧ l.database.execute ⟨s, .createTable⟩ = .ok (n, d) ∧
        (l.ensureTable s).2.database = d := by
  have hx := l.execute_cases ⟨s, .createTable⟩
  unfold ensureTable
  split
  · next hs =>
    rw [hs] at hx
    obtain ⟨e, he, -⟩ | ⟨n, d, -, hd, hdd⟩ := hx
    · cases he
    · exact .inr ⟨n, d, rfl, hd, hdd⟩
  · next hs =>
    rw [hs] at hx
    obtain ⟨e, he, hd⟩ | ⟨n, d, he, -, -⟩ := hx
    · exact .inl ⟨_, rfl, hd⟩
    · cases he

end LiveRecords.Link
