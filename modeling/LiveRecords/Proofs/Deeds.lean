import LiveRecords.Proofs.Core

/-!
# Deeds

All that ever happens to the core of a workspace, as a labelled step relation
with nine kinds of steps. Whatever a program does is a chain of deeds, so a
property of all runs is shown by looking at each kind once.

A deed says what was done and to what, and leaves open what statistics,
reports and the pattern of failures were at the time.
-/

namespace LiveRecords

/-- Labelled steps one after another. -/
inductive Chain {α σ : Type} (step : α → σ → σ → Prop) : List α → σ → σ → Prop
  | nil (s : σ) : Chain step [] s s
  | cons {a : α} {as : List α} {s t u : σ} :
      step a s t → Chain step as t u → Chain step (a :: as) s u

namespace Chain

variable {α σ : Type} {step : α → σ → σ → Prop}

theorem single {a : α} {s t : σ} (h : step a s t) : Chain step [a] s t := .cons h (.nil t)

theorem eq_of_nil {s t : σ} (h : Chain step [] s t) : t = s := by
  cases h
  rfl

theorem append {as bs : List α} {s t u : σ} (h : Chain step as s t) (h' : Chain step bs t u) :
    Chain step (as ++ bs) s u := by
  induction h with
  | nil s => exact h'
  | cons ha _ ih => exact .cons ha (ih h')

theorem map {β : Type} {step' : β → σ → σ → Prop} {f : α → β}
    (hf : ∀ {a s t}, step a s t → step' (f a) s t) {as : List α} {s t : σ}
    (h : Chain step as s t) : Chain step' (as.map f) s t := by
  induction h with
  | nil s => exact .nil s
  | cons ha _ ih => exact .cons (hf ha) ih

/-- What each step preserves, the chain preserves. -/
theorem preserves {P : σ → Prop} (hP : ∀ {a s t}, step a s t → P s → P t) {as : List α}
    {s t : σ} (h : Chain step as s t) (hs : P s) : P t := by
  induction h with
  | nil s => exact hs
  | cons ha _ ih => exact ih (hP ha hs)

end Chain

inductive Deed where
  /-- A command is carried out on a registered record. -/
  | command (r : RecordRef) (c : Record.Command) (reply : Except StoreError Record.Reply)
  /-- Rows are read and taken in by their records, some of which may be answered. -/
  | read (m : MapRef) (images : List RowImage) (answered : RecordRef → Prop)
  /-- A record with initial values is made and registered. -/
  | enrol (m : MapRef) (id : RecordId) (isNew : Bool)
  /-- A record gets a parent that is not stored yet. -/
  | place (r : RecordRef) (parent : Option RecordId)
  /-- A record gets a parent, which is stored. -/
  | adopt (m : MapRef) (r : RecordRef) (parent : Option RecordId)
  /-- A record leaves its identity map. -/
  | free (m : MapRef) (r : RecordRef)
  /-- Databases, connections and coordinators come into being. -/
  | ground
  | addMap (s : Schema) (c : ConnectionRef) (h : HubRef)
  /-- A database changes past every record. -/
  | foreign (d : DatabaseRef)

namespace Core

/-- A command is carried out on a registered record. -/
def Commands (r : RecordRef) (c : Record.Command) (reply : Except StoreError Record.Reply)
    (k k' : Core) : Prop :=
  ∃ i l, k.records[r]? = some i ∧ k.Listed r ∧ l.database = k.databaseOf i.connection ∧
    (i.record.run l c).1.1 = reply ∧
    k' = (k.setDatabase i.connection (i.record.run l c).2.database).impose r (i.record.run l c).1.2

/-- Commands are carried out on a registered record. -/
abbrev Asked (r : RecordRef) :=
  Chain fun (a : Record.Command × Except StoreError Record.Reply) => Commands r a.1 a.2

theorem Commands.maps {r : RecordRef} {c : Record.Command}
    {reply : Except StoreError Record.Reply} {k k' : Core} (h : Commands r c reply k k') :
    k'.maps = k.maps := by
  obtain ⟨i, l, -, -, -, -, rfl⟩ := h
  simp

theorem Asked.maps {r : RecordRef} {cs : List (Record.Command × Except StoreError Record.Reply)}
    {k k' : Core} (h : Asked r cs k k') : k'.maps = k.maps :=
  Chain.preserves (P := fun s => s.maps = k.maps) (fun hc hm => hc.maps.trans hm) h rfl

theorem Commands.records_of_ne {r j : RecordRef} {c : Record.Command}
    {reply : Except StoreError Record.Reply} {k k' : Core} (h : Commands r c reply k k')
    (hj : j ≠ r) : k'.records[j]? = k.records[j]? := by
  obtain ⟨i, l, -, -, -, -, rfl⟩ := h
  rw [records_impose_of_ne _ hj, setDatabase_records]

/-- Commands on a record leave all others. -/
theorem Asked.records_of_ne {r j : RecordRef}
    {cs : List (Record.Command × Except StoreError Record.Reply)} {k k' : Core}
    (h : Asked r cs k k') (hj : j ≠ r) : k'.records[j]? = k.records[j]? :=
  Chain.preserves (P := fun s => s.records[j]? = k.records[j]?)
    (fun hc hs => (hc.records_of_ne hj).trans hs) h rfl

/-- A key stands for a record, which is made and registered if there was none. -/
def Meets (m : MapRef) (id : RecordId) (isNew : Bool) (r : RecordRef) (k k' : Core) : Prop :=
  ∃ map, k.maps[m]? = some map ∧
    (map.registered.lookup id = some r ∧ k' = k ∨
      map.registered.lookup id = none ∧ r = k.records.length ∧ k' = k.enrol m map id isNew)

/-- Stored rows are taken in by their records, one after another. Whoever
listens to one of some records may answer with commands. -/
inductive TakenIn (m : MapRef) (answered : RecordRef → Prop) : List RowImage → Core → Core → Prop
  | nil (k : Core) : TakenIn m answered [] k k
  | cons {image : RowImage} {images : List RowImage} {r : RecordRef} {i : Resident}
      {cs : List (Record.Command × Except StoreError Record.Reply)} {k₀ k₁ k₂ k₃ : Core} :
      Meets m image.id false r k₀ k₁ → k₁.records[r]? = some i →
      Asked r cs (k₁.impose r (i.record.hydrate image)) k₂ → (cs ≠ [] → answered r) →
      TakenIn m answered images k₂ k₃ → TakenIn m answered (image :: images) k₀ k₃

theorem TakenIn.mono {m : MapRef} {answered answered' : RecordRef → Prop} {images : List RowImage}
    {k k' : Core} (h : TakenIn m answered images k k') (ha : ∀ r, answered r → answered' r) :
    TakenIn m answered' images k k' := by
  induction h with
  | nil k => exact .nil k
  | cons h₁ h₂ h₃ h₄ _ ih => exact .cons h₁ h₂ h₃ (fun hc => ha _ (h₄ hc)) ih

/-- Some of the rows that a statement reads. -/
def Reads (k : Core) (map : IdentityMap) (images : List RowImage) : Prop :=
  ∃ clause found,
    Link.read (k.databaseOf map.connection) ⟨map.schema, .selectRows clause⟩ clause
      Database.maxPage 0 (RowImage.ofRow map.schema) = .ok found ∧ images.Sublist found

/-- A record without its place in an identity map and its entries. -/
def dismiss (k : Core) (m : MapRef) (r : RecordRef) (h : HubRef) : Core :=
  (k.unregister m [r]).tell h fun c => (c.forget r).1

def addMap (k : Core) (map : IdentityMap) : Core := { k with maps := k.maps ++ [map] }

/-- New databases, connections and coordinators. -/
def Grounds (k k' : Core) : Prop :=
  ∃ n cs j, (∀ d ∈ cs, d < k.databases.length + n) ∧
    k' = { k with
      databases := k.databases ++ List.replicate n {}
      connections := k.connections ++ cs
      coordinators := k.coordinators ++ List.replicate j {} }

/-- What a deed does. -/
def Does : Deed → Core → Core → Prop
  | .command r c reply, k, k' => Commands r c reply k k'
  | .read m images answered, k, k' =>
    ∃ map, k.maps[m]? = some map ∧ k.Reads map images ∧ TakenIn m answered images k k'
  | .enrol m id isNew, k, k' =>
    ∃ map, k.maps[m]? = some map ∧ map.registered.lookup id = none ∧ k' = k.enrol m map id isNew
  | .place r parent, k, k' =>
    ∃ i, k.records[r]? = some i ∧ k.Listed r ∧ k' = k.impose r (i.record.setParent parent)
  | .adopt m r parent, k, k' =>
    ∃ map i, ∃ l : Link, k.maps[m]? = some map ∧ k.records[r]? = some i ∧ k.Listed r ∧
      l.database = k.databaseOf map.connection ∧
      (l.updateParent map.schema i.record.id parent).1 = .ok () ∧
      k' = (k.setDatabase map.connection
        (l.updateParent map.schema i.record.id parent).2.database).impose r
          (i.record.setParent parent)
  | .free m r, k, k' =>
    ∃ map i, ∃ l : Link, k.maps[m]? = some map ∧ k.records[r]? = some i ∧ (∃ id, k.Lists m id r) ∧
      l.database = k.databaseOf map.connection ∧
      k' = if i.record.deletePending then
        (k.dismiss m r i.hub).setDatabase map.connection
          (l.deleteRow map.schema i.record.id).2.database
      else k.dismiss m r i.hub
  | .ground, k, k' => k.Grounds k'
  | .addMap s c h, k, k' =>
    ∃ l : Link, (∃ d : Draft, d.build = .ok s) ∧ c < k.connections.length ∧
      h < k.coordinators.length ∧ l.database = k.databaseOf c ∧
      (l.ensureTable s).1 = .ok () ∧
      k' = (k.setDatabase c (l.ensureTable s).2.database).addMap
        { schema := s, connection := c, hub := h }
  | .foreign d, k, k' => ∃ x, k' = { k with databases := k.databases.set d x }

/-- Deeds one after another, each of which is allowed where it is done. -/
abbrev Course (allowed : Deed → Core → Prop) :=
  Chain fun d k k' => allowed d k ∧ Does d k k'

end Core

end LiveRecords
