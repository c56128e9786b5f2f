import LiveRecords.Proofs.Lasting
import LiveRecords.Proofs.Mirroring

/-!
# Where records come from

A record is made new, or made of a row that is read, or made up: asked for by a
key that no record is registered under, it has initial values whatever is
stored. A record that was made up is unread until its row is read while it has
no edit. Along every run in which nobody else writes to the database, all other
records of a connection take for stored what is stored.
-/

namespace LiveRecords.Workspace

open LiveRecords.Core

/-- The records that a reply names. -/
def Reply.records : Reply → List RecordRef
  | .found r => r.toList
  | .list rs => rs
  | _ => []

/-- An action that reads rows whether or not their records are in memory. -/
def Action.isRead : Action → Bool
  | .load .. | .find .. | .children .. | .childrenOf .. => true
  | _ => false

/-- A record is made up: asked for by a key that none is registered under. -/
def Action.MakesUp (w : Workspace) (r : RecordRef) : Action → Prop
  | .withId map id _ => ∃ m, w.mapNames.lookup map = some m ∧ w.registered? m id = none ∧
      r = w.records.length
  | _ => False

/-- The row of a record is read while the record has no edit. -/
structure Action.Rereads (w : Workspace) (r : RecordRef) (a : Action) : Prop where
  isRead : a.isRead = true
  unedited : ∃ i, w.records[r]? = some i ∧ i.record.Unedited
  answered : ∃ reply, (w.perform a).1 = .ok reply ∧ r ∈ reply.records

/-- The records that are unread after a run, where some were before it. -/
def unreadFrom : (RecordRef → Prop) → Workspace → List Action → RecordRef → Prop
  | unread, _, [] => unread
  | unread, w, a :: actions =>
    unreadFrom (fun r => a.MakesUp w r ∨ unread r ∧ ¬a.Rereads w r) (w.perform a).2 actions

/-- A record was made up along a run and its row was not read since. -/
def Unread (w : Workspace) (actions : List Action) (r : RecordRef) : Prop :=
  unreadFrom (fun _ => False) w actions r

/-- An action leaves a database to the records of its connection, and no
identity map gets a coordinator that is not its own. -/
structure Action.Private (d : DatabaseRef) (w : Workspace) (a : Action) : Prop where
  sharesHub : a.sharesHub = false
  overwrites : ¬a.Overwrites w d

variable {w : Workspace} {o : Outlook} {apart : RecordRef → Prop} {a : Action} {r : RecordRef}
  {d : DatabaseRef} {c : ConnectionRef}

/-! ## Reading -/

/-- The rows that an action reads, of which one is of the record. -/
def ReadsRow (w : Workspace) (r : RecordRef) (k : Core) : Prop :=
  ∃ m map images, w.core.maps[m]? = some map ∧ w.core.Reads map images ∧
    TakenIn m (fun r => 0 < w.armed r) images w.core k ∧ ∃ y ∈ images, k.Lists m y.id r

theorem readsRow_load (hs : w.core.Sound) {m : MapRef} (hm : m < w.maps.length) {id : RecordId}
    {as : Option String} {reply : Reply} (h : (answerHeld as (w.load m id)).1 = .ok reply)
    (hr : r ∈ reply.records) : w.ReadsRow r (answerHeld as (w.load m id)).2.core := by
  obtain ⟨map, hmap⟩ := map_of_lt hm
  rw [core_answerHeld]
  obtain ⟨-, hnone⟩ | ⟨image, r', hr', htakes, hl, -⟩ := load_cases hs hmap id
  · exfalso
    revert h hnone
    cases w.load m id with
    | mk result u =>
      cases result with
      | error e => intro h; cases h
      | ok found =>
        cases found with
        | none =>
          intro h _
          cases h
          cases hr
        | some r' => exact fun _ hnone => hnone r' rfl
  · have hreply : (answerHeld as (w.load m id)).1 = .ok (.found (some r')) := by
      revert hr'
      cases w.load m id with
      | mk result u =>
        rintro rfl
        rfl
    rw [h] at hreply
    cases hreply
    rw [List.mem_singleton.mp hr]
    exact ⟨m, map, _, hmap, htakes.reads, htakes.taken, image, List.mem_singleton_self _, hl⟩

theorem readsRow_find (hs : w.core.Sound) {m : MapRef} (hm : m < w.maps.length) {f : Filter}
    {as : Option String} {reply : Reply} (h : (answerAll as (w.find m f)).1 = .ok reply)
    (hr : r ∈ reply.records) : w.ReadsRow r (answerAll as (w.find m f)).2.core := by
  obtain ⟨map, hmap⟩ := map_of_lt hm
  rw [core_answerAll]
  have hfound : ∃ rs, (w.find m f).1 = .ok rs ∧ reply = .list rs := by
    revert h
    cases w.find m f with
    | mk result u =>
      cases result with
      | error e => intro h; cases h
      | ok rs =>
        intro h
        cases h
        exact ⟨rs, rfl, rfl⟩
  obtain ⟨rs, hrs, rfl⟩ := hfound
  obtain ⟨e, he, -⟩ | ⟨images, rs', hrs', htakes, hl, -⟩ := find_cases hs hmap f
  · rw [hrs] at he
    cases he
  · rw [hrs] at hrs'
    cases hrs'
    exact ⟨m, map, images, hmap, htakes.reads, htakes.taken, exists_left hl hr⟩

theorem readsRow_children (hs : w.core.Sound) {m : MapRef} (hm : m < w.maps.length)
    {parent : RecordId} {as : Option String} {reply : Reply}
    (h : (answerAll as (Workspace.children m parent w)).1 = .ok reply) (hr : r ∈ reply.records) :
    w.ReadsRow r (answerAll as (Workspace.children m parent w)).2.core := by
  unfold children at h ⊢
  split at h
  · cases h
  · exact readsRow_find hs hm h hr

/-- A record that an action read was registered under the key of a row that it
took in. -/
theorem perform_reads (hs : w.core.Sound) (hw : Holding True w) (ha : a.isRead = true)
    {reply : Reply} (h : (w.perform a).1 = .ok reply) (hr : r ∈ reply.records) :
    w.ReadsRow r (w.perform a).2.core := by
  have hlt : ∀ {name m}, w.mapNames.lookup name = some m → m < w.maps.length :=
    fun hm => hw.mapNames _ (mem_of_lookup hm)
  cases a with
  | load map id as =>
    simp only [perform, withMap] at h ⊢
    split at h
    · next hm => exact readsRow_load hs (hlt hm) h hr
    · cases h
  | find map f as =>
    simp only [perform, withMap] at h ⊢
    split at h
    · next hm => exact readsRow_find hs (hlt hm) h hr
    · cases h
  | children map parent as =>
    simp only [perform, withMap] at h ⊢
    split at h
    · next hm => exact readsRow_children hs (hlt hm) h hr
    · cases h
  | childrenOf map parent as =>
    simp only [perform, withMap, withRecord] at h ⊢
    split at h
    · next hm =>
      split at h
      · split at h
        · cases h
        · exact readsRow_children hs (hlt hm) h hr
      · cases h
    · cases h
  | _ => cases ha

/-! ## One action -/

/-- A private action does orderly deeds, where records that are made up are set
apart. -/
theorem Action.Private.upholds (h : a.Private o.database w) (hb : o.strict = false)
    (hmade : ∀ r, a.MakesUp w r → apart r) : a.Upholds o apart w := by
  refine ⟨h.sharesHub, fun {e k k'} hmay hdoes => ?_⟩
  have hlax : ∀ {p : Prop}, o.strict = true → p := by
    intro p hb'
    rw [hb] at hb'
    cases hb'
  cases hmay with
  | read _ => trivial
  | ground => trivial
  | addMap => trivial
  | free => trivial
  | command _ => trivial
  | foreign hover =>
    rintro rfl
    exact h.overwrites hover
  | @withId name m id as hm =>
    obtain ⟨map, hmap, hid, -⟩ := hdoes
    refine fun s _ => ⟨fun _ => hmade _ ⟨m, hm, ?_, by simp [core]⟩, hlax⟩
    exact Option.bind_eq_none_iff.mpr fun map' hmap' => by
      rw [show w.maps[m]? = some map from hmap] at hmap'
      cases hmap'
      exact hid
  | newRecord hm => exact fun s _ => ⟨(fun he => by cases he), hlax⟩
  | stage hv hx => exact fun s _ => ⟨(fun he => by cases he), hlax⟩
  | place hv hx hmeets => exact hlax
  | addChild hm hr => exact hlax
  | removeChild hm hr => exact hlax

/-- A record that is made up counts as stored. -/
theorem has_of_makesUp (hw : Holding True w) (h : a.MakesUp w r) :
    (w.perform a).2.core.Has r Record.Stored := by
  cases a with
  | withId map id as =>
    obtain ⟨m, hm, hnone, rfl⟩ := h
    have hlt : m < w.maps.length := hw.mapNames _ (mem_of_lookup hm)
    obtain ⟨map', hmap, ⟨hid, -⟩ | ⟨-, -, hcore⟩⟩ := (register_meets hlt id false).1
    · rw [registered?, show w.maps[m]? = some map' from hmap, Option.bind_some, hid] at hnone
      cases hnone
    refine ⟨⟨.initial id map'.schema false, map'.connection, map'.hub⟩, ?_, rfl⟩
    rw [perform, withMap, hm]
    dsimp only
    rw [core_answerHeld, hcore, ← records_enrol_self w.core m map' id false]
    simp [core]
  | _ => exact h.elim

/-- The records that are set apart count as stored, where that is asked. -/
def Outlasts (o : Outlook) (apart : RecordRef → Prop) (k : Core) : Prop :=
  o.strict = true → ∀ r, apart r → k.Has r Record.Stored

/-- One action: what it makes up is unread, what it rereads is so no more. -/
theorem perform_unread (hs : w.core.Sound) (hw : Holding True w) (ho : o.Sole)
    (hold : Outlasts o apart w.core) (hf : o.Faithful apart w.core)
    (ha : a.Upholds o (fun r => a.MakesUp w r ∨ apart r) w)
    (hlast : (w.perform a).2.core.Precedes o.last) :
    o.Faithful (fun r => a.MakesUp w r ∨ apart r ∧ ¬a.Rereads w r) (w.perform a).2.core := by
  have hwide : o.Faithful (fun r => a.MakesUp w r ∨ apart r) (w.perform a).2.core :=
    perform_faithful hs hw ho (hf.mono fun _ => .inr) ha hlast
  have hk : w.core.Precedes o.last :=
    (perform_precedes hs hw (.of_sharesHub ha.sharesHub)).trans hlast
  refine ⟨hwide.plain, hwide.ready, hwide.holds, hwide.intact, fun {m s id r x} hx hr => ?_⟩
  rw [not_or, not_and, Classical.not_not] at hr
  by_cases hapart : apart r
  · have hread := hr.2 hapart
    obtain ⟨i, hi, hclean⟩ := hread.unedited
    obtain ⟨reply, hreply, hmem⟩ := hread.answered
    obtain ⟨m', map, images, hmap, hreads, htaken, hl⟩ :=
      perform_reads hs hw hread.isRead hreply hmem
    have hx₀ := core_records_of_some hi
    have hstored : o.strict = true → i.resident.record.isNew = false := by
      intro hb
      obtain ⟨y, hy, hp⟩ := hold hb r hapart
      cases hx₀.symm.trans hy
      exact hp
    have hanew := hf.takenInAnew ho hk hs htaken (fun ht => hf.images ho hk hs hmap hreads ht)
      hx₀ hstored hclean hl
    exact hanew.aligned hx fun h => h.2 rfl
  · exact hwide.aligned hx fun h => h.elim hr.1 hapart

theorem perform_outlasts (hs : w.core.Sound) (hw : Holding True w)
    (hold : Outlasts o apart w.core) (ha : a.sharesHub = false) :
    Outlasts o (fun r => a.MakesUp w r ∨ apart r ∧ ¬a.Rereads w r) (w.perform a).2.core := by
  intro hb r hr
  obtain hmade | ⟨hapart, -⟩ := hr
  · exact has_of_makesUp hw hmade
  · obtain ⟨⟨ds, hc⟩, -⟩ := perform_acts hs hw (.of_sharesHub ha)
    refine Course.has Record.lasting_stored (fun {d k} _ => ?_) hc (hold hb r hapart)
    cases d with
    | command j c reply => exact fun _ => Record.keeps_stored c
    | read m images answered => exact fun _ c => Record.keeps_stored c
    | _ => trivial

/-! ## Runs -/

/-- Runs whose actions keep to their part, where records that are made up are set
apart, keep all but the unread records of a connection faithful. -/
theorem unreadFrom_faithful (ho : o.Sole) {D : Workspace → Action → Prop}
    (hD : ∀ {w a apart}, w.core.Sound → w.core.Precedes o.last → D w a →
      (∀ r, a.MakesUp w r → apart r) → a.Upholds o apart w)
    (hhub : ∀ {w a}, D w a → a.sharesHub = false) {actions : List Action}
    (ha : Follows D w actions) (hs : w.core.Sound) (hw : Holding True w)
    (hold : Outlasts o apart w.core) (hf : o.Faithful apart w.core)
    (hlast : (w.performAll actions).core.Precedes o.last) :
    o.Faithful (unreadFrom apart w actions) (w.performAll actions).core := by
  induction actions generalizing w apart with
  | nil => exact hf
  | cons a actions ih =>
    have hsuits : a.Suits True := .of_sharesHub (hhub ha.1)
    have hacts := perform_acts hs hw hsuits
    have hs' := hacts.sound hs
    have hnext : (w.perform a).2.core.Precedes o.last :=
      (performAll_precedes (fun h => .of_sharesHub (hhub h)) ha.2 hs' hacts.2).trans hlast
    have hfirst := (perform_precedes hs hw hsuits).trans hnext
    have hupholds : a.Upholds o (fun r => a.MakesUp w r ∨ apart r) w :=
      hD hs hfirst ha.1 fun _ => .inl
    exact ih ha.2 hs' hacts.2 (perform_outlasts hs hw hold (hhub ha.1))
      (perform_unread hs hw ho hold hf hupholds hnext) hlast

/-- An action that asks for a record by its key, whatever is stored. -/
def Action.asksByKey : Action → Bool
  | .withId .. => true
  | _ => false

theorem not_makesUp (h : a.asksByKey = false) : ¬a.MakesUp w r := by
  cases a with
  | withId map id as => cases h
  | _ => exact id

/-- Where no record is asked for by its key, none becomes unread. -/
theorem not_unreadFrom {unread : RecordRef → Prop} {actions : List Action}
    (h : ∀ a ∈ actions, a.asksByKey = false) (hr : ¬unread r) :
    ¬unreadFrom unread w actions r := by
  induction actions generalizing unread w with
  | nil => exact hr
  | cons a actions ih =>
    exact ih (fun b hb => h b (List.mem_cons_of_mem _ hb)) fun hor =>
      hor.elim (not_makesUp (h a List.mem_cons_self)) fun hold => hr hold.1

end LiveRecords.Workspace
