import LiveRecords.Coordinator
import LiveRecords.Observers
import LiveRecords.StoreError

/-!
# Scripted items

Items that only count their change sets, for studying a coordinator by itself.
An item may fail, and may or may not tell the coordinator what it did. A name
stands for the item last made under it, alive or not.
-/

namespace LiveRecords.Script

structure Item where
  name : String
  undo : Nat
  redo : Nat
  /-- Whether the item reports its own steps. -/
  auto : Bool
  failing : Bool := false
  deriving DecidableEq

/-- Moves one change set of an item over. -/
def Item.move (t : Track) (i : Item) : Item :=
  match t with
  | .undo => { i with undo := i.undo - 1, redo := i.redo + 1 }
  | .redo => { i with redo := i.redo - 1, undo := i.undo + 1 }

def Item.count (t : Track) (i : Item) : Nat :=
  match t with
  | .undo => i.undo
  | .redo => i.redo

inductive ItemEntry where
  | asked (name : String) (t : Track)
  | heard (listener : String) (e : CoordinatorEvent)
  deriving DecidableEq

structure Bench where
  coordinator : Coordinator := {}
  listeners : Observers String := {}
  listenerIds : List (String × Nat) := []
  next : Nat := 1
  items : List (Nat × Item) := []
  names : List (String × Nat) := []
  log : List ItemEntry := []

namespace Bench

def write (b : Bench) (e : ItemEntry) : Bench := { b with log := b.log ++ [e] }

def announce (e : CoordinatorEvent) (b : Bench) : Bench :=
  b.listeners.deliver (fun l b => b.write (.heard l.2 e)) b

def announceAll (b : Bench) (es : List CoordinatorEvent) : Bench :=
  es.foldl (fun b e => b.announce e) b

def alive (b : Bench) (id : Nat) : Bool := b.items.any (·.1 == id)

def setItem (b : Bench) (id : Nat) (f : Item → Item) : Bench :=
  { b with items := b.items.map fun e => if e.1 = id then (e.1, f e.2) else e }

/-- A new item in place of the one of that name. -/
def make (b : Bench) (i : Item) : Bench :=
  { b with
    items := b.items.filter (fun e => e.2.name != i.name) ++ [(b.next, i)]
    names := (i.name, b.next) :: b.names
    next := b.next + 1 }

/-- Lets go of the item of a name; whether there was one. -/
def drop (b : Bench) (name : String) : Bool × Bench :=
  (b.items.any (·.2.name == name), { b with items := b.items.filter fun e => e.2.name != name })

/-- What an item reports when it has moved a change set. -/
def reports (t : Track) (id : Nat) (c : Coordinator) : Coordinator × List CoordinatorEvent :=
  let (c, removed) := c.remove t id
  let (c, added) := c.add t.opposite id
  (c, removed ++ added)

def attempt (t : Track) (id : Nat) (c : Coordinator) (b : Bench) :
    Coordinator.Attempt StoreError Bench :=
  match b.items.lookup id with
  | none => .nothing b
  | some i =>
    let b := b.write (.asked i.name t)
    if i.failing then .failed (.invalidInput .scripted) c b
    else if i.count t = 0 then .nothing b
    else
      let b := b.setItem id (Item.move t)
      if i.auto then
        let (c, es) := reports t id c
        .applied c (b.announceAll es)
      else .applied c b

def host (b : Bench) (t : Track) : Coordinator.Host StoreError Bench :=
  { alive := b.alive, announce := announce, attempt := attempt t }

def step (b : Bench) (t : Track) : Except StoreError Bool × Bench :=
  let (r, c, b) := b.coordinator.step (b.host t) t b
  (r, { b with coordinator := c })

/-- Tells the coordinator something about an item. -/
def tell (b : Bench) (act : Coordinator → Coordinator × List CoordinatorEvent) : Bench :=
  let (c, es) := act b.coordinator
  { b with coordinator := c }.announceAll es

def subscribe (b : Bench) (name : String) : Nat × Bench :=
  let (id, o) := b.listeners.subscribe name
  (id, { b with listeners := o, listenerIds := (name, id) :: b.listenerIds })

def unsubscribe (b : Bench) (name : String) : Bool × Bench :=
  match b.listenerIds.lookup name with
  | none => (false, b)
  | some id =>
    let (found, o) := b.listeners.unsubscribe id
    (found, { b with listeners := o })

end Bench

end LiveRecords.Script
