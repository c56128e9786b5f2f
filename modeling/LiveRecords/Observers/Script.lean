import LiveRecords.Observers

/-!
# Scripted listeners

Listeners of integer events that answer an event by changing the list they are
on or by sending further events. Everything they see and do is logged. A
script that comes to an end nests no deeper than `depthBound`, since no
listener with reactions is ever added by one.
-/

namespace LiveRecords.Script

inductive Reaction where
  | unsubscribe (who : String)
  | subscribe (as : String)
  | send (event : Int)
  deriving DecidableEq

/-- What a listener does about which event, in order. -/
structure Listener where
  name : String
  reactions : List (Int × Reaction) := []
  deriving DecidableEq

inductive Entry where
  | heard (name : String) (event : Int)
  /-- Whether the named listener was there; none if the name is unknown. -/
  | unsubscribed (name : String) (found : Option Bool)
  deriving DecidableEq

structure Stage where
  observers : Observers Listener := {}
  /-- The id last subscribed under each name. -/
  names : List (String × Nat) := []
  log : List Entry := []

namespace Stage

def write (s : Stage) (e : Entry) : Stage := { s with log := s.log ++ [e] }

def subscribe (s : Stage) (l : Listener) : Nat × Stage :=
  let (id, o) := s.observers.subscribe l
  (id, { s with observers := o, names := (l.name, id) :: s.names })

def unsubscribe (s : Stage) (who : String) : Option Bool × Stage :=
  match s.names.lookup who with
  | none => (none, s)
  | some id =>
    let (found, o) := s.observers.unsubscribe id
    (some found, { s with observers := o })

/-- One reaction of the named listener; `send` delivers nested events. -/
def react (send : Int → Stage → Stage) (name : String) (s : Stage) : Reaction → Stage
  | .unsubscribe who =>
    let (found, s) := s.unsubscribe who
    s.write (.unsubscribed name found)
  | .subscribe as => (s.subscribe { name := as }).2
  | .send event => send event s

/-- A listener hears an event: it is logged, then answered in order. -/
def hear (send : Int → Stage → Stage) (event : Int) (l : Nat × Listener) (s : Stage) : Stage :=
  (l.2.reactions.filter (·.1 == event)).foldl (fun s r => react send l.2.name s r.2)
    (s.write (.heard l.2.name event))

/-- Delivers an event, nested ones up to a depth. -/
def deliver : Nat → Int → Stage → Stage
  | 0, _, s => s
  | depth + 1, event, s => s.observers.deliver (hear (deliver depth) event) s

def reactionCount (s : Stage) : Nat :=
  s.observers.listeners.foldl (fun n l => n + l.2.reactions.length) 0

/-- Along nested events either one repeats, and then a listener has gone, or all
are different. -/
def depthBound (s : Stage) : Nat := (s.observers.size + 1) * (s.reactionCount + 1) + 1

def send (s : Stage) (event : Int) : Stage := deliver s.depthBound event s

def sendAll (s : Stage) (events : List Int) : Stage := events.foldl send s

end Stage

end LiveRecords.Script
