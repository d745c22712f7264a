import Gcode.Line

/-!
Notices. Listeners are registered for an event, for good or for one notice only, and are told in the
order of registration. Every registration has a key of its own, so that one that is due only once
can be taken out whatever else is registered for the same listener.
-/

namespace Gcode

/-- What a load gives notice of. -/
inductive Event where
  | data
  | progress
  | ended
  | failed
  deriving DecidableEq, Repr

namespace Event

/-- The name of an event. -/
def name : Event → String
  | .data => "data"
  | .progress => "progress"
  | .ended => "end"
  | .failed => "error"

/-- All events, in order. -/
def all : List Event := [.data, .progress, .ended, .failed]

/-- The event of a name. -/
def ofName? (s : String) : Option Event := all.find? fun e => e.name = s

end Event

/-- What a notice carries. -/
inductive Payload where
  | line (l : Line)
  | progress (consumed : Nat) (total : Literal)
  | results (ls : List Line)
  | fault (f : Fault)
  | plain (x : Literal)
  deriving Repr

/-- A listener that waits for an event. -/
structure Registration where
  key : Nat
  listener : String
  once : Bool
  deriving DecidableEq, Repr

/-- Does a registration count as one of a listener? It does if it was made for the listener. One for
good also does if the listener that it was made for carries the other one. -/
def Registration.isOf (carried : String → Option String) (listener : String) (g : Registration) :
    Bool :=
  g.listener = listener || (!g.once && carried g.listener = some listener)

/-- The registrations for every event, in order. -/
structure Registry where
  data : List Registration := []
  progress : List Registration := []
  ended : List Registration := []
  failed : List Registration := []
  /-- The key of the next registration. -/
  next : Nat := 0
  deriving DecidableEq, Repr

namespace Registry

/-- The registrations for an event. -/
def of (r : Registry) : Event → List Registration
  | .data => r.data
  | .progress => r.progress
  | .ended => r.ended
  | .failed => r.failed

/-- Changes the registrations for an event. -/
def update (r : Registry) (e : Event) (f : List Registration → List Registration) : Registry :=
  match e with
  | .data => { r with data := f r.data }
  | .progress => { r with progress := f r.progress }
  | .ended => { r with ended := f r.ended }
  | .failed => { r with failed := f r.failed }

/-- Registers a listener after all others. -/
def add (r : Registry) (e : Event) (listener : String) (once : Bool) : Registry :=
  { r.update e (· ++ [⟨r.next, listener, once⟩]) with next := r.next + 1 }

/-- Takes out the first registration that counts as one of a listener. -/
def remove (r : Registry) (e : Event) (carried : String → Option String) (listener : String) :
    Registry :=
  r.update e (·.eraseP (·.isOf carried listener))

/-- Takes out the registration with a key. -/
def removeKey (r : Registry) (e : Event) (key : Nat) : Registry :=
  r.update e (·.eraseP fun g => g.key = key)

/-- Takes out all registrations for an event. -/
def clear (r : Registry) (e : Event) : Registry := r.update e fun _ => []

@[simp]
theorem of_update_self (r : Registry) (e : Event) (f : List Registration → List Registration) :
    (r.update e f).of e = f (r.of e) := by
  cases e <;> rfl

theorem of_update_ne (r : Registry) {e e' : Event} (h : e' ≠ e)
    (f : List Registration → List Registration) : (r.update e f).of e' = r.of e' := by
  cases e <;> cases e' <;> first | rfl | exact absurd rfl h

end Registry

end Gcode
