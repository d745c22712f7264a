import Gcode.Machine

/-!
Interpreters: what stays the same while one works, its modal command, and the notices it gives.
Every operation is called under its name, which a class may have taken for something else.
-/

namespace Gcode

open Gcode.Text

/-- What stays the same while an interpreter works. -/
structure Interpreter where
  /-- Are lines with stray text refused unless something else is said? -/
  strictByDefault : Bool := false
  /-- How much one read asks for. -/
  chunkSize : Int := 65536
  /-- The encoding of bytes. -/
  encoding : String := "utf-8"
  disk : Disk := {}
  dialect : Dialect := {}
  /-- Is there an event loop to run tasks on? -/
  hasLoop : Bool := true
  host : Host := Host.silent

namespace Interpreter

/-! ### Operations -/

/-- An operation can be called unless something else stands in front of it. -/
def require (it : Interpreter) (op : Operation) : Act Unit :=
  match it.dialect.obstacle? op with
  | some f => throw f
  | none => pure ()

/-- Calls an operation. -/
def call {α : Type} (it : Interpreter) (op : Operation) (body : Act α) : Act α := do
  it.require op
  body

theorem require_eq_pure {it : Interpreter} {op : Operation} (h : it.dialect.obstacle? op = none) :
    it.require op = pure () := by
  rw [require, h]

/-! ### The modal command -/

/-- Makes a code the modal command. -/
def setModal (code : String) : Act Unit := do
  let m ← get
  if code ≠ m.modal then
    Act.log .trace .modal
      ("modal_change from=" ++ (if m.modal.isEmpty then "-" else m.modal) ++ " to=" ++ code)
  modify fun m => { m with modal := code }

/-- Forgets the modal command. -/
def reset : Act Unit := modify fun m => { m with modal := "" }

/-! ### Notices -/

/-- Tells some listeners, in order. One that is due only once is taken out before it is told. -/
def tell (it : Interpreter) (e : Event) (payload : List Payload) : List Registration → Act Unit
  | [] => pure ()
  | r :: rs => do
    if r.once then
      it.call .unlisten (modify fun m => { m with registry := m.registry.removeKey e r.key })
    Act.enter (.listener r.listener payload)
    it.host.listener r.listener payload
    it.tell e payload rs

/-- Gives notice of an event to those registered for it now. Was there anyone? -/
def notify (it : Interpreter) (e : Event) (payload : List Payload) : Act Bool := do
  let registered := (← get).registry.of e
  it.tell e payload registered
  pure (!registered.isEmpty)

/-- Gives notice of an event. -/
def emit (it : Interpreter) (e : Event) (payload : List Payload) : Act Bool :=
  it.call .emit (it.call .checkEvent (it.notify e payload))

/-- The event of a name. -/
def eventOf (it : Interpreter) (name : String) : Act Event :=
  it.call .checkEvent (match Event.ofName? name with
    | some e => pure e
    | none => throw (.unknownEvent name))

/-- Gives notice of the event of a name. -/
def emitNamed (it : Interpreter) (event : String) (payload : List Payload) : Act Bool :=
  it.call .emit do
    let e ← it.eventOf event
    it.notify e payload

/-- Registers a listener. -/
def listen (it : Interpreter) (event listener : String) (once : Bool) : Act Unit :=
  it.call (if once then .listenOnce else .listen) do
    let e ← it.eventOf event
    modify fun m => { m with registry := m.registry.add e listener once }

/-- Takes out the first registration that counts as one of a listener, or all registrations for the
event. -/
def unlisten (it : Interpreter) (event : String) (listener : Option String) : Act Unit :=
  it.call .unlisten do
    let e ← it.eventOf event
    modify fun m => { m with registry := match listener with
      | some l => m.registry.remove e it.host.carried l
      | none => m.registry.clear e }

/-- The registrations for the event of a name. -/
def listeners (it : Interpreter) (event : String) : Act (List Registration) :=
  it.call .listeners do
    let e ← it.eventOf event
    pure ((← get).registry.of e)

/-- Announces what went wrong with a load, which is shown as the given text. -/
def report (it : Interpreter) (shown : String) (payload : Payload) : Act Unit :=
  it.call .report do
    Act.log .error .loading ("G-code load failed: " ++ shown)
    let _ ← it.emit .failed [payload]

end Interpreter

end Gcode
