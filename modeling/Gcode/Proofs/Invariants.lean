import Gcode.Proofs.Containment

/-!
What the interpretation of lines keeps. By itself it writes to the log and to the journal and sets
the modal command; everything else is done by host code. A property of machines that does not depend
on these three parts is therefore kept by every line if host code keeps it (`keeps_interpret`).
-/

namespace Gcode

open Act

/-- A property that does not depend on the log, the journal and the modal command, and that host
code keeps. -/
structure Interpreter.Keeps (it : Interpreter) (P : Machine → Prop) : Prop where
  log : ∀ m log, P m → P { m with log }
  journal : ∀ m journal, P m → P { m with journal }
  modal : ∀ m modal, P m → P { m with modal }
  handler : ∀ id args, (it.host.handler id args).Keeps P
  method : ∀ m args, (it.host.method m args).Keeps P
  answer : ∀ code name op, it.dialect.attribute? code = some (name, .operation op) →
    ∀ args, (it.answer op args).Keeps P

namespace Interpreter

variable {it : Interpreter} {P : Machine → Prop}

theorem Keeps.writes (h : it.Keeps P) (level : Log.Level) (channel : Log.Channel)
    (message : String) : (Act.log level channel message).Keeps P :=
  keeps_modify fun m hm => h.log m _ hm

theorem Keeps.enters (h : it.Keeps P) (entry : Entry) : (Act.enter entry).Keeps P :=
  keeps_modify fun m hm => h.journal m _ hm

theorem keeps_resolveGroup (h : it.Keeps P) (g : Group) : (resolveGroup g).Keeps P := by
  have hset : ∀ code, (setModal code).Keeps P := by
    intro code
    refine keeps_get fun m => ?_
    have hmodal : (modify fun m => { m with modal := code } : Act Unit).Keeps P :=
      keeps_modify fun m hm => h.modal m _ hm
    dsimp only
    split
    · exact (h.writes _ _ _).bind fun _ => hmodal
    · exact hmodal
  exact keeps_get fun m => (hset _).bind fun _ => keeps_pure _

theorem keeps_callHandler (h : it.Keeps P) (code : String) (args : Args) :
    (it.callHandler code args).Keeps P := by
  refine keeps_get fun m => ?_
  split
  · exact (h.writes _ _ _).bind fun _ => (h.enters _).bind fun _ =>
      (h.handler _ _).bind fun _ => keeps_pure _
  · exact keeps_pure _

theorem keeps_callMethod (h : it.Keeps P) (code : String) (args : Args) :
    (it.callMethod code args).Keeps P := by
  rw [callMethod]
  split
  · exact (h.writes _ _ _).bind fun _ => (h.enters _).bind fun _ =>
      (h.method _ _).bind fun _ => keeps_pure _
  · rename_i name op hop
    exact (h.writes _ _ _).bind fun _ => (h.answer code name op hop args).bind fun _ => keeps_pure _
  · refine (h.writes _ _ _).bind fun _ => ?_
    split
    · exact keeps_throw _
    · exact keeps_pure _
  · dsimp only
    split
    · exact (keeps_throw _).bind fun _ => keeps_pure _
    · exact keeps_pure _
  · exact keeps_pure _

theorem keeps_dispatch (h : it.Keeps P) (c : Command) : (it.dispatch c).Keeps P := by
  rw [dispatch]
  split
  · exact (h.writes _ _ _).bind fun _ => keeps_pure _
  · refine (keeps_callHandler h _ _).bind fun called => ?_
    refine (keeps_callMethod h _ _).bind fun r => ?_
    dsimp only
    split
    · exact (h.writes _ _ _).bind fun _ => keeps_pure _
    · exact keeps_pure _

theorem keeps_interpretGroups (h : it.Keeps P) : ∀ gs : List Group, (it.interpretGroups gs).Keeps P
  | [] => keeps_pure _
  | g :: gs =>
    (keeps_resolveGroup h g).bind fun c => (keeps_dispatch h c).bind fun _ =>
      (keeps_interpretGroups h gs).bind fun _ => keeps_pure _

theorem keeps_interpret (h : it.Keeps P) (ws : List Word) : (it.interpret ws).Keeps P := by
  have hrequire : (it.require .interpret).Keeps P := by
    rw [require]
    split
    · exact keeps_throw _
    · exact keeps_pure _
  exact hrequire.bind fun _ => keeps_interpretGroups h _

end Interpreter

end Gcode
