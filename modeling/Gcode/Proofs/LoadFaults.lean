import Gcode.Proofs.Refusals

/-!
What lines can fail over. Once a piece of a document is there, a load can end early over a line that
is refused, and over code of the user: a handler or a listener that fails, or whatever the class of
the interpreter has for a command or in place of an operation. Main statements: delivering lines
and reading them ends early over nothing else (`deliver_blamed`, `linesOf_blamed`).
-/

namespace Gcode

open Act

namespace Act

variable {α β : Type} {P : Fault → Machine → Prop} {a : Act α} {m m' : Machine} {f : Fault}

/-- An action ends early with certain faults only, each on certain machines. -/
def FailsWith (P : Fault → Machine → Prop) (a : Act α) : Prop :=
  ∀ m f m', a m = .error f m' → P f m'

theorem failsWith_pure (x : α) : (pure x : Act α).FailsWith P := fun _ _ _ h => nomatch h

theorem failsWith_throw (hf : ∀ m, P f m) : (throw f : Act α).FailsWith P := by
  intro m g m' h
  cases h
  exact hf m

theorem FailsWith.bind {k : α → Act β} (ha : a.FailsWith P) (hk : ∀ x, (k x).FailsWith P) :
    (a >>= k).FailsWith P := by
  intro m f m' h
  cases hm : a m with
  | ok x m₁ =>
    rw [bind_ok hm] at h
    exact hk x m₁ f m' h
  | error g m₁ =>
    rw [bind_error hm] at h
    cases h
    exact ha m f m' hm

theorem failsWith_get {k : Machine → Act β} (hk : ∀ m, (k m).FailsWith P) :
    (get >>= k).FailsWith P :=
  fun m => hk m m

theorem failsWith_modify (g : Machine → Machine) : (modify g : Act Unit).FailsWith P :=
  fun _ _ _ h => nomatch h

end Act

/-- A reading that ends early has come to a line that is refused. -/
theorem Reading.ofLines_error {strict : Bool} {f : Fault} : ∀ {xs : List (List Char)} {count : Nat},
    (ofLines strict count xs).lines = .error f → ∃ s place, Line.parse strict s place = .error f
  | x :: xs, count, h => by
    rw [ofLines] at h
    dsimp only at h
    cases hx : Line.parse strict x (some ((count + 1 : Nat) : Int)) with
    | error g =>
      rw [hx] at h
      cases h
      exact ⟨x, _, hx⟩
    | ok line? =>
      rw [hx] at h
      dsimp only at h
      cases hrest : (ofLines strict (count + 1) xs).lines with
      | ok ls =>
        rw [hrest] at h
        cases h
      | error g =>
        rw [hrest] at h
        cases h
        exact ofLines_error hrest

namespace Interpreter

/-- What an action has failed over that ends with a fault on a machine: a line that is refused, or code
of the user that has ended with this fault on this machine. -/
inductive Blamed (it : Interpreter) (f : Fault) (left : Machine) : Prop
  | line {strict : Bool} {s : List Char} {place : Option Int} :
      Line.parse strict s place = .error f → Blamed it f left
  | handler {id : String} {args : Args} {m : Machine} :
      it.host.handler id args m = .error f left → Blamed it f left
  | listener {id : String} {payload : List Payload} {m : Machine} :
      it.host.listener id payload m = .error f left → Blamed it f left
  | member {code : String} {args : Args} {m : Machine} :
      it.callMethod code args m = .error f left → Blamed it f left
  | hinders : it.Hinders f → Blamed it f left

variable {it : Interpreter} {load : Load}

/-- A call ends with what stands in front of the operation, or comes to the operation. -/
theorem call_cases {α : Type} (it : Interpreter) (op : Operation) (body : Act α) (m : Machine) :
    (∃ f, it.Hinders f ∧ it.call op body m = .error f m) ∨ it.call op body m = body m := by
  rw [call, require]
  cases hop : it.dialect.obstacle? op with
  | some f => exact .inl ⟨f, ⟨op, hop⟩, rfl⟩
  | none => exact .inr rfl

theorem call_blamed {α : Type} {op : Operation} {body : Act α} (h : body.FailsWith it.Blamed) :
    (it.call op body).FailsWith it.Blamed := by
  intro m f m' hcall
  rcases it.call_cases op body m with ⟨g, hhinders, hfails⟩ | hbody
  · cases hfails.symm.trans hcall
    exact .hinders hhinders
  · exact h m f m' (hbody.symm.trans hcall)

theorem tell_blamed (e : Event) (payload : List Payload) : ∀ rs : List Registration,
    (it.tell e payload rs).FailsWith it.Blamed
  | [] => failsWith_pure ()
  | r :: rs => by
    have htold : (do
        Act.enter (.listener r.listener payload)
        it.host.listener r.listener payload
        it.tell e payload rs : Act Unit).FailsWith it.Blamed :=
      (failsWith_modify _).bind fun _ => FailsWith.bind (fun _ _ _ h => .listener h) fun _ =>
        tell_blamed e payload rs
    rw [tell]
    dsimp only
    split
    · exact (call_blamed (failsWith_modify _)).bind fun _ => htold
    · exact htold

theorem emit_blamed (e : Event) (payload : List Payload) :
    (it.emit e payload).FailsWith it.Blamed :=
  call_blamed (call_blamed (failsWith_get fun _ => (tell_blamed e payload _).bind fun _ =>
    failsWith_pure _))

theorem resolveGroup_blamed (g : Group) : (resolveGroup g).FailsWith it.Blamed := by
  have hset : ∀ code, (setModal code).FailsWith it.Blamed := by
    intro code
    refine failsWith_get fun m => ?_
    dsimp only
    split
    · exact (failsWith_modify _).bind fun _ => failsWith_modify _
    · exact failsWith_modify _
  exact failsWith_get fun m => (hset _).bind fun _ => failsWith_pure _

theorem dispatch_blamed (c : Command) : (it.dispatch c).FailsWith it.Blamed := by
  have hhandler : ∀ code args, (it.callHandler code args).FailsWith it.Blamed := by
    intro code args
    refine failsWith_get fun m => ?_
    split
    · exact (failsWith_modify _).bind fun _ => (failsWith_modify _).bind fun _ =>
        FailsWith.bind (fun _ _ _ h => .handler h) fun _ => failsWith_pure _
    · exact failsWith_pure _
  rw [dispatch]
  split
  · exact (failsWith_modify _).bind fun _ => failsWith_pure _
  · refine (hhandler _ _).bind fun called => FailsWith.bind (fun _ _ _ h => .member h) fun r => ?_
    dsimp only
    split
    · exact (failsWith_modify _).bind fun _ => failsWith_pure _
    · exact failsWith_pure _

theorem interpretGroups_blamed : ∀ gs : List Group, (it.interpretGroups gs).FailsWith it.Blamed
  | [] => failsWith_pure _
  | g :: gs => (resolveGroup_blamed g).bind fun c => (dispatch_blamed c).bind fun _ =>
      (interpretGroups_blamed gs).bind fun _ => failsWith_pure _

/-- Delivering lines ends early over code of the user. -/
theorem deliver_blamed : ∀ ls : List Line, (it.deliver ls).FailsWith it.Blamed
  | [] => failsWith_pure ()
  | _ :: ls =>
    FailsWith.bind (call_blamed ((emit_blamed _ _).bind fun _ =>
      (call_blamed (interpretGroups_blamed _)).bind fun _ => failsWith_pure ())) fun _ =>
        deliver_blamed ls

/-- Reading lines ends early over a line that is refused. -/
theorem linesOf_blamed (strict : Bool) (count : Nat) (xs : List (List Char)) :
    (linesOf (Reading.ofLines strict count xs)).FailsWith it.Blamed := by
  refine (failsWith_modify _).bind fun _ => ?_
  cases hlines : (Reading.ofLines strict count xs).lines with
  | ok ls => exact failsWith_pure ls
  | error f =>
    obtain ⟨s, place, hrefused⟩ := Reading.ofLines_error hlines
    exact failsWith_throw fun _ => .line hrefused

/-- Taking in the end of a document fails over its last lines. -/
theorem finish_blamed (load : Load) : (it.finish load).FailsWith it.Blamed :=
  (linesOf_blamed _ _ _).bind fun _ => (deliver_blamed _).bind fun _ =>
    (linesOf_blamed _ _ _).bind fun _ => (deliver_blamed _).bind fun _ => failsWith_pure _

end Interpreter

end Gcode
