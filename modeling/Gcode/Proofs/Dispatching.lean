import Gcode.Proofs.Recording
import Mathlib.Data.List.Infix

/-!
Commands that are dispatched while a line is resolved. A line is carried out group by group, and
what is called for one group may change the modal command before the next group is resolved, write
into the arguments it was given, or load whole texts. Yet only the first group of a line can ask for
the modal command, and every group has arguments of its own; so the commands are those to which the
line is resolved without calling anyone. Main statement: what is called first for a command finds
the arguments and the modal command that resolution gives (`interpret_resolved`).
-/

namespace Gcode

open Act

/-! ### Groups that do not ask for the modal command -/

theorem Group.isCommand_of_mem_split (leading : Word) (ws : List Word) :
    ∀ g ∈ (split leading ws).2, g.leading.isCommand := by
  induction ws generalizing leading with
  | nil => exact fun g hg => absurd hg List.not_mem_nil
  | cons w ws ih =>
    rw [split_snd_cons]
    by_cases hw : w.isCommand
    · rw [if_pos hw, split_fst]
      exact List.forall_mem_cons.2 ⟨hw, ih w⟩
    · rw [if_neg hw]
      exact ih w

/-- After the first group of a line, every group begins with a command word. -/
theorem Group.isCommand_of_mem_tail (ws : List Word) :
    ∀ g ∈ (partition ws).tail, g.leading.isCommand := by
  cases ws with
  | nil => exact fun g hg => absurd hg List.not_mem_nil
  | cons w ws => exact isCommand_of_mem_split w ws

theorem Command.ofGroups_of_commands {gs : List Group} (h : ∀ g ∈ gs, g.leading.isCommand)
    (modal modal' : String) : ofGroups modal gs = ofGroups modal' gs := by
  cases gs with
  | nil => rfl
  | cons g gs =>
    rw [ofGroups, ofGroups, Group.resolve_of_command (h g List.mem_cons_self) modal modal']

/-! ### What the first call finds -/

theorem Call.Sequence.head {c : Command} {modal : String} {calls : List Call}
    (h : Sequence c modal calls) :
    ∀ call ∈ calls.head?, call.args = c.args ∧ call.modal = modal := by
  intro call hcall
  cases h <;> cases hcall <;> exact ⟨rfl, rfl⟩

/-- A command whose first call, if there is one, finds the arguments of the command, and its code as
the modal command. -/
def Dispatched.Opened (d : Dispatched) : Prop :=
  ∀ call ∈ d.calls.head?, call.args = d.command.args ∧ call.modal = d.command.code

namespace Interpreter

variable {it : Interpreter}

/-- Groups are carried out as the commands to which they are resolved, as far as it goes. -/
theorem recordGroups_resolved (it : Interpreter) : ∀ (gs : List Group) (m : Machine),
    (∀ g ∈ gs.tail, g.leading.isCommand) →
      (∀ d ∈ (it.recordGroups gs m).1, d.Opened) ∧
      (it.recordGroups gs m).1.map (·.command) <+: Command.ofGroups m.modal gs ∧
      ∀ cs m', (it.recordGroups gs m).2 = .ok cs m' →
        (it.recordGroups gs m).1.map (·.command) = Command.ofGroups m.modal gs ∧
        cs.map (·.code) = (Command.ofGroups m.modal gs).map (·.code)
  | [], m, _ => by
    refine ⟨fun d hd => absurd hd List.not_mem_nil, List.prefix_rfl, fun cs m' h => ?_⟩
    cases h
    exact ⟨rfl, rfl⟩
  | g :: gs, m, htail => by
    have hcommands : ∀ g ∈ gs, g.leading.isCommand := htail
    obtain ⟨log, hresolve⟩ := resolveGroup_eq g m
    rw [Command.ofGroups]
    generalize g.resolve m.modal = c at hresolve ⊢
    have hopened := (it.recordDispatch_sequence c { m with modal := c.code, log }).head
    rcases hdispatch : it.recordDispatch c { m with modal := c.code, log } with
      ⟨calls, (⟨⟨n, args⟩, m₁⟩ | ⟨f, m₁⟩)⟩
    · rw [hdispatch] at hopened
      obtain ⟨ihopened, ihstart, ihok⟩ :=
        recordGroups_resolved it gs m₁ fun g hg => hcommands g (List.mem_of_mem_tail hg)
      -- whatever became of the modal command, the other groups do not ask for it
      rw [Command.ofGroups_of_commands hcommands m₁.modal c.code] at ihstart ihok
      rcases hrest : it.recordGroups gs m₁ with ⟨ds, (⟨rest, m₂⟩ | ⟨f, m₂⟩)⟩
      · rw [hrest] at ihopened ihstart ihok
        obtain ⟨hcommands, hcodes⟩ := ihok rest m₂ rfl
        rw [recordGroups_cons_ok hresolve hdispatch hrest]
        refine ⟨List.forall_mem_cons.2 ⟨hopened, ihopened⟩,
          (List.prefix_cons_inj c).2 ihstart, fun cs m' h => ?_⟩
        cases h
        exact ⟨congrArg (c :: ·) hcommands, congrArg (c.code :: ·) hcodes⟩
      · rw [hrest] at ihopened ihstart
        rw [recordGroups_cons_later hresolve hdispatch hrest]
        refine ⟨List.forall_mem_cons.2 ⟨hopened, ihopened⟩,
          (List.prefix_cons_inj c).2 ihstart, fun cs m' h => ?_⟩
        cases h
    · rw [hdispatch] at hopened
      rw [recordGroups_cons_error hresolve hdispatch]
      refine ⟨List.forall_mem_singleton.2 hopened,
        (List.prefix_cons_inj c).2 List.nil_prefix, fun cs m' h => ?_⟩
      cases h

/-! ### Host code that touches nothing -/

/-- Handlers, and what the codes lead to, leave the arguments and the modal command as they find
them. -/
structure Sparing (it : Interpreter) : Prop where
  handler : ∀ id args m left m', it.host.handler id args m = .ok left m' →
    left = args ∧ m'.modal = m.modal
  method : ∀ code args m n left m', it.callMethod code args m = .ok (n, left) m' →
    left = args ∧ m'.modal = m.modal

namespace Sparing

theorem callHandler (h : it.Sparing) {code : String} {args left : Args} {n : Nat} {m m' : Machine}
    (hcall : it.callHandler code args m = .ok (n, left) m') : left = args ∧ m'.modal = m.modal := by
  rw [Interpreter.callHandler, get_bind] at hcall
  rcases hhandler : m.handlers.get? code with _ | (id | _)
  · rw [hhandler] at hcall
    cases hcall
    exact ⟨rfl, rfl⟩
  · rw [hhandler] at hcall
    dsimp only at hcall
    rw [log_bind, enter_bind] at hcall
    obtain ⟨_, _, hhost, hend⟩ := bind_eq_ok hcall
    cases hend
    obtain ⟨hleft, hmodal⟩ := h.handler _ _ _ _ _ hhost
    exact ⟨hleft, hmodal⟩
  · rw [hhandler] at hcall
    cases hcall
    exact ⟨rfl, rfl⟩

theorem dispatch (h : it.Sparing) {c : Command} {left : Args} {n : Nat} {m m' : Machine}
    (hcall : it.dispatch c m = .ok (n, left) m') : left = c.args ∧ m'.modal = m.modal := by
  rw [Interpreter.dispatch] at hcall
  split at hcall
  · cases hcall
    exact ⟨rfl, rfl⟩
  obtain ⟨⟨n₁, args⟩, m₁, hhandler, hrest⟩ := bind_eq_ok hcall
  obtain ⟨⟨n₂, args'⟩, m₂, hmethod, hend⟩ := bind_eq_ok hrest
  obtain ⟨rfl, hmodal₁⟩ := h.callHandler hhandler
  obtain ⟨rfl, hmodal₂⟩ := h.method _ _ _ _ _ _ hmethod
  dsimp only at hend
  split at hend <;> (cases hend; exact ⟨rfl, hmodal₂.trans hmodal₁⟩)

/-- Groups are then carried out as they are resolved, and leave the modal command of resolution. -/
theorem interpretGroups (h : it.Sparing) : ∀ {gs : List Group} {m m' : Machine} {cs : List Command},
    it.interpretGroups gs m = .ok cs m' →
      cs = Command.ofGroups m.modal gs ∧
        m'.modal = Command.modalAfter m.modal (Command.ofGroups m.modal gs)
  | [], m, m', cs, hrun => by
    cases hrun
    exact ⟨rfl, rfl⟩
  | g :: gs, m, m', cs, hrun => by
    obtain ⟨log, hresolve⟩ := resolveGroup_eq g m
    rw [Interpreter.interpretGroups, bind_ok hresolve] at hrun
    obtain ⟨⟨n, args⟩, m₁, hdispatch, hrest⟩ := bind_eq_ok hrun
    obtain ⟨rest, m₂, hgroups, hend⟩ := bind_eq_ok hrest
    obtain ⟨rfl, hmodal⟩ := h.dispatch hdispatch
    obtain ⟨rfl, hmodal'⟩ := h.interpretGroups hgroups
    cases hend
    rw [hmodal] at hmodal'
    rw [hmodal, Command.ofGroups]
    exact ⟨rfl, hmodal'⟩

end Sparing

end Interpreter

/-- A line that is carried out gives the commands to which it is resolved from the same modal
command, as far as it gets, whatever is called on the way and whatever that does. What is called
first for a command finds the arguments that resolution gives, and the code of the command as the
modal command. If everyone returns, so does the line; if it returns, its commands have the codes of
resolution, and if nothing touches the arguments and the modal command, then they are the commands
of resolution, and the modal command is left as resolution leaves it. -/
theorem interpret_resolved (it : Interpreter) (h : it.dialect.obstacle? .interpret = none)
    (ws : List Word) (m : Machine) :
    ∃ resolved n ds r, Interpreter.resolve ws m = .ok resolved n ∧
      it.recordInterpret ws m = (ds, r) ∧ it.interpret ws m = r ∧
      ds.map (·.command) <+: resolved ∧
      (∀ d ∈ ds, ∀ call ∈ d.calls.head?, call.args = d.command.args ∧ call.modal = d.command.code) ∧
      (it.Returning → ∃ cs m', r = .ok cs m') ∧
      ∀ cs m', r = .ok cs m' →
        ds.map (·.command) = resolved ∧ cs.map (·.code) = resolved.map (·.code) ∧
        (it.Sparing → cs = resolved ∧ m'.modal = n.modal) := by
  obtain ⟨log, hresolve⟩ := Interpreter.resolve_eq ws m
  have hrecord : it.recordInterpret ws m = it.recordGroups (Group.partition ws) m :=
    congrFun (Interpreter.recordInterpret_eq h ws) m
  have hrun : it.interpret ws m = it.interpretGroups (Group.partition ws) m := by
    rw [Interpreter.interpret, Interpreter.call, Interpreter.require_eq_pure h]
    rfl
  obtain ⟨hopened, hstart, hok⟩ := it.recordGroups_resolved (Group.partition ws) m
    (Group.isCommand_of_mem_tail ws)
  refine ⟨_, _, _, _, hresolve, hrecord, ?_, hstart, hopened, fun hreturns => ?_,
    fun cs m' hr => ?_⟩
  · rw [hrun, ← it.act_recordGroups]
    rfl
  · obtain ⟨cs, m', hgroups⟩ := hreturns.interpretGroups_returns (Group.partition ws) m
    rw [← it.act_recordGroups] at hgroups
    exact ⟨cs, m', hgroups⟩
  · obtain ⟨hcommands, hcodes⟩ := hok cs m' hr
    refine ⟨hcommands, hcodes, fun hsparing => ?_⟩
    have hgroups : it.interpretGroups (Group.partition ws) m = .ok cs m' := by
      rw [← it.act_recordGroups]
      exact hr
    obtain ⟨hcs, hmodal⟩ := hsparing.interpretGroups hgroups
    refine ⟨hcs, hmodal.trans ?_⟩
    exact Command.modalAfter_ofWords m.modal ws

/-- Handlers forget the modal command, load a text that sets another, and leave no arguments; the
method of `M3` does the same but for the arguments. -/
def meddling : Interpreter where
  dialect := { table := ⟨[("M3", "spindle")]⟩
               attributes := ⟨[("spindle", .method ⟨"Mill", "spindle", none⟩)]⟩ }
  host := { Host.silent with
    handler := fun _ _ => do
      Interpreter.reset
      let _ ← Interpreter.loadText {} "G7 Z9".toList none
      pure ∅
    method := fun _ args => do
      Interpreter.reset
      pure args }

theorem meddling_returning : meddling.Returning where
  handler id args m := by
    have hsilent : Interpreter.Returning {} :=
      ⟨fun _ args m => ⟨args, m, rfl⟩, fun _ args m => ⟨(0, args), m, rfl⟩⟩
    obtain ⟨ls, hls⟩ : ∃ ls, (LineReader.program { strict := m.strict }
        "G7 Z9".toList).1.lines = .ok ls := by
      cases m.strict <;> exact ⟨_, rfl⟩
    obtain ⟨m', hload⟩ := hsilent.loadText_returns (fun op => by cases op <;> rfl)
      Interpreter.lineDoneReturns_none (m := { m with modal := "" }) hls
    exact ⟨∅, m', Act.bind_ok hload _⟩
  method code args m := by
    by_cases hcode : code = "M3"
    · subst hcode
      exact ⟨_, _, rfl⟩
    · have hnone : meddling.dialect.attribute? code = none := by
        simp [Dialect.attribute?, meddling, Table.get?, Ne.symm hcode]
      rw [Interpreter.callMethod, hnone]
      exact ⟨_, m, rfl⟩

/-- A line that goes on with the modal command and then has two commands. -/
def driftingWords : List Word :=
  [⟨"X", .int 1⟩, ⟨"M", .int 3⟩, ⟨"S", .int 8⟩, ⟨"G", .int 1⟩, ⟨"X", .int 2⟩]

/-- Handlers and methods change everything they can while a line is carried out, and yet what is
called first for each command finds what resolution gives. -/
theorem interpret_resolved_meddling :
    ∃ resolved n ds cs m',
      Interpreter.resolve driftingWords
        { modal := "G1", handlers := ⟨[("G1", .callable "move")]⟩ } = .ok resolved n ∧
      meddling.recordInterpret driftingWords
        { modal := "G1", handlers := ⟨[("G1", .callable "move")]⟩ } = (ds, .ok cs m') ∧
      ds.map (·.command) = resolved ∧ cs.map (·.code) = ["G1", "M3", "G1"] ∧
      ∀ d ∈ ds, ∀ call ∈ d.calls.head?,
        call.args = d.command.args ∧ call.modal = d.command.code := by
  obtain ⟨resolved, n, ds, r, hresolve, hrecord, -, -, hopened, hreturns, hok⟩ :=
    interpret_resolved meddling rfl driftingWords
      { modal := "G1", handlers := ⟨[("G1", .callable "move")]⟩ }
  obtain ⟨cs, m', rfl⟩ := hreturns meddling_returning
  obtain ⟨hcommands, hcodes, -⟩ := hok cs m' rfl
  obtain ⟨log, hresolve'⟩ := Interpreter.resolve_eq driftingWords
    { modal := "G1", handlers := ⟨[("G1", .callable "move")]⟩ }
  rw [hresolve'] at hresolve
  cases hresolve
  refine ⟨_, _, ds, cs, m', hresolve', hrecord, hcommands, ?_, hopened⟩
  rw [hcodes]
  decide

end Gcode
