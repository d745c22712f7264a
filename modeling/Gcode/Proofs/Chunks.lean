import Gcode.Proofs.Accounts
import Gcode.Proofs.Apart
import Gcode.Proofs.Failure
import Gcode.Proofs.Returning
import Mathlib.Data.List.TakeWhile

/-!
The calls of a chunk. The lines that a chunk completes are announced and carried out without a
break, so the calls that they lead to are those of their groups, resolved in order from the modal
command that there is before the first of them, whoever has set it. Main statements: if host code
returns and leaves the modal command alone, delivering lines is carrying out just these deeds
(`deliver_calls`); and the modal command before them decides on nothing but the codes of the groups
that come before the first command word (`deedsOf_front`).
-/

namespace Gcode

open Act

/-- Host code stays out of the loads and leaves the modal command alone. -/
def Machine.Aloof (m m' : Machine) : Prop := m.StaysOut m' ∧ m'.modal = m.modal

/-- Host code stays out of the loads. Handlers, methods and listeners return and leave the modal
command alone. -/
structure Interpreter.Considerate (it : Interpreter) : Prop extends it.Listening where
  handler : ∀ id args m, ∃ left m', it.host.handler id args m = .ok left m'
  method : ∀ code args m, ∃ r m', it.callMethod code args m = .ok r m'
  conduct : it.Conduct Machine.Aloof
  told : ∀ id outcome, (it.host.callback id outcome).Moves Machine.StaysOut

/-- Carries out a deed: gives notice, or makes the code of a command the modal command and
dispatches the command. -/
def Deed.carryOut (it : Interpreter) : Deed → Act Unit
  | .notice e payload => do
    let _ ← it.emit e payload
  | .command c => do
    Interpreter.setModal c.code
    let _ ← it.dispatch c

/-- Carries out deeds in order. -/
def Interpreter.carryOutAll (it : Interpreter) : List Deed → Act Unit
  | [] => pure ()
  | d :: ds => do
    d.carryOut it
    it.carryOutAll ds

namespace Machine

theorem steady_aloof : Steady Aloof where
  refl m := ⟨.refl m, rfl⟩
  trans h h' := ⟨h.1.trans h'.1, h'.2.trans h.2⟩

end Machine

namespace Interpreter

variable {it : Interpreter} {m m' : Machine}

namespace Considerate

theorem emit_eq (h : it.Considerate) (e : Event) (payload : List Payload) (m : Machine) :
    ∃ heard m', it.emit e payload m = .ok heard m' ∧ m.Aloof m' := by
  obtain ⟨heard, m', hemit⟩ := h.emit_returns e payload m
  exact ⟨heard, m', hemit, (h.conduct.moves_emit e payload).of_ok hemit⟩

theorem returning (h : it.Considerate) : it.Returning := ⟨h.handler, h.method⟩

theorem dispatch_eq (h : it.Considerate) (c : Command) (m : Machine) :
    ∃ r m', it.dispatch c m = .ok r m' ∧ m.Aloof m' := by
  obtain ⟨r, m', hdispatch⟩ := h.returning.dispatch_returns c m
  exact ⟨r, m', hdispatch, (h.conduct.moves_dispatch c).of_ok hdispatch⟩

end Considerate

theorem setModal_eq (code : String) (m : Machine) :
    ∃ m', setModal code m = .ok () m' ∧ m'.modal = code ∧ m.StaysOut m' := by
  rw [setModal, get_bind]
  dsimp only
  split
  · exact ⟨_, rfl, rfl, Machine.staysOut_of_eq rfl rfl rfl rfl⟩
  · exact ⟨_, rfl, rfl, Machine.staysOut_of_eq rfl rfl rfl rfl⟩

theorem carryOutAll_append (ds ds' : List Deed) :
    it.carryOutAll (ds ++ ds') = it.carryOutAll ds >>= fun _ => it.carryOutAll ds' := by
  induction ds with
  | nil => rfl
  | cons d ds ih => rw [List.cons_append, carryOutAll, carryOutAll, ih, bind_assoc]

/-- Groups are carried out as the commands that they resolve to. -/
theorem interpretGroups_calls (h : it.Considerate) : ∀ (gs : List Group) (m : Machine),
    ∃ cs m', it.interpretGroups gs m = .ok cs m' ∧
      it.carryOutAll ((Command.ofGroups m.modal gs).map .command) m = .ok () m' ∧
      m'.modal = Command.modalAfter m.modal (Command.ofGroups m.modal gs) ∧ m.StaysOut m'
  | [], m => ⟨[], m, rfl, rfl, rfl, .refl m⟩
  | g :: gs, m => by
    obtain ⟨m₁, hset, hmodal, hout⟩ := setModal_eq (g.resolve m.modal).code m
    obtain ⟨r, m₂, hdispatch, hout', hmodal'⟩ := h.dispatch_eq (g.resolve m.modal) m₁
    have hcode : m₂.modal = (g.resolve m.modal).code := hmodal'.trans hmodal
    obtain ⟨cs, m₃, hrest, hcalls, hafter, hout''⟩ := interpretGroups_calls h gs m₂
    have hresolve : resolveGroup g m = .ok (g.resolve m.modal) m₁ := by
      rw [resolveGroup, get_bind]
      exact bind_ok hset _
    have hcarry : (Deed.command (g.resolve m.modal)).carryOut it m = .ok () m₂ := by
      rw [Deed.carryOut, bind_ok hset]
      exact bind_ok hdispatch _
    rw [hcode] at hcalls hafter
    refine ⟨{ g.resolve m.modal with args := r.2 } :: cs, m₃, ?_, ?_, hafter,
      (hout.trans hout').trans hout''⟩
    · rw [interpretGroups, bind_ok hresolve, bind_ok hdispatch]
      exact bind_ok hrest _
    · rw [Command.ofGroups, List.map_cons, carryOutAll, bind_ok hcarry]
      exact hcalls

/-- Delivering lines is carrying out their deeds, resolved from the modal command before them. -/
theorem deliver_calls (h : it.Considerate) : ∀ (ls : List Line) (m : Machine),
    ∃ m', it.deliver ls m = .ok () m' ∧
      it.carryOutAll (deedsOf m.modal (ls.map .line)) m = .ok () m' ∧
      m'.modal = modalThrough m.modal (ls.map .line) ∧ m.StaysOut m'
  | [], m => ⟨m, rfl, rfl, rfl, .refl m⟩
  | l :: ls, m => by
    obtain ⟨heard, m₁, hemit, hout, hmodal⟩ := h.emit_eq .data [.line l] m
    obtain ⟨cs, m₂, hgroups, hcalls, hafter, hout'⟩ :=
      interpretGroups_calls h (Group.partition l.words) m₁
    obtain ⟨m₃, hrest, hcalls', hafter', hout''⟩ := deliver_calls h ls m₂
    rw [hmodal] at hcalls hafter
    rw [hafter] at hcalls' hafter'
    refine ⟨m₃, ?_, ?_, hafter', (hout.trans hout').trans hout''⟩
    · have hline : it.call .deliver (do
          let _ ← it.emit .data [.line l]
          let _ ← it.interpret l.words) m = .ok () m₂ := by
        rw [h.intact.call_eq, bind_ok hemit, interpret, h.intact.call_eq]
        exact bind_ok hgroups _
      rw [deliver, bind_ok hline]
      exact hrest
    · have hnotice : (Deed.notice .data [.line l]).carryOut it m = .ok () m₁ := bind_ok hemit _
      rw [List.map_cons, deedsOf, carryOutAll_append, Notice.deeds, carryOutAll, bind_assoc]
      refine (bind_ok hnotice _).trans ((bind_ok hcalls _).trans hcalls')

end Interpreter

/-! ### What the modal command decides on -/

/-- A deed under a code: a notice stays as it is, and a command gets the code. -/
def Deed.under (code : String) : Deed → Deed
  | .notice e payload => .notice e payload
  | .command c => .command { c with code }

/-- Does a group continue the modal command, because it does not begin with a command word? -/
def Group.isOpen (g : Group) : Bool := !g.leading.isCommand

/-- The groups of some lines, in order. -/
def groupsOf (ls : List Line) : List Group := ls.flatMap fun l => Group.partition l.words

/-- Open groups continue the modal command before them. -/
theorem Command.ofGroups_open (gs : List Group) (hopen : ∀ g ∈ gs, g.isOpen) (modal : String) :
    ofGroups modal gs = gs.map (fun g => ⟨modal, Args.ofWords g.words⟩) ∧
      modalAfter modal (ofGroups modal gs) = modal := by
  induction gs with
  | nil => exact ⟨rfl, rfl⟩
  | cons g gs ih =>
    obtain ⟨hg, hgs⟩ := List.forall_mem_cons.1 hopen
    obtain ⟨hcommands, hafter⟩ := ih hgs
    have hresolve : g.resolve modal = ⟨modal, Args.ofWords g.words⟩ := by
      rw [Group.resolve, if_neg (by simpa [Group.isOpen] using hg)]
    rw [ofGroups, hresolve, List.map_cons]
    exact ⟨congrArg _ hcommands, hafter⟩

/-- From the first command word on, the modal command before it does not matter. -/
theorem Command.ofGroups_closed {g : Group} (hg : g.isOpen = false) (gs : List Group)
    (modal modal' : String) : ofGroups modal (g :: gs) = ofGroups modal' (g :: gs) := by
  have hresolve : g.resolve modal = g.resolve modal' := by
    have hleading : g.leading.isCommand = true := by simpa [Group.isOpen] using hg
    rw [Group.resolve, Group.resolve, if_pos hleading, if_pos hleading]
  rw [ofGroups, ofGroups, hresolve]

theorem closed_of_dropWhile {gs rest : List Group} {g : Group}
    (h : gs.dropWhile Group.isOpen = g :: rest) : g.isOpen = false := by
  have hhead := List.head?_dropWhile_not Group.isOpen gs
  rw [h] at hhead
  simpa using hhead

/-- The commands of some groups: the open ones in front continue the modal command, and the others
do not depend on it. -/
theorem Command.ofGroups_front (gs : List Group) (modal : String) :
    ofGroups modal gs =
      (gs.takeWhile Group.isOpen).map (fun g => ⟨modal, Args.ofWords g.words⟩) ++
        ofGroups "" (gs.dropWhile Group.isOpen) := by
  obtain ⟨hcommands, hafter⟩ := ofGroups_open (gs.takeWhile Group.isOpen)
    (fun g hg => List.mem_takeWhile_imp hg) modal
  conv_lhs => rw [← List.takeWhile_append_dropWhile (p := Group.isOpen) (l := gs), ofGroups_append]
  rw [hafter, hcommands]
  cases hclosed : gs.dropWhile Group.isOpen with
  | nil => rfl
  | cons g rest => rw [ofGroups_closed (closed_of_dropWhile hclosed) rest modal ""]

/-- The modal command after groups with a command word is the same whatever it was before. -/
theorem Command.modalAfter_front {gs rest : List Group} {g : Group}
    (h : gs.dropWhile Group.isOpen = g :: rest) (modal modal' : String) :
    modalAfter modal (ofGroups modal gs) = modalAfter modal' (ofGroups modal' gs) := by
  rw [ofGroups_front gs modal, ofGroups_front gs modal', modalAfter_append, modalAfter_append, h]
  rfl

/-- The commands of groups in front, without their codes. -/
def openDeeds (gs : List Group) : List Deed :=
  (gs.takeWhile Group.isOpen).map fun g => .command ⟨"", Args.ofWords g.words⟩

theorem deeds_front (gs : List Group) (modal : String) :
    (Command.ofGroups modal gs).map Deed.command =
      (openDeeds gs).map (Deed.under modal) ++
        (Command.ofGroups "" (gs.dropWhile Group.isOpen)).map Deed.command := by
  rw [Command.ofGroups_front, List.map_append, openDeeds, List.map_map, List.map_map]
  rfl

theorem length_openDeeds (gs : List Group) :
    ((openDeeds gs).filterMap Deed.command?).length = (gs.takeWhile Group.isOpen).length := by
  have hcommands : openDeeds gs = ((gs.takeWhile Group.isOpen).map fun g =>
      (⟨"", Args.ofWords g.words⟩ : Command)).map Deed.command := by
    rw [openDeeds, List.map_map]
    rfl
  rw [hcommands, commands_map, List.length_map]

/-- The modal command before some lines decides on nothing but the codes of the groups that come
before the first command word. The induction is on the lines: a line without a command word leaves
the modal command as it is, and after any other it is the same whatever it was before. -/
theorem deedsOf_front : ∀ ls : List Line, ∃ front rest : List Deed,
    (∀ modal, deedsOf modal (ls.map .line) = front.map (Deed.under modal) ++ rest) ∧
      (front.filterMap Deed.command?).length = ((groupsOf ls).takeWhile Group.isOpen).length
  | [] => ⟨[], [], fun _ => rfl, rfl⟩
  | l :: ls => by
    obtain ⟨gs, hgs⟩ : ∃ gs, Group.partition l.words = gs := ⟨_, rfl⟩
    have hdeeds : ∀ modal, deedsOf modal ((l :: ls).map .line) =
        .notice .data [.line l] :: ((Command.ofGroups modal gs).map .command ++
          deedsOf (Command.modalAfter modal (Command.ofGroups modal gs)) (ls.map .line)) := by
      intro modal
      rw [← hgs]
      rfl
    have hgroups : groupsOf (l :: ls) = gs ++ groupsOf ls := by
      rw [← hgs]
      exact List.flatMap_cons
    cases hclosed : gs.dropWhile Group.isOpen with
    | nil =>
      have hopen : ∀ g ∈ gs, g.isOpen := List.dropWhile_eq_nil_iff.1 hclosed
      obtain ⟨front, rest, hfront, hcount⟩ := deedsOf_front ls
      refine ⟨.notice .data [.line l] :: (openDeeds gs ++ front), rest, fun modal => ?_, ?_⟩
      · rw [hdeeds, (Command.ofGroups_open gs hopen modal).2, hfront, deeds_front, hclosed]
        simp [Deed.under, Command.ofGroups]
      · rw [hgroups, List.takeWhile_append_of_pos hopen, List.filterMap_cons_none rfl,
          List.filterMap_append, List.length_append, List.length_append, hcount, length_openDeeds,
          List.takeWhile_eq_self_iff.2 hopen]
    | cons g closed =>
      refine ⟨.notice .data [.line l] :: openDeeds gs,
        (Command.ofGroups "" (g :: closed)).map .command ++
          deedsOf (Command.modalAfter "" (Command.ofGroups "" gs)) (ls.map .line),
        fun modal => ?_, ?_⟩
      · rw [hdeeds, Command.modalAfter_front hclosed modal "", deeds_front, hclosed]
        simp [Deed.under]
      · have hshort : (gs.takeWhile Group.isOpen).length ≠ gs.length := by
          have hlength := congrArg List.length
            (List.takeWhile_append_dropWhile (p := Group.isOpen) (l := gs))
          rw [hclosed, List.length_append, List.length_cons] at hlength
          omega
        rw [hgroups, List.filterMap_cons_none rfl, length_openDeeds, List.takeWhile_append,
          if_neg hshort]

end Gcode
