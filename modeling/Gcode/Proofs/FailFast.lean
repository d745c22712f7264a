import Gcode.Proofs.Recording
import Mathlib.Data.List.Infix

/-!
Loads that fail at once. A handler or a method that raises ends a load at once, and with its own
fault. Two runs are compared for this: the run in which a call raises, and the run of an interpreter
that does the same as long as calls return and may go on where they raise. Up to the call that
raises they go abreast (`Abreast`), and then the first ends. Main statement: the calls of the first
are the first calls of the second, and the call that raises belongs to the first line that was not
reported and to the command that the modal command names (`load_failsFast`).
-/

namespace Gcode

open Act

/-- The calls for some lines. -/
def callsOf (ks : List Carried) : List Call := ks.flatMap Carried.calls

/-- A call without its end. -/
def Call.bare (call : Call) : Call := { call with fault := none }

/-- A call that did not raise. -/
def Call.Returned (call : Call) : Prop := call.fault = none

/-! ### Runs that go abreast -/

section Abreast

variable {κ κ' α β : Type} {calls : κ → List Call} {calls' : κ' → List Call}

/-- A run beside a run that may go on where the first ends. Either no call raises, and both return
the same; or the first is stuck for another reason; or its last call raises, the fault passes on,
the modal command is the code of that call, and the second run makes the same calls so far. -/
inductive Abreast (calls : κ → List Call) :
    List κ × EStateM.Result Fault Machine α → List κ × EStateM.Result Fault Machine α → Prop where
  | returns {ks : List κ} {x : α} {m : Machine}
    (hreturned : ∀ call ∈ ks.flatMap calls, call.Returned) :
    Abreast calls (ks, .ok x m) (ks, .ok x m)
  | stuck {ks : List κ} {f : Fault} {m : Machine} {b : List κ × EStateM.Result Fault Machine α}
    (hreturned : ∀ call ∈ ks.flatMap calls, call.Returned) : Abreast calls (ks, .error f m) b
  | raised {ks : List κ} {f : Fault} {m : Machine} {b : List κ × EStateM.Result Fault Machine α}
    {before : List Call} {call : Call} (hcalls : ks.flatMap calls = before ++ [call])
    (hreturned : ∀ call ∈ before, call.Returned) (hfault : call.fault = some f)
    (hmodal : m.modal = call.code)
    (hstart : (before ++ [call]).map Call.bare <+: (b.1.flatMap calls).map Call.bare) :
    Abreast calls (ks, .error f m) b

theorem Recorded.fst_prefix_bind (a : Recorded κ α) (f : α → Recorded κ β) (m : Machine) :
    (a m).1 <+: ((a >>= f) m).1 := by
  rcases h : a m with ⟨ks, (⟨x, m'⟩ | ⟨e, m'⟩)⟩
  · rw [Recorded.bind_ok h]
    exact List.prefix_append _ _
  · rw [Recorded.bind_error h]

/-- Without calls, an action goes abreast with one that does the same if it returns. -/
theorem abreast_quietly_of {a b : Act α} {m : Machine}
    (hsame : ∀ x n, a m = .ok x n → b m = .ok x n) :
    Abreast calls (Recorded.quietly a m) (Recorded.quietly b m) := by
  rcases h : a m with ⟨x, n⟩ | ⟨f, n⟩
  · rw [Recorded.quietly, Recorded.quietly, h, hsame x n h]
    exact .returns fun _ hcall => absurd hcall List.not_mem_nil
  · rw [Recorded.quietly, h]
    exact .stuck fun _ hcall => absurd hcall List.not_mem_nil

theorem abreast_quietly (a : Act α) (m : Machine) :
    Abreast calls (Recorded.quietly a m) (Recorded.quietly a m) :=
  abreast_quietly_of fun _ _ h => h

/-- Runs that go abreast go on abreast. -/
theorem Abreast.bind {a b : Recorded κ α} {f g : α → Recorded κ β} {m : Machine}
    (h : Abreast calls (a m) (b m))
    (hnext : ∀ ks x m', a m = (ks, .ok x m') → Abreast calls (f x m') (g x m')) :
    Abreast calls ((a >>= f) m) ((b >>= g) m) := by
  have hgrows := Recorded.fst_prefix_bind b g m
  generalize ha : a m = ra at h
  generalize hb : b m = rb at h hgrows
  cases h with
  | @returns ks x m' hreturned =>
    have hnext := hnext ks x m' ha
    rw [Recorded.bind_ok ha, Recorded.bind_ok hb]
    generalize f x m' = rf at hnext
    generalize g x m' = rg at hnext
    cases hnext with
    | returns hreturned' =>
      refine .returns fun call hcall => ?_
      rw [List.flatMap_append, List.mem_append] at hcall
      exact hcall.elim (hreturned call) (hreturned' call)
    | stuck hreturned' =>
      refine .stuck fun call hcall => ?_
      rw [List.flatMap_append, List.mem_append] at hcall
      exact hcall.elim (hreturned call) (hreturned' call)
    | @raised ks' _ _ _ before call hcalls hreturned' hfault hmodal hstart =>
      have hall : (ks ++ ks').flatMap calls = (ks.flatMap calls ++ before) ++ [call] := by
        rw [List.flatMap_append, hcalls, List.append_assoc]
      refine .raised hall ?_ hfault hmodal ?_
      · intro call hcall
        exact (List.mem_append.1 hcall).elim (hreturned call) (hreturned' call)
      · have hboth : ((ks ++ rg.1).flatMap calls).map Call.bare =
            (ks.flatMap calls).map Call.bare ++ (rg.1.flatMap calls).map Call.bare := by
          rw [List.flatMap_append, List.map_append]
        rw [List.append_assoc, List.map_append, hboth]
        exact (List.prefix_append_right_inj _).2 hstart
  | stuck hreturned =>
    rw [Recorded.bind_error ha]
    exact .stuck hreturned
  | raised hcalls hreturned hfault hmodal hstart =>
    rw [Recorded.bind_error ha]
    refine .raised hcalls hreturned hfault hmodal (hstart.trans ?_)
    obtain ⟨more, hmore⟩ := hgrows
    rw [← hmore, List.flatMap_append, List.map_append]
    exact List.prefix_append _ _

/-- Runs that go abreast do so when their records are put together. -/
theorem Abreast.gather {a b : Recorded κ α} {m : Machine} (h : Abreast calls (a m) (b m))
    {g : List κ → κ'} (hg : ∀ ks, calls' (g ks) = ks.flatMap calls) :
    Abreast calls' (a.gather g m) (b.gather g m) := by
  rw [Recorded.gather, Recorded.gather]
  generalize a m = ra at h
  generalize b m = rb at h
  cases h with
  | returns hreturned => exact .returns (by simpa [hg] using hreturned)
  | stuck hreturned => exact .stuck (by simpa [hg] using hreturned)
  | raised hcalls hreturned hfault hmodal hstart =>
    exact .raised (by simpa [hg] using hcalls) hreturned hfault hmodal (by simpa [hg] using hstart)

/-- If a call raises, the run ends with it, and the other run makes the same calls so far. -/
theorem Abreast.ends {a b : List κ × EStateM.Result Fault Machine α} (h : Abreast calls a b)
    {k : Nat} {call : Call} {f : Fault} (hcall : (a.1.flatMap calls)[k]? = some call)
    (hfault : call.fault = some f) :
    (a.1.flatMap calls).map Call.bare = ((b.1.flatMap calls).take (k + 1)).map Call.bare ∧
      ∃ n, a.2 = .error f n ∧ n.modal = call.code := by
  have hraised : ¬ call.Returned := by
    rw [Call.Returned, hfault]
    exact Option.some_ne_none f
  cases h with
  | returns hreturned => exact absurd (hreturned call (List.mem_of_getElem? hcall)) hraised
  | stuck hreturned => exact absurd (hreturned call (List.mem_of_getElem? hcall)) hraised
  | @raised ks g n _ before last hcalls hreturned hfault' hmodal hstart =>
    -- the calls before the last one returned, so it is the last one that raised
    have hk : before.length ≤ k := by
      by_contra hlt
      rw [hcalls, List.getElem?_append_left (not_le.1 hlt)] at hcall
      exact hraised (hreturned call (List.mem_of_getElem? hcall))
    rw [hcalls, List.getElem?_append_right hk] at hcall
    obtain ⟨hlast, hsame⟩ := List.getElem?_eq_some_iff.1 hcall
    have hlength : k = before.length := by
      rw [List.length_singleton] at hlast
      omega
    subst hlength
    obtain rfl : last = call := by simpa using hsame
    rw [hfault'] at hfault
    cases hfault
    refine ⟨?_, n, rfl, hmodal⟩
    have htake := List.prefix_iff_eq_take.1 hstart
    rw [List.length_map, List.length_append, List.length_singleton, ← List.map_take] at htake
    rw [← htake, hcalls]

theorem Abreast.returned_of_ok {ks : List κ} {x : α} {m : Machine}
    {b : List κ × EStateM.Result Fault Machine α} (h : Abreast calls (ks, .ok x m) b) :
    ∀ call ∈ ks.flatMap calls, call.Returned := by
  cases h with
  | returns hreturned => exact hreturned

end Abreast

/-! ### Interpreters that go abreast -/

namespace Interpreter

/-- An interpreter that calls what another calls and does the same as long as that returns. Where a
call of the other raises, it may go on. -/
structure Completes (it' it : Interpreter) : Prop where
  require : ∀ op, it.dialect.obstacle? op = none → it'.dialect.obstacle? op = none
  target : ∀ code, it'.dialect.methodFor? code = it.dialect.methodFor? code
  handler : ∀ id args m left n, it.host.handler id args m = .ok left n →
    it'.host.handler id args m = .ok left n
  method : ∀ code args m r n, it.callMethod code args m = .ok r n →
    it'.callMethod code args m = .ok r n
  lineDone : ∀ id line index m n, it.host.lineDone id line index m = .ok () n →
    it'.host.lineDone id line index m = .ok () n

/-- Handlers, and what the codes lead to, do not touch the modal command. -/
structure KeepsModal (it : Interpreter) : Prop where
  handler : ∀ id args modal, (it.host.handler id args).Keeps (·.modal = modal)
  method : ∀ code args modal, (it.callMethod code args).Keeps (·.modal = modal)

theorem Completes.refl (it : Interpreter) : it.Completes it where
  require _ h := h
  target _ := rfl
  handler _ _ _ _ _ h := h
  method _ _ _ _ _ h := h
  lineDone _ _ _ _ _ h := h

variable {it it' : Interpreter} {callback : Option String}

theorem Completes.callHandler (h : it'.Completes it) {code : String} {args : Args} {m m' : Machine}
    {r : Nat × Args} (hcall : it.callHandler code args m = .ok r m') :
    it'.callHandler code args m = .ok r m' := by
  rw [Interpreter.callHandler, get_bind] at hcall ⊢
  rcases hhandler : m.handlers.get? code with _ | (id | _)
  · rw [hhandler] at hcall
    exact hcall
  · rw [hhandler] at hcall
    dsimp only at hcall ⊢
    rw [log_bind, enter_bind] at hcall ⊢
    obtain ⟨left, n, hhost, hend⟩ := bind_eq_ok hcall
    rw [bind_ok (h.handler _ _ _ _ _ hhost)]
    exact hend
  · rw [hhandler] at hcall
    exact hcall

theorem KeepsModal.callHandler (h : it.KeepsModal) (code : String) (args : Args) (modal : String) :
    (it.callHandler code args).Keeps (·.modal = modal) := by
  have hlog : ∀ level channel message,
      (Act.log level channel message).Keeps (·.modal = modal) :=
    fun _ _ _ => keeps_modify fun m hm => hm
  have henter : ∀ entry, (Act.enter entry).Keeps (·.modal = modal) :=
    fun _ => keeps_modify fun m hm => hm
  refine keeps_get fun m => ?_
  split
  · exact (hlog _ _ _).bind fun _ => (henter _).bind fun _ =>
      (h.handler _ _ _).bind fun _ => keeps_pure _
  · exact keeps_pure _

/-- A call goes abreast with one that does the same if it returns. -/
theorem abreast_recordCall {target : Target} {code : String} {args : Args} {m : Machine}
    (hsame : ∀ left n, target.act it args m = .ok left n → target.act it' args m = .ok left n)
    (hmodal : ((target.act it args).after m).modal = code) :
    Abreast (fun call => [call]) (it.recordCall code args target m)
      (it'.recordCall code args target m) := by
  rw [recordCall, recordCall]
  rcases hact : target.act it args m with ⟨left, n⟩ | ⟨f, n⟩
  · rw [hsame left n hact]
    exact .returns (List.forall_mem_singleton.2 rfl)
  · rw [after, hact] at hmodal
    exact .raised (List.nil_append _).symm (fun _ hcall => absurd hcall List.not_mem_nil) rfl hmodal
      List.prefix_rfl

/-- So do the notes and the call together. -/
theorem abreast_recordTarget {target : Target} {code name : String} {args : Args} {m : Machine}
    (hsame : ∀ r n, (it.recordTarget code name args target).act m = .ok r n →
      (it'.recordTarget code name args target).act m = .ok r n)
    (hmodal : ((it.recordTarget code name args target).act.after m).modal = code) :
    Abreast (fun call => [call]) (it.recordTarget code name args target m)
      (it'.recordTarget code name args target m) := by
  obtain ⟨journal, log, hnote⟩ := note_eq target code name args m
  have hact : ∀ i : Interpreter, (i.recordTarget code name args target).act m =
      (target.act i args >>= fun left => pure (1, left)) { m with journal, log } := by
    intro i
    rw [act_recordTarget, Act.bind_ok hnote]
  rw [after, hact] at hmodal
  rw [recordTarget, recordTarget, Recorded.quietly_bind_ok hnote, Recorded.quietly_bind_ok hnote]
  refine (abreast_recordCall (fun left n hleft => ?_) ?_).bind fun _ _ m' _ => abreast_quietly _ m'
  · have hsame := hsame (1, left) n (by rw [hact, Act.bind_ok hleft]; rfl)
    rw [hact] at hsame
    obtain ⟨left', n', hleft', hend⟩ := Act.bind_eq_ok hsame
    cases hend
    exact hleft'
  · rcases hleft : target.act it args { m with journal, log } with ⟨left, n⟩ | ⟨f, n⟩
    · rw [Act.bind_ok hleft] at hmodal
      rw [after, hleft]
      exact hmodal
    · rw [Act.bind_error hleft] at hmodal
      rw [after, hleft]
      exact hmodal

theorem abreast_recordHandler (h : it'.Completes it) (hkeeps : it.KeepsModal) {code : String}
    (args : Args) {m : Machine} (hm : m.modal = code) :
    Abreast (fun call => [call]) (it.recordHandler code args m)
      (it'.recordHandler code args m) := by
  have hcall : ∀ i : Interpreter, i.recordHandler code args m =
      ((m.handlerFor? code).elim (pure (0, args)) (i.recordTarget code "" args)) m := by
    intro i
    rw [recordHandler]
    cases m.handlerFor? code <;> rfl
  have hsame : ∀ r n, it.callHandler code args m = .ok r n →
      it'.callHandler code args m = .ok r n := fun r n => h.callHandler
  have hmodal := hkeeps.callHandler code args code m hm
  rw [← act_recordHandler, ← act_recordHandler] at hsame
  rw [← act_recordHandler] at hmodal
  rw [after, Recorded.act, hcall] at hmodal
  simp only [Recorded.act, hcall] at hsame
  rw [hcall, hcall]
  cases hfor : m.handlerFor? code with
  | none => exact abreast_quietly (pure _) m
  | some target =>
    rw [hfor] at hsame hmodal
    exact abreast_recordTarget hsame hmodal

theorem abreast_recordMethod (h : it'.Completes it) (hkeeps : it.KeepsModal) {code : String}
    (args : Args) {m : Machine} (hm : m.modal = code) :
    Abreast (fun call => [call]) (it.recordMethod code args m) (it'.recordMethod code args m) := by
  have hsame := h.method code args m
  have hmodal := hkeeps.method code args code m hm
  rw [← act_recordMethod, ← act_recordMethod] at hsame
  rw [← act_recordMethod] at hmodal
  rw [recordMethod] at hsame hmodal ⊢
  rw [recordMethod, h.target] at hsame ⊢
  cases hfor : it.dialect.methodFor? code with
  | none =>
    rw [hfor] at hsame
    exact abreast_quietly_of fun r n => hsame r n
  | some found =>
    rw [hfor] at hsame hmodal
    exact abreast_recordTarget (fun r n => hsame r n) hmodal

theorem abreast_recordDispatch (h : it'.Completes it) (hkeeps : it.KeepsModal) {c : Command}
    {m : Machine} (hm : m.modal = c.code) :
    Abreast (fun call => [call]) (it.recordDispatch c m) (it'.recordDispatch c m) := by
  rw [recordDispatch, recordDispatch]
  by_cases hempty : c.code.isEmpty = true
  · rw [if_pos hempty, if_pos hempty]
    exact abreast_quietly _ m
  rw [if_neg hempty, if_neg hempty]
  refine (abreast_recordHandler h hkeeps c.args hm).bind ?_
  rintro ks ⟨n, args⟩ m' hcall
  have hm' : m'.modal = c.code := by
    have hhandler := Recorded.act_ok hcall
    rw [act_recordHandler] at hhandler
    exact (hkeeps.callHandler c.code c.args c.code).of_ok hhandler hm
  refine (abreast_recordMethod h hkeeps args hm').bind ?_
  rintro ks' ⟨n', args'⟩ m'' -
  exact abreast_quietly _ m''

theorem abreast_require {κ : Type} {calls : κ → List Call} (h : it'.Completes it) (op : Operation)
    (m : Machine) :
    Abreast calls (Recorded.quietly (it.require op) m) (Recorded.quietly (it'.require op) m) := by
  refine abreast_quietly_of fun x n hok => ?_
  cases hop : it.dialect.obstacle? op with
  | none => rwa [require_eq_pure (h.require _ hop), ← require_eq_pure hop]
  | some f =>
    rw [require, hop] at hok
    cases hok

/-- The calls for some commands go abreast, whatever commands came before. -/
theorem abreast_recordGroups (h : it'.Completes it) (hkeeps : it.KeepsModal) :
    ∀ (gs : List Group) (m : Machine),
      Abreast Dispatched.calls (it.recordGroups gs m) (it'.recordGroups gs m)
  | [], m => abreast_quietly (pure []) m
  | g :: gs, m => by
    obtain ⟨log, hresolve⟩ := resolveGroup_eq g m
    rw [recordGroups, recordGroups, Recorded.quietly_bind_ok hresolve,
      Recorded.quietly_bind_ok hresolve]
    refine ((abreast_recordDispatch h hkeeps rfl).gather fun ks => ?_).bind ?_
    · simp
    · rintro ks ⟨n, args⟩ m' -
      refine (abreast_recordGroups h hkeeps gs m').bind ?_
      rintro ks' cs m'' -
      exact abreast_quietly (pure _) m''

theorem abreast_recordInterpret (h : it'.Completes it) (hkeeps : it.KeepsModal) (ws : List Word)
    (m : Machine) :
    Abreast Dispatched.calls (it.recordInterpret ws m) (it'.recordInterpret ws m) := by
  rw [recordInterpret, recordInterpret]
  exact (abreast_require h .interpret m).bind fun _ _ m' _ => abreast_recordGroups h hkeeps _ m'

theorem Completes.lineDone_ok (h : it'.Completes it) {line : Line} {index : Nat} {m m' : Machine}
    (hdone : it.lineDone callback line index m = .ok () m') :
    it'.lineDone callback line index m = .ok () m' := by
  cases callback with
  | none => exact hdone
  | some id =>
    rw [Interpreter.lineDone, get_bind, enter_bind] at hdone ⊢
    exact h.lineDone _ _ _ _ _ hdone

/-- A line makes the calls of its words. -/
theorem calls_recordLine (it : Interpreter) (callback : Option String) (index : Nat) (l : Line)
    (m : Machine) :
    (it.recordLine callback index l m).1.flatMap Carried.calls =
      (it.recordInterpret l.words m).1.flatMap Dispatched.calls := by
  rcases hinterpret : it.recordInterpret l.words m with ⟨ds, (⟨cs, m'⟩ | ⟨f, m'⟩)⟩
  · rw [recordLine_ok hinterpret]
    simp [Carried.calls]
  · rw [recordLine_error hinterpret]
    simp [Carried.calls]

theorem abreast_recordLine (h : it'.Completes it) (hkeeps : it.KeepsModal) (index : Nat) (l : Line)
    (m : Machine) : Abreast Carried.calls (it.recordLine callback index l m)
      (it'.recordLine callback index l m) := by
  have hline := abreast_recordInterpret h hkeeps l.words m
  have hmakes := it'.calls_recordLine callback index l m
  generalize hrun : it.recordInterpret l.words m = ra at hline
  generalize hrun' : it'.recordInterpret l.words m = rb at hline hmakes
  cases hline with
  | @returns ds cs m' hreturned =>
    rw [recordLine_ok hrun, recordLine_ok hrun']
    rcases hdone : it.lineDone callback l index m' with ⟨_, n⟩ | ⟨f, n⟩
    · rw [h.lineDone_ok hdone]
      exact .returns (by simpa [Carried.calls] using hreturned)
    · exact .stuck (by simpa [Carried.calls] using hreturned)
  | stuck hreturned =>
    rw [recordLine_error hrun]
    exact .stuck (by simpa [Carried.calls] using hreturned)
  | raised hcalls hreturned hfault hmodal hstart =>
    rw [recordLine_error hrun]
    refine .raised (by simpa [Carried.calls] using hcalls) hreturned hfault hmodal ?_
    rwa [hmakes]

theorem abreast_recordLines (h : it'.Completes it) (hkeeps : it.KeepsModal) :
    ∀ (ls : List Line) (index : Nat) (m : Machine),
      Abreast Carried.calls (it.recordLines callback index ls m)
        (it'.recordLines callback index ls m)
  | [], _, m => abreast_quietly (pure ()) m
  | l :: ls, index, m =>
    (abreast_recordLine h hkeeps index l m).bind fun _ _ m' _ =>
      abreast_recordLines h hkeeps ls (index + 1) m'

theorem abreast_recordLoad (h : it'.Completes it) (hkeeps : it.KeepsModal)
    (callback : Option String) (text : List Char) (m : Machine) :
    Abreast Carried.calls (it.recordLoad text callback m) (it'.recordLoad text callback m) := by
  rw [recordLoad, recordLoad]
  refine (abreast_require h .loadText m).bind fun _ _ m _ => ?_
  refine (abreast_quietly get m).bind fun _ given m _ => ?_
  refine (abreast_quietly (linesOf _) m).bind fun _ lines m _ => ?_
  refine (abreast_recordLines h hkeeps lines 0 m).bind fun _ _ m _ => ?_
  exact (abreast_quietly (logLoaded _) m).bind fun _ _ m _ => abreast_quietly (pure lines) m

/-! ### Where a load ends -/

/-- A call that raises is the last one for its command, and the only one if it is a handler. -/
theorem last_of_sequence {c : Command} {modal : String} {calls : List Call} {call : Call}
    {f : Fault} (h : Call.Sequence c modal calls) (hmem : call ∈ calls)
    (hfault : call.fault = some f) :
    c.code = call.code ∧ calls.getLast? = some call ∧
      ∀ id, call.target = .handler id → calls = [call] := by
  cases h with
  | none => cases hmem
  | one target fault =>
    obtain rfl := List.mem_singleton.1 hmem
    exact ⟨rfl, rfl, fun _ _ => rfl⟩
  | both id hmethod args modal' fault =>
    rcases List.mem_pair.1 hmem with rfl | rfl
    · cases hfault
    · exact ⟨rfl, rfl, fun id' htarget => absurd htarget (hmethod id')⟩

/-- The last command that was begun is the one with the call that raised. -/
theorem recordGroups_raised (hkeeps : it.KeepsModal) : ∀ (gs : List Group) (m : Machine)
    {call : Call}, call ∈ (it.recordGroups gs m).1.flatMap Dispatched.calls → ¬ call.Returned →
      ∃ ds c modal calls, (it.recordGroups gs m).1 = ds ++ [⟨c, calls⟩] ∧
        Call.Sequence c modal calls ∧ call ∈ calls
  | [], m, call, hcall, _ => absurd hcall List.not_mem_nil
  | g :: gs, m, call, hcall, hraised => by
    obtain ⟨log, hresolve⟩ := resolveGroup_eq g m
    generalize g.resolve m.modal = c at hresolve
    have hsequence := it.recordDispatch_sequence c { m with modal := c.code, log }
    have habreast := abreast_recordDispatch (.refl it) hkeeps (c := c)
      (m := { m with modal := c.code, log }) rfl
    rcases hdispatch : it.recordDispatch c { m with modal := c.code, log } with
      ⟨calls, (⟨⟨n, args⟩, m₁⟩ | ⟨f, m₁⟩)⟩
    · rw [hdispatch] at habreast
      rw [recordGroups_cons_record hresolve hdispatch, List.flatMap_cons, List.mem_append] at hcall
      have hlater : call ∈ (it.recordGroups gs m₁).1.flatMap Dispatched.calls := by
        refine hcall.resolve_left fun hmem => hraised ?_
        exact habreast.returned_of_ok call (by simpa using hmem)
      obtain ⟨ds, c', modal, calls', hrest, hsequence'⟩ :=
        recordGroups_raised hkeeps gs m₁ hlater hraised
      refine ⟨⟨c, calls⟩ :: ds, c', modal, calls', ?_, hsequence'⟩
      rw [recordGroups_cons_record hresolve hdispatch, hrest]
      rfl
    · rw [hdispatch] at hsequence
      rw [recordGroups_cons_error hresolve hdispatch] at hcall ⊢
      exact ⟨[], c, _, calls, rfl, hsequence, by simpa using hcall⟩

theorem recordInterpret_raised (hkeeps : it.KeepsModal) {ws : List Word} {m : Machine} {call : Call}
    (hcall : call ∈ (it.recordInterpret ws m).1.flatMap Dispatched.calls)
    (hraised : ¬ call.Returned) :
    ∃ ds c modal calls, (it.recordInterpret ws m).1 = ds ++ [⟨c, calls⟩] ∧
      Call.Sequence c modal calls ∧ call ∈ calls := by
  cases hop : it.dialect.obstacle? .interpret with
  | none =>
    rw [recordInterpret_eq hop] at hcall ⊢
    exact recordGroups_raised hkeeps _ m hcall hraised
  | some f =>
    rw [recordInterpret_hindered hop] at hcall
    exact absurd hcall List.not_mem_nil

/-- The last line that was begun is the one with the call that raised. All lines before it were
reported, one after the other, and it was not. -/
theorem recordLines_raised (hkeeps : it.KeepsModal) : ∀ (ls : List Line) (index : Nat) (m : Machine)
    {call : Call}, call ∈ (it.recordLines callback index ls m).1.flatMap Carried.calls →
      ¬ call.Returned → ∃ before line after done ds c modal calls,
        ls = before ++ line :: after ∧
        (it.recordLines callback index ls m).1 = done ++ [⟨line, ds ++ [⟨c, calls⟩], []⟩] ∧
        done.map (fun k => (k.line, k.reports)) =
          (before.zipIdx index).map (fun p => (p.1, reportsOf callback p.1 p.2)) ∧
        Call.Sequence c modal calls ∧ call ∈ calls
  | [], _, _, _, hcall, _ => absurd hcall List.not_mem_nil
  | l :: ls, index, m, call, hcall, hraised => by
    have habreast := abreast_recordInterpret (.refl it) hkeeps l.words m
    rw [recordLines] at hcall ⊢
    rcases hinterpret : it.recordInterpret l.words m with ⟨ds, (⟨cs, m₁⟩ | ⟨f, m₁⟩)⟩
    · rw [hinterpret] at habreast
      have hline := recordLine_ok hinterpret callback index
      have hreturned : ∀ call ∈ ds.flatMap Dispatched.calls, call.Returned :=
        habreast.returned_of_ok
      rcases hdone : it.lineDone callback l index m₁ with ⟨_, m₂⟩ | ⟨f, m₂⟩
      · rw [hdone] at hline
        rw [Recorded.bind_ok hline] at hcall ⊢
        rw [List.flatMap_append, List.mem_append] at hcall
        have hlater : call ∈ (it.recordLines callback (index + 1) ls m₂).1.flatMap Carried.calls :=
          hcall.resolve_left fun hmem =>
            hraised (hreturned call (by simpa [Carried.calls] using hmem))
        obtain ⟨before, line, after, done, ds', c, modal, calls, rfl, hrecord, hreported,
          hsequence⟩ := recordLines_raised hkeeps ls (index + 1) m₂ hlater hraised
        refine ⟨l :: before, line, after, ⟨l, ds, reportsOf callback l index⟩ :: done, ds', c,
          modal, calls, rfl, ?_, ?_, hsequence⟩
        · rw [hrecord]
          rfl
        · rw [List.map_cons, hreported, List.zipIdx_cons, List.map_cons]
      · rw [hdone] at hline
        rw [Recorded.bind_error hline] at hcall
        exact absurd (hreturned call (by simpa [Carried.calls] using hcall)) hraised
    · have hline := recordLine_error hinterpret callback index
      rw [Recorded.bind_error hline] at hcall ⊢
      have hmem : call ∈ (it.recordInterpret l.words m).1.flatMap Dispatched.calls := by
        rw [hinterpret]
        simpa [Carried.calls] using hcall
      obtain ⟨ds', c, modal, calls, hrecord, hsequence⟩ :=
        recordInterpret_raised hkeeps hmem hraised
      rw [hinterpret] at hrecord
      cases hrecord
      exact ⟨[], l, ls, [], ds', c, modal, calls, rfl, rfl, rfl, hsequence⟩

/-- A load takes down what its lines take down, or nothing. -/
theorem recordLoad_record (it : Interpreter) (callback : Option String) {text : List Char}
    {ls : List Line} {m : Machine}
    (hls : (LineReader.program { strict := m.strict } text).1.lines = .ok ls) :
    (it.recordLoad text callback m).1 = [] ∨
      ∃ m', (it.recordLoad text callback m).1 = (it.recordLines callback 0 ls m').1 := by
  rw [recordLoad]
  cases hop : it.dialect.obstacle? .loadText with
  | none =>
    obtain ⟨log, hlines⟩ := linesOf_eq_ok hls m
    have hget : (get : Act Machine) m = .ok m m := rfl
    have hrequire : it.require .loadText m = .ok () m := by
      rw [require_eq_pure hop]
      rfl
    rw [Recorded.quietly_bind_ok hrequire, Recorded.quietly_bind_ok hget,
      Recorded.quietly_bind_ok hlines]
    refine .inr ⟨{ m with log }, Recorded.fst_bind_silent _ (fun _ n => ?_) _⟩
    exact Recorded.fst_bind_silent _ (fun _ _ => rfl) n
  | some f =>
    have hrequire : it.require .loadText m = .error f m := by
      rw [require, hop]
      rfl
    rw [Recorded.quietly_bind_error hrequire]
    exact .inl rfl

end Interpreter

/-- If a call of a load at once raises, then it is the last call, and the calls up to it are the
first calls of the load of any interpreter that does the same as long as calls return and goes on
where they raise. The load ends with the fault of the call, the modal command is the code of the
command that was dispatched, and the call belongs to the last line that was begun: for every line
before it the line callback was called, with the line and its place, and for that line it was not.
If it is a handler that raises, then the method of its command is not called. -/
theorem load_failsFast (it it' : Interpreter) (h : it'.Completes it) (hkeeps : it.KeepsModal)
    (d : Document) (hop : it.dialect.obstacle? d.operation = none) {text : List Char}
    (htext : it.contents d = .ok text) (callback : Option String) (m : Machine) {ls : List Line}
    (hls : (LineReader.program { strict := m.strict } text).1.lines = .ok ls) {k : Nat}
    {call : Call} {f : Fault} (hcall : (callsOf (it.recordLoad text callback m).1)[k]? = some call)
    (hfault : call.fault = some f) :
    (callsOf (it.recordLoad text callback m).1).map Call.bare =
        ((callsOf (it'.recordLoad text callback m).1).take (k + 1)).map Call.bare ∧
      (it'.recordLoad text callback m).2 = it'.loadText text callback m ∧
      (∃ n, (it.recordLoad text callback m).2 = .error f n ∧
        it.loadAtOnce d callback m = .error f n ∧ n.modal = call.code) ∧
      ∃ before line after done ds c calls, ls = before ++ line :: after ∧
        (it.recordLoad text callback m).1 = done ++ [⟨line, ds ++ [⟨c, calls⟩], []⟩] ∧
        done.map (fun k => (k.line, k.reports)) =
          before.zipIdx.map (fun p => (p.1, reportsOf callback p.1 p.2)) ∧
        c.code = call.code ∧ calls.getLast? = some call ∧
        ∀ id, call.target = .handler id → calls = [call] := by
  have hload : it.loadAtOnce d callback = it.loadText text callback := by
    rw [Interpreter.loadAtOnce_eq_call htext, Interpreter.call, Interpreter.require_eq_pure hop]
    rfl
  obtain ⟨hcalls, n, hend, hmodal⟩ :=
    (Interpreter.abreast_recordLoad h hkeeps callback text m).ends hcall hfault
  refine ⟨hcalls, ?_, ⟨n, hend, ?_, hmodal⟩, ?_⟩
  · rw [← it'.act_recordLoad]
    rfl
  · rw [hload, ← it.act_recordLoad]
    exact hend
  have hraised : ¬ call.Returned := by
    rw [Call.Returned, hfault]
    exact Option.some_ne_none f
  have hmem : call ∈ callsOf (it.recordLoad text callback m).1 := List.mem_of_getElem? hcall
  rcases it.recordLoad_record callback hls with hnone | ⟨m', hm'⟩
  · rw [hnone] at hmem
    exact absurd hmem List.not_mem_nil
  · rw [hm'] at hmem ⊢
    obtain ⟨before, line, after, done, ds, c, modal, calls, hls', hrecord, hreported, hsequence,
      hcall'⟩ := Interpreter.recordLines_raised hkeeps ls 0 m' hmem hraised
    exact ⟨before, line, after, done, ds, c, calls, hls', hrecord, hreported,
      Interpreter.last_of_sequence hsequence hcall' hfault⟩

/-- A method that raises. -/
def brittle : Interpreter where
  dialect :=
    { table := ⟨[("G2", "arc")]⟩
      attributes := ⟨[("arc", .method ⟨"Mill", "arc", none⟩)]⟩ }
  host := { Host.silent with method := fun _ _ => throw (.raised .value "radius" none) }

/-- The same with a method that does nothing. -/
def sturdy : Interpreter := { brittle with host := Host.silent }

theorem attribute?_brittle {code : String} (hcode : code ≠ "G2") :
    brittle.dialect.attribute? code = none := by
  simp [Dialect.attribute?, brittle, Table.get?, Ne.symm hcode]

theorem sturdy_completes : sturdy.Completes brittle where
  require _ h := h
  target _ := rfl
  handler _ _ _ _ _ h := h
  method code args m r n h := by
    by_cases hcode : code = "G2"
    · subst hcode
      cases h
    · rw [Interpreter.callMethod, attribute?_brittle hcode] at h
      rw [Interpreter.callMethod, show sturdy.dialect.attribute? code = none from
        attribute?_brittle hcode]
      exact h
  lineDone _ _ _ _ _ h := h

theorem brittle_keepsModal : brittle.KeepsModal where
  handler _ args _ := keeps_pure args
  method code args modal := by
    by_cases hcode : code = "G2"
    · subst hcode
      exact fun m hm => hm
    · rw [Interpreter.callMethod, attribute?_brittle hcode]
      exact keeps_pure _

/-- Three lines. The second has a command with a handler and a method, and another command. -/
def arcText : String := "G1 X1\nG2 X2 M3\nG4"

/-- The lines of that text. -/
def arcLines : List Line :=
  [{ text := "G1 X1", words := [⟨"G", .int 1⟩, ⟨"X", .int 1⟩], sourceLine := some 1 },
   { text := "G2 X2 M3", words := [⟨"G", .int 2⟩, ⟨"X", .int 2⟩, ⟨"M", .int 3⟩],
     sourceLine := some 2 },
   { text := "G4", words := [⟨"G", .int 4⟩], sourceLine := some 3 }]

/-- The machine before the load. -/
def arcMachine : Machine where
  handlers := ⟨[("G1", .callable "move"), ("G2", .callable "move"), ("M3", .callable "spin")]⟩

/-- The method raises after its handler returned: the last command of its line and the last line are
not begun, and only the first line was reported. -/
theorem load_failsFast_brittle :
    (callsOf (sturdy.recordLoad arcText.toList (some "done") arcMachine).1).map (·.fault) =
      [none, none, none, none] ∧
    (callsOf (brittle.recordLoad arcText.toList (some "done") arcMachine).1).map Call.bare =
      ((callsOf (sturdy.recordLoad arcText.toList (some "done") arcMachine).1).take 3).map
        Call.bare ∧
    (∃ n, brittle.loadAtOnce (.text (.text arcText)) (some "done") arcMachine =
      .error (.raised .value "radius" none) n ∧ n.modal = "G2") ∧
    (brittle.recordLoad arcText.toList (some "done") arcMachine).1.map
      (fun k => k.reports.map fun r => (r.callback, r.index)) = [[("done", 0)], []] := by
  have hthird : ((callsOf (brittle.recordLoad arcText.toList (some "done") arcMachine).1)[2]?).map
      (fun call => (call.fault, call.code)) =
        some (some (.raised .value "radius" none), "G2") := by decide +kernel
  obtain ⟨call, hcall, hsame⟩ := Option.map_eq_some_iff.1 hthird
  obtain ⟨hfault, hcode⟩ := Prod.mk.inj hsame
  have hls : (LineReader.program { strict := arcMachine.strict } arcText.toList).1.lines =
      .ok arcLines := by decide +kernel
  obtain ⟨hcalls, -, ⟨n, -, hend, hmodal⟩, -⟩ := load_failsFast brittle sturdy sturdy_completes
    brittle_keepsModal (.text (.text arcText)) rfl rfl (some "done") arcMachine hls hcall hfault
  refine ⟨by decide +kernel, hcalls, ⟨n, hend, hmodal.trans hcode⟩, by decide +kernel⟩

end Gcode
