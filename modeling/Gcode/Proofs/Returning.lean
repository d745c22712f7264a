import Gcode.Proofs.Notices

/-!
Host code that returns. If the handlers and the methods return, so does everything that is made of
their calls: a command, a line, and a text that is loaded at once, provided that it is read without
a fault (`Returning.loadText_returns`).
-/

namespace Gcode

open Act

namespace Interpreter

variable {it : Interpreter} {callback : Option String}

/-- Handlers return, and so does what the codes lead to. -/
structure Returning (it : Interpreter) : Prop where
  handler : ∀ id args m, ∃ left m', it.host.handler id args m = .ok left m'
  method : ∀ code args m, ∃ r m', it.callMethod code args m = .ok r m'

/-- A line callback that returns. -/
def LineDoneReturns (it : Interpreter) (callback : Option String) : Prop :=
  ∀ id ∈ callback, ∀ line index m, ∃ m', it.host.lineDone id line index m = .ok () m'

theorem lineDoneReturns_none : it.LineDoneReturns none := fun _ h => nomatch h

namespace Returning

theorem callHandler_returns (h : it.Returning) (code : String) (args : Args) (m : Machine) :
    ∃ r m', it.callHandler code args m = .ok r m' := by
  rw [callHandler, get_bind]
  rcases m.handlers.get? code with _ | (id | _)
  · exact ⟨_, m, rfl⟩
  · dsimp only
    obtain ⟨left, m', hhost⟩ := h.handler id args
      { m with
        log := m.log ++ [⟨.trace, .dispatch, "dispatch_handler code=" ++ code⟩]
        journal := m.journal ++ [.handler id args] }
    rw [log_bind, enter_bind, bind_ok hhost]
    exact ⟨_, m', rfl⟩
  · exact ⟨_, m, rfl⟩

theorem dispatch_returns (h : it.Returning) (c : Command) (m : Machine) :
    ∃ r m', it.dispatch c m = .ok r m' := by
  rw [dispatch]
  split
  · exact ⟨_, _, rfl⟩
  · obtain ⟨⟨n, args⟩, m₁, hcalled⟩ := h.callHandler_returns c.code c.args m
    obtain ⟨r, m₂, hmethod⟩ := h.method c.code args m₁
    rw [bind_ok hcalled]
    dsimp only
    rw [bind_ok hmethod]
    split
    · exact ⟨_, _, rfl⟩
    · exact ⟨_, _, rfl⟩

theorem resolveGroup_returns (g : Group) (m : Machine) :
    ∃ c m', resolveGroup g m = .ok c m' := by
  rw [resolveGroup, get_bind, setModal, bind_assoc, get_bind]
  dsimp only
  split
  · exact ⟨_, _, rfl⟩
  · exact ⟨_, _, rfl⟩

theorem interpretGroups_returns (h : it.Returning) : ∀ (gs : List Group) (m : Machine),
    ∃ cs m', it.interpretGroups gs m = .ok cs m'
  | [], m => ⟨[], m, rfl⟩
  | g :: gs, m => by
    obtain ⟨c, m₁, hresolve⟩ := resolveGroup_returns g m
    obtain ⟨r, m₂, hdispatch⟩ := h.dispatch_returns c m₁
    obtain ⟨cs, m₃, hrest⟩ := h.interpretGroups_returns gs m₂
    rw [interpretGroups, bind_ok hresolve, bind_ok hdispatch]
    dsimp only
    rw [bind_ok hrest]
    exact ⟨_, m₃, rfl⟩

theorem interpret_returns (h : it.Returning) (hintact : it.Intact) (ws : List Word) (m : Machine) :
    ∃ cs m', it.interpret ws m = .ok cs m' := by
  rw [interpret, hintact.call_eq]
  exact h.interpretGroups_returns _ m

theorem lineDone_returns (hcallback : it.LineDoneReturns callback) (line : Line) (index : Nat)
    (m : Machine) : ∃ m', it.lineDone callback line index m = .ok () m' := by
  cases callback with
  | none => exact ⟨m, rfl⟩
  | some id =>
    rw [lineDone, get_bind, enter_bind]
    exact hcallback id rfl line index _

theorem runLines_returns (h : it.Returning) (hintact : it.Intact)
    (hcallback : it.LineDoneReturns callback) : ∀ (ls : List Line) (index : Nat) (m : Machine),
    ∃ m', it.runLines callback index ls m = .ok () m'
  | [], _, m => ⟨m, rfl⟩
  | l :: ls, index, m => by
    obtain ⟨cs, m₁, hinterpret⟩ := h.interpret_returns hintact l.words m
    obtain ⟨m₂, hdone⟩ := lineDone_returns hcallback l index m₁
    obtain ⟨m₃, hrest⟩ := h.runLines_returns hintact hcallback ls (index + 1) m₂
    rw [runLines, bind_ok hinterpret, bind_ok hdone]
    exact ⟨m₃, hrest⟩

/-- A text that is read without a fault is loaded. -/
theorem loadText_returns (h : it.Returning) (hintact : it.Intact)
    (hcallback : it.LineDoneReturns callback) {text : List Char} {ls : List Line} {m : Machine}
    (hls : (LineReader.program { strict := m.strict } text).1.lines = .ok ls) :
    ∃ m', it.loadText text callback m = .ok ls m' := by
  obtain ⟨log, hlines⟩ := linesOf_eq_ok hls m
  obtain ⟨m₁, hrun⟩ := h.runLines_returns hintact hcallback ls 0 { m with log }
  rw [loadText, hintact.call_eq, get_bind]
  dsimp only
  rw [bind_ok hlines, bind_ok hrun]
  exact ⟨_, rfl⟩

end Returning

end Interpreter

end Gcode
