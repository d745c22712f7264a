import Gcode.Proofs.Registrations
import Gcode.Script

/-!
Registrations that are due only once. Listeners may register and take out listeners and give notice
of events themselves, also of the event they are told of, so notices stand inside one another. Each
notice goes by the registrations at its beginning, whatever becomes of them until it comes to them.
Main statement: a listener that is registered for one notice only is called on that account at most
as often as notices of its event stand inside one another, hence at most once if they do not, and
never again afterwards (`oneShot_calls`).
-/

namespace Gcode

open Act

/-! ### What is called -/

/-- The notices that are given and the calls of listeners that they lead to. What a listener does
stands inside its call. -/
inductive Trail where
  | done
  /-- A notice, and what comes after it. -/
  | notice (e : Event) (inner rest : Trail)
  /-- A call on account of a registration for an event, and what comes after it. -/
  | call (e : Event) (g : Registration) (inner rest : Trail)

namespace Trail

/-- How many calls are made on account of a registration. -/
def calls (e : Event) (g : Registration) : Trail → Nat
  | done => 0
  | notice _ inner rest => inner.calls e g + rest.calls e g
  | call e' g' inner rest =>
    (if e' = e ∧ g' = g then 1 else 0) + (inner.calls e g + rest.calls e g)

theorem calls_call_of_ne {e e' : Event} {g g' : Registration} (h : ¬ (e = e' ∧ g = g'))
    (inner rest : Trail) :
    (call e g inner rest).calls e' g' = inner.calls e' g' + rest.calls e' g' := by
  rw [calls, if_neg h, Nat.zero_add]

/-- How deep notices of an event stand inside one another. -/
def depth (e : Event) : Trail → Nat
  | done => 0
  | notice e' inner rest => max (inner.depth e + if e' = e then 1 else 0) (rest.depth e)
  | call _ _ inner rest => max (inner.depth e) (rest.depth e)

/-- The listeners that are called, in order. -/
def listeners : Trail → List String
  | done => []
  | notice _ inner rest => inner.listeners ++ rest.listeners
  | call _ g inner rest => g.listener :: (inner.listeners ++ rest.listeners)

end Trail

/-- The listener that an entry is about. -/
def Entry.listener? : Entry → Option String
  | .listener id _ => some id
  | _ => none

namespace Machine

/-- The listeners that have been called, in order. -/
def heard (m : Machine) : List String := m.journal.filterMap Entry.listener?

/-- The machine when a listener is called on account of a registration. -/
def calling (m : Machine) (e : Event) (payload : List Payload) (g : Registration) : Machine :=
  { m with
    registry := m.registry.telling e g
    journal := m.journal ++ [.listener g.listener payload] }

theorem heard_calling (m : Machine) (e : Event) (payload : List Payload) (g : Registration) :
    (m.calling e payload g).heard = m.heard ++ [g.listener] := by
  rw [heard, calling, List.filterMap_append]
  rfl

end Machine

/-- What is being done: whatever host code likes, or an interpreter tells some listeners. -/
inductive Doing where
  | freely
  | telling (it : Interpreter) (e : Event) (payload : List Payload) (gs : List Registration)

/-- What is being done from one machine on leads to another, with these calls and this end. Host
code may use any interpreter to register a listener, to take listeners out and to give notice, go on
after a notice that fails, and do all sorts of things besides that concern neither the registrations
nor the calls of listeners. -/
inductive Happens : Doing → Machine → Trail → Except Fault Unit → Machine → Prop where
  | returns (m : Machine) : Happens .freely m .done (.ok ()) m
  | raises (f : Fault) (m : Machine) : Happens .freely m .done (.error f) m
  | aside {m m' n : Machine} {t : Trail} {x : Except Fault Unit}
      (hregistry : m'.registry = m.registry) (hheard : m'.heard = m.heard)
      (rest : Happens .freely m' t x n) : Happens .freely m t x n
  | listens (it : Interpreter) (event listener : String) (once : Bool) {m n : Machine} {t : Trail}
      {x : Except Fault Unit}
      (rest : Happens .freely ((it.listen event listener once).after m) t x n) :
      Happens .freely m t x n
  | unlistens (it : Interpreter) (event : String) (listener : Option String) {m n : Machine}
      {t : Trail} {x : Except Fault Unit}
      (rest : Happens .freely ((it.unlisten event listener).after m) t x n) :
      Happens .freely m t x n
  | notifies {it : Interpreter} (hit : it.Notifies) {e : Event} {payload : List Payload}
      {m m' n : Machine} {s t : Trail} {x y : Except Fault Unit}
      (inner : Happens (.telling it e payload (m.registry.of e)) m s y m')
      (rest : Happens .freely m' t x n) : Happens .freely m (.notice e s t) x n
  | told (it : Interpreter) (e : Event) (payload : List Payload) (m : Machine) :
      Happens (.telling it e payload []) m .done (.ok ()) m
  | tells {it : Interpreter} {e : Event} {payload : List Payload} {g : Registration}
      {gs : List Registration} {m m' n : Machine} {s t : Trail} {x : Except Fault Unit}
      (hlistener : it.host.listener g.listener payload (m.calling e payload g) = .ok () m')
      (inner : Happens .freely (m.calling e payload g) s (.ok ()) m')
      (rest : Happens (.telling it e payload gs) m' t x n) :
      Happens (.telling it e payload (g :: gs)) m (.call e g s t) x n
  | breaks {it : Interpreter} {e : Event} {payload : List Payload} {g : Registration}
      {gs : List Registration} {m n : Machine} {s : Trail} {f : Fault}
      (hlistener : it.host.listener g.listener payload (m.calling e payload g) = .error f n)
      (inner : Happens .freely (m.calling e payload g) s (.error f) n) :
      Happens (.telling it e payload (g :: gs)) m (.call e g s .done) (.error f) n

/-- An action that does nothing to the registrations but what host code can do. -/
def Act.Sociable {α : Type} (a : Act α) : Prop :=
  ∀ m, ∃ t, Happens .freely m t ((a.outcome m).map fun _ => ()) (a.after m)

/-- An interpreter whose listeners are such actions. -/
def Interpreter.Sociable (it : Interpreter) : Prop :=
  ∀ l payload, (it.host.listener l payload).Sociable

/-! ### Sociable actions -/

namespace Happens

variable {d : Doing} {m m' n : Machine} {s t : Trail} {x y : Except Fault Unit}

/-- What host code does may be followed by more. -/
theorem trans (h : Happens d m s y m') (hd : d = .freely) (hy : y = .ok ())
    (hrest : Happens .freely m' t x n) : ∃ u, Happens .freely m u x n := by
  induction h with
  | returns m => exact ⟨t, hrest⟩
  | raises f m => cases hy
  | aside hregistry hheard _ ih =>
    obtain ⟨u, hu⟩ := ih hd hy hrest
    exact ⟨u, .aside hregistry hheard hu⟩
  | listens it event l once _ ih =>
    obtain ⟨u, hu⟩ := ih hd hy hrest
    exact ⟨u, .listens it event l once hu⟩
  | unlistens it event l _ ih =>
    obtain ⟨u, hu⟩ := ih hd hy hrest
    exact ⟨u, .unlistens it event l hu⟩
  | notifies hit inner _ _ ih =>
    obtain ⟨u, hu⟩ := ih hd hy hrest
    exact ⟨_, .notifies hit inner hu⟩
  | told => cases hd
  | tells => cases hd
  | breaks => cases hd

/-- Host code may go on after a fault. -/
theorem caught (h : Happens d m t x n) (hd : d = .freely) : Happens .freely m t (.ok ()) n := by
  induction h with
  | returns m => exact .returns m
  | raises f m => exact .returns m
  | aside hregistry hheard _ ih => exact .aside hregistry hheard (ih hd)
  | listens it event l once _ ih => exact .listens it event l once (ih hd)
  | unlistens it event l _ ih => exact .unlistens it event l (ih hd)
  | notifies hit inner _ _ ih => exact .notifies hit inner (ih hd)
  | told => cases hd
  | tells => cases hd
  | breaks => cases hd

end Happens

namespace Act

variable {α β : Type} {a : Act α} {f : α → Act β} {m n : Machine} {x : α} {e : Fault}

theorem outcome_ok (h : a m = .ok x n) : a.outcome m = .ok x := by
  simp only [outcome, h]

theorem outcome_error (h : a m = .error e n) : a.outcome m = .error e := by
  simp only [outcome, h]

theorem after_ok (h : a m = .ok x n) : a.after m = n := by
  simp only [after, h]

theorem after_error (h : a m = .error e n) : a.after m = n := by
  simp only [after, h]

theorem Sociable.of_ok (ha : a.Sociable) (h : a m = .ok x n) :
    ∃ t, Happens .freely m t (.ok ()) n := by
  obtain ⟨t, ht⟩ := ha m
  rw [outcome_ok h, after_ok h] at ht
  exact ⟨t, ht⟩

theorem Sociable.of_error (ha : a.Sociable) (h : a m = .error e n) :
    ∃ t, Happens .freely m t (.error e) n := by
  obtain ⟨t, ht⟩ := ha m
  rw [outcome_error h, after_error h] at ht
  exact ⟨t, ht⟩

theorem sociable_pure (x : α) : (pure x : Act α).Sociable := fun m => ⟨_, .returns m⟩

theorem sociable_throw (e : Fault) : (throw e : Act α).Sociable := fun m => ⟨_, .raises e m⟩

/-- An entry that is no call of a listener concerns nobody. -/
theorem sociable_enter (entry : Entry) (h : entry.listener? = none) : (enter entry).Sociable := by
  intro m
  let n : Machine := { m with journal := m.journal ++ [entry] }
  have hregistry : n.registry = m.registry := rfl
  have hheard : n.heard = m.heard := by simp [n, Machine.heard, h]
  exact ⟨_, .aside hregistry hheard (.returns n)⟩

theorem Sociable.bind (ha : a.Sociable) (hf : ∀ x, (f x).Sociable) : (a >>= f).Sociable := by
  intro m
  cases h : a m with
  | ok x n =>
    obtain ⟨s, hs⟩ := ha.of_ok h
    obtain ⟨t, ht⟩ := hf x n
    have hsame : (a >>= f) m = f x n := bind_ok h f
    rw [outcome, after, hsame]
    exact hs.trans rfl rfl ht
  | error e n =>
    obtain ⟨s, hs⟩ := ha.of_error h
    have hsame : (a >>= f) m = .error e n := bind_error h f
    rw [outcome_error hsame, after_error hsame]
    exact ⟨s, hs⟩

theorem sociable_get {k : Machine → Act α} (h : ∀ m, (k m).Sociable) : (get >>= k).Sociable :=
  fun m => h m m

theorem Sociable.attempt (ha : a.Sociable) : a.attempt.Sociable := by
  intro m
  obtain ⟨t, ht⟩ := ha m
  refine ⟨t, ?_⟩
  cases h : a m with
  | ok x n =>
    rw [outcome_ok (attempt_ok h), after_ok (attempt_ok h)]
    rw [after_ok h] at ht
    exact ht.caught rfl
  | error e n =>
    rw [outcome_ok (attempt_error h), after_ok (attempt_error h)]
    rw [after_error h] at ht
    exact ht.caught rfl

end Act

namespace Interpreter

variable {it : Interpreter} {e : Event} {payload : List Payload}

theorem sociable_listen (it : Interpreter) (event listener : String) (once : Bool) :
    (it.listen event listener once).Sociable := by
  intro m
  cases (it.listen event listener once).outcome m with
  | ok u => exact ⟨_, .listens it event listener once (.returns _)⟩
  | error f => exact ⟨_, .listens it event listener once (.raises f _)⟩

theorem sociable_unlisten (it : Interpreter) (event : String) (listener : Option String) :
    (it.unlisten event listener).Sociable := by
  intro m
  cases (it.unlisten event listener).outcome m with
  | ok u => exact ⟨_, .unlistens it event listener (.returns _)⟩
  | error f => exact ⟨_, .unlistens it event listener (.raises f _)⟩

/-- A listener is told, and then the others. -/
theorem tell_cons_calling (hit : it.Notifies) (e : Event) (payload : List Payload)
    (g : Registration) (gs : List Registration) (m : Machine) :
    it.tell e payload (g :: gs) m =
      (it.host.listener g.listener payload >>= fun _ => it.tell e payload gs)
        (m.calling e payload g) := by
  rw [tell_cons hit]
  rfl

/-- Whatever happens when listeners are told is what telling them does. -/
theorem tell_of_happens (hit : it.Notifies) : ∀ {gs : List Registration} {m n : Machine}
    {t : Trail} {x : Except Fault Unit}, Happens (.telling it e payload gs) m t x n →
    it.tell e payload gs m = ofExcept x n
  | [], m, n, t, x, h => by
    cases h
    rfl
  | g :: gs, m, n, t, x, h => by
    rw [tell_cons_calling hit]
    cases h with
    | tells hlistener _ hrest => exact (bind_ok hlistener _).trans (tell_of_happens hit hrest)
    | breaks hlistener _ => exact bind_error hlistener _

/-- If listeners are sociable, telling them happens as some trail says. -/
theorem exists_happens_tell (hit : it.Notifies) (hsociable : it.Sociable) (e : Event)
    (payload : List Payload) : ∀ (gs : List Registration) (m : Machine), ∃ t,
    Happens (.telling it e payload gs) m t ((it.tell e payload gs).outcome m)
      ((it.tell e payload gs).after m)
  | [], m => ⟨_, .told it e payload m⟩
  | g :: gs, m => by
    have htell := tell_cons_calling hit e payload g gs m
    rcases hlistener : it.host.listener g.listener payload (m.calling e payload g) with
      ⟨u, m'⟩ | ⟨f, n⟩
    · obtain ⟨s, hs⟩ := (hsociable g.listener payload).of_ok hlistener
      obtain ⟨t, ht⟩ := exists_happens_tell hit hsociable e payload gs m'
      rw [bind_ok hlistener] at htell
      rw [outcome, after, htell]
      exact ⟨_, .tells hlistener hs ht⟩
    · obtain ⟨s, hs⟩ := (hsociable g.listener payload).of_error hlistener
      rw [bind_error hlistener] at htell
      rw [outcome_error htell, after_error htell]
      exact ⟨_, .breaks hlistener hs⟩

theorem sociable_notify (hit : it.Notifies) (hsociable : it.Sociable) (e : Event)
    (payload : List Payload) : (it.notify e payload).Sociable := by
  intro m
  obtain ⟨s, hs⟩ := exists_happens_tell hit hsociable e payload (m.registry.of e) m
  have hnotify : it.notify e payload m = (it.tell e payload (m.registry.of e) >>= fun _ =>
      pure !(m.registry.of e).isEmpty) m := rfl
  rcases htell : it.tell e payload (m.registry.of e) m with ⟨u, n⟩ | ⟨f, n⟩
  · rw [bind_ok htell] at hnotify
    rw [after_ok htell] at hs
    rw [outcome_ok hnotify, after_ok hnotify]
    exact ⟨_, .notifies hit hs (.returns n)⟩
  · rw [bind_error htell] at hnotify
    rw [after_error htell] at hs
    rw [outcome_error hnotify, after_error hnotify]
    exact ⟨_, .notifies hit hs (.raises f n)⟩

theorem sociable_eventOf (hit : it.Notifies) (name : String) : (it.eventOf name).Sociable := by
  cases h : Event.ofName? name with
  | none =>
    rw [eventOf_none hit h]
    exact sociable_throw _
  | some e =>
    rw [eventOf_some hit h]
    exact sociable_pure e

theorem sociable_emitNamed (hit : it.Notifies) (hsociable : it.Sociable) (event : String)
    (payload : List Payload) : (it.emitNamed event payload).Sociable := by
  rw [emitNamed, hit.call_eq rfl]
  exact (sociable_eventOf hit event).bind fun e => sociable_notify hit hsociable e payload

theorem sociable_perform (hit : it.Notifies) (hsociable : it.Sociable) (c : NoticeCall) :
    (it.perform c).Sociable := by
  cases c with
  | listen event l once =>
    exact (sociable_listen it event l once).bind fun _ => sociable_pure _
  | unlisten event l => exact (sociable_unlisten it event l).bind fun _ => sociable_pure _
  | listeners event =>
    rw [perform, listeners, hit.call_eq rfl]
    exact ((sociable_eventOf hit event).bind fun e => sociable_get fun m =>
      sociable_pure _).bind fun gs => sociable_pure _
  | emit event payload =>
    exact (sociable_emitNamed hit hsociable event payload).bind fun _ => sociable_pure _

theorem sociable_performAll (hit : it.Notifies) (hsociable : it.Sociable) :
    ∀ cs : List NoticeCall, (it.performAll cs).Sociable
  | [] => sociable_pure _
  | c :: cs => (sociable_perform hit hsociable c).attempt.bind fun _ =>
      (sociable_performAll hit hsociable cs).bind fun _ => sociable_pure _

/-- A run of calls does not fail, whatever the calls come to. -/
theorem performAll_returns (it : Interpreter) : ∀ (cs : List NoticeCall) (m : Machine),
    ∃ as n, it.performAll cs m = .ok as n
  | [], m => ⟨_, m, rfl⟩
  | c :: cs, m => by
    obtain ⟨a, m', ha⟩ : ∃ a m', (it.perform c).attempt m = .ok a m' := by
      rcases h : it.perform c m with ⟨x, m'⟩ | ⟨f, m'⟩
      · exact ⟨_, m', attempt_ok h⟩
      · exact ⟨_, m', attempt_error h⟩
    obtain ⟨as, n, has⟩ := performAll_returns it cs m'
    exact ⟨a :: as, n, (bind_ok ha _).trans (bind_ok has _)⟩

end Interpreter

/-! ### Registrations that are spent -/

namespace Registry

variable {r r' : Registry} {e : Event} {g : Registration}

/-- What is done to the registrations at once: nothing, a listener is registered, or some are taken
out. -/
inductive Edit (r : Registry) : Registry → Prop where
  | keep : Edit r r
  | add (e : Event) (listener : String) (once : Bool) : Edit r (r.add e listener once)
  | drop (e : Event) (f : List Registration → List Registration)
      (h : (f (r.of e)).Sublist (r.of e)) : Edit r (r.update e f)

/-- A registration for an event that was made, or never will be, and is no longer there. -/
structure Spent (r : Registry) (e : Event) (g : Registration) : Prop where
  lt_next : g.key < r.next
  not_mem : g ∉ r.of e

theorem Edit.keyed (h : r.Edit r') (hr : r.Keyed) : r'.Keyed := by
  cases h with
  | keep => exact hr
  | add e listener once => exact hr.add e listener once
  | drop e f h => exact hr.update h

theorem Edit.next_le (h : r.Edit r') : r.next ≤ r'.next := by
  cases h with
  | keep => exact Nat.le_refl _
  | add e listener once => exact Nat.le_succ _
  | drop e f h => exact Nat.le_of_eq (next_update r e f).symm

/-- What is spent stays spent: nothing is registered with an old key. -/
theorem Edit.spent (h : r.Edit r') (hg : r.Spent e g) : r'.Spent e g := by
  refine ⟨Nat.lt_of_lt_of_le hg.lt_next h.next_le, ?_⟩
  cases h with
  | keep => exact hg.not_mem
  | add e' listener once =>
    by_cases he : e = e'
    · subst he
      rw [of_add_self]
      intro hmem
      rcases List.mem_append.1 hmem with hmem | hmem
      · exact hg.not_mem hmem
      · have hkey := hg.lt_next
        rw [List.mem_singleton.1 hmem] at hkey
        exact Nat.lt_irrefl _ hkey
    · rw [of_add_ne r he]
      exact hg.not_mem
  | drop e' f h =>
    by_cases he : e = e'
    · subst he
      rw [of_update_self]
      exact fun hmem => hg.not_mem (h.subset hmem)
    · rw [of_update_ne r he]
      exact hg.not_mem

theorem edit_telling (r : Registry) (e : Event) (g : Registration) : r.Edit (r.telling e g) := by
  rw [telling]
  split
  · exact .drop e _ List.eraseP_sublist
  · exact .keep

/-- Whoever is told and waits for one notice only is spent. -/
theorem Keyed.spent_telling (hr : r.Keyed) (honce : g.once = true) (hkey : g.key < r.next) :
    (r.telling e g).Spent e g := by
  refine ⟨Nat.lt_of_lt_of_le hkey (edit_telling r e g).next_le, fun hmem => ?_⟩
  have hbefore : g ∈ r.of e := by
    rw [telling, if_pos honce, removeKey, of_update_self] at hmem
    exact List.eraseP_subset hmem
  obtain ⟨front, gs, hof⟩ := List.append_of_mem hbefore
  have hnodup := hr.nodup e
  rw [hof] at hnodup
  rw [of_telling hof hnodup, if_pos honce, List.append_nil] at hmem
  rw [List.map_append, List.map_cons, List.nodup_append, List.nodup_cons] at hnodup
  obtain ⟨-, ⟨hbehind, -⟩, hfront⟩ := hnodup
  rcases List.mem_append.1 hmem with hmem | hmem
  · exact hfront _ (List.mem_map_of_mem hmem) _ List.mem_cons_self rfl
  · exact hbehind (List.mem_map_of_mem hmem)

end Registry

namespace Interpreter

/-- An operation that changes the registrations for the event of a name does so, or it is refused
and changes nothing. -/
theorem after_named (it : Interpreter) (op : Operation) (name : String)
    (f : Event → Registry → Registry) (m : Machine) :
    let edited := (it.call op do
      let e ← it.eventOf name
      modify fun m => { m with registry := f e m.registry } : Act Unit).after m
    edited = m ∨ ∃ e, edited = { m with registry := f e m.registry } := by
  rw [call, eventOf, call, require, require]
  cases it.dialect.obstacle? op with
  | some e => exact .inl rfl
  | none =>
    cases it.dialect.obstacle? .checkEvent with
    | some e => exact .inl rfl
    | none =>
      cases Event.ofName? name with
      | none => exact .inl rfl
      | some e => exact .inr ⟨e, rfl⟩

theorem after_listen (it : Interpreter) (event listener : String) (once : Bool) (m : Machine) :
    m.registry.Edit ((it.listen event listener once).after m).registry ∧
      ((it.listen event listener once).after m).heard = m.heard := by
  rcases it.after_named (if once then .listenOnce else .listen) event
    (fun e r => r.add e listener once) m with h | ⟨e, h⟩ <;> rw [listen, h]
  · exact ⟨.keep, rfl⟩
  · exact ⟨.add e listener once, rfl⟩

theorem after_unlisten (it : Interpreter) (event : String) (listener : Option String)
    (m : Machine) :
    m.registry.Edit ((it.unlisten event listener).after m).registry ∧
      ((it.unlisten event listener).after m).heard = m.heard := by
  cases listener with
  | none =>
    rcases it.after_named .unlisten event (fun e r => r.clear e) m with h | ⟨e, h⟩ <;>
      rw [unlisten, h]
    · exact ⟨.keep, rfl⟩
    · exact ⟨.drop e (fun _ => []) (List.nil_sublist _), rfl⟩
  | some l =>
    rcases it.after_named .unlisten event (fun e r => r.remove e it.host.carried l) m with
      h | ⟨e, h⟩ <;> rw [unlisten, h]
    · exact ⟨.keep, rfl⟩
    · exact ⟨.drop e (·.eraseP (·.isOf it.host.carried l)) List.eraseP_sublist, rfl⟩

end Interpreter

/-! ### What a trail adds up to -/

/-- Those who are to be told have been registered, each once. -/
def Doing.Fits (r : Registry) : Doing → Prop
  | .freely => True
  | .telling _ _ _ gs => (gs.map (·.key)).Nodup ∧ ∀ g ∈ gs, g.key < r.next

/-- A registration that is to be told. -/
def Doing.Pending (e : Event) (g : Registration) : Doing → Prop
  | .freely => False
  | .telling _ e' _ gs => e' = e ∧ g ∈ gs

/-- The notice that stands around what is being done, if it is of an event. -/
def Doing.around (e : Event) : Doing → Nat
  | .freely => 0
  | .telling _ e' _ _ => if e' = e then 1 else 0

/-- How the calls of a trail add up, and what has become of the registrations. -/
structure Tally (d : Doing) (m : Machine) (t : Trail) (n : Machine) : Prop where
  keyed : n.registry.Keyed
  next_le : m.registry.next ≤ n.registry.next
  /-- What is spent stays spent. -/
  spent : ∀ e g, m.registry.Spent e g → n.registry.Spent e g
  /-- What is spent is called only if it is still to be told, and then once. -/
  none : ∀ e g, m.registry.Spent e g → ¬ d.Pending e g → t.calls e g = 0
  one : ∀ e g, m.registry.Spent e g → t.calls e g ≤ d.around e
  /-- Whoever waits for one notice only and is called is spent. -/
  gone : ∀ e g, g.once = true → 0 < t.calls e g → n.registry.Spent e g
  bound : ∀ e g, g.once = true → t.calls e g ≤ t.depth e + d.around e

namespace Tally

variable {d : Doing} {m m' n : Machine} {s t : Trail} {it : Interpreter} {e : Event}
  {payload : List Payload} {g : Registration} {gs : List Registration}

theorem done (d : Doing) (hm : m.registry.Keyed) : Tally d m .done m where
  keyed := hm
  next_le := Nat.le_refl _
  spent _ _ h := h
  none _ _ _ _ := rfl
  one _ _ _ := Nat.zero_le _
  gone _ _ _ h := absurd h (Nat.lt_irrefl _)
  bound _ _ _ := Nat.zero_le _

/-- A change of the registrations may come first. -/
theorem edit (h : m.registry.Edit m'.registry) (hrest : Tally .freely m' t n) :
    Tally .freely m t n where
  keyed := hrest.keyed
  next_le := Nat.le_trans h.next_le hrest.next_le
  spent e g hg := hrest.spent e g (h.spent hg)
  none e g hg := hrest.none e g (h.spent hg)
  one e g hg := hrest.one e g (h.spent hg)
  gone := hrest.gone
  bound := hrest.bound

/-- A notice goes by the registrations at its beginning: what is spent by then is not called. -/
theorem notice (hinner : Tally (.telling it e payload (m.registry.of e)) m s m')
    (hrest : Tally .freely m' t n) : Tally .freely m (.notice e s t) n := by
  have hnone : ∀ e' g, m.registry.Spent e' g → s.calls e' g = 0 := by
    rintro e' g hg
    refine hinner.none e' g hg ?_
    rintro ⟨rfl, hmem⟩
    exact hg.not_mem hmem
  have hcalls : ∀ e' g, m.registry.Spent e' g → (Trail.notice e s t).calls e' g = 0 := by
    intro e' g hg
    rw [Trail.calls, hnone e' g hg, hrest.none e' g (hinner.spent e' g hg) id]
  constructor
  · exact hrest.keyed
  · exact Nat.le_trans hinner.next_le hrest.next_le
  · exact fun e' g hg => hrest.spent e' g (hinner.spent e' g hg)
  · exact fun e' g hg _ => hcalls e' g hg
  · exact fun e' g hg => Nat.le_of_eq (hcalls e' g hg)
  · intro e' g honce hpos
    rw [Trail.calls] at hpos
    rcases Nat.eq_zero_or_pos (s.calls e' g) with hzero | hs
    · exact hrest.gone e' g honce (by omega)
    · exact hrest.spent e' g (hinner.gone e' g honce hs)
  · intro e' g honce
    have hs := hinner.bound e' g honce
    have ht := hrest.bound e' g honce
    simp only [Doing.around] at hs ht
    simp only [Trail.calls, Trail.depth, Doing.around]
    rcases Nat.eq_zero_or_pos (s.calls e' g) with hzero | hpos
    · omega
    · have hlater := hrest.none e' g (hinner.gone e' g honce hpos) id
      omega

/-- Whoever is told and spent then is called once: neither what the listener does nor what comes
after it calls it again. -/
theorem calls_told (hover : ¬ (Doing.telling it e payload gs).Pending e g)
    (hinner : Tally .freely (m.calling e payload g) s m')
    (hrest : Tally (.telling it e payload gs) m' t n)
    (hg : (m.calling e payload g).registry.Spent e g) : (Trail.call e g s t).calls e g = 1 := by
  rw [Trail.calls, if_pos ⟨rfl, rfl⟩, hinner.none e g hg id,
    hrest.none e g (hinner.spent e g hg) hover]

/-- The first of those who are told is called, and then the others. -/
theorem call (hm : m.registry.Keyed)
    (hfits : (Doing.telling it e payload (g :: gs)).Fits m.registry)
    (hinner : Tally .freely (m.calling e payload g) s m')
    (hrest : Tally (.telling it e payload gs) m' t n) :
    Tally (.telling it e payload (g :: gs)) m (.call e g s t) n := by
  have hedit : m.registry.Edit (m.calling e payload g).registry := m.registry.edit_telling e g
  have hspent : ∀ e' g', m.registry.Spent e' g' → m'.registry.Spent e' g' := fun e' g' hg =>
    hinner.spent e' g' (hedit.spent hg)
  have hidle : ∀ e' g', m.registry.Spent e' g' → s.calls e' g' = 0 := fun e' g' hg =>
    hinner.none e' g' (hedit.spent hg) id
  -- whoever is called now is not among the others
  have hover : ¬ (Doing.telling it e payload gs).Pending e g := fun h =>
    (List.nodup_cons.1 hfits.1).1 (List.mem_map_of_mem h.2)
  have hcalled : g.once = true → (m.calling e payload g).registry.Spent e g := fun honce =>
    hm.spent_telling honce (hfits.2 g List.mem_cons_self)
  have haround : (Doing.telling it e payload (g :: gs)).around e = 1 := if_pos rfl
  constructor
  · exact hrest.keyed
  · exact Nat.le_trans hedit.next_le (Nat.le_trans hinner.next_le hrest.next_le)
  · exact fun e' g' hg => hrest.spent e' g' (hspent e' g' hg)
  · intro e' g' hg hpending
    have hother : ¬ (e = e' ∧ g = g') := by
      rintro ⟨rfl, rfl⟩
      exact hpending ⟨rfl, List.mem_cons_self⟩
    have hlater : ¬ (Doing.telling it e payload gs).Pending e' g' := fun h =>
      hpending ⟨h.1, List.mem_cons_of_mem _ h.2⟩
    rw [Trail.calls_call_of_ne hother, hidle e' g' hg, hrest.none e' g' (hspent e' g' hg) hlater]
  · intro e' g' hg
    by_cases hmatch : e = e' ∧ g = g'
    · obtain ⟨rfl, rfl⟩ := hmatch
      exact Nat.le_of_eq ((calls_told hover hinner hrest (hedit.spent hg)).trans haround.symm)
    · rw [Trail.calls_call_of_ne hmatch, hidle e' g' hg, Nat.zero_add]
      exact hrest.one e' g' (hspent e' g' hg)
  · intro e' g' honce hpos
    by_cases hmatch : e = e' ∧ g = g'
    · obtain ⟨rfl, rfl⟩ := hmatch
      exact hrest.spent e g (hinner.spent e g (hcalled honce))
    · rw [Trail.calls_call_of_ne hmatch] at hpos
      rcases Nat.eq_zero_or_pos (s.calls e' g') with hzero | hs
      · exact hrest.gone e' g' honce (by omega)
      · exact hrest.spent e' g' (hinner.gone e' g' honce hs)
  · intro e' g' honce
    by_cases hmatch : e = e' ∧ g = g'
    · obtain ⟨rfl, rfl⟩ := hmatch
      rw [calls_told hover hinner hrest (hcalled honce), haround]
      exact Nat.le_add_left _ _
    · have hs := hinner.bound e' g' honce
      have ht := hrest.bound e' g' honce
      simp only [Doing.around] at hs ht
      simp only [Trail.calls_call_of_ne hmatch, Trail.depth, Doing.around]
      -- once it is called inside, only those who are already being told of it may call it again
      rcases Nat.eq_zero_or_pos (s.calls e' g') with hzero | hpos
      · omega
      · have hlater := hrest.one e' g' (hinner.gone e' g' honce hpos)
        simp only [Doing.around] at hlater
        omega

end Tally

namespace Happens

variable {d : Doing} {m n : Machine} {t : Trail} {x : Except Fault Unit}

/-- Whatever happens adds up. -/
theorem tally (h : Happens d m t x n) (hm : m.registry.Keyed) (hfits : d.Fits m.registry) :
    Tally d m t n := by
  induction h with
  | returns m => exact .done _ hm
  | raises f m => exact .done _ hm
  | aside hregistry _ _ ih =>
    rw [← hregistry] at hm
    exact (ih hm trivial).edit (hregistry ▸ .keep)
  | listens it event l once _ ih =>
    obtain ⟨hedit, -⟩ := it.after_listen event l once _
    exact (ih (hedit.keyed hm) trivial).edit hedit
  | unlistens it event l _ ih =>
    obtain ⟨hedit, -⟩ := it.after_unlisten event l _
    exact (ih (hedit.keyed hm) trivial).edit hedit
  | @notifies it hit e payload m m' n s t x y _ _ ihinner ihrest =>
    have hinner := ihinner hm ⟨hm.nodup e, hm.lt_next e⟩
    exact hinner.notice (ihrest hinner.keyed trivial)
  | told it e payload m => exact .done _ hm
  | @tells it e payload g gs m m' n s t x _ _ _ ihinner ihrest =>
    have hedit : m.registry.Edit (m.calling e payload g).registry := m.registry.edit_telling e g
    have hinner := ihinner (hedit.keyed hm) trivial
    refine .call hm hfits hinner (ihrest hinner.keyed ⟨(List.nodup_cons.1 hfits.1).2, ?_⟩)
    exact fun g' hg' => Nat.lt_of_lt_of_le (hfits.2 g' (List.mem_cons_of_mem _ hg'))
      (Nat.le_trans hedit.next_le hinner.next_le)
  | @breaks it e payload g gs m n s f _ _ ihinner =>
    have hedit : m.registry.Edit (m.calling e payload g).registry := m.registry.edit_telling e g
    have hinner := ihinner (hedit.keyed hm) trivial
    exact .call hm hfits hinner (.done _ hinner.keyed)

/-- Every call of a listener is on the trail. -/
theorem heard_eq (h : Happens d m t x n) : n.heard = m.heard ++ t.listeners := by
  induction h with
  | returns m => exact (List.append_nil _).symm
  | raises f m => exact (List.append_nil _).symm
  | aside hregistry hheard _ ih => rw [ih, hheard]
  | listens it event l once _ ih => rw [ih, (it.after_listen event l once _).2]
  | unlistens it event l _ ih => rw [ih, (it.after_unlisten event l _).2]
  | notifies _ _ _ ihinner ihrest => rw [ihrest, ihinner, Trail.listeners, List.append_assoc]
  | told => exact (List.append_nil _).symm
  | tells _ _ _ ihinner ihrest =>
    rw [ihrest, ihinner, Machine.heard_calling, Trail.listeners, List.append_assoc,
      List.append_assoc, List.singleton_append]
  | breaks _ _ ihinner =>
    rw [ihinner, Machine.heard_calling, Trail.listeners, Trail.listeners, List.append_nil,
      List.append_assoc, List.singleton_append]

end Happens

/-! ### Scripts -/

/-- Is it an action on the notices of an interpreter, or a fault? -/
def Action.isNotice : Action → Bool
  | .raise _ | .listen _ _ _ | .unlisten _ _ | .emit _ _ => true
  | _ => false

namespace Script

variable {script : Script} {it : Interpreter}

/-- A script whose behaviours consist of such actions. -/
def OnNotices (script : Script) : Prop :=
  ∀ id b, script.behaviors.get? id = some b → ∀ a ∈ b.actions, a.isNotice = true

theorem sociable_perform (hit : it.Notifies) (hsociable : it.Sociable) (args : Args) {a : Action}
    (ha : a.isNotice = true) : (script.perform it args a).Sociable := by
  cases a with
  | raise f => exact sociable_throw f
  | listen event l once =>
    exact (it.sociable_listen event l once).bind fun _ => sociable_pure _
  | unlisten event l => exact (it.sociable_unlisten event l).bind fun _ => sociable_pure _
  | emit event payload =>
    exact (Interpreter.sociable_emitNamed hit hsociable event _).bind fun heard =>
      (sociable_enter (.emitted heard) rfl).bind fun _ => sociable_pure _
  | _ => cases ha

theorem sociable_performAll (hit : it.Notifies) (hsociable : it.Sociable) : ∀ (as : List Action),
    (∀ a ∈ as, a.isNotice = true) → ∀ args, (script.performAll it args as).Sociable
  | [], _, _ => sociable_pure _
  | _ :: as, h, args => by
    obtain ⟨ha, has⟩ := List.forall_mem_cons.1 h
    exact (sociable_perform hit hsociable args ha).bind fun args =>
      sociable_performAll hit hsociable as has args

theorem sociable_behave (hscript : script.OnNotices) (hit : it.Notifies)
    (hsociable : it.Sociable) (id : String) (args : Args) :
    (script.behave it id args).Sociable := by
  rw [behave]
  cases hb : script.behaviors.get? id with
  | none => exact sociable_pure _
  | some b =>
    refine sociable_get fun m => ?_
    dsimp only
    split
    · exact sociable_performAll hit hsociable _ (hscript id b hb) args
    · exact sociable_pure _

/-- Scripted listeners that act on notices are sociable, however deep their calls may nest. -/
theorem sociable_host (hscript : script.OnNotices) (hit : it.Notifies) :
    ∀ depth, Interpreter.Sociable { it with host := script.host it depth }
  | 0 => fun _ _ => sociable_pure ()
  | depth + 1 => fun l _ => by
    have hit' : Interpreter.Notifies { it with host := script.host it depth } := hit
    have hbehave := sociable_behave hscript hit' (sociable_host hscript hit depth) l ∅
    exact hbehave.bind fun _ => sociable_pure ()

end Script

/-! ### One call for each -/

/-- Listeners may do to the registrations whatever can be done by registering and taking out
listeners and by giving notice, however their notices nest. Whoever makes calls for the notices
then, it happens as some trail says; on a trail listeners are told as the interpreter tells them,
and every call of a listener is on it. On every trail, a listener that is registered for one notice
only is called on that account at most as often as notices of its event stand inside one another,
hence at most once if no notice of the event stands inside another; and once it has been called, it
is never called again afterwards. -/
theorem oneShot_calls {it : Interpreter} (hit : it.Notifies) (hsociable : it.Sociable)
    (cs : List NoticeCall) {m : Machine} (hm : m.registry.Keyed) :
    (∃ as n t, it.performAll cs m = .ok as n ∧ Happens .freely m t (.ok ()) n) ∧
    (∀ e payload gs m' t x n, Happens (.telling it e payload gs) m' t x n →
      it.tell e payload gs m' = ofExcept x n) ∧
    ∀ t x n, Happens .freely m t x n → n.heard = m.heard ++ t.listeners ∧
      ∀ e g, g.once = true →
        t.calls e g ≤ t.depth e ∧
        (t.depth e ≤ 1 → t.calls e g ≤ 1) ∧
        (0 < t.calls e g → ∀ t' x' n', Happens .freely n t' x' n' → t'.calls e g = 0) := by
  refine ⟨?_, fun e payload gs m' t x n h => Interpreter.tell_of_happens hit h, ?_⟩
  · obtain ⟨as, n, hall⟩ := it.performAll_returns cs m
    obtain ⟨t, ht⟩ := (Interpreter.sociable_performAll hit hsociable cs).of_ok hall
    exact ⟨as, n, t, hall, ht⟩
  · intro t x n h
    refine ⟨h.heard_eq, fun e g honce => ?_⟩
    have htally := h.tally hm trivial
    have hbound : t.calls e g ≤ t.depth e := htally.bound e g honce
    refine ⟨hbound, fun hdepth => Nat.le_trans hbound hdepth, fun hpos t' x' n' h' => ?_⟩
    exact (h'.tally htally.keyed trivial).none e g (htally.gone e g honce hpos) id

/-- The calls of somebody who registers one listener for good and another for one notice only, and
gives notice. -/
def twoThenNotice : List NoticeCall :=
  [.listen "data" "a" false, .listen "data" "b" true, .emit "data" []]

/-- The first listener gives notice of an event itself when it is called for the first time. -/
def echoing (event : String) : Interpreter :=
  Script.run { behaviors := ⟨[("a", ⟨[.emit event []], some 1⟩)]⟩ } {}

theorem notifies_echoing (event : String) : (echoing event).Notifies := fun op _ => by
  cases op <;> rfl

theorem sociable_echoing (event : String) : (echoing event).Sociable := by
  refine Script.sociable_host (fun id b hb a ha => ?_) (fun op _ => by cases op <;> rfl) _
  obtain ⟨entry, hentry, rfl⟩ := Option.map_eq_some_iff.1 hb
  obtain rfl := List.mem_singleton.1 (List.mem_of_find?_eq_some hentry)
  obtain rfl := List.mem_singleton.1 ha
  rfl

/-- If the first listener gives notice of another event, the second is called once. -/
theorem oneShot_calls_echoing :
    ∃ as n t, (echoing "progress").performAll twoThenNotice {} = .ok as n ∧
      Happens .freely {} t (.ok ()) n ∧ t.listeners = ["a", "b"] ∧
      t.calls .data ⟨1, "b", true⟩ ≤ t.depth .data := by
  obtain ⟨⟨as, n, t, hall, ht⟩, -, htrails⟩ := oneShot_calls (notifies_echoing "progress")
    (sociable_echoing "progress") twoThenNotice (m := {}) Registry.keyed_fresh
  obtain ⟨hheard, hcalls⟩ := htrails t (.ok ()) n ht
  obtain ⟨hbound, -⟩ := hcalls .data ⟨1, "b", true⟩ rfl
  have hn : n.heard = ["a", "b"] := by
    obtain ⟨as', n', hall', hn'⟩ : ∃ as' n',
        (echoing "progress").performAll twoThenNotice {} = .ok as' n' ∧
        n'.heard = ["a", "b"] := ⟨_, _, rfl, rfl⟩
    rw [hall] at hall'
    cases hall'
    exact hn'
  exact ⟨as, n, t, hall, ht, hheard.symm.trans hn, hbound⟩

/-- If it gives notice of the same event, the second is called twice, although it is registered for
one notice only: once for the notice inside, and once for the notice around it. -/
theorem oneShot_called_twice :
    ∃ n, (echoing "data").performAll twoThenNotice {} =
        .ok [.ok .done, .ok .done, .ok (.heard true)] n ∧
      n.heard = ["a", "a", "b", "b"] := ⟨_, rfl, rfl⟩

end Gcode
