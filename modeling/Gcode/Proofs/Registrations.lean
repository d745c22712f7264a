import Gcode.Proofs.Containment
import Mathlib.Logic.Function.Basic
import Mathlib.Data.List.Nodup

/-!
What the registrations come to. Whoever calls an interpreter for its notices need not know about
keys: for each event there is a list of listeners in order, each for good or for one notice only,
and a call changes the list of the event that it names. Main statement: as long as listeners keep
their hands off the registrations, all calls are answered as these lists say (`notices_refine`).
Whoever is taken out is the first that waits for the listener, unless another listener that carries
it comes before (`notices_mistaken`).
-/

namespace Gcode

open Act

/-! ### Keyed registrations -/

namespace Registry

variable {r : Registry} {e e' : Event}

theorem update_update (r : Registry) (e : Event) (f g : List Registration → List Registration) :
    (r.update e f).update e g = r.update e (g ∘ f) := by
  cases e <;> rfl

theorem update_of_eq {l : List Registration} (h : r.of e = l) : (r.update e fun _ => l) = r := by
  subst h
  cases e <;> rfl

@[simp]
theorem next_update (r : Registry) (e : Event) (f : List Registration → List Registration) :
    (r.update e f).next = r.next := by
  cases e <;> rfl

@[simp]
theorem of_add_self (r : Registry) (e : Event) (listener : String) (once : Bool) :
    (r.add e listener once).of e = r.of e ++ [⟨r.next, listener, once⟩] := by
  cases e <;> rfl

theorem of_add_ne (r : Registry) (h : e' ≠ e) (listener : String) (once : Bool) :
    (r.add e listener once).of e' = r.of e' := by
  cases e <;> cases e' <;> first | rfl | exact absurd rfl h

/-- The registrations for an event have keys of their own, and none has the next key. -/
structure Keyed (r : Registry) : Prop where
  nodup : ∀ e, ((r.of e).map (·.key)).Nodup
  lt_next : ∀ e, ∀ g ∈ r.of e, g.key < r.next

theorem keyed_fresh : Keyed {} := by
  constructor <;> intro e <;> cases e <;> simp [of]

theorem Keyed.add (h : r.Keyed) (e : Event) (listener : String) (once : Bool) :
    (r.add e listener once).Keyed := by
  have hlt : ∀ e', ∀ g ∈ r.of e', g.key < r.next + 1 := fun e' g hg =>
    Nat.lt_succ_of_lt (h.lt_next e' g hg)
  constructor <;> intro e' <;> by_cases he : e' = e
  · subst he
    rw [of_add_self, List.map_append, List.nodup_append]
    refine ⟨h.nodup e', List.nodup_singleton _, fun k hk j hj => ?_⟩
    obtain ⟨g, hg, rfl⟩ := List.mem_map.1 hk
    rw [List.mem_singleton.1 hj]
    exact Nat.ne_of_lt (h.lt_next e' g hg)
  · rw [of_add_ne r he]
    exact h.nodup e'
  · subst he
    rw [of_add_self]
    intro g hg
    rcases List.mem_append.1 hg with hg | hg
    · exact hlt e' g hg
    · rw [List.mem_singleton.1 hg]
      exact Nat.lt_succ_self _
  · rw [of_add_ne r he]
    exact hlt e'

/-- Registrations may be taken out. -/
theorem Keyed.update (h : r.Keyed) {f : List Registration → List Registration}
    (hf : (f (r.of e)).Sublist (r.of e)) : (r.update e f).Keyed := by
  constructor <;> intro e' <;> by_cases he : e' = e
  · subst he
    rw [of_update_self]
    exact (h.nodup e').sublist (hf.map _)
  · rw [of_update_ne r he]
    exact h.nodup e'
  · subst he
    rw [of_update_self, next_update]
    exact fun g hg => h.lt_next e' g (hf.subset hg)
  · rw [of_update_ne r he, next_update]
    exact h.lt_next e'

/-- Taking out by key hits the registration with that key. -/
theorem eraseP_key {front rs : List Registration} {g : Registration}
    (h : ((front ++ g :: rs).map (·.key)).Nodup) :
    (front ++ g :: rs).eraseP (fun g' => g'.key = g.key) = front ++ rs := by
  rw [List.map_append, List.map_cons, List.nodup_append] at h
  rw [List.eraseP_append_right, List.eraseP_cons_of_pos (by simp)]
  intro g' hg' hkey
  exact h.2.2 _ (List.mem_map_of_mem hg') _ List.mem_cons_self (of_decide_eq_true hkey)

/-- The registrations when a listener is told. One that waits for one notice only is gone. -/
def telling (r : Registry) (e : Event) (g : Registration) : Registry :=
  if g.once then r.removeKey e g.key else r

theorem of_telling {front rs : List Registration} {g : Registration}
    (hof : r.of e = front ++ g :: rs) (hnodup : ((front ++ g :: rs).map (·.key)).Nodup) :
    (r.telling e g).of e = (front ++ if g.once then [] else [g]) ++ rs := by
  rw [telling]
  split
  · rw [removeKey, of_update_self, hof, eraseP_key hnodup, List.append_nil]
  · rw [hof, List.append_cons]

theorem update_telling (r : Registry) (e : Event) (g : Registration) (l : List Registration) :
    ((r.telling e g).update e fun _ => l) = r.update e fun _ => l := by
  rw [telling]
  split
  · exact update_update ..
  · rfl

end Registry

/-! ### Lists of listeners -/

/-- A listener that waits for an event, for good or for one notice only. -/
structure Subscription where
  listener : String
  once : Bool
  deriving DecidableEq, Repr

/-- A registration without its key. -/
def Registration.subscription (g : Registration) : Subscription := ⟨g.listener, g.once⟩

/-- Does it count as one of a listener? -/
def Subscription.isOf (carried : String → Option String) (listener : String) (s : Subscription) :
    Bool :=
  s.listener = listener || (!s.once && carried s.listener = some listener)

/-- If nobody waits for good who carries a listener, the first that counts as one of the listener is
the first that is for it. -/
theorem Subscription.eraseP_isOf {carried : String → Option String} {listener : String} :
    ∀ {ss : List Subscription},
      (∀ s ∈ ss, s.once = false → carried s.listener ≠ some listener) →
      ss.eraseP (·.isOf carried listener) = ss.eraseP (·.listener = listener)
  | [], _ => rfl
  | s :: ss, h => by
    have hs : s.isOf carried listener = decide (s.listener = listener) := by
      have hcarried := h s List.mem_cons_self
      cases honce : s.once <;> simp_all [isOf]
    rw [List.eraseP_cons, List.eraseP_cons, hs,
      eraseP_isOf fun s' hs' => h s' (List.mem_cons_of_mem _ hs')]

/-- The listeners that wait for each event, in order. -/
abbrev Roster := Event → List Subscription

/-- A call that somebody makes for the notices of an interpreter. It names an event. -/
inductive NoticeCall where
  | listen (event listener : String) (once : Bool)
  | unlisten (event : String) (listener : Option String)
  | listeners (event : String)
  | emit (event : String) (payload : List Payload)

/-- The event that a call names. -/
def NoticeCall.event : NoticeCall → String
  | .listen event _ _ | .unlisten event _ | .listeners event | .emit event _ => event

/-- What a call gives back. -/
inductive NoticeAnswer where
  | done
  | waiting (ss : List Subscription)
  | heard (anyone : Bool)
  deriving DecidableEq, Repr

/-- What is left of a list when the first so many have been called: those who wait for good, and
those who have not been called. -/
def remaining {α : Type} (once : α → Bool) (called : Nat) (l : List α) : List α :=
  (l.take called).filter (fun a => !once a) ++ l.drop called

@[simp]
theorem remaining_zero {α : Type} (once : α → Bool) (l : List α) : remaining once 0 l = l := rfl

theorem remaining_cons {α : Type} (once : α → Bool) (called : Nat) (a : α) (l : List α) :
    remaining once (called + 1) (a :: l) =
      (if once a then [] else [a]) ++ remaining once called l := by
  cases h : once a <;> simp [remaining, h]

theorem remaining_sublist {α : Type} (once : α → Bool) (called : Nat) (l : List α) :
    (remaining once called l).Sublist l := by
  conv => rhs; rw [← List.take_append_drop called l]
  exact List.filter_sublist.append (List.Sublist.refl _)

theorem remaining_map (called : Nat) (gs : List Registration) :
    (remaining (·.once) called gs).map Registration.subscription =
      remaining (·.once) called (gs.map Registration.subscription) := by
  rw [remaining, remaining, List.map_append, ← List.map_take, ← List.map_drop, List.filter_map]
  rfl

namespace Interpreter

/-- Calls a listener. -/
def callListener (it : Interpreter) (payload : List Payload) (l : String) : Act Unit := do
  Act.enter (.listener l payload)
  it.host.listener l payload

/-- Calls listeners in order until one of them fails: how many were called, how it ended, and the
machine after it. -/
def callUntilFault (it : Interpreter) (payload : List Payload) :
    List String → Machine → Nat × Except Fault Unit × Machine
  | [], m => (0, .ok (), m)
  | l :: ls, m =>
    match (it.callListener payload l).outcome m with
    | .ok _ =>
      let (called, result, m') :=
        it.callUntilFault payload ls ((it.callListener payload l).after m)
      (called + 1, result, m')
    | .error f => (1, .error f, (it.callListener payload l).after m)

end Interpreter

namespace Roster

/-- What a call for a known event is answered, and what it makes of the lists and of the machine. -/
def answer (it : Interpreter) (roster : Roster) (m : Machine) (e : Event) :
    NoticeCall → Except Fault NoticeAnswer × Roster × Machine
  | .listen _ listener once =>
    (.ok .done, Function.update roster e (roster e ++ [⟨listener, once⟩]), m)
  | .unlisten _ (some l) =>
    (.ok .done, Function.update roster e ((roster e).eraseP (·.isOf it.host.carried l)), m)
  | .unlisten _ none => (.ok .done, Function.update roster e [], m)
  | .listeners _ => (.ok (.waiting (roster e)), roster, m)
  | .emit _ payload =>
    let (called, result, m') := it.callUntilFault payload ((roster e).map (·.listener)) m
    (result.map fun _ => .heard (!(roster e).isEmpty),
      Function.update roster e (remaining (·.once) called (roster e)), m')

/-- What a call is answered. For an unknown event it is refused, and nothing changes. -/
def step (it : Interpreter) (roster : Roster) (m : Machine) (c : NoticeCall) :
    Except Fault NoticeAnswer × Roster × Machine :=
  match Event.ofName? c.event with
  | none => (.error (.unknownEvent c.event), roster, m)
  | some e => roster.answer it m e c

/-- What some calls are answered, one after the other. -/
def run (it : Interpreter) (roster : Roster) (m : Machine) :
    List NoticeCall → List (Except Fault NoticeAnswer) × Roster × Machine
  | [] => ([], roster, m)
  | c :: cs =>
    let (a, roster', m') := roster.step it m c
    let (as, last) := run it roster' m' cs
    (a :: as, last)

end Roster

/-- Registrations that come to some lists. -/
structure Registry.Represents (r : Registry) (roster : Roster) : Prop where
  keyed : r.Keyed
  of_eq : ∀ e, (r.of e).map Registration.subscription = roster e

namespace Registry

variable {r : Registry} {roster : Roster} {e : Event}

theorem represents_fresh : Represents {} fun _ => [] :=
  ⟨keyed_fresh, fun e => by cases e <;> rfl⟩

/-- The list of one event is changed, and no other. -/
theorem Represents.of_update (h : r.Represents roster) {r' : Registry} (hkeyed : r'.Keyed)
    {ss : List Subscription} (hself : (r'.of e).map Registration.subscription = ss)
    (hothers : ∀ e', e' ≠ e → r'.of e' = r.of e') :
    r'.Represents (Function.update roster e ss) := by
  refine ⟨hkeyed, fun e' => ?_⟩
  by_cases he : e' = e
  · subst he
    rw [hself, Function.update_self]
  · rw [hothers e' he, h.of_eq, Function.update_of_ne he]

theorem Represents.update (h : r.Represents roster) {f : List Registration → List Registration}
    (hf : (f (r.of e)).Sublist (r.of e)) {ss : List Subscription}
    (hss : (f (r.of e)).map Registration.subscription = ss) :
    (r.update e f).Represents (Function.update roster e ss) :=
  h.of_update (h.keyed.update hf) (by rw [of_update_self, hss]) fun _ he => of_update_ne r he f

end Registry

/-! ### The calls -/

/-- An action that neither reads nor changes the registrations. -/
def Act.Aloof {α : Type} (a : Act α) : Prop :=
  ∀ m registry, a { m with registry } = ofExcept (a.outcome m) { a.after m with registry }

namespace Interpreter

variable {it : Interpreter} {r : Registry} {roster : Roster}

/-- The operations on notices can be called. -/
def Notifies (it : Interpreter) : Prop := ∀ op, op.isNotice = true → it.dialect.obstacle? op = none

theorem Notifies.call_eq (h : it.Notifies) {op : Operation} (hop : op.isNotice = true) {α : Type}
    (body : Act α) : it.call op body = body := by
  rw [call, require_eq_pure (h op hop)]
  rfl

/-- Makes a call. -/
def perform (it : Interpreter) : NoticeCall → Act NoticeAnswer
  | .listen event listener once => do
    it.listen event listener once
    pure .done
  | .unlisten event listener => do
    it.unlisten event listener
    pure .done
  | .listeners event => do
    let registered ← it.listeners event
    pure (.waiting (registered.map Registration.subscription))
  | .emit event payload => do
    let anyone ← it.emitNamed event payload
    pure (.heard anyone)

/-- Makes some calls, and goes on after those that fail. -/
def performAll (it : Interpreter) : List NoticeCall → Act (List (Except Fault NoticeAnswer))
  | [] => pure []
  | c :: cs => do
    let a ← (it.perform c).attempt
    let as ← it.performAll cs
    pure (a :: as)

theorem tell_cons (hit : it.Notifies) (e : Event) (payload : List Payload) (g : Registration)
    (rs : List Registration) (m : Machine) :
    it.tell e payload (g :: rs) m =
      (it.callListener payload g.listener >>= fun _ => it.tell e payload rs)
        { m with registry := m.registry.telling e g } := by
  rw [tell, Registry.telling]
  split
  · rw [hit.call_eq rfl]
    rfl
  · rfl

theorem aloof_callListener (haloof : ∀ l payload, (it.host.listener l payload).Aloof)
    (payload : List Payload) (l : String) : (it.callListener payload l).Aloof := fun m registry =>
  haloof l payload { m with journal := m.journal ++ [.listener l payload] } registry

/-- Listeners are told in order until one fails, and those who were told and waited for one notice
only are no longer registered. -/
theorem tell_eq (hit : it.Notifies) (haloof : ∀ l payload, (it.host.listener l payload).Aloof)
    (e : Event) (payload : List Payload) : ∀ (rs front : List Registration) (r : Registry)
    (m : Machine), r.of e = front ++ rs → ((front ++ rs).map (·.key)).Nodup →
    ∀ called result m', it.callUntilFault payload (rs.map (·.listener)) m = (called, result, m') →
      it.tell e payload rs { m with registry := r } = ofExcept result
        { m' with registry := r.update e fun _ => front ++ remaining (·.once) called rs }
  | [], front, r, m, hof, _, called, result, m', hcalls => by
    cases hcalls
    rw [remaining_zero, ← hof, Registry.update_of_eq rfl]
    rfl
  | g :: rs, front, r, m, hof, hnodup, called, result, m', hcalls => by
    have hof' := Registry.of_telling hof hnodup
    have hnodup' : (((front ++ if g.once then [] else [g]) ++ rs).map (·.key)).Nodup := by
      refine hnodup.sublist (List.Sublist.map _ ?_)
      split <;> simp
    have htold := aloof_callListener haloof payload g.listener m (r.telling e g)
    rw [List.map_cons, callUntilFault] at hcalls
    rw [tell_cons hit]
    cases houtcome : (it.callListener payload g.listener).outcome m with
    | error f =>
      rw [houtcome] at hcalls htold
      cases hcalls
      rw [bind_error htold, remaining_cons, remaining_zero, ← List.append_assoc, ← hof',
        ← Registry.update_telling r e g, Registry.update_of_eq rfl]
      rfl
    | ok u =>
      rw [houtcome] at hcalls htold
      cases hcalls
      rw [bind_ok htold, tell_eq hit haloof e payload rs _ (r.telling e g) _ hof' hnodup' _ _ _ rfl,
        Registry.update_telling, remaining_cons, List.append_assoc]

theorem notify_eq (hit : it.Notifies) (haloof : ∀ l payload, (it.host.listener l payload).Aloof)
    (hr : r.Keyed) (e : Event) (payload : List Payload) (m : Machine) {called : Nat}
    {result : Except Fault Unit} {m' : Machine}
    (hcalls : it.callUntilFault payload ((r.of e).map (·.listener)) m = (called, result, m')) :
    it.notify e payload { m with registry := r } =
      ofExcept (result.map fun _ => !(r.of e).isEmpty)
        { m' with registry := r.update e fun _ => remaining (·.once) called (r.of e) } := by
  have htell := tell_eq hit haloof e payload (r.of e) [] r m rfl (hr.nodup e) _ _ _ hcalls
  rw [notify, get_bind]
  cases result with
  | error f => exact bind_error htell _
  | ok u => exact bind_ok htell _

theorem eventOf_some (hit : it.Notifies) {name : String} {e : Event}
    (h : Event.ofName? name = some e) : it.eventOf name = pure e := by
  rw [eventOf, hit.call_eq rfl, h]

theorem eventOf_none (hit : it.Notifies) {name : String} (h : Event.ofName? name = none) :
    it.eventOf name = throw (.unknownEvent name) := by
  rw [eventOf, hit.call_eq rfl, h]

/-- Makes a call for an event whatever the call names. -/
def performFor (it : Interpreter) (e : Event) : NoticeCall → Act NoticeAnswer
  | .listen _ listener once => do
    modify fun m => { m with registry := m.registry.add e listener once }
    pure .done
  | .unlisten _ (some l) => do
    modify fun m => { m with registry := m.registry.remove e it.host.carried l }
    pure .done
  | .unlisten _ none => do
    modify fun m => { m with registry := m.registry.clear e }
    pure .done
  | .listeners _ => do
    pure (.waiting (((← get).registry.of e).map Registration.subscription))
  | .emit _ payload => do
    let anyone ← it.notify e payload
    pure (.heard anyone)

/-- A call first finds out which event it is for. -/
theorem perform_eq (hit : it.Notifies) (c : NoticeCall) :
    it.perform c = it.eventOf c.event >>= fun e => it.performFor e c := by
  cases c with
  | listen event l once =>
    have hop : (if once then Operation.listenOnce else .listen).isNotice = true := by
      cases once <;> rfl
    rw [perform, listen, hit.call_eq hop, bind_assoc]
    rfl
  | unlisten event l =>
    rw [perform, unlisten, hit.call_eq rfl, bind_assoc]
    cases l <;> rfl
  | listeners event =>
    rw [perform, listeners, hit.call_eq rfl, bind_assoc]
    rfl
  | emit event payload =>
    rw [perform, emitNamed, hit.call_eq rfl, bind_assoc]
    rfl

/-- A call for an unknown event is refused, and nothing changes. -/
theorem perform_unknown (hit : it.Notifies) {c : NoticeCall} (h : Event.ofName? c.event = none)
    (m : Machine) : it.perform c m = .error (.unknownEvent c.event) m := by
  rw [perform_eq hit, eventOf_none hit h]
  rfl

/-- An emission calls the listeners of its event until one fails, and takes out the registrations for
one time that were called. -/
theorem performFor_emit (hit : it.Notifies)
    (haloof : ∀ l payload, (it.host.listener l payload).Aloof) (h : r.Represents roster)
    (e : Event) (event : String) (payload : List Payload) (m : Machine)
    {a : Except Fault NoticeAnswer} {roster' : Roster} {m' : Machine}
    (hanswer : roster.answer it m e (.emit event payload) = (a, roster', m')) :
    ∃ r', r'.Represents roster' ∧ (∀ e', e' ≠ e → r'.of e' = r.of e') ∧
      it.performFor e (.emit event payload) { m with registry := r } =
        ofExcept a { m' with registry := r' } := by
  have hlisteners : (roster e).map (·.listener) = (r.of e).map (·.listener) := by
    rw [← h.of_eq, List.map_map]
    rfl
  rw [Roster.answer, hlisteners] at hanswer
  obtain ⟨⟨called, result, m''⟩, hcalls⟩ :
    ∃ x, it.callUntilFault payload ((r.of e).map (·.listener)) m = x := ⟨_, rfl⟩
  rw [hcalls] at hanswer
  cases hanswer
  have hnotify := notify_eq hit haloof h.keyed e payload m hcalls
  have hleft : (remaining (·.once) called (r.of e)).map Registration.subscription =
      remaining (·.once) called (roster e) := by
    rw [remaining_map, h.of_eq]
  refine ⟨r.update e fun _ => remaining (·.once) called (r.of e),
    h.update (f := fun _ => remaining (·.once) called (r.of e)) (remaining_sublist _ _ _) hleft,
    fun e' he' => r.of_update_ne he' _, ?_⟩
  rw [performFor, ← h.of_eq, List.isEmpty_map]
  cases result with
  | error f => exact bind_error hnotify _
  | ok u => exact bind_ok hnotify _

/-- A call for a known event is answered as the lists say, and changes the registrations for no
other event. -/
theorem performFor_eq (hit : it.Notifies)
    (haloof : ∀ l payload, (it.host.listener l payload).Aloof) (h : r.Represents roster)
    (e : Event) (c : NoticeCall) (m : Machine) {a : Except Fault NoticeAnswer} {roster' : Roster}
    {m' : Machine} (hanswer : roster.answer it m e c = (a, roster', m')) :
    ∃ r', r'.Represents roster' ∧ (∀ e', e' ≠ e → r'.of e' = r.of e') ∧
      it.performFor e c { m with registry := r } = ofExcept a { m' with registry := r' } := by
  cases c with
  | listen event l once =>
    cases hanswer
    have hothers : ∀ e', e' ≠ e → (r.add e l once).of e' = r.of e' :=
      fun e' he' => r.of_add_ne he' l once
    refine ⟨r.add e l once, h.of_update (h.keyed.add e l once) ?_ hothers, hothers, rfl⟩
    rw [Registry.of_add_self, List.map_append, h.of_eq]
    rfl
  | unlisten event l =>
    cases l with
    | none =>
      cases hanswer
      exact ⟨r.clear e, h.update (List.nil_sublist _) rfl, fun e' he' => r.of_update_ne he' _, rfl⟩
    | some l =>
      cases hanswer
      refine ⟨r.remove e it.host.carried l, h.update List.eraseP_sublist ?_,
        fun e' he' => r.of_update_ne he' _, rfl⟩
      rw [← h.of_eq, List.eraseP_map]
      rfl
  | listeners event =>
    cases hanswer
    refine ⟨r, h, fun e' _ => rfl, ?_⟩
    rw [← h.of_eq]
    rfl
  | emit event payload => exact performFor_emit hit haloof h e event payload m hanswer

/-- A call is answered as the lists say, and changes the registrations for no other event than the
one it names. -/
theorem perform_step (hit : it.Notifies)
    (haloof : ∀ l payload, (it.host.listener l payload).Aloof) (h : r.Represents roster)
    (c : NoticeCall) (m : Machine) {a : Except Fault NoticeAnswer} {roster' : Roster}
    {m' : Machine} (hstep : roster.step it m c = (a, roster', m')) :
    ∃ r', r'.Represents roster' ∧ (∀ e, e.name ≠ c.event → r'.of e = r.of e) ∧
      it.perform c { m with registry := r } = ofExcept a { m' with registry := r' } := by
  rw [Roster.step] at hstep
  cases he : Event.ofName? c.event with
  | none =>
    rw [he] at hstep
    cases hstep
    exact ⟨r, h, fun _ _ => rfl, perform_unknown hit he _⟩
  | some e =>
    rw [he] at hstep
    obtain ⟨r', hr', hothers, hperform⟩ := performFor_eq hit haloof h e c m hstep
    have hname := List.find?_some he
    rw [decide_eq_true_iff] at hname
    refine ⟨r', hr', fun e' he' => hothers e' fun heq => he' (heq ▸ hname), ?_⟩
    rw [perform_eq hit, eventOf_some hit he, pure_bind]
    exact hperform

/-- A run of calls is answered as the lists say. -/
theorem performAll_run (hit : it.Notifies)
    (haloof : ∀ l payload, (it.host.listener l payload).Aloof) :
    ∀ (cs : List NoticeCall) {r : Registry} {roster : Roster}, r.Represents roster →
    ∀ (m : Machine) {as : List (Except Fault NoticeAnswer)} {roster' : Roster} {m' : Machine},
      roster.run it m cs = (as, roster', m') →
      ∃ r', r'.Represents roster' ∧
        it.performAll cs { m with registry := r } = .ok as { m' with registry := r' }
  | [], r, roster, h, m, as, roster', m', hrun => by
    cases hrun
    exact ⟨r, h, rfl⟩
  | c :: cs, r, roster, h, m, as, roster', m', hrun => by
    obtain ⟨⟨a, roster₁, m₁⟩, hstep⟩ : ∃ x, roster.step it m c = x := ⟨_, rfl⟩
    obtain ⟨⟨as', roster₂, m₂⟩, hrest⟩ : ∃ x, roster₁.run it m₁ cs = x := ⟨_, rfl⟩
    rw [Roster.run, hstep] at hrun
    dsimp only at hrun
    rw [hrest] at hrun
    cases hrun
    obtain ⟨r₁, hr₁, -, hperform⟩ := perform_step hit haloof h c m hstep
    obtain ⟨r₂, hr₂, hall⟩ := performAll_run hit haloof cs hr₁ m₁ hrest
    have hattempt : (it.perform c).attempt { m with registry := r } =
        .ok a { m₁ with registry := r₁ } := by
      cases a with
      | ok x => exact attempt_ok hperform
      | error f => exact attempt_error hperform
    refine ⟨r₂, hr₂, ?_⟩
    rw [performAll, bind_ok hattempt, bind_ok hall]
    rfl

end Interpreter

/-! ### Refinement -/

/-- Listeners keep their hands off the registrations. Then every run of calls is answered as the
lists of listeners say, fails where they say so, and leaves what they say; no call changes the
registrations for another event than the one it names, and a call that names an unknown event is
refused and changes nothing. If no listener for good carries the one that is to be taken out, the
first subscription of just this listener is taken out. -/
theorem notices_refine {it : Interpreter} (hit : it.Notifies)
    (haloof : ∀ l payload, (it.host.listener l payload).Aloof) {r : Registry} {roster : Roster}
    (h : r.Represents roster) (m : Machine) :
    (∀ cs as roster' m', roster.run it m cs = (as, roster', m') →
      ∃ r', r'.Represents roster' ∧
        it.performAll cs { m with registry := r } = .ok as { m' with registry := r' }) ∧
    (∀ c e, e.name ≠ c.event →
      ((it.perform c).after { m with registry := r }).registry.of e = r.of e) ∧
    (∀ c, Event.ofName? c.event = none →
      it.perform c { m with registry := r } =
        .error (.unknownEvent c.event) { m with registry := r } ∧
      (Fault.unknownEvent c.event).kind = .value) ∧
    ∀ (roster : Roster) (m : Machine) e event l,
      (∀ s ∈ roster e, s.once = false → it.host.carried s.listener ≠ some l) →
      roster.answer it m e (.unlisten event (some l)) =
        (.ok .done, Function.update roster e ((roster e).eraseP (·.listener = l)), m) := by
  refine ⟨fun cs as roster' m' hrun => Interpreter.performAll_run hit haloof cs h m hrun,
    fun c e he => ?_, fun c hc => ⟨Interpreter.perform_unknown hit hc _, rfl⟩,
    fun roster m e event l hcarried => by rw [Roster.answer, Subscription.eraseP_isOf hcarried]⟩
  obtain ⟨⟨a, roster', m'⟩, hstep⟩ : ∃ x, roster.step it m c = x := ⟨_, rfl⟩
  obtain ⟨r', -, hothers, hperform⟩ := Interpreter.perform_step hit haloof h c m hstep
  rw [← hothers e he, Act.after, hperform]
  cases a <;> rfl

/-- A listener that fails, among others that do nothing. -/
def grumbling : Interpreter where
  host := { Host.silent with
    listener := fun l _ => if l = "b" then throw (.raised .value "boom" none) else pure () }

/-- The listener that fails is the second of four. It waits for one notice only and is gone, the
third does so, too, but stays; the first registration of a listener is taken out, and not the
second. -/
theorem notices_refine_grumbling :
    ∃ m, grumbling.performAll
        [.listen "data" "a" false, .listen "data" "b" true, .listen "data" "a" true,
          .listen "data" "c" true, .emit "data" [], .listeners "data",
          .unlisten "data" (some "a"), .emit "finish" [], .emit "data" [], .listeners "data"] {} =
      .ok [.ok .done, .ok .done, .ok .done, .ok .done, .error (.raised .value "boom" none),
          .ok (.waiting [⟨"a", false⟩, ⟨"a", true⟩, ⟨"c", true⟩]), .ok .done,
          .error (.unknownEvent "finish"), .ok (.heard true), .ok (.waiting [])] m ∧
        m.journal = [.listener "a" [], .listener "b" [], .listener "a" [], .listener "c" []] := by
  have haloof : ∀ l payload, (grumbling.host.listener l payload).Aloof := by
    intro l payload m registry
    dsimp only [grumbling, Act.outcome, Act.after]
    split <;> rfl
  have hnotifies : grumbling.Notifies := fun op _ => by cases op <;> rfl
  obtain ⟨hruns, -, -, -⟩ := notices_refine hnotifies haloof Registry.represents_fresh {}
  obtain ⟨r', -, hrun⟩ := hruns _ _ _ _ rfl
  exact ⟨_, hrun, rfl⟩

/-- A listener that passes notices on to another one, which it carries. -/
def filtering : Interpreter where
  host := { Host.silent with carried := fun l => if l = "filter" then some "f" else none }

/-- An interpreter of a class in which a plain value stands for the way to take listeners out. -/
def stuck : Interpreter where
  dialect := { attributes := ⟨[("off", .value "int")]⟩ }

/-- The listener that carries another one is taken out in its place, and the other one stays. And
where listeners cannot be taken out, one that waits for one notice only is not called at all. -/
theorem notices_mistaken :
    (∃ m, filtering.performAll
        [.listen "data" "filter" false, .listen "data" "f" false, .unlisten "data" (some "f"),
          .listeners "data"] {} =
      .ok [.ok .done, .ok .done, .ok .done, .ok (.waiting [⟨"f", false⟩])] m) ∧
    ∃ m, stuck.performAll [.listen "data" "f" true, .emit "data" []] {} =
        .ok [.ok .done, .error (.notCallable "int")] m ∧ m.journal = [] :=
  ⟨⟨_, rfl⟩, ⟨_, rfl, rfl⟩⟩

end Gcode
