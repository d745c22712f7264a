import Gcode.Proofs.Tasks
import Gcode.Proofs.Trace

/-!
Loads that fail. A load reads pieces, and then a read fails or a piece holds a line that is refused.
What it did until then is what the pieces before gave: the lines that they complete are announced
and carried out, with the progress after each piece, and last the fault is announced. Main
statement: if host code returns and leaves the interpreter alone, though not the streams, a load
that fails does just that and ends with the fault (`readStream_failure`).
-/

namespace Gcode

open Act
open Gcode.Text

/-! ### What some pieces give -/

/-- The notices of the pieces that a load reads, without its end. -/
def chunkNotices (strict : Bool) (total : Literal) (before : List Char) (d : Decoder)
    (consumed : Nat) : List Piece → List Notice
  | [] => []
  | p :: ps =>
    (linesCompleted strict before (p.decode d).1).map .line ++
      .progress (consumed + p.length) total ::
        chunkNotices strict total (before ++ (p.decode d).1) (p.decode d).2 (consumed + p.length) ps

/-- The text of some pieces, without what a decoder keeps. -/
def textOf (d : Decoder) : List Piece → List Char
  | [] => []
  | p :: ps => (p.decode d).1 ++ textOf (p.decode d).2 ps

/-- A load that goes on to its end gives the notices of its pieces first. -/
theorem noticesFrom_chunks (strict : Bool) (total : Literal) : ∀ (ps : List Piece)
    (before : List Char) (d : Decoder) (consumed : Nat), ∃ ls : List Line,
    noticesFrom strict total before d consumed ps =
      chunkNotices strict total before d consumed ps ++ ls.map .line
  | [], before, d, consumed => ⟨_, rfl⟩
  | p :: ps, before, d, consumed => by
    obtain ⟨ls, hls⟩ := noticesFrom_chunks strict total ps (before ++ (p.decode d).1) (p.decode d).2
      (consumed + p.length)
    refine ⟨ls, ?_⟩
    rw [noticesFrom, chunkNotices, hls, List.append_assoc, List.cons_append]

/-- Except for lines, the notices of the pieces are those of a whole load. -/
theorem payloads_chunkNotices {e : Event} (he : Event.data ≠ e) (strict : Bool) (total : Literal)
    (ps : List Piece) (before : List Char) (d : Decoder) (consumed : Nat) :
    (chunkNotices strict total before d consumed ps).filterMap (Notice.payload? e) =
      (noticesFrom strict total before d consumed ps).filterMap (Notice.payload? e) := by
  obtain ⟨ls, hls⟩ := noticesFrom_chunks strict total ps before d consumed
  rw [hls, List.filterMap_append, payloads_lines he, List.append_nil]

/-- The command that a deed carries out, if it does. -/
def Deed.command? : Deed → Option Command
  | .notice _ _ => none
  | .command c => some c

/-- The commands of some lines, given the modal command before them. -/
def Command.ofLines (modal : String) (ls : List Line) : List Command :=
  ofGroups modal (ls.flatMap fun l => Group.partition l.words)

theorem Command.ofGroups_append (gs gs' : List Group) : ∀ modal : String,
    ofGroups modal (gs ++ gs') =
      ofGroups modal gs ++ ofGroups (modalAfter modal (ofGroups modal gs)) gs' := by
  induction gs with
  | nil => intro modal; rfl
  | cons g gs ih =>
    intro modal
    rw [List.cons_append, ofGroups, ofGroups, ih]
    rfl

theorem Command.modalAfter_append (cs cs' : List Command) : ∀ modal : String,
    modalAfter modal (cs ++ cs') = modalAfter (modalAfter modal cs) cs' := by
  induction cs with
  | nil => intro modal; rfl
  | cons c cs ih => intro modal; exact ih c.code

/-- The modal command after some commands is the code of the last. -/
theorem Command.modalAfter_eq (cs : List Command) : ∀ modal : String,
    modalAfter modal cs = (cs.getLast?.map (·.code)).getD modal := by
  induction cs with
  | nil => intro modal; rfl
  | cons c cs ih =>
    intro modal
    rw [modalAfter, ih, List.getLast?_cons]
    cases cs.getLast? <;> rfl

theorem commands_map (cs : List Command) : (cs.map Deed.command).filterMap Deed.command? = cs := by
  rw [List.filterMap_map]
  exact List.filterMap_some

/-- The commands among the deeds of some notices are those of their lines. -/
theorem commands_deedsOf (ns : List Notice) : ∀ modal : String,
    (deedsOf modal ns).filterMap Deed.command? =
        Command.ofLines modal (ns.filterMap Notice.line?) ∧
      modalThrough modal ns =
        Command.modalAfter modal (Command.ofLines modal (ns.filterMap Notice.line?)) := by
  induction ns with
  | nil => intro modal; exact ⟨rfl, rfl⟩
  | cons n ns ih =>
    intro modal
    obtain ⟨hrest, hmodal⟩ := ih (n.modalAfter modal)
    rw [deedsOf, Notice.deeds, List.filterMap_append, List.filterMap_cons_none rfl, commands_map,
      hrest,
      modalThrough, hmodal]
    cases n with
    | line l =>
      have hlines : (Notice.line l :: ns).filterMap Notice.line? =
        l :: ns.filterMap Notice.line? := rfl
      rw [hlines, Command.ofLines, Command.ofLines, List.flatMap_cons, Command.ofGroups_append,
        Command.modalAfter_append]
      exact ⟨rfl, rfl⟩
    | progress consumed total => exact ⟨rfl, rfl⟩
    | ended ls => exact ⟨rfl, rfl⟩

/-! ### Reading once -/

namespace Interpreter

variable {it : Interpreter} {leaves : Manner} {m m' : Machine} {load load' : Load} {p : Piece}
  {f : Fault} {src : Source} {s : Stream} {i : Nat}

/-- Reads a source once. -/
def readOnce (it : Interpreter) (source : Nat) : Act Piece := do
  let data ← take source it.chunkSize
  accept source data

theorem readOnce_receive (load : Load) {α : Type} (rest : Load ⊕ List Line → Act α) :
    (take load.source it.chunkSize >>= fun data => it.receive load data >>= rest) =
      it.readOnce load.source >>= fun p =>
        (if p.length = 0 then do pure (.inr (← it.finish load))
          else do pure (.inl (← it.ingest load p))) >>= rest := by
  simp only [readOnce, receive, bind_assoc]

/-- What sources report is a fault of a source, whatever it was before, unless it was that a load
was cancelled. -/
theorem kind_reported_of_ne {names : List String} {f : Fault} (h : f.kind = .source ∨ names ≠ [])
    (hf : f.kind ≠ .cancelled) : (reported names f).kind = .source := by
  have hwrapped : ∀ (names : List String) (f : Fault), f.kind = .source ∨ names ≠ [] →
      (names.foldl (fun f name => .readFailed name f) f).kind = .source := by
    intro names
    induction names with
    | nil => exact fun f h => h.resolve_right (· rfl)
    | cons name names ih => exact fun f _ => ih _ (.inl rfl)
  rw [reported, if_neg hf]
  exact hwrapped names f h

theorem kind_reported {names : List String} {f : Fault} (h : f.kind = .source ∨ names ≠ []) :
    (reported names f).kind = .source ∨ (reported names f).kind = .cancelled := by
  by_cases hf : f.kind = .cancelled
  · rw [reported, if_pos hf]
    exact .inr hf
  · exact .inl (kind_reported_of_ne h hf)

theorem isLoad_of_kind (h : f.kind = .source) : f.isLoad := by
  rw [Fault.isLoad, h]
  rfl

/-- Data passes a source that is there under its own name at least. -/
theorem sourceNames_passage_ne_nil (h : m.sources[i]? = some src) :
    m.sourceNames (m.passage i) ≠ [] := by
  simp [Machine.sourceNames, Machine.passage, h]

/-- What is taken is taken from the stream; a fault is one of loading, unless it is that a load was
cancelled. -/
theorem take_after (i : Nat) (size : Int) (m : Machine) :
    ((take i size).after m).core = m.core ∧ ((take i size).after m).sources = m.sources ∧
      ∀ f m', take i size m = .error f m' → f.kind ≠ .cancelled → f.isLoad := by
  by_cases h : ∃ src s, m.Reads i src s
  · obtain ⟨src, s, hm⟩ := h
    obtain ⟨got, s', hread⟩ : ∃ got s', s.read size = (got, s') := ⟨_, _, rfl⟩
    cases got with
    | ok x =>
      rw [after, take_eq_ok hm hread]
      exact ⟨rfl, rfl, fun f m' h => by cases h⟩
    | error f =>
      have hfail := take_eq_error hm hread
      rw [after, hfail]
      refine ⟨rfl, rfl, fun f' m' h hkind => ?_⟩
      cases h
      exact isLoad_of_kind
        ((kind_reported (.inr (sourceNames_passage_ne_nil hm.source))).resolve_right hkind)
  · have hnone : take i size m = .error .noSource m :=
      missing_eq (fun src s hm => h ⟨src, s, hm⟩) _
    rw [after, hnone]
    refine ⟨rfl, rfl, fun f' m' h _ => ?_⟩
    cases h
    rfl

theorem accept_error {data : Literal} (h : accept i data m = .error f m') :
    m' = m ∧ (f.kind ≠ .cancelled → f.isLoad) := by
  rw [accept, get_bind] at h
  cases hp : Piece.ofLiteral? data with
  | some p => rw [hp] at h; cases h
  | none =>
    rw [hp] at h
    cases hn : m.sourceNames (m.passage i) with
    | nil => rw [hn] at h; cases h; exact ⟨rfl, fun _ => rfl⟩
    | cons name names =>
      rw [hn] at h
      cases h
      exact ⟨rfl, fun hkind => isLoad_of_kind ((kind_reported (.inl rfl)).resolve_right hkind)⟩

/-- A read that fails leaves the core as it is, and its fault is one of loading, unless it is that a
load was cancelled. -/
theorem readOnce_error (h : it.readOnce i m = .error f m') :
    m'.core = m.core ∧ (f.kind ≠ .cancelled → f.isLoad) := by
  obtain ⟨hcore, -, hload⟩ := take_after i it.chunkSize m
  cases htake : take i it.chunkSize m with
  | error f' m₁ =>
    rw [readOnce, bind_error htake] at h
    cases h
    rw [after, htake] at hcore
    exact ⟨hcore, hload f m' htake⟩
  | ok data m₁ =>
    rw [readOnce, bind_ok htake] at h
    rw [after, htake] at hcore
    obtain ⟨rfl, hf⟩ := accept_error h
    exact ⟨hcore, hf⟩

/-- A read that gives a piece leaves the core as it is, and the source has counted the piece. -/
theorem readOnce_ok (hsrc : m.sources[i]? = some src) (hinner : i ∉ src.inner)
    (h : it.readOnce i m = .ok p m') :
    m'.core = m.core ∧ m'.sources[i]? = some { src with consumed := src.consumed + p.length } := by
  obtain ⟨data, m₁, htake, haccept⟩ := bind_eq_ok h
  obtain ⟨hcore, hsources, -⟩ := take_after i it.chunkSize m
  rw [after, htake] at hcore hsources
  obtain ⟨-, rfl⟩ := accept_inv haccept
  have hsrc₁ : m₁.sources[i]? = some src := by rw [hsources, hsrc]
  refine ⟨(Machine.countRead_core ..).trans hcore, ?_⟩
  rw [Machine.countRead_sources _ _ hsrc₁, Machine.count_passage hsrc₁ hinner, Nat.one_mul]

/-! ### Turns up to a read -/

/-- What a load waits for makes no difference to its further reads. -/
theorem proceed_wait (w : Wait) : ∀ (limit : Nat) (load : Load),
    it.proceed limit { load with wait := w } = it.proceed limit load := by
  intro limit
  induction limit with
  | zero =>
    intro load
    rw [proceed.eq_def, proceed.eq_def]
  | succ limit ih =>
    intro load
    funext m
    by_cases h : ∃ src s, m.Reads load.source src s
    · obtain ⟨src, s, hm⟩ := h
      have hm' : m.Reads ({ load with wait := w } : Load).source src s := hm
      rcases hw : s.waits with _ | _ | left
      · exact (proceed_at_once hm' hw _).trans (proceed_at_once hm hw _).symm
      · have hrest : (fun r => it.proceedRest limit (r.map (fun l => { l with wait := w }) id)) =
            it.proceedRest limit := by
          funext r
          cases r with
          | inl l => exact ih l
          | inr ls => rfl
        rw [proceed_in_turn hm' hw, proceed_in_turn hm hw]
        simp only [receive_wait, bind_assoc, pure_bind, hrest]
      · exact (proceed_later hm' hw _).trans (proceed_later hm hw _).symm
    · have hnone : ∀ src s, ¬ m.Reads load.source src s := fun src s hm => h ⟨src, s, hm⟩
      have hnone' : ∀ src s, ¬ m.Reads ({ load with wait := w } : Load).source src s := hnone
      exact (proceed_missing hnone' _).trans (proceed_missing hnone _).symm

theorem advanceRest_wait (w : Wait) :
    (fun r => it.advanceRest (r.map (fun l => { l with wait := w }) id)) = it.advanceRest := by
  funext r
  cases r with
  | inl l => simp only [advanceRest, Sum.map_inl, proceed_wait]
  | inr ls => rfl

/-- Whenever a load that runs alone begins its next read, some turns later it makes it, and nothing
happens in between. -/
theorem playOn_read (hq : m.queue = []) (limit : Nat) (load : Load) :
    ∃ (turns : Nat) (rest : Load ⊕ List Line → Act Turn), it.GoesOn rest ∧
      ∀ fuel, it.playOn (fuel + turns) (it.proceed limit load) m =
        it.playOn fuel (take load.source it.chunkSize >>= fun data =>
          it.receive load data >>= rest) m := by
  have hresume : ∀ (w : Wait) (data : Literal),
      it.receive { load with wait := w } data >>= it.advanceRest =
        it.receive load data >>= it.advanceRest := by
    intro w data
    rw [receive_wait, bind_assoc]
    simp only [pure_bind]
    rw [advanceRest_wait]
  by_cases h : ∃ src s, m.Reads load.source src s
  · obtain ⟨src, s, hm⟩ := h
    rcases hw : s.waits with _ | _ | left
    · -- the data is taken at once and received in the next turn
      refine ⟨1, it.advanceRest, goesOn_advanceRest, fun fuel => ?_⟩
      rw [playOn_congr _ (proceed_at_once hm hw limit)]
      cases htake : take load.source it.chunkSize m with
      | error f m' => rw [playOn_error _ (bind_error htake _), playOn_error _ (bind_error htake _)]
      | ok data m' =>
        have hq' : m'.queue = [] := by
          have hcore := (take_after load.source it.chunkSize m).1
          rw [after, htake] at hcore
          exact (Machine.eq_of_core hcore _ fun _ => rfl).trans hq
        rw [playOn_waiting fuel (bind_ok htake _) hq', resume_taken, hresume,
          playOn_congr fuel (bind_ok htake _)]
    · cases limit with
      | zero =>
        refine ⟨1, it.advanceRest, goesOn_advanceRest, fun fuel => ?_⟩
        rw [playOn_waiting fuel (proceed_due hm hw) hq, resume_due]
        simp only [hresume]
      | succ limit =>
        exact ⟨0, it.proceedRest limit, fun l n => ⟨limit, rfl⟩,
          fun fuel => playOn_congr fuel (proceed_in_turn hm hw limit)⟩
    · refine ⟨left + 1, it.advanceRest, goesOn_advanceRest, fun fuel => ?_⟩
      rw [playOn_turns hq fuel left _ m (proceed_later hm hw limit), resume_due]
      simp only [hresume]
  · have hnone : ∀ src s, ¬ m.Reads load.source src s := fun src s hm => h ⟨src, s, hm⟩
    have htake : take load.source it.chunkSize m = .error .noSource m := missing_eq hnone _
    refine ⟨0, it.proceedRest 0, fun l n => ⟨0, rfl⟩, fun fuel => ?_⟩
    rw [playOn_error _ (proceed_missing hnone limit), playOn_error _ (bind_error htake _)]

/-! ### What a load did before it failed -/

theorem linesOf_error {r : Reading} (h : r.lines = .error f) (m : Machine) :
    ∃ log, linesOf r m = .error f { m with log } := by
  rw [linesOf, h]
  exact ⟨_, rfl⟩

theorem ingest_inv (h : it.ingest load p m = .ok load' m') :
    ∃ now, (load.reader.feed (p.decode load.decoder).1).1.lines = .ok now ∧
      load' = { load with
        decoder := (p.decode load.decoder).2
        reader := (load.reader.feed (p.decode load.decoder).1).2
        lines := load.lines ++ now } := by
  obtain ⟨now, m₁, hlines, h⟩ := bind_eq_ok h
  obtain ⟨_, m₂, -, h⟩ := bind_eq_ok h
  obtain ⟨_, m₃, -, h⟩ := bind_eq_ok h
  cases h
  cases hnow : (load.reader.feed (p.decode load.decoder).1).1.lines with
  | ok ls =>
    obtain ⟨log, hls⟩ := linesOf_eq_ok hnow m
    cases hls.symm.trans hlines
    exact ⟨_, rfl, rfl⟩
  | error f =>
    obtain ⟨log, hls⟩ := linesOf_error hnow m
    cases hls.symm.trans hlines

/-- A piece that completes some lines leads to their notices and that of the progress. -/
theorem ingest_trace (hit : it.Detached leaves) (hintact : it.Intact)
    (hsrc : m.sources[load.source]? = some src) {now : List Line}
    (hnow : (load.reader.feed (p.decode load.decoder).1).1.lines = .ok now) :
    ∃ log streams load', it.ingest load p m = .ok load'
      { it.afterDeeds leaves m
          (modalThrough m.modal (now.map .line ++ [.progress src.consumed src.total]))
          (deedsOf m.modal (now.map .line ++ [.progress src.consumed src.total])) log
        with streams } := by
  obtain ⟨log, hlines⟩ := linesOf_eq_ok hnow m
  obtain ⟨log₁, streams₁, hgive⟩ := giveAll_trace hit hintact
    (now.map .line ++ [.progress src.consumed src.total]) { m with log }
  rw [giveAll_append, giveAll_lines] at hgive
  obtain ⟨_, m₁, hdeliver, hgive⟩ := bind_eq_ok hgive
  obtain ⟨_, m₂, hprogress, hend⟩ := bind_eq_ok hgive
  cases hend
  have hsrc₁ : m₁.sources[load.source]? = some src := by
    obtain ⟨log₂, streams₂, hlinesGiven⟩ := giveAll_trace hit hintact (now.map .line) { m with log }
    rw [giveAll_lines, hdeliver] at hlinesGiven
    cases hlinesGiven
    exact hsrc
  have hannounce := (announceProgress_eq hsrc₁).trans hprogress
  exact ⟨log₁, streams₁, _,
    (bind_ok hlines _).trans ((bind_ok hdeliver _).trans (bind_ok hannounce _))⟩

theorem announceFault_trace (hit : it.Detached leaves) (hintact : it.Intact) (f : Fault)
    (m : Machine) :
    ∃ log streams, it.announceFault f m =
      .ok () { it.afterDeeds leaves m m.modal [.notice .failed [.fault f]] log with streams } := by
  obtain ⟨heard, streams, hemit⟩ := emit_trace hit hintact .failed [.fault f]
    { m with log := m.log ++ [⟨.error, .loading, "G-code load failed: " ++ f.text⟩] }
  rw [announceFault, report, hintact.call_eq, log_bind, bind_ok hemit]
  exact ⟨_, streams, rfl⟩

/-- A load that fails announces it. -/
theorem failed_trace {α : Type} (hit : it.Detached leaves) (hintact : it.Intact)
    (hf : f.isLoad = true) (m : Machine) :
    ∃ log streams, (it.failed f : Act α) m =
      .error f { it.afterDeeds leaves m m.modal [.notice .failed [.fault f]] log with streams } := by
  obtain ⟨log, streams, hannounce⟩ := announceFault_trace hit hintact f m
  rw [failed_eq hannounce, if_pos hf]
  exact ⟨log, streams, rfl⟩

/-- A load reads some pieces, and then it fails: it cannot be read, or a piece holds a line that is
refused. -/
inductive FailsAfter (it : Interpreter) (f : Fault) : List Piece → Machine → Load → Prop
  | unread {m m' : Machine} {load : Load} : it.readOnce load.source m = .error f m' →
      f.kind ≠ .cancelled → FailsAfter it f [] m load
  | refused {m m' : Machine} {load : Load} {p : Piece} : it.readOnce load.source m = .ok p m' →
      p.length ≠ 0 → (load.reader.feed (p.decode load.decoder).1).1.lines = .error f →
      f.kind = .tokenize → FailsAfter it f [] m load
  | next {m m₁ m₂ : Machine} {load load' : Load} {p : Piece} {ps : List Piece} :
      it.readOnce load.source m = .ok p m₁ → p.length ≠ 0 → it.ingest load p m₁ = .ok load' m₂ →
      FailsAfter it f ps m₂ load' → FailsAfter it f (p :: ps) m load

theorem FailsAfter.isLoad {ps : List Piece} (h : it.FailsAfter f ps m load) : f.isLoad = true := by
  induction h with
  | unread hread hkind => exact (readOnce_error hread).2 hkind
  | refused _ _ _ hkind => rw [Fault.isLoad, hkind]; rfl
  | next _ _ _ _ ih => exact ih

/-- The lines that a load delivers before it fails are those that its pieces complete. -/
theorem FailsAfter.lines {ps : List Piece} (h : it.FailsAfter f ps m load) : ∀ {strict : Bool}
    {before : List Char} (total : Literal) (consumed : Nat), load.reader = .reached strict before →
    (Reading.ofLines strict 0 (cutLines before).1).lines = .ok load.lines →
    (Reading.ofLines strict 0 (cutLines (before ++ textOf load.decoder ps)).1).lines =
      .ok (load.lines ++ (chunkNotices strict total before load.decoder consumed ps).filterMap
        Notice.line?) := by
  induction h with
  | unread =>
    intro strict before total consumed _ hls
    rw [textOf, List.append_nil, hls]
    exact congrArg _ (List.append_nil _).symm
  | refused =>
    intro strict before total consumed _ hls
    rw [textOf, List.append_nil, hls]
    exact congrArg _ (List.append_nil _).symm
  | @next m m₁ m₂ load load' p ps _ _ hingest _ ih =>
    intro strict before total consumed hreader hls
    obtain ⟨now, hnow, rfl⟩ := ingest_inv hingest
    rw [hreader] at hnow
    obtain ⟨hdone, hreached⟩ := LineReader.feed_reached hnow
    have hls' : (Reading.ofLines strict 0 (cutLines (before ++ (p.decode load.decoder).1)).1).lines =
        .ok (load.lines ++ now) := by
      rw [cutLines_append]
      refine Reading.append_ok hls ?_
      rw [Nat.zero_add]
      exact hnow
    have hrest := ih total (consumed + p.length) (by rw [hreader]; exact hreached) hls'
    rw [textOf, ← List.append_assoc, hrest, chunkNotices, List.filterMap_append, List.filterMap_map,
      hdone]
    show _ = Except.ok (_ ++ (now.filterMap some ++ _))
    rw [List.filterMap_some, List.append_assoc]
    rfl

theorem afterDeeds_core {n : Machine} (h : m.core = n.core) (modal : String) (ds : List Deed)
    (log log' : List Log.Record) :
    (it.afterDeeds leaves m modal ds log).core = (it.afterDeeds leaves n modal ds log').core := by
  have hcore : ∀ (m : Machine) (log : List Log.Record), (it.afterDeeds leaves m modal ds log).core =
      (it.afterDeeds leaves m.core modal ds []).core := fun _ _ => rfl
  rw [hcore m, hcore n, h]

/-- Deeds that follow others on a machine with the core that those lead to. -/
theorem afterDeeds_core_append {modal : String} {ds : List Deed}
    (h : m'.core = (it.afterDeeds leaves m modal ds []).core) (modal' : String) (ds' : List Deed) :
    (it.afterDeeds leaves m' modal' ds' []).core =
      (it.afterDeeds leaves m modal' (ds ++ ds') []).core := by
  rw [afterDeeds_core h modal' ds' [] [], afterDeeds_append]

theorem modalThrough_append (ns ns' : List Notice) : ∀ modal : String,
    modalThrough modal (ns ++ ns') = modalThrough (modalThrough modal ns) ns' := by
  induction ns with
  | nil => intro modal; rfl
  | cons n ns ih => intro modal; exact ih (n.modalAfter modal)

/-- A load that fails has given the notices of its pieces and then that of the fault, and nothing
else. The induction is on the pieces: each of them is a read, which some turns lead to, and the
notices of what the piece completes. -/
theorem FailsAfter.trace (hit : it.Detached leaves) (hintact : it.Intact) {ps : List Piece}
    (h : it.FailsAfter f ps m load) : ∀ {src : Source} {strict : Bool} {before : List Char},
    m.sources[load.source]? = some src → load.source ∉ src.inner → m.queue = [] →
    load.reader = .reached strict before → ∀ limit : Nat, ∃ enough, ∀ fuel, enough ≤ fuel →
      ∃ m', it.playOn fuel (it.proceed limit load) m = .error f m' ∧
        m'.core = (it.afterDeeds leaves m
          (modalThrough m.modal (chunkNotices strict src.total before load.decoder src.consumed ps))
          (deedsOf m.modal (chunkNotices strict src.total before load.decoder src.consumed ps) ++
            [.notice .failed [.fault f]]) []).core := by
  -- what is left to do once the read or the piece has failed is to announce it
  have hends : ∀ {m : Machine} {load : Load} (m' : Machine) (limit : Nat), m.queue = [] → m'.core = m.core →
      f.isLoad = true → (∀ rest : Load ⊕ List Line → Act Turn,
        (take load.source it.chunkSize >>= fun data => it.receive load data >>= rest) m =
          .error f m') →
      ∃ enough, ∀ fuel, enough ≤ fuel → ∃ m'', it.playOn fuel (it.proceed limit load) m =
        .error f m'' ∧ m''.core =
          (it.afterDeeds leaves m m.modal [.notice .failed [.fault f]] []).core := by
    intro m load m' limit hq hcore hf hfails
    obtain ⟨turns, rest, -, hplay⟩ := playOn_read hq limit load
    refine ⟨turns, fun fuel hfuel => ?_⟩
    obtain ⟨fuel, rfl⟩ := Nat.exists_eq_add_of_le' hfuel
    obtain ⟨log, streams, hfailed⟩ := failed_trace (α := List Line) hit hintact hf m'
    have hmodal : m'.modal = m.modal := Machine.eq_of_core hcore _ fun _ => rfl
    rw [hplay, playOn_error fuel (hfails rest), hfailed, hmodal]
    exact ⟨_, rfl, afterDeeds_core hcore _ _ log []⟩
  induction h with
  | unread hread hkind =>
    intro src strict before _ _ hq _ limit
    obtain ⟨hcore, hf⟩ := readOnce_error hread
    refine hends _ limit hq hcore (hf hkind) fun rest => ?_
    rw [readOnce_receive, bind_error hread]
  | @refused m m₁ load p hread hlen hlines hkind =>
    intro src strict before hsrc hinner hq _ limit
    obtain ⟨hcore, -⟩ := readOnce_ok hsrc hinner hread
    obtain ⟨log, hrefused⟩ := linesOf_error hlines m₁
    have hingest : it.ingest load p m₁ = .error f { m₁ with log } := bind_error hrefused _
    have hf : f.isLoad = true := by rw [Fault.isLoad, hkind]; rfl
    refine hends { m₁ with log } limit hq hcore hf fun rest => ?_
    rw [readOnce_receive, bind_ok hread, if_neg hlen, bind_error (bind_error hingest _)]
  | @next m m₁ m₂ load load' p ps hread hlen hingest _ ih =>
    intro src strict before hsrc hinner hq hreader limit
    obtain ⟨hcore, hsrc₁⟩ := readOnce_ok hsrc hinner hread
    obtain ⟨now, hnow, rfl⟩ := ingest_inv hingest
    obtain ⟨log, streams, load₂, htrace⟩ := ingest_trace hit hintact hsrc₁ hnow
    rw [hreader] at hnow
    obtain ⟨rfl, hreached⟩ := LineReader.feed_reached hnow
    obtain ⟨ns, hns⟩ : ∃ ns : List Notice,
        ns = (linesCompleted strict before (p.decode load.decoder).1).map .line ++
          [.progress (src.consumed + p.length) src.total] := ⟨_, rfl⟩
    rw [← hns] at htrace
    cases htrace.symm.trans hingest
    obtain ⟨turns, rest, hgoes, hplay⟩ := playOn_read hq limit load
    obtain ⟨limit', hnext⟩ := hgoes _ _
    have hmodal : m₁.modal = m.modal := Machine.eq_of_core hcore _ fun _ => rfl
    have hq₁ : m₁.queue = [] := (Machine.eq_of_core hcore _ fun _ => rfl).trans hq
    obtain ⟨enough, hrun⟩ := ih hsrc₁ hinner hq₁ (by rw [hreader]; exact hreached) limit'
    refine ⟨enough + turns, fun fuel hfuel => ?_⟩
    obtain ⟨fuel, rfl⟩ : ∃ n, fuel = n + turns := ⟨fuel - turns, by omega⟩
    obtain ⟨m', hm', hcore'⟩ := hrun fuel (by omega)
    refine ⟨m', ?_, ?_⟩
    · rw [hplay, readOnce_receive, ← hm', ← playOn_congr fuel hnext]
      refine playOn_congr fuel ?_
      rw [bind_ok hread, if_neg hlen]
      have hon : (it.ingest load p >>= fun l => pure (.inl l) : Act (Load ⊕ List Line)) m₁ = _ :=
        bind_ok hingest _
      exact bind_ok hon rest
    · have hchunk : chunkNotices strict src.total before load.decoder src.consumed (p :: ps) =
          ns ++ chunkNotices strict src.total (before ++ (p.decode load.decoder).1)
            (p.decode load.decoder).2 (src.consumed + p.length) ps := by
        rw [hns, ← List.append_cons, chunkNotices]
      rw [hcore', hchunk, modalThrough_append, deedsOf_append, List.append_assoc, ← hmodal]
      exact afterDeeds_core_append
        (afterDeeds_core hcore (modalThrough m₁.modal ns) _ log _) _ _

end Interpreter

/-- The deeds of a load that reads some pieces and then fails. -/
def failureDeeds (m : Machine) (e : Encoding) (src : Source) (ps : List Piece) (f : Fault) :
    List Deed :=
  deedsOf m.modal (chunkNotices m.strict src.total [] { encoding := e } src.consumed ps) ++
    [.notice .failed [.fault f]]

/-- A load that could be prepared reads some pieces, and then it fails. -/
def Interpreter.Fails (it : Interpreter) (h : Handle) (total : Literal) (m : Machine)
    (ps : List Piece) (f : Fault) : Prop :=
  ∃ load m', it.prepare h total m = .ok load m' ∧ it.FailsAfter f ps m' load

/-- A load that fails ends with the fault and enters its deeds and nothing else, if host code
returns and leaves the interpreter alone; it may close the source. The lines it delivers are those
that the pieces before the failure complete. They are what the notices of data carry, in order, and
their commands are all that is carried out, the last of which is left as the modal command. The
progress is announced once for each piece, the fault once and last, and the end never. -/
theorem readStream_failure (it : Interpreter) (leaves : Manner) (hit : it.Detached leaves)
    (hintact : it.Intact) (e : Encoding) (he : encodingNamed it.encoding = .ok e) (m : Machine)
    (hq : m.queue = []) (h : Handle) (src : Source) (s : Stream) (hh : h.StandsFor m src s)
    (total : Literal) (ps : List Piece) (f : Fault) (hfails : it.Fails h total m ps f) :
    ∃ ls, (Reading.ofLines m.strict 0 (cutLines (textOf { encoding := e } ps)).1).lines = .ok ls ∧
      (∃ enough, ∀ fuel, enough ≤ fuel → ∃ m', it.readStream fuel h total m = .error f m' ∧
        m'.journal = (it.recordAll m.handlers leaves (m.registry, m.journal)
          (failureDeeds m e (src.withTotal total) ps f)).2 ∧
        m'.modal = ((Command.ofLines m.modal ls).getLast?.map (·.code)).getD m.modal) ∧
      (failureDeeds m e (src.withTotal total) ps f).filterMap Deed.command? =
        Command.ofLines m.modal ls ∧
      (failureDeeds m e (src.withTotal total) ps f).filterMap (Deed.payload? .data) =
        ls.map (fun l => [.line l]) ∧
      (failureDeeds m e (src.withTotal total) ps f).filterMap (Deed.payload? .progress) =
        (List.range ps.length).map (fun i =>
          [.progress (src.consumed + lengthOf (ps.take (i + 1))) (src.withTotal total).total]) ∧
      (failureDeeds m e (src.withTotal total) ps f).filterMap (Deed.payload? .failed) =
        [[.fault f]] ∧
      (failureDeeds m e (src.withTotal total) ps f).filterMap (Deed.payload? .ended) = [] := by
  obtain ⟨load, m₁, hprepare, hafter⟩ := hfails
  obtain ⟨i, m₂, hprepared, hcore, hm₁, hinner⟩ := Interpreter.prepare_eq hintact he hh total
  cases hprepared.symm.trans hprepare
  have hmodal : m₁.modal = m.modal := Machine.eq_of_core hcore _ fun _ => rfl
  have hq₁ : m₁.queue = [] := (Machine.eq_of_core hcore _ fun _ => rfl).trans hq
  have hlines : (Reading.ofLines m.strict 0 (cutLines (textOf { encoding := e } ps)).1).lines =
      .ok ((chunkNotices m.strict (src.withTotal total).total [] { encoding := e }
        src.consumed ps).filterMap Notice.line?) :=
    hafter.lines _ _ (LineReader.reached_nil m.strict).symm rfl
  refine ⟨_, hlines, ?_, ?_, ?_, ?_, ?_, ?_⟩
  · obtain ⟨limit, hbegin⟩ : ∃ limit, it.begin h total m = it.proceed limit
        { source := i, reader := { strict := m.strict }, decoder := { encoding := e },
          wait := .turns 0 } m₁ := by
      rw [Interpreter.begin_eq, bind_ok hprepared]
      exact Interpreter.goesOn_advanceRest _ m₁
    obtain ⟨enough, hrun⟩ := hafter.trace hit hintact hm₁.source hinner hq₁
      (LineReader.reached_nil m.strict).symm limit
    refine ⟨enough, fun fuel hfuel => ?_⟩
    obtain ⟨m', hm', hcore'⟩ := hrun fuel hfuel
    rw [Interpreter.afterDeeds_core hcore _ _ _ [], hmodal, Source.withTotal_consumed] at hcore'
    have hread : it.readStream fuel h total m = .error f m' := by
      have hplay := (Interpreter.playOn_congr fuel hbegin).trans hm'
      rw [Interpreter.readStream_eq, leaving_error hplay, Fault.leaving_of_isLoad hafter.isLoad]
    refine ⟨m', hread, ?_, ?_⟩
    · rw [failureDeeds, Source.withTotal_consumed]
      exact Machine.eq_of_core hcore' _ fun _ => rfl
    · rw [← Command.modalAfter_eq, ← (commands_deedsOf _ m.modal).2]
      exact Machine.eq_of_core hcore' (·.modal) fun _ => rfl
  · rw [failureDeeds, List.filterMap_append, (commands_deedsOf _ m.modal).1,
      Source.withTotal_consumed]
    exact List.append_nil _
  · rw [failureDeeds, List.filterMap_append, payloads_deedsOf, payloads_data,
      Source.withTotal_consumed]
    exact List.append_nil _
  · rw [failureDeeds, List.filterMap_append, payloads_deedsOf,
      payloads_chunkNotices (by decide), payloads_progress, Source.withTotal_consumed]
    exact List.append_nil _
  · rw [failureDeeds, List.filterMap_append, payloads_deedsOf, payloads_failed]
    rfl
  · rw [failureDeeds, List.filterMap_append, payloads_deedsOf, payloads_chunkNotices (by decide),
      payloads_ended]
    rfl

/-! ### A source that is closed on the way -/

/-- The listener of lines closes the source. -/
def curt : Interpreter where
  host := { Host.silent with
    listener := fun id _ =>
      if id = "shut" then modify fun m => m.updateStream 0 Stream.close else pure () }

/-- What handlers of `curt` leave: everything. -/
def curtLeaves : Manner := fun _ args _ => args

theorem detached_curt : curt.Detached curtLeaves where
  handler id args m := ⟨m.streams, rfl⟩
  method mt args := ⟨fun _ => args, fun m => ⟨m.streams, rfl⟩⟩
  listener id payload m := by
    by_cases hid : id = "shut"
    · refine ⟨m.streams.modify 0 Stream.close, ?_⟩
      show (if id = "shut" then _ else _ : Act Unit) m = _
      rw [if_pos hid]
      rfl
    · refine ⟨m.streams, ?_⟩
      show (if id = "shut" then _ else _ : Act Unit) m = _
      rw [if_neg hid]
      rfl
  harmless code name a h := by cases h

/-- A reader of one complete line, part of a second, and more. -/
def curtReader : Stream where
  supply := .chunks [.data (.text "G1 X1\nG0"), .data (.text " Y2\nM5\n")] none
  typeName := "Reader"

/-- A machine with the reader, a handler and listeners. -/
def curtStart : Machine where
  modal := "M3"
  handlers := ⟨[("G1", .callable "move"), ("G0", .callable "move")]⟩
  registry :=
    { data := [⟨0, "shut", false⟩], progress := [⟨1, "progress", false⟩],
      ended := [⟨2, "end", false⟩], failed := [⟨3, "error", false⟩] }
  streams := [curtReader]

/-- The machine when the load has been prepared. -/
def curtPrepared : Machine :=
  { curtStart with
    sources := [{ stream := 0, name := .text "Reader" }]
    log := [⟨.debug, .loading, "Loading G-code from Reader"⟩] }

/-- The load before its first read. -/
def curtLoad : Load where
  source := 0
  reader := { strict := false }
  decoder := { encoding := .utf8 }
  wait := .turns 0

/-- The line that the first piece completes. -/
def curtLine : Line := ⟨"G1 X1", [⟨"G", .int 1⟩, ⟨"X", .int 1⟩], none, none, some 1, none⟩

theorem fails_curt : curt.Fails (.stream 0) .null curtStart [.text "G1 X1\nG0".toList]
    (.readFailed "Reader" (.closed .reader)) := by
  have hprepare : curt.prepare (.stream 0) .null curtStart = .ok curtLoad curtPrepared := by
    have he : encodingNamed curt.encoding = .ok .utf8 := encodingNamed_standard
    unfold Interpreter.prepare
    rw [he]
    rfl
  have hlines : (LineReader.feed { strict := false } "G1 X1\nG0".toList).1 =
      ⟨.ok [curtLine], 1, []⟩ := rfl
  have hread : ∀ m, Interpreter.linesOf (LineReader.feed { strict := false } "G1 X1\nG0".toList).1 m =
      .ok [curtLine] { m with log := m.log ++ [] } := by
    intro m
    rw [hlines]
    rfl
  exact ⟨curtLoad, curtPrepared, hprepare,
    .next rfl (by decide) ((bind_ok (hread _) _).trans rfl) (.unread rfl nofun)⟩

/-- The listener of the first line closes the source. The line is carried out and the progress
announced, but the line that the first piece leaves incomplete is lost. -/
theorem readStream_failure_curt :
    ∃ enough, ∀ fuel, enough ≤ fuel → ∃ m',
      curt.readStream fuel (.stream 0) .null curtStart =
        .error (.readFailed "Reader" (.closed .reader)) m' ∧
      m'.journal =
        [.listener "shut" [.line curtLine], .handler "move" ⟨[("X", .int 1)]⟩,
         .listener "progress" [.progress 8 .null],
         .listener "error" [.fault (.readFailed "Reader" (.closed .reader))]] ∧
      m'.modal = "G1" := by
  have hintact : curt.Intact := by
    intro op
    cases op <;> rfl
  obtain ⟨ls, hls, ⟨enough, hrun⟩, -⟩ := readStream_failure curt curtLeaves detached_curt hintact
    .utf8 encodingNamed_standard curtStart rfl (.stream 0) _ curtReader (.stream rfl) .null _ _
    fails_curt
  refine ⟨enough, fun fuel hfuel => ?_⟩
  obtain ⟨m', hm', hjournal, hmodal⟩ := hrun fuel hfuel
  refine ⟨m', hm', hjournal, hmodal.trans ?_⟩
  have hlines : ls = [curtLine] := by
    refine Except.ok.inj (hls.symm.trans ?_)
    rfl
  rw [hlines]
  rfl

end Gcode
