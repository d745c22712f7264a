import Gcode.Proofs.Invariants
import Gcode.Proofs.Notices

/-!
Loading chunk by chunk and loading at once agree. A load gives notices that nobody hears as long as
nobody is registered; what is left of it is that lines are carried out in order, which is also what
loading at once does. The text is the same too, because the decoder takes bytes in pieces cut
anywhere. Main statement: whichever way a document without faults is loaded, the same comes of it
(`readStream_agrees`).
-/

namespace Gcode

open Act
open Gcode.Text

/-- Two actions agree on a machine: they have the same value or the same fault, the same calls of
host code, and the same modal command after them. -/
structure Act.AgreesWith {α : Type} (a b : Act α) (m : Machine) : Prop where
  outcome : a.outcome m = b.outcome m
  journal : (a.after m).journal = (b.after m).journal
  modal : (a.after m).modal = (b.after m).modal

theorem Act.agreesWith_of_seen {α : Type} {a b : Act α} {m : Machine} (h : a.seen m = b.seen m) :
    a.AgreesWith b m := by
  obtain ⟨houtcome, hcore⟩ := Prod.mk.inj h
  exact ⟨houtcome, Machine.eq_of_core hcore _ fun _ => rfl, Machine.eq_of_core hcore _ fun _ => rfl⟩

/-! ### Documents of one kind -/

/-- Bytes in pieces decode to what they decode to together. -/
theorem documentOf_bytes (d : Decoder) (cs : List Bytes) :
    documentOf d (cs.map .bytes) = (d.feed cs.flatten).1 ++ (d.feed cs.flatten).2.finish := by
  induction cs generalizing d with
  | nil => rfl
  | cons c cs ih =>
    rw [List.map_cons, documentOf, Piece.decode, ih, List.flatten_cons, Decoder.feed_append,
      List.append_assoc]

/-- Text passes the decoder by. -/
theorem documentOf_text (d : Decoder) (cs : List (List Char)) :
    documentOf d (cs.map .text) = cs.flatten ++ d.finish := by
  induction cs generalizing d with
  | nil => rfl
  | cons c cs ih =>
    rw [List.map_cons, documentOf, Piece.decode, ih, List.flatten_cons, List.append_assoc]

/-! ### Nobody listens -/

/-- Nobody is registered for anything. -/
def Registry.Silent (r : Registry) : Prop := ∀ e, r.of e = []

namespace Interpreter

variable {it : Interpreter} {m : Machine}

theorem emit_silent (hintact : it.Intact) (hm : m.registry.Silent) (e : Event)
    (payload : List Payload) : it.emit e payload m = .ok false m := by
  rw [emit, hintact.call_eq, hintact.call_eq, notify, get_bind, hm e]
  rfl

/-- Notices that nobody hears leave nothing to do but to carry out their lines. The index of a line
matters only to a callback. -/
theorem giveAll_silent (hintact : it.Intact) (hkeeps : it.Keeps (·.registry.Silent)) :
    ∀ (ns : List Notice) (index : Nat) {m : Machine}, m.registry.Silent →
      it.giveAll ns m = it.runLines none index (ns.filterMap Notice.line?) m
  | [], _, _, _ => rfl
  | .line l :: ns, index, m, hm => by
    rw [giveAll, give, deliver, deliver, hintact.call_eq]
    simp only [bind_assoc, pure_bind]
    rw [bind_ok (emit_silent hintact hm _ _)]
    show _ = (it.interpret l.words >>= fun _ =>
      it.runLines none (index + 1) (ns.filterMap Notice.line?)) m
    cases h : it.interpret l.words m with
    | error f m' => rw [bind_error h, bind_error h]
    | ok cs m' =>
      rw [bind_ok h, bind_ok h]
      exact giveAll_silent hintact hkeeps ns _ ((keeps_interpret hkeeps l.words).of_ok h hm)
  | .progress consumed total :: ns, index, m, hm => by
    rw [giveAll, give, bind_assoc, bind_ok (emit_silent hintact hm _ _), pure_bind]
    exact giveAll_silent hintact hkeeps ns index hm
  | .ended ls :: ns, index, m, hm => by
    rw [giveAll, give, bind_assoc, bind_ok (emit_silent hintact hm _ _), pure_bind]
    exact giveAll_silent hintact hkeeps ns index hm

theorem keeps_runLines {P : Machine → Prop} (h : it.Keeps P) : ∀ (ls : List Line) (index : Nat),
    (it.runLines none index ls).Keeps P
  | [], _ => keeps_pure _
  | l :: ls, _ =>
    (keeps_interpret h l.words).bind fun _ => (keeps_pure _).bind fun _ => keeps_runLines h ls _

theorem contained_runLines (hit : it.Contained) : ∀ (ls : List Line) (index : Nat),
    (it.runLines none index ls).Contained
  | [], _ => contained_pure _
  | l :: ls, _ =>
    (contained_interpret hit l.words).bind fun _ => (contained_pure _).bind fun _ =>
      contained_runLines hit ls _

/-- If nobody listens, a fault that ends a load is only logged. -/
theorem seen_failed_silent (hintact : it.Intact) (hm : m.registry.Silent) {α : Type} (f : Fault) :
    (it.failed f : Act α).seen m = (.error f, m.core) := by
  have hannounce : ∃ log, it.announceFault f m = .ok () { m with log } := by
    rw [announceFault, report, hintact.call_eq]
    exact ⟨_, bind_ok (emit_silent hintact (m := { m with log := m.log ++ [_] }) hm _ _) _⟩
  by_cases hf : f.isLoad = true
  · obtain ⟨log, hannounce⟩ := hannounce
    simp only [failed, hf, if_true]
    rw [seen_bind_ok hannounce]
    rfl
  · simp only [failed, hf]
    rfl

theorem seen_succeeded_silent (hintact : it.Intact) (hm : m.registry.Silent) (ls : List Line) :
    (it.succeeded ls).seen m = (.ok ls, m.core) := by
  have hlog : ∃ log, logLoaded ls.length m = .ok () { m with log } := ⟨_, rfl⟩
  obtain ⟨log, hlog⟩ := hlog
  rw [succeeded, seen_bind_ok hlog, seen_bind_ok (emit_silent hintact (m := { m with log }) hm _ _)]
  rfl

/-- If nobody listens, announcing the end of a load adds nothing that shows. -/
theorem seen_concluded_silent (hintact : it.Intact) {load : Act (List Line)}
    (hm : (load.after m).registry.Silent) : (it.concluded load).seen m = load.seen m := by
  cases h : load m with
  | error f m' =>
    rw [after, h] at hm
    rw [seen_congr (concluded_error h), seen_failed_silent hintact hm, seen_error h]
  | ok ls m' =>
    rw [after, h] at hm
    rw [seen_congr (concluded_ok h), seen_succeeded_silent hintact hm, seen_ok h]

/-! ### Loading at once -/

/-- Loading a text at once shows what carrying out its lines shows. -/
theorem seen_loadText (hit : it.Contained) (hintact : it.Intact) {text : List Char} {ls : List Line}
    (hls : (LineReader.program { strict := m.strict } text).1.lines = .ok ls) :
    (it.loadText text none).seen m = (it.runLines none 0 ls >>= fun _ => pure ls).seen m := by
  rw [loadText, hintact.call_eq]
  obtain ⟨log, hlines⟩ := linesOf_eq_ok hls m
  show (linesOf (LineReader.program { strict := m.strict } text).1 >>= fun lines =>
    it.runLines none 0 lines >>= fun _ => logLoaded lines.length >>= fun _ => pure lines).seen m = _
  rw [seen_bind_ok hlines]
  refine seen_bind ((contained_runLines hit ls 0).seen_eq rfl) fun _ m' n' _ _ hcore => ?_
  exact Prod.ext rfl hcore

theorem contained_loadText (hit : it.Contained) (text : List Char) :
    (it.loadText text none).Contained := by
  refine contained_call (contained_get (fun m => ?_) fun m n h => ?_)
  · exact (contained_linesOf _).bind fun ls => (contained_runLines hit ls 0).bind fun _ =>
      (contained_logLoaded _).bind fun _ => contained_pure _
  · have hm : m.strict = n.strict := Machine.eq_of_core h _ fun _ => rfl
    simp only [hm]

theorem loadString_bytes (hintact : it.Intact) {e : Encoding}
    (he : encodingNamed it.encoding = .ok e) (d : Bytes) (callback : Option String) :
    it.loadString (.bytes d) callback = it.loadText (e.decode d) callback := by
  rw [loadString, hintact.call_eq, decodeAll, he]
  rfl

theorem loadString_text (hintact : it.Intact) (s : String) (callback : Option String) :
    it.loadString (.text s) callback = it.loadText s.toList callback := by
  rw [loadString, hintact.call_eq]

/-! ### Chunk by chunk and at once -/

/-- Loading what a stream yields shows what loading its text at once shows. -/
theorem seen_readStream_silent (hit : it.Contained) (hintact : it.Intact)
    (hkeeps : it.Keeps (·.registry.Silent)) {e : Encoding}
    (he : encodingNamed it.encoding = .ok e) (hq : m.queue = []) (hm : m.registry.Silent)
    {h : Handle} {src : Source} {s : Stream} (hh : h.StandsFor m src s) {ps : List Piece}
    (hyields : s.Yields it.chunkSize ps) {text : List Char}
    (htext : documentOf { encoding := e } ps = text)
    (hls : ∃ ls, (LineReader.program { strict := m.strict } text).1.lines = .ok ls)
    (total : Literal) {fuel : Nat} (hfuel : (s.left + 1) * s.turnsPerRead ≤ fuel) :
    (it.readStream fuel h total).seen m = (it.loadText text none).leaving.seen m := by
  subst htext
  obtain ⟨ls, hls⟩ := hls
  have hlines : (noticesFrom m.strict (src.withTotal total).total [] { encoding := e } src.consumed
      ps).filterMap Notice.line? = ls := by
    rw [← readingOfRest_nil] at hls
    exact lines_noticesFrom hls
  have hgive := giveAll_silent hintact hkeeps (noticesFrom m.strict (src.withTotal total).total []
    { encoding := e } src.consumed ps) 0 hm
  rw [hlines] at hgive
  rw [seen_readStream hit hintact he hq hh hyields hls total hfuel,
    seen_leaving (seen_loadText hit hintact hls),
    seen_congr (leaving_congr (concluded_congr (bind_congr_left hgive _)))]
  exact seen_leaving (seen_concluded_silent hintact
    (((keeps_runLines hkeeps ls 0).bind fun _ => keeps_pure _) m hm))

end Interpreter

/-! ### Files -/

/-- A path leads to a file with the given bytes. -/
def Disk.Holds (disk : Disk) (path : Literal) (d : Bytes) : Prop :=
  ∃ p, Path.ofLiteral path = .ok p ∧ p.toBytes.contains 0 = false ∧ disk.read p.toBytes = .ok d

theorem Disk.openPath_eq {disk : Disk} {p : Path} {d : Bytes} (hnul : p.toBytes.contains 0 = false)
    (hread : disk.read p.toBytes = .ok d) (refuse : FileFault → Fault) :
    disk.openPath p refuse = .ok d := by
  rw [openPath, hnul, hread]
  rfl

theorem Disk.Holds.readText {disk : Disk} {path : Literal} {d : Bytes} (h : disk.Holds path d)
    {encoding : String} {e : Encoding} (he : encodingNamed encoding = .ok e) :
    disk.readText path encoding = .ok (e.decode d) := by
  obtain ⟨p, hp, hnul, hread⟩ := h
  have hsystem : encoding ≠ systemEncodingName := by
    rintro rfl
    have hnone : Encoding.ofName? systemEncodingName = none := by decide +kernel
    rw [encodingNamed, hnone] at he
    split at he <;> cases he
  rw [Disk.readText, hp, if_neg hsystem, he]
  simp only [bind, Except.bind, openPath_eq hnul hread]
  rfl

namespace Interpreter

variable {it : Interpreter} {m : Machine}

theorem loadFile_eq (hintact : it.Intact) {e : Encoding} (he : encodingNamed it.encoding = .ok e)
    {path : Literal} {d : Bytes} (h : it.disk.Holds path d) (callback : Option String) :
    it.loadFile path callback = it.loadText (e.decode d) callback := by
  rw [loadFile, hintact.call_eq, h.readText he]
  rfl

/-- A file that is there is opened as a stream of its own. -/
theorem openFile_adds {path : Literal} {d : Bytes} (h : it.disk.Holds path d) (m : Machine) :
    ∃ name log, it.openFile path m =
      addStreamSource (Stream.ofFile d) (.int d.length) name { m with log } := by
  obtain ⟨p, hp, hnul, hread⟩ := h
  refine ⟨.text p.label, ?_⟩
  rw [openFile, hp]
  show ∃ log, (Act.ofExcept (it.disk.openPath p (.cannotOpen p.label p.shown)) >>= _) m = _
  rw [Disk.openPath_eq hnul hread]
  exact ⟨_, rfl⟩

/-- An open file is a source of its own. -/
theorem openFile_eq {path : Literal} {d : Bytes} (h : it.disk.Holds path d) (m : Machine) :
    ∃ i src m', it.openFile path m = .ok i m' ∧ m'.core = m.core ∧
      (Handle.source i).StandsFor m' src (Stream.ofFile d) := by
  obtain ⟨name, log, hopened⟩ := openFile_adds h m
  have hstream : ({ m with log }.addStream (Stream.ofFile d)).streams[m.streams.length]? =
      some (Stream.ofFile d) := List.getElem?_concat_length
  exact ⟨_, _, _, hopened.trans (wrapStream_eq hstream _ _), rfl,
    .source (Machine.Reads.addSource hstream) fun _ hj => by cases hj⟩

/-- Reading an open file shows what loading its text at once shows. -/
theorem seen_openFile_silent (hit : it.Contained) (hintact : it.Intact)
    (hkeeps : it.Keeps (·.registry.Silent)) {e : Encoding}
    (he : encodingNamed it.encoding = .ok e) (hq : m.queue = []) (hm : m.registry.Silent)
    {path : Literal} {d : Bytes} (hd : it.disk.Holds path d) (hsize : 0 < it.chunkSize)
    (hopen : (Stream.ofFile d).refusal? it.chunkSize = none)
    (hls : ∃ ls, (LineReader.program { strict := m.strict } (e.decode d)).1.lines = .ok ls)
    (total : Literal) {fuel : Nat} (hfuel : d.length + 1 ≤ fuel) :
    (it.openFile path >>= fun i => it.readStream fuel (.source i) total).seen m =
      (it.loadText (e.decode d) none).leaving.seen m := by
  obtain ⟨i, src, m', hfile, hcore, hh⟩ := openFile_eq hd m
  obtain ⟨cs, hyields, rfl⟩ := Stream.yields_file hsize d rfl hopen
  have hstrict : m'.strict = m.strict := Machine.eq_of_core hcore _ fun _ => rfl
  have hregistry : m'.registry = m.registry := Machine.eq_of_core hcore _ fun _ => rfl
  have hqueue : m'.queue = m.queue := Machine.eq_of_core hcore _ fun _ => rfl
  rw [← hqueue] at hq
  rw [← hregistry] at hm
  rw [← hstrict] at hls
  -- a file is read in one turn each time
  have hturns : ((Stream.ofFile cs.flatten).left + 1) * (Stream.ofFile cs.flatten).turnsPerRead ≤
      fuel := by
    show (cs.flatten.length + 1) * 1 ≤ fuel
    rwa [Nat.mul_one]
  rw [seen_bind_ok hfile, seen_readStream_silent hit hintact hkeeps he hq hm hh hyields
    (documentOf_bytes _ cs) hls total hturns]
  exact seen_leaving ((contained_loadText hit _).seen_eq hcore)

end Interpreter

/-- Loading a document chunk by chunk and loading it at once agree, whatever host code does to
arguments and to the modal command, and also if it fails, up to how a fault leaves what gives up its
turn: bytes or text in pieces that any stream yields, and a file in reads of any size that a file
does not refuse. -/
theorem readStream_agrees (it : Interpreter) (m : Machine) (e : Encoding) (hit : it.Contained)
    (hintact : it.Intact) (hkeeps : it.Keeps (·.registry.Silent))
    (he : encodingNamed it.encoding = .ok e) (hq : m.queue = []) (hm : m.registry.Silent) :
    (∀ (cs : List Bytes) (h : Handle) (src : Source) (s : Stream) (total : Literal),
      h.StandsFor m src s → s.Yields it.chunkSize (cs.map .bytes) →
      (∃ ls, (LineReader.program { strict := m.strict } (e.decode cs.flatten)).1.lines = .ok ls) →
      ∃ enough, ∀ fuel, enough ≤ fuel →
        (it.readStream fuel h total).AgreesWith
          (it.loadString (.bytes cs.flatten) none).leaving m) ∧
    (∀ (cs : List (List Char)) (h : Handle) (src : Source) (s : Stream) (total : Literal),
      h.StandsFor m src s → s.Yields it.chunkSize (cs.map .text) →
      (∃ ls, (LineReader.program { strict := m.strict } cs.flatten).1.lines = .ok ls) →
      ∃ enough, ∀ fuel, enough ≤ fuel →
        (it.readStream fuel h total).AgreesWith
          (it.loadString (.text (String.ofList cs.flatten)) none).leaving m) ∧
    (∀ (path : Literal) (d : Bytes) (total : Literal), it.disk.Holds path d → 0 < it.chunkSize →
      (Stream.ofFile d).refusal? it.chunkSize = none →
      (∃ ls, (LineReader.program { strict := m.strict } (e.decode d)).1.lines = .ok ls) →
      (it.loadFile path none).AgreesWith (it.loadString (.bytes d) none) m ∧
      ∃ enough, ∀ fuel, enough ≤ fuel →
        (it.openFile path >>= fun i => it.readStream fuel (.source i) total).AgreesWith
          (it.loadFile path none).leaving m) := by
  refine ⟨?_, ?_, ?_⟩
  · intro cs h src s total hh hyields hls
    refine ⟨(s.left + 1) * s.turnsPerRead, fun fuel hfuel => agreesWith_of_seen ?_⟩
    rw [Interpreter.loadString_bytes hintact he]
    exact Interpreter.seen_readStream_silent hit hintact hkeeps he hq hm hh hyields
      (documentOf_bytes _ cs) hls total hfuel
  · intro cs h src s total hh hyields hls
    have htext : documentOf { encoding := e } (cs.map .text) = cs.flatten := by
      rw [documentOf_text]
      exact List.append_nil _
    refine ⟨(s.left + 1) * s.turnsPerRead, fun fuel hfuel => agreesWith_of_seen ?_⟩
    rw [Interpreter.loadString_text hintact, String.toList_ofList]
    exact Interpreter.seen_readStream_silent hit hintact hkeeps he hq hm hh hyields htext hls total
      hfuel
  · intro path d total hd hsize hopen hls
    rw [Interpreter.loadString_bytes hintact he, Interpreter.loadFile_eq hintact he hd]
    refine ⟨⟨rfl, rfl, rfl⟩, d.length + 1, fun fuel hfuel => agreesWith_of_seen ?_⟩
    exact Interpreter.seen_openFile_silent hit hintact hkeeps he hq hm hd hsize hopen hls total
      hfuel

/-! ### An interpreter with host code that interferes -/

/-- The bytes of two lines, `G1 X1` and `G1 Y2`, in two pieces that cut the line break. -/
def moodyPieces : List Bytes :=
  [[0x47, 0x31, 0x20, 0x58, 0x31, 0x0D], [0x0A, 0x47, 0x31, 0x20, 0x59, 0x32]]

/-- Handlers drop `X` and forget the modal command, and methods fail over `Y`. -/
def moody : Interpreter where
  chunkSize := 3
  disk := { files := [([[0x61]], moodyPieces.flatten)] }
  dialect := { table := ⟨[("G1", "G1")]⟩, attributes := ⟨[("G1", .method ⟨"Moody", "G1", none⟩)]⟩ }
  host := { Host.silent with
    handler := fun _ args => do
      Interpreter.reset
      pure (args.erase "X")
    method := fun _ args =>
      if args.names.contains "Y" then throw (.raised .value "Y" none) else pure args }

/-- Two readers of the same document, one of which waits. -/
def moodyStart : Machine where
  modal := "G0"
  handlers := ⟨[("G1", .callable "forget")]⟩
  streams :=
    [{ supply := .chunks (moodyPieces.map fun b => .data (.bytes b)) (some 1),
       typeName := "AsyncReader" },
     { supply := .chunks [.data (.text "G1 X1\r"), .data (.text "\nG1 Y2")] none,
       typeName := "Reader" }]

theorem moody_operation {code name : String} {op : Operation}
    (h : moody.dialect.attribute? code = some (name, .operation op)) : False := by
  rw [Dialect.attribute?] at h
  by_cases hc : "G1" = code
  · subst hc
    cases h
  · have hnone : moody.dialect.table.get? code = none := by simp [moody, Table.get?, hc]
    rw [hnone] at h
    cases h

theorem contained_moody : moody.Contained where
  handler _ _ := by
    have hreset : Interpreter.reset.Contained := by
      refine contained_modify (fun m n h => ?_) fun _ => rfl
      show { m.core with modal := "" } = _
      rw [h]; rfl
    exact hreset.bind fun _ => contained_pure _
  method _ args := by
    show (if args.names.contains "Y" then _ else _ : Act Args).Contained
    split
    · exact contained_throw _
    · exact contained_pure _
  listener _ _ := contained_pure _
  answer _ _ _ h := (moody_operation h).elim

theorem keeps_moody : moody.Keeps (·.registry.Silent) where
  log _ _ h := h
  journal _ _ h := h
  modal _ _ h := h
  handler _ _ := fun _ h => h
  method _ args := by
    show (if args.names.contains "Y" then _ else _ : Act Args).Keeps _
    split
    · exact keeps_throw _
    · exact keeps_pure _
  answer _ _ _ h := (moody_operation h).elim

theorem readStream_agrees_moody :
    (∃ enough, ∀ fuel, enough ≤ fuel →
      (moody.readStream fuel (.stream 0) .null).AgreesWith
        (moody.loadString (.bytes moodyPieces.flatten) none).leaving moodyStart) ∧
    (∃ enough, ∀ fuel, enough ≤ fuel →
      (moody.readStream fuel (.stream 1) .null).AgreesWith
        (moody.loadString (.text "G1 X1\r\nG1 Y2") none).leaving moodyStart) ∧
    (moody.loadFile (.bytes [0x61]) none).AgreesWith
      (moody.loadString (.bytes moodyPieces.flatten) none) moodyStart ∧
    (∃ enough, ∀ fuel, enough ≤ fuel →
      (moody.openFile (.bytes [0x61]) >>= fun i =>
        moody.readStream fuel (.source i) .null).AgreesWith
          (moody.loadFile (.bytes [0x61]) none).leaving moodyStart) := by
  have hintact : moody.Intact := by
    intro op
    cases op <;> rfl
  have he : encodingNamed moody.encoding = .ok .utf8 :=
    encodingNamed_known (by decide +kernel) (by decide +kernel)
  have hm : moodyStart.registry.Silent := by
    intro e
    cases e <;> rfl
  have hheld : moody.disk.Holds (.bytes [0x61]) moodyPieces.flatten :=
    ⟨.bytes [0x61], rfl, rfl, rfl⟩
  obtain ⟨hbytes, htext, hfile⟩ := readStream_agrees moody moodyStart .utf8 contained_moody hintact
    keeps_moody he rfl hm
  have hlines : ∃ ls, (LineReader.program { strict := moodyStart.strict }
      (Encoding.utf8.decode moodyPieces.flatten)).1.lines = .ok ls :=
    ⟨[⟨"G1 X1", [⟨"G", .int 1⟩, ⟨"X", .int 1⟩], none, none, some 1, none⟩,
      ⟨"G1 Y2", [⟨"G", .int 1⟩, ⟨"Y", .int 2⟩], none, none, some 2, none⟩], rfl⟩
  obtain ⟨hsync, hstream⟩ := hfile (.bytes [0x61]) moodyPieces.flatten .null hheld (by decide) rfl
    hlines
  refine ⟨?_, ?_, hsync, hstream⟩
  · exact hbytes moodyPieces (.stream 0) _ _ .null (.stream rfl)
      (Stream.yields_reader 3 (by decide) rfl rfl) hlines
  · have hyields : Stream.Yields moody.chunkSize
        { supply := .chunks [.data (.text "G1 X1\r"), .data (.text "\nG1 Y2")] none,
          typeName := "Reader" } (["G1 X1\r".toList, "\nG1 Y2".toList].map .text) :=
      Stream.yields_reader 3 (by decide) rfl rfl
    exact htext ["G1 X1\r".toList, "\nG1 Y2".toList] (.stream 1) _ _ .null (.stream rfl) hyields
      hlines

/-! ### Where chunk by chunk and at once differ -/

/-- Reads ask for more than a size can say. -/
def greedy : Interpreter where
  chunkSize := 9223372036854775808
  disk := { files := [([[0x61]], [0x47, 0x31])] }

/-- The encoding is not known, which matters only to what decodes. -/
def estranged : Interpreter where
  encoding := "nope"

/-- A handler says that an iteration is at its end. -/
def spent : Interpreter where
  host := { Host.silent with handler := fun _ _ => throw (.exhausted "") }

/-- A file is loaded at once, but not by reads that it refuses; a text is loaded at once, but not
chunk by chunk, if the encoding is not known; and the end of an iteration is another fault once it
has left what gives up its turn. -/
theorem readStream_disagrees :
    ((greedy.loadFile (.bytes [0x61]) none).outcome {} =
        .ok [⟨"G1", [⟨"G", .int 1⟩], none, none, some 1, none⟩] ∧
      ∀ fuel, (greedy.openFile (.bytes [0x61]) >>= fun i =>
        greedy.readStream fuel (.source i) .null).outcome {} =
          .error (.readFailed "b'a'" .sizeOutOfRange)) ∧
    ((estranged.loadString (.text "G1") none).outcome {} =
        .ok [⟨"G1", [⟨"G", .int 1⟩], none, none, some 1, none⟩] ∧
      ∀ fuel, (estranged.readStream fuel (.stream 0) .null).outcome
        { streams := [{ supply := .chunks [.data (.text "G1")] none, typeName := "Reader" }] } =
          .error (.unknownEncoding "nope")) ∧
    ((spent.loadString (.text "G1\n") none).outcome { handlers := ⟨[("G1", .callable "next")]⟩ } =
        .error (.exhausted "") ∧
      ∀ fuel, (spent.readStream fuel (.stream 0) .null).outcome
        { handlers := ⟨[("G1", .callable "next")]⟩
          streams := [
            { supply := .chunks [.data (.text "G1\n")] (some 0), typeName := "Reader" }] } =
          .error (.raised .runtime "coroutine raised StopIteration" none)) := by
  have hgreedy : encodingNamed greedy.encoding = .ok .utf8 :=
    encodingNamed_known (by decide +kernel) (by decide +kernel)
  have hestranged : encodingNamed estranged.encoding = .error (.unknownEncoding "nope") :=
    encodingNamed_unknown (by decide +kernel) (by decide +kernel)
  have hspent : encodingNamed spent.encoding = .ok .utf8 :=
    encodingNamed_known (by decide +kernel) (by decide +kernel)
  refine ⟨⟨?_, fun fuel => ?_⟩, ⟨rfl, fun fuel => ?_⟩, rfl, fun fuel => ?_⟩
  · rw [Interpreter.loadFile_eq (fun _ => rfl) hgreedy ⟨.bytes [0x61], rfl, rfl, rfl⟩]
    rfl
  · unfold Interpreter.readStream Interpreter.begin Interpreter.proceed
    simp only [hgreedy]
    rfl
  · simp only [Interpreter.readStream, Interpreter.begin, hestranged]
    rfl
  · unfold Interpreter.readStream Interpreter.begin Interpreter.proceed
    simp only [hspent]
    rfl

end Gcode
