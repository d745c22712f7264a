import Gcode.Proofs.Containment

/-!
Reading a source once. A read takes data from the stream of the source and changes nothing but that
stream; accepting the data changes nothing but the counts of the sources that it passes. A read that
gives data leaves less to read, which is why every load comes to an end.
-/

namespace Gcode

open Gcode.Text

/-! ### Streams -/

/-- How much a stream has left: characters, bytes or chunks. -/
def Stream.left (s : Stream) : Nat :=
  match s.supply with
  | .text rest => rest.length
  | .bytes rest | .file rest => rest.length
  | .chunks rest _ => rest.length

/-- The data that gives a piece. -/
def Piece.toLiteral : Piece → Literal
  | .text s => .text (String.ofList s)
  | .bytes b => .bytes b

theorem Piece.ofLiteral?_toLiteral (p : Piece) : ofLiteral? p.toLiteral = some p := by
  cases p <;> simp [toLiteral, ofLiteral?]

namespace Stream

theorem portion_append {α : Type} (size : Int) (xs : List α) :
    (portion size xs).1 ++ (portion size xs).2 = xs := by
  rw [portion]
  split
  · exact List.append_nil xs
  · exact List.take_append_drop ..

/-- A portion that is not empty leaves less than there was. -/
theorem portion_lt {α : Type} {size : Int} {xs : List α} (h : (portion size xs).1.length ≠ 0) :
    (portion size xs).2.length < xs.length := by
  have hsum := congrArg List.length (portion_append size xs)
  rw [List.length_append] at hsum
  omega

theorem read_waits (s : Stream) (size : Int) : (s.read size).2.waits = s.waits := by
  rw [read]
  dsimp only
  split
  · rfl
  · cases hs : s.supply with
    | chunks rest waits => rcases rest with _ | ⟨x | f, rest⟩ <;> simp [Stream.waits, draw, hs]
    | _ => simp [Stream.waits, draw, hs]

/-- A read that gives data leaves less than there was. -/
theorem left_lt_of_read {s s' : Stream} {size : Int} {x : Literal} {p : Piece}
    (hread : s.read size = (.ok x, s')) (hp : Piece.ofLiteral? x = some p) (hlen : p.length ≠ 0) :
    s'.left < s.left := by
  rw [read] at hread
  dsimp only at hread
  split at hread
  · simp at hread
  · rw [left.eq_def s]
    cases hs : s.supply with
    | text rest =>
      simp only [draw, hs, Prod.mk.injEq, Except.ok.injEq] at hread
      obtain ⟨rfl, rfl⟩ := hread
      simp only [Piece.ofLiteral?, Option.some.injEq, String.toList_ofList] at hp
      subst hp
      exact portion_lt hlen
    | bytes rest | file rest =>
      simp only [draw, hs, Prod.mk.injEq, Except.ok.injEq] at hread
      obtain ⟨rfl, rfl⟩ := hread
      cases hp
      exact portion_lt hlen
    | chunks rest waits =>
      rcases rest with _ | ⟨y | f, rest⟩
      · -- a reader without chunks gives no data
        simp only [draw, hs, Prod.mk.injEq, Except.ok.injEq] at hread
        obtain ⟨rfl, rfl⟩ := hread
        cases hp
        exact absurd rfl hlen
      · simp only [draw, hs, Prod.mk.injEq, Except.ok.injEq] at hread
        obtain ⟨rfl, rfl⟩ := hread
        exact Nat.lt_succ_self _
      · simp [draw, hs] at hread

/-- No read leaves more than there was. -/
theorem left_read_le (s : Stream) (size : Int) : (s.read size).2.left ≤ s.left := by
  have hportion : ∀ {α : Type} (xs : List α), (portion size xs).2.length ≤ xs.length := by
    intro α xs
    have hsum := congrArg List.length (portion_append size xs)
    rw [List.length_append] at hsum
    omega
  rw [read]
  dsimp only
  split
  · exact Nat.le_refl _
  · rw [left.eq_def s]
    cases hs : s.supply with
    | text rest => exact hportion rest
    | bytes rest | file rest => exact hportion rest
    | chunks rest waits =>
      rcases rest with _ | ⟨x | f, rest⟩
      · exact Nat.le_refl _
      · exact Nat.le_succ _
      · exact Nat.le_succ _

/-- A reader is read in one turn as often as it has chunks, and once more. -/
theorem left_lt_chunkCount {s : Stream} {w : Nat} (h : s.waits = some w) :
    s.left < s.chunkCount + 1 := by
  cases hs : s.supply with
  | chunks rest waits => simp [left, chunkCount, hs]
  | _ => simp [Stream.waits, hs] at h

/-! ### What the reads of a stream give -/

/-- The pieces that the reads of a stream give, up to the first that is empty. -/
inductive Yields (size : Int) : Stream → List Piece → Prop
  | done {s s' : Stream} {x : Literal} {p : Piece} : s.read size = (.ok x, s') →
      Piece.ofLiteral? x = some p → p.length = 0 → Yields size s []
  | more {s s' : Stream} {x : Literal} {p : Piece} {ps : List Piece} : s.read size = (.ok x, s') →
      Piece.ofLiteral? x = some p → p.length ≠ 0 → Yields size s' ps → Yields size s (p :: ps)

theorem Yields.length_le {size : Int} {s : Stream} {ps : List Piece} (h : s.Yields size ps) :
    ps.length ≤ s.left := by
  induction h with
  | done => exact Nat.zero_le _
  | more hread hp hlen _ ih =>
    have hless := left_lt_of_read hread hp hlen
    rw [List.length_cons]
    omega

/-- A read that is not refused gives what the stream draws. -/
theorem read_eq {s : Stream} {size : Int} (h : s.refusal? size = none) :
    s.read size =
      ((draw size s.supply).1,
        { s with reads := s.reads + 1, supply := (draw size s.supply).2 }) := by
  have h' : ({ s with reads := s.reads + 1 } : Stream).refusal? size = none := h
  rw [read, h']

/-- A reader that is open refuses no read. -/
theorem refusal?_reader {s : Stream} {rest : List Chunk} {waits : Option Nat}
    (hs : s.supply = .chunks rest waits) (hopen : s.closes = 0) (size : Int) :
    s.refusal? size = none := by
  simp [refusal?, medium, hs, hopen]

/-- A reader yields the chunks that it has, whatever it waits for. -/
theorem yields_reader (size : Int) : ∀ {ps : List Piece} {s : Stream} {waits : Option Nat},
    (∀ p ∈ ps, p.length ≠ 0) → s.supply = .chunks (ps.map fun p => .data p.toLiteral) waits →
      s.closes = 0 → s.Yields size ps
  | [], s, waits, _, hs, hopen => by
    have hread := read_eq (refusal?_reader hs hopen size)
    rw [hs] at hread
    exact .done hread rfl rfl
  | p :: ps, s, waits, hps, hs, hopen => by
    have hread := read_eq (refusal?_reader hs hopen size)
    rw [hs] at hread
    obtain ⟨hp, hps⟩ := List.forall_mem_cons.1 hps
    exact .more hread p.ofLiteral?_toLiteral hp (yields_reader size hps rfl hopen)

/-- What is cut off in portions is yielded portion by portion, all of it unless nothing is asked
for. -/
theorem yields_portions {α : Type} {size : Int} (supply : List α → Supply) (piece : List α → Piece)
    (hdraw : ∀ xs, ∃ data, draw size (supply xs) = (.ok data, supply (portion size xs).2) ∧
      Piece.ofLiteral? data = some (piece (portion size xs).1))
    (hlength : ∀ xs, (piece xs).length = xs.length) (xs : List α) {s : Stream}
    (hs : s.supply = supply xs)
    (hopen : ∀ ys reads, ({ s with supply := supply ys, reads } : Stream).refusal? size = none) :
    ∃ cs : List (List α), s.Yields size (cs.map piece) ∧
      (cs.flatten = xs ∨ size = 0 ∧ cs = []) := by
  have hself : s.refusal? size = none := by
    have := hopen xs s.reads
    rwa [← hs] at this
  obtain ⟨data, hgot, hdata⟩ := hdraw xs
  have hread := read_eq hself
  rw [hs, hgot] at hread
  by_cases hlen : (portion size xs).1.length = 0
  · refine ⟨[], .done hread hdata ((hlength _).trans hlen), ?_⟩
    rw [portion] at hlen
    split at hlen
    · exact .inl (List.eq_nil_of_length_eq_zero hlen).symm
    · rw [List.length_take] at hlen
      rcases Nat.min_eq_zero_iff.1 hlen with hzero | hnone
      · exact .inr ⟨by omega, rfl⟩
      · exact .inl (List.eq_nil_of_length_eq_zero hnone).symm
  · have hless := portion_lt hlen
    obtain ⟨cs, hcs, hrest⟩ := yields_portions supply piece hdraw hlength (portion size xs).2
      (s := { s with reads := s.reads + 1, supply := supply (portion size xs).2 }) rfl hopen
    refine ⟨(portion size xs).1 :: cs, .more hread hdata (by rwa [hlength]) hcs, .inl ?_⟩
    rcases hrest with hrest | ⟨rfl, -⟩
    · rw [List.flatten_cons, hrest, portion_append]
    · exact absurd rfl hlen
  termination_by xs.length

/-- A text in memory yields itself. -/
theorem yields_ofText {size : Int} (hsize : Limits.isSize size = true) (text : List Char) :
    ∃ cs : List (List Char), (ofText text).Yields size (cs.map .text) ∧
      (cs.flatten = text ∨ size = 0 ∧ cs = []) := by
  refine yields_portions .text .text
    (fun xs => ⟨.text (String.ofList (portion size xs).1), rfl, ?_⟩) (fun _ => rfl) text rfl ?_
  · rw [Piece.ofLiteral?, String.toList_ofList]
  · intro ys reads
    simp [refusal?, medium, hsize, ofText]

/-- Bytes in memory yield themselves. -/
theorem yields_ofBytes {size : Int} (hsize : Limits.isSize size = true) (b : Bytes) :
    ∃ cs : List Bytes, (ofBytes b).Yields size (cs.map .bytes) ∧
      (cs.flatten = b ∨ size = 0 ∧ cs = []) := by
  refine yields_portions .bytes .bytes (fun _ => ⟨_, rfl, rfl⟩) (fun _ => rfl) b rfl ?_
  intro ys reads
  simp [refusal?, medium, hsize, ofBytes]

/-- A file that refuses no read yields its bytes, in chunks of the size of the reads. -/
theorem yields_file {size : Int} (hsize : 0 < size) (d : Bytes) {s : Stream}
    (hs : s.supply = .file d) (hopen : s.refusal? size = none) :
    ∃ cs : List Bytes, s.Yields size (cs.map .bytes) ∧ cs.flatten = d := by
  have hopen' : ∀ ys reads,
      ({ s with supply := .file ys, reads } : Stream).refusal? size = none := by
    intro ys reads
    rw [← hopen, refusal?, refusal?]
    simp only [medium, hs]
  obtain ⟨cs, hcs, hall⟩ :=
    yields_portions .file .bytes (fun _ => ⟨_, rfl, rfl⟩) (fun _ => rfl) d hs hopen'
  refine ⟨cs, hcs, ?_⟩
  rcases hall with hall | ⟨hzero, -⟩
  · exact hall
  · omega

end Stream

/-! ### Sources -/

/-- The source of a number, with the stream that it reads. -/
structure Machine.Reads (m : Machine) (source : Nat) (src : Source) (s : Stream) : Prop where
  source : m.sources[source]? = some src
  stream : m.streams[src.stream]? = some s

namespace Machine

variable {m m' : Machine} {i : Nat} {src : Source} {s : Stream}

theorem Reads.of_inputs (h : m.Reads i src s) (hin : m'.inputs = m.inputs) : m'.Reads i src s := by
  simp only [inputs, Prod.mk.injEq] at hin
  exact ⟨hin.2.1 ▸ h.source, hin.1 ▸ h.stream⟩

theorem queue_of_inputs (hin : m'.inputs = m.inputs) : m'.queue = m.queue := by
  simp only [inputs, Prod.mk.injEq] at hin
  exact hin.2.2

theorem Reads.updateStream (h : m.Reads i src s) (s' : Stream) :
    (m.updateStream src.stream fun _ => s').Reads i src s' :=
  ⟨h.source, by simp [Machine.updateStream, h.stream]⟩

theorem countRead_core (is : List Nat) (n : Nat) : ∀ m : Machine,
    (m.countRead is n).core = m.core := by
  induction is with
  | nil => intro m; rfl
  | cons i is ih =>
    intro m
    rw [countRead, List.foldl_cons]
    exact (ih _).trans rfl

theorem countRead_streams (is : List Nat) (n : Nat) : ∀ m : Machine,
    (m.countRead is n).streams = m.streams := by
  induction is with
  | nil => intro m; rfl
  | cons i is ih =>
    intro m
    rw [countRead, List.foldl_cons]
    exact (ih _).trans rfl

/-- A source counts data once for every time that it is passed. -/
theorem countRead_sources (is : List Nat) (n : Nat) : ∀ {m : Machine} {src : Source},
    m.sources[i]? = some src →
    (m.countRead is n).sources[i]? =
      some { src with consumed := src.consumed + is.count i * n } := by
  induction is with
  | nil => intro m src h; simpa [countRead] using h
  | cons j is ih =>
    intro m src h
    rw [countRead, List.foldl_cons]
    by_cases hj : j = i
    · subst hj
      have hstep : (m.updateSource j fun s => { s with consumed := s.consumed + n }).sources[j]? =
          some { src with consumed := src.consumed + n } := by
        simp [updateSource, h]
      refine (ih hstep).trans ?_
      rw [List.count_cons_self, Nat.succ_mul, Nat.add_assoc, Nat.add_comm n]
    · have hstep : (m.updateSource j fun s => { s with consumed := s.consumed + n }).sources[i]? =
          some src := by
        simp [updateSource, hj, h]
      refine (ih hstep).trans ?_
      rw [List.count_cons_of_ne (by simpa using hj)]

theorem Reads.countRead (h : m.Reads i src s) (is : List Nat) (n : Nat) :
    (m.countRead is n).Reads i { src with consumed := src.consumed + is.count i * n } s :=
  ⟨countRead_sources is n h.source, by rw [countRead_streams]; exact h.stream⟩

/-- Data passes a source once, unless the source stands around itself. -/
theorem count_passage (h : m.sources[i]? = some src) (hinner : i ∉ src.inner) :
    (m.passage i).count i = 1 := by
  simp [passage, h, List.count_eq_zero_of_not_mem hinner]

theorem queue_countRead (is : List Nat) (n : Nat) : (m.countRead is n).queue = m.queue :=
  eq_of_core (countRead_core is n m) _ fun _ => rfl

end Machine

/-- What a handle stands for: the source that a load of it reads, and the stream of the source. A
source that stands around others came after them. -/
inductive Handle.StandsFor (m : Machine) : Handle → Source → Stream → Prop
  | stream {i : Nat} {s : Stream} : m.streams[i]? = some s →
      StandsFor m (.stream i) { stream := i, name := Source.nameFor .null s.label s.typeName } s
  | source {i : Nat} {src : Source} {s : Stream} : m.Reads i src s → (∀ j ∈ src.inner, j < i) →
      StandsFor m (.source i) src s

/-! ### Making sources -/

namespace Interpreter

variable {it : Interpreter} {m m' : Machine} {i : Nat} {src : Source} {s s' : Stream}

theorem sourceAt_eq (h : m.sources[i]? = some src) : sourceAt i m = .ok src m := by
  rw [sourceAt, Act.get_bind, h]
  rfl

theorem streamAt_eq (h : m.streams[i]? = some s) : streamAt i m = .ok s m := by
  rw [streamAt, Act.get_bind, h]
  rfl

/-- Nothing can be done with a source that is not there. -/
theorem missing_eq {α : Type} (h : ∀ src s, ¬ m.Reads i src s) (k : Source → Stream → Act α) :
    (do let src ← sourceAt i; let s ← streamAt src.stream; k src s) m = .error .noSource m := by
  cases hsrc : m.sources[i]? with
  | none =>
    have hsource : sourceAt i m = .error .noSource m := by
      rw [sourceAt, Act.get_bind, hsrc]
      rfl
    exact Act.bind_error hsource _
  | some src =>
    rw [Act.bind_ok (sourceAt_eq hsrc)]
    have hstream : streamAt src.stream m = .error .noSource m := by
      rw [streamAt, Act.get_bind]
      cases hs : m.streams[src.stream]? with
      | none => rfl
      | some s => exact absurd ⟨hsrc, hs⟩ (h src s)
    exact Act.bind_error hstream _

theorem wrapStream_eq (h : m.streams[i]? = some s) (total name : Literal) :
    wrapStream i total name m = .ok m.sources.length
      (m.addSource { stream := i, total, name := Source.nameFor name s.label s.typeName }) := by
  rw [wrapStream, Act.bind_ok (streamAt_eq h)]
  rfl

end Interpreter

theorem Machine.Reads.addSource {m : Machine} {src : Source} {s : Stream}
    (h : m.streams[src.stream]? = some s) : (m.addSource src).Reads m.sources.length src s :=
  ⟨List.getElem?_concat_length, h⟩

/-! ### Taking and accepting data -/

namespace Interpreter

variable {it : Interpreter} {m m' : Machine} {i : Nat} {src : Source} {s s' : Stream}

theorem take_eq_ok (h : m.Reads i src s) {size : Int} {x : Literal}
    (hread : s.read size = (.ok x, s')) :
    take i size m = .ok x (m.updateStream src.stream fun _ => s') := by
  rw [take, Act.bind_ok (sourceAt_eq h.source), Act.bind_ok (streamAt_eq h.stream), hread]
  rfl

theorem take_eq_error (h : m.Reads i src s) {size : Int} {f : Fault}
    (hread : s.read size = (.error f, s')) :
    take i size m = .error (reported (m.sourceNames (m.passage i)) f)
      (m.updateStream src.stream fun _ => s') := by
  rw [take, Act.bind_ok (sourceAt_eq h.source), Act.bind_ok (streamAt_eq h.stream), hread]
  rfl

theorem take_inv (h : m.Reads i src s) {size : Int} {x : Literal} (htake : take i size m = .ok x m') :
    ∃ s', s.read size = (.ok x, s') ∧ m' = m.updateStream src.stream fun _ => s' := by
  rcases hread : s.read size with ⟨got, s'⟩
  cases got with
  | ok y =>
    cases (take_eq_ok h hread).symm.trans htake
    exact ⟨s', rfl, rfl⟩
  | error f => cases (take_eq_error h hread).symm.trans htake

theorem accept_eq_ok {data : Literal} {p : Piece} (hp : Piece.ofLiteral? data = some p) :
    accept i data m = .ok p (m.countRead (m.passage i) p.length) := by
  rw [accept, Act.get_bind, hp]
  rfl

theorem accept_inv {data : Literal} {p : Piece} (h : accept i data m = .ok p m') :
    Piece.ofLiteral? data = some p ∧ m' = m.countRead (m.passage i) p.length := by
  cases hp : Piece.ofLiteral? data with
  | some q =>
    rw [accept_eq_ok hp] at h
    cases h
    exact ⟨rfl, rfl⟩
  | none =>
    rw [accept, Act.get_bind, hp] at h
    cases hn : m.sourceNames (m.passage i) <;> rw [hn] at h <;> cases h

end Interpreter

end Gcode
