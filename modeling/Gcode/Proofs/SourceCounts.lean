import Gcode.Proofs.Following

/-!
What a source counts. A source reports whatever its stream fails with under its own name, and counts
the data that its reads give and nothing else, whatever the stream does on its own between the
reads. Main statements: one read of a source is what its stream answers, counted or reported
(`readSource_given`, `readSource_refused`); and after any reads and closes a source has counted the
data that the reads have given (`Handled.counts`).
-/

namespace Gcode

open Act

/-- What a stream answers to a read of a size that is asked for by a value. -/
def Stream.answer (s : Stream) (size : Literal) : Except Fault Literal :=
  match s.sizeOf size with
  | .error f => .error f
  | .ok size => (s.read size).1

/-- How much some reads have given, in characters or bytes. A read that failed has given nothing. -/
def lengthGiven : List (Except Fault Piece) → Nat
  | [] => 0
  | .ok p :: reads => p.length + lengthGiven reads
  | .error _ :: reads => lengthGiven reads

theorem lengthGiven_append (reads reads' : List (Except Fault Piece)) :
    lengthGiven (reads ++ reads') = lengthGiven reads + lengthGiven reads' := by
  induction reads with
  | nil => exact (Nat.zero_add _).symm
  | cons r reads ih =>
    cases r with
    | ok p => rw [List.cons_append, lengthGiven, lengthGiven, ih, Nat.add_assoc]
    | error f => exact ih

/-- A source has counted so much and is else as it was. -/
def Source.counting (src : Source) (n : Nat) : Source := { src with consumed := n }

namespace Interpreter

variable {m m' : Machine} {j k : Nat} {src : Source} {s : Stream} {size : Literal}

/-! ### One read -/

/-- What a stream fails with is reported by all sources that the data would have passed. -/
theorem readSource_refused (hm : m.Reads k src s) {cause : Fault}
    (hanswer : s.answer size = .error cause) :
    ∃ m', readSource k size m = .error (reported (m.sourceNames (m.passage k)) cause) m' ∧
      m'.sources = m.sources := by
  rw [readSource, bind_ok (sourceAt_eq hm.source), bind_ok (streamAt_eq hm.stream)]
  rw [Stream.answer] at hanswer
  cases hsize : s.sizeOf size with
  | error f =>
    rw [hsize] at hanswer
    cases hanswer
    exact ⟨m, rfl, rfl⟩
  | ok n =>
    rw [hsize] at hanswer
    obtain ⟨s', hread⟩ : ∃ s', s.read n = (.error cause, s') := ⟨_, Prod.ext hanswer rfl⟩
    exact ⟨_, bind_error (take_eq_error hm hread) _, rfl⟩

/-- What a stream gives is accepted, or refused for its type. -/
theorem readSource_given (hm : m.Reads k src s) {data : Literal}
    (hanswer : s.answer size = .ok data) :
    ∃ m', readSource k size m = accept k data m' ∧ m'.sources = m.sources := by
  rw [readSource, bind_ok (sourceAt_eq hm.source), bind_ok (streamAt_eq hm.stream)]
  rw [Stream.answer] at hanswer
  cases hsize : s.sizeOf size with
  | error f =>
    rw [hsize] at hanswer
    cases hanswer
  | ok n =>
    rw [hsize] at hanswer
    obtain ⟨s', hread⟩ : ∃ s', s.read n = (.ok data, s') := ⟨_, Prod.ext hanswer rfl⟩
    exact ⟨_, bind_ok (take_eq_ok hm hread) _, rfl⟩

/-- A source that is passed by the data of another one is there, and so is the other. -/
theorem exists_of_passes (hsrc : m.sources[k]? = some src) (hpasses : (m.passage j).count k = 1) :
    ∃ outer, m.sources[j]? = some outer := by
  cases hj : m.sources[j]? with
  | some outer => exact ⟨outer, rfl⟩
  | none =>
    have hmem : k ∈ m.passage j := List.count_pos_iff.1 (by omega)
    have hk : k = j := by simpa [Machine.passage, hj] using hmem
    rw [hk, hj] at hsrc
    cases hsrc

/-- What comes of the end of a read: data that a source counts, or a fault of a source, or that a
load was cancelled. -/
def Counts (k : Nat) (src : Source) : EStateM.Result Fault Machine Piece → Prop
  | .ok p m' => m'.sources[k]? = some (src.counting (src.consumed + p.length))
  | .error f m' => (f.kind = .source ∨ f.kind = .cancelled) ∧ m'.sources[k]? = some src

theorem failRead_counts (hsrc : m.sources[k]? = some src) (hpasses : (m.passage j).count k = 1)
    (cause : Fault) : Counts k src (failRead j cause m) := by
  obtain ⟨outer, houter⟩ := exists_of_passes hsrc hpasses
  exact ⟨kind_reported (.inr (sourceNames_passage_ne_nil houter)), hsrc⟩

/-- Data is counted by every source that it passes, unless it is neither text nor bytes. -/
theorem accept_counts (hsrc : m.sources[k]? = some src) (hpasses : (m.passage j).count k = 1)
    (data : Literal) : Counts k src (accept j data m) := by
  cases hp : Piece.ofLiteral? data with
  | some p =>
    have hcounted := Machine.countRead_sources (m.passage j) p.length hsrc
    rw [hpasses, Nat.one_mul] at hcounted
    rw [accept_eq_ok hp]
    exact hcounted
  | none =>
    rw [accept_none hp]
    refine ⟨?_, hsrc⟩
    cases m.sourceNames (m.passage j) with
    | nil => exact .inl rfl
    | cons title titles => exact kind_reported (.inl rfl)

theorem readSource_counts (hsrc : m.sources[k]? = some src) (hpasses : (m.passage j).count k = 1)
    (size : Literal) : Counts k src (readSource j size m) := by
  by_cases hreads : ∃ outer s, m.Reads j outer s
  · obtain ⟨outer, s, hm⟩ := hreads
    have hsame : ∀ {m₁ : Machine}, m₁.sources = m.sources →
        m₁.sources[k]? = some src ∧ (m₁.passage j).count k = 1 :=
      fun h => ⟨by rw [h, hsrc], by rw [Machine.passage, h, ← Machine.passage, hpasses]⟩
    cases hanswer : s.answer size with
    | error cause =>
      obtain ⟨m₁, hread, hsources⟩ := readSource_refused hm hanswer
      rw [hread]
      exact ⟨kind_reported (.inr (sourceNames_passage_ne_nil hm.source)), (hsame hsources).1⟩
    | ok data =>
      obtain ⟨m₁, hread, hsources⟩ := readSource_given hm hanswer
      rw [hread]
      exact accept_counts (hsame hsources).1 (hsame hsources).2 data
  · have hmissing : readSource j size m = .error .noSource m :=
      missing_eq (fun outer s hm => hreads ⟨outer, s, hm⟩) _
    rw [hmissing]
    exact ⟨.inl rfl, hsrc⟩

/-- How a read of a source ends: all of it is done at once, or its data was taken before, or its
stream has failed. -/
inductive EndsRead (j : Nat) : Act Piece → Prop
  | atOnce (size : Literal) : EndsRead j (readSource j size)
  | taken (data : Literal) : EndsRead j (accept j data)
  | broken (cause : Fault) : EndsRead j (failRead j cause)

/-- However a read ends, every source that the data passes counts what it gives. -/
theorem EndsRead.counts {a : Act Piece} (h : EndsRead j a) (hsrc : m.sources[k]? = some src)
    (hpasses : (m.passage j).count k = 1) : Counts k src (a m) := by
  cases h with
  | atOnce size => exact readSource_counts hsrc hpasses size
  | taken data => exact accept_counts hsrc hpasses data
  | broken cause => exact failRead_counts hsrc hpasses cause

end Interpreter

/-! ### Reads and closes -/

/-- A source was read and closed any number of times, by itself or by sources around it, and the
reads had certain results. What happens in between leaves alone what is known of the source; its
stream may come to be in any state. -/
inductive Machine.Handled (k : Nat) (m : Machine) : List (Except Fault Piece) → Machine → Prop
  | nothing : Handled k m [] m
  | gave {reads : List (Except Fault Piece)} {m₁ m' : Machine} {j : Nat} {a : Act Piece}
      {p : Piece} : Handled k m reads m₁ → Interpreter.EndsRead j a →
        (m₁.passage j).count k = 1 → a m₁ = .ok p m' → Handled k m (reads ++ [.ok p]) m'
  | failed {reads : List (Except Fault Piece)} {m₁ m' : Machine} {j : Nat} {a : Act Piece}
      {f : Fault} : Handled k m reads m₁ → Interpreter.EndsRead j a →
        (m₁.passage j).count k = 1 → a m₁ = .error f m' → Handled k m (reads ++ [.error f]) m'
  | closed {reads : List (Except Fault Piece)} {m₁ : Machine} {j : Nat} :
      Handled k m reads m₁ → Handled k m reads (m₁.closeSource j)
  | meanwhile {reads : List (Except Fault Piece)} {m₁ m' : Machine} :
      Handled k m reads m₁ → m'.sources[k]? = m₁.sources[k]? → Handled k m reads m'

namespace Machine

variable {m m' : Machine} {k : Nat} {src : Source} {reads : List (Except Fault Piece)}

theorem closeSource_sources (m : Machine) (k : Nat) : (m.closeSource k).sources = m.sources := by
  rw [closeSource]
  split <;> rfl

/-- A source has counted what its reads have given, and every read that failed is a fault of the
source, or a load was cancelled in it. -/
theorem Handled.counts (hsrc : m.sources[k]? = some src) (h : m.Handled k reads m') :
    m'.sources[k]? = some (src.counting (src.consumed + lengthGiven reads)) ∧
      ∀ f, .error f ∈ reads → f.kind = .source ∨ f.kind = .cancelled := by
  induction h with
  | nothing => exact ⟨hsrc, fun _ hf => absurd hf List.not_mem_nil⟩
  | gave _ hends hpasses hread ih =>
    obtain ⟨hsrc₁, hfaults⟩ := ih
    have hcounts := hends.counts hsrc₁ hpasses
    rw [hread] at hcounts
    refine ⟨?_, fun f hf => hfaults f (by simpa using hf)⟩
    rw [hcounts, lengthGiven_append]
    exact congrArg (fun n => some (src.counting n)) (Nat.add_assoc ..)
  | failed _ hends hpasses hread ih =>
    obtain ⟨hsrc₁, hfaults⟩ := ih
    have hcounts := hends.counts hsrc₁ hpasses
    rw [hread] at hcounts
    refine ⟨?_, fun g hg => ?_⟩
    · rw [hcounts.2, lengthGiven_append]
      rfl
    · rcases List.mem_append.1 hg with hg | hg
      · exact hfaults g hg
      · cases List.mem_singleton.1 hg
        exact hcounts.1
  | closed _ ih => rwa [closeSource_sources]
  | meanwhile _ hsame ih => rwa [hsame]

end Machine

end Gcode
