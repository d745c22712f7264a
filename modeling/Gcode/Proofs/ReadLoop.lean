import Gcode.Proofs.Background
import Gcode.Proofs.LoadFaults
import Gcode.Proofs.SourceCounts
import Mathlib.Algebra.Order.Floor.Div

/-!
The read loop. A load reads its source again and again until a read gives nothing; what a read gives
is counted, taken in and announced in the next turn. If the data is at hand, in memory or in a file,
its length and the size of the reads decide how often it is read and what is announced on the
progress, whatever host code does as long as it leaves the source alone. Main statements: the first
turn of a load reads once (`begin_paced`), and every later one takes in one piece and reads the next
(`resume_paced`).
-/

namespace Gcode

open Act

/-! ### Streams with data at hand -/

namespace Stream

/-- A stream in memory or of a file, of which so much is left after so many reads. It refuses no
read of a size. -/
structure Ready (size : Int) (left reads : Nat) (s : Stream) : Prop where
  atHand : s.medium ≠ .reader
  accepts : s.refusal? size = none
  left : s.left = left
  reads : s.reads = reads

variable {s : Stream} {size : Int} {left reads : Nat}

theorem Ready.waits (h : s.Ready size left reads) : s.waits = none := by
  have hmedium := h.atHand
  rw [medium] at hmedium
  rw [Stream.waits]
  cases hs : s.supply with
  | chunks rest waits => simp [hs] at hmedium
  | _ => rfl

/-- Whether a read is refused does not depend on what the stream has left. -/
theorem refusal?_congr {s' : Stream} (hmedium : s'.medium = s.medium)
    (hcloses : s'.closes = s.closes) (size : Int) : s'.refusal? size = s.refusal? size := by
  rw [refusal?, refusal?, hmedium, hcloses]

theorem portion_of_nonneg {α : Type} (hsize : 0 ≤ size) (xs : List α) :
    portion size xs = (xs.take size.toNat, xs.drop size.toNat) := by
  rw [portion, if_neg (Int.not_lt.2 hsize)]

/-- What a read draws from a stream with data at hand leaves it at hand. -/
theorem Ready.drawn (h : s.Ready size left reads) {data : Literal} {supply : Supply}
    (hdraw : draw size s.supply = (.ok data, supply))
    (hmedium : ({ s with supply } : Stream).medium = s.medium)
    (hrest : ({ s with supply } : Stream).left = left - size.toNat) :
    ∃ s', s.read size = (.ok data, s') ∧ s'.Ready size (left - size.toNat) (reads + 1) := by
  refine ⟨_, (read_eq h.accepts).trans (by rw [hdraw]), ?_⟩
  exact
    { atHand := fun hreader => h.atHand (hmedium.symm.trans hreader)
      accepts := (refusal?_congr hmedium rfl size).trans h.accepts
      left := hrest
      reads := congrArg (· + 1) h.reads }

/-- A read gives what was asked for, or what is left if that is less. -/
theorem Ready.read (h : s.Ready size left reads) (hsize : 0 ≤ size) :
    ∃ data p s', s.read size = (.ok data, s') ∧ Piece.ofLiteral? data = some p ∧
      p.length = min size.toNat left ∧ s'.Ready size (left - size.toNat) (reads + 1) := by
  have hleft := h.left
  rw [Stream.left] at hleft
  cases hs : s.supply with
  | chunks rest waits => exact absurd (by rw [medium, hs]) h.atHand
  | text rest =>
    have hdraw : draw size s.supply = (.ok (.text (String.ofList (rest.take size.toNat))),
        .text (rest.drop size.toNat)) := by
      rw [hs, draw, portion_of_nonneg hsize]
    rw [hs] at hleft
    subst hleft
    obtain ⟨s', hread, hready⟩ := h.drawn hdraw (by rw [medium, medium, hs]) List.length_drop
    exact ⟨_, .text (rest.take size.toNat), s', hread,
      by rw [Piece.ofLiteral?, String.toList_ofList], List.length_take, hready⟩
  | bytes rest =>
    have hdraw : draw size s.supply =
        (.ok (.bytes (rest.take size.toNat)), .bytes (rest.drop size.toNat)) := by
      rw [hs, draw, portion_of_nonneg hsize]
    rw [hs] at hleft
    subst hleft
    obtain ⟨s', hread, hready⟩ := h.drawn hdraw (by rw [medium, medium, hs]) List.length_drop
    exact ⟨_, .bytes (rest.take size.toNat), s', hread, rfl, List.length_take, hready⟩
  | file rest =>
    have hdraw : draw size s.supply =
        (.ok (.bytes (rest.take size.toNat)), .file (rest.drop size.toNat)) := by
      rw [hs, draw, portion_of_nonneg hsize]
    rw [hs] at hleft
    subst hleft
    obtain ⟨s', hread, hready⟩ := h.drawn hdraw (by rw [medium, medium, hs]) List.length_drop
    exact ⟨_, .bytes (rest.take size.toNat), s', hread, rfl, List.length_take, hready⟩

end Stream

/-! ### What is announced on the progress -/

/-- What an item says on the progress: how much was read, and the total. -/
def Item.progress? : Item → Option (Nat × Literal)
  | .progress consumed total => some (consumed, total)
  | _ => none

/-- What some items say on the progress. -/
def progressOf (xs : List Item) : List (Nat × Literal) := xs.filterMap Item.progress?

theorem progressOf_append (xs ys : List Item) :
    progressOf (xs ++ ys) = progressOf xs ++ progressOf ys := List.filterMap_append

/-- What is announced on the progress of data of a length that is read in pieces of a size. -/
def progressOver (length size : Nat) : List (Nat × Literal) :=
  (List.range (length ⌈/⌉ size)).map fun i => (min ((i + 1) * size) length, .int length)

section Progress

variable {length size i : Nat}

/-- There is another piece as long as the pieces before it are not all. -/
theorem lt_ceilDiv_iff (hsize : 0 < size) : i < length ⌈/⌉ size ↔ i * size < length := by
  rw [← Nat.not_le, ceilDiv_le_iff_le_mul hsize, Nat.not_le, Nat.mul_comm]

theorem progressOver_take_succ (h : i < length ⌈/⌉ size) :
    (progressOver length size).take (i + 1) =
      (progressOver length size).take i ++ [(min ((i + 1) * size) length, .int length)] := by
  rw [List.take_add_one, progressOver]
  simp [h]

/-- The announced progress grows. -/
theorem progressOver_pairwise (hsize : 0 < size) :
    (progressOver length size).Pairwise fun a b => a.1 < b.1 := by
  refine List.pairwise_map.2 (List.pairwise_lt_range.imp_of_mem fun {i j} _ hj hij => ?_)
  have hlast := (lt_ceilDiv_iff hsize).1 (List.mem_range.1 hj)
  have hstep : (i + 1) * size ≤ j * size := Nat.mul_le_mul_right size hij
  have hnext : j * size < (j + 1) * size := by
    rw [Nat.succ_mul]
    omega
  dsimp only
  omega

/-- The last progress that is announced is the total. -/
theorem progressOver_getLast? (hsize : 0 < size) :
    ∀ x ∈ (progressOver length size).getLast?, x = (length, .int length) := by
  intro x hx
  rw [progressOver, List.getLast?_map, List.getLast?_range] at hx
  split at hx
  · cases hx
  · cases hx
    have hall : length ≤ size * (length ⌈/⌉ size) := (ceilDiv_le_iff_le_mul hsize).1 (Nat.le_refl _)
    rw [Nat.mul_comm] at hall
    dsimp only
    rw [Nat.sub_add_cancel (by omega), Nat.min_eq_right hall]

end Progress

/-! ### Sources that are left alone -/

/-- A source and the stream that it reads are as before. -/
def Machine.KeepsSource (k : Nat) (m m' : Machine) : Prop :=
  ∀ (src : Source) (s : Stream), m.Reads k src s → m'.Reads k src s

namespace Machine

theorem steady_keepsSource (k : Nat) : Steady (KeepsSource k) where
  refl _ _ _ h := h
  trans h h' src s hm := h' src s (h src s hm)

theorem keepsSource_of_eq {m m' : Machine} {k : Nat} (hsources : m'.sources = m.sources)
    (hstreams : m'.streams = m.streams) : m.KeepsSource k m' :=
  fun _ _ h => ⟨by rw [hsources, h.source], by rw [hstreams, h.stream]⟩

end Machine

namespace Interpreter

variable {it : Interpreter} {m m' : Machine} {k n i j : Nat} {load : Load} {src : Source}
  {s : Stream} {callback : Option String}

theorem Respects.keepsSource (h : it.Respects (Machine.KeepsSource k)) :
    it.Delivery (Machine.KeepsSource k) where
  toSteady := Machine.steady_keepsSource k
  log _ _ _ := Machine.keepsSource_of_eq rfl rfl
  deals _ _ := Machine.keepsSource_of_eq rfl rfl
  call _ _ _ := Machine.keepsSource_of_eq rfl rfl
  spend _ _ _ := Machine.keepsSource_of_eq rfl rfl
  modal _ _ := Machine.keepsSource_of_eq rfl rfl
  handler := h.handler
  method := h.method
  listener := h.listener
  answer := h.answer

/-! ### Taking in a piece, and the end -/

/-- What a load does for others without a word on the progress, while its source is left alone. -/
structure Unreported (it : Interpreter) (callback : Option String) (k : Nat) (m m' : Machine) :
    Prop where
  does : ∃ xs, it.Does callback xs m m' ∧ progressOf xs = []
  keeps : m.KeepsSource k m'

theorem steady_unreported : Steady (it.Unreported callback k) where
  refl m := ⟨⟨[], .idle rfl, rfl⟩, (Machine.steady_keepsSource k).refl m⟩
  trans h h' := by
    obtain ⟨xs, hdoes, hxs⟩ := h.does
    obtain ⟨ys, hdoes', hys⟩ := h'.does
    refine ⟨⟨xs ++ ys, hdoes.append hdoes', ?_⟩,
      (Machine.steady_keepsSource k).trans h.keeps h'.keeps⟩
    rw [progressOf_append, hxs, hys, List.nil_append]

theorem linesOf_unreported (r : Reading) : (linesOf r).Moves (it.Unreported callback k) := by
  intro m
  have hlogged : ∀ log, it.Unreported callback k m { m with log } :=
    fun log => ⟨⟨[], .idle rfl, rfl⟩, Machine.keepsSource_of_eq rfl rfl⟩
  cases hr : r.lines with
  | ok ls =>
    obtain ⟨log, hlines⟩ := linesOf_eq_ok hr m
    rw [after, hlines]
    exact hlogged log
  | error f =>
    obtain ⟨log, hlines⟩ := linesOf_error hr m
    rw [after, hlines]
    exact hlogged log

theorem deliver_unreported (hit : it.Respects (Machine.KeepsSource k)) (ls : List Line) :
    (it.deliver ls).Moves (it.Unreported callback k) :=
  fun m => ⟨⟨[.lines ls], .single (.lines ls) m, rfl⟩, hit.keepsSource.moves_deliver ls m⟩

/-- At the end of a document nothing is said on the progress. -/
theorem finish_unreported (hit : it.Respects (Machine.KeepsSource k)) (load : Load) :
    (it.finish load).Moves (it.Unreported callback k) := by
  have h : Steady (it.Unreported callback k) := steady_unreported
  exact h.follows (linesOf_unreported _) fun ls => h.follows (deliver_unreported hit ls) fun _ =>
    h.follows (linesOf_unreported _) fun ls => h.follows (deliver_unreported hit ls) fun _ =>
      h.nothing _

/-- The progress is announced, whether listeners return or not. -/
theorem announceProgress_reported (hit : it.Respects (Machine.KeepsSource k))
    (callback : Option String) (hm : m.Reads k src s) :
    ∃ m', it.Does callback [.progress src.consumed src.total] m m' ∧ m.KeepsSource k m' ∧
      (it.announceProgress k m = .ok () m' ∨
        ∃ f, it.announceProgress k m = .error f m' ∧ it.Blamed f m') := by
  have hcarry : (Item.progress src.consumed src.total).carry it callback = _ :=
    carry_progress callback src.consumed src.total
  have hannounce : it.announceProgress k m = it.give (.progress src.consumed src.total) m :=
    announceProgress_eq hm.source
  have hmoves : (it.give (.progress src.consumed src.total)).Moves (Machine.KeepsSource k) :=
    hit.keepsSource.follows (hit.keepsSource.moves_emit _ _) fun _ => hit.keepsSource.nothing _
  have hblamed : (it.give (.progress src.consumed src.total)).FailsWith it.Blamed :=
    (emit_blamed _ _).bind fun _ => failsWith_pure _
  rw [← hcarry] at hannounce hmoves hblamed
  cases hgive : (Item.progress src.consumed src.total).carry it callback m with
  | ok u m' => exact ⟨m', .of_ok hgive, hmoves.of_ok hgive, .inl (hannounce.trans hgive)⟩
  | error f m' =>
    exact ⟨m', .of_error hgive, hmoves.of_error hgive,
      .inr ⟨f, hannounce.trans hgive, hblamed _ _ _ hgive⟩⟩

/-- A piece of a document is taken in. The progress is announced once at most, and exactly once if
the load goes on. -/
theorem ingest_reported (hit : it.Respects (Machine.KeepsSource k)) (callback : Option String)
    (hsource : load.source = k) (hm : m.Reads k src s) (p : Piece) :
    ∃ xs m', it.Does callback xs m m' ∧ m.KeepsSource k m' ∧
      ((∃ load', it.ingest load p m = .ok load' m' ∧ load'.source = k ∧
          progressOf xs = [(src.consumed, src.total)]) ∨
        ∃ f, it.ingest load p m = .error f m' ∧ it.Blamed f m' ∧
          progressOf xs <+: [(src.consumed, src.total)]) := by
  have hsteady : Steady (it.Unreported callback k) := steady_unreported
  have hread : (linesOf (load.reader.feed (p.decode load.decoder).1).1).Moves
      (it.Unreported callback k) := linesOf_unreported _
  rw [ingest_eq, hsource]
  cases hlines : linesOf (load.reader.feed (p.decode load.decoder).1).1 m with
  | error f m₁ =>
    obtain ⟨⟨xs, hdoes, hxs⟩, hkeeps⟩ := hread.of_error hlines
    exact ⟨xs, m₁, hdoes, hkeeps,
      .inr ⟨f, bind_error hlines _, linesOf_blamed _ _ _ _ _ _ hlines, hxs ▸ List.nil_prefix⟩⟩
  | ok ls m₁ =>
    have hdeliver : (it.deliver ls).Moves (it.Unreported callback k) := deliver_unreported hit ls
    cases hdelivered : it.deliver ls m₁ with
    | error f m₂ =>
      obtain ⟨⟨xs, hdoes, hxs⟩, hkeeps⟩ :=
        hsteady.trans (hread.of_ok hlines) (hdeliver.of_error hdelivered)
      refine ⟨xs, m₂, hdoes, hkeeps,
        .inr ⟨f, ?_, deliver_blamed ls _ _ _ hdelivered, hxs ▸ List.nil_prefix⟩⟩
      rw [bind_ok hlines, bind_error hdelivered]
    | ok u m₂ =>
      obtain ⟨⟨xs, hdoes, hxs⟩, hkeeps⟩ :=
        hsteady.trans (hread.of_ok hlines) (hdeliver.of_ok hdelivered)
      obtain ⟨m₃, hdoes', hkeeps', hannounced⟩ :=
        announceProgress_reported hit callback (hkeeps src s hm)
      have hprogress : progressOf (xs ++ [.progress src.consumed src.total]) =
          [(src.consumed, src.total)] := by
        rw [progressOf_append, hxs]
        rfl
      refine ⟨_, m₃, hdoes.append hdoes', fun _ _ h => hkeeps' _ _ (hkeeps _ _ h), ?_⟩
      rw [bind_ok hlines, bind_ok hdelivered, hprogress]
      rcases hannounced with hok | ⟨f, herror, hblamed⟩
      · rw [bind_ok hok]
        exact .inl ⟨_, rfl, rfl, rfl⟩
      · exact .inr ⟨f, bind_error herror _, hblamed, List.prefix_rfl⟩

/-! ### One turn -/

/-- How much is asked for in a read. -/
def pieceSize (it : Interpreter) : Nat := it.chunkSize.toNat

/-- A source of data of a length has counted all that was read of it, in so many reads. -/
structure Abreast (it : Interpreter) (k n reads : Nat) (src : Source) (s : Stream) (m : Machine) :
    Prop where
  there : m.Reads k src s
  inner : src.inner = []
  consumed : src.consumed = min (reads * it.pieceSize) n
  total : src.total = .int n
  ready : s.Ready it.chunkSize (n - reads * it.pieceSize) reads

/-- A load between two turns has taken in so many pieces of data of a length and holds the next one,
which its source has not counted yet. After the last piece it holds nothing. -/
structure Midway (it : Interpreter) (k n pieces : Nat) (load : Load) (m : Machine) : Prop where
  source : load.source = k
  within : pieces ≤ n ⌈/⌉ it.pieceSize
  holds : ∃ data p, load.wait = .taken data ∧ Piece.ofLiteral? data = some p ∧
    p.length = min it.pieceSize (n - pieces * it.pieceSize)
  counted : ∃ src s, m.Reads k src s ∧ src.inner = [] ∧
    src.consumed = min (pieces * it.pieceSize) n ∧ src.total = .int n ∧
    s.Ready it.chunkSize (n - (pieces + 1) * it.pieceSize) (pieces + 1)

theorem Abreast.left {reads : Nat} (h : it.Abreast k n reads src s m) (hm : m.KeepsSource k m') :
    it.Abreast k n reads src s m' :=
  { h with there := hm src s h.there }

theorem Midway.left {pieces : Nat} (h : it.Midway k n pieces load m) (hm : m.KeepsSource k m') :
    it.Midway k n pieces load m' := by
  obtain ⟨src, s, hreads, hrest⟩ := h.counted
  exact { h with counted := ⟨src, s, hm src s hreads, hrest⟩ }

/-- What a load holds is counted when its turn comes. -/
theorem Midway.counts {pieces : Nat} (h : it.Midway k n pieces load m) :
    ∃ data p src s, load.wait = .taken data ∧ Piece.ofLiteral? data = some p ∧
      p.length = min it.pieceSize (n - pieces * it.pieceSize) ∧
      it.Abreast k n (pieces + 1) src s (m.countRead (m.passage load.source) p.length) := by
  obtain ⟨data, p, hwait, hp, hlength⟩ := h.holds
  obtain ⟨src, s, hreads, hinner, hconsumed, htotal, hready⟩ := h.counted
  refine ⟨data, p, { src with consumed := src.consumed + p.length }, s, hwait, hp, hlength, ?_⟩
  have hcounted := hreads.countRead (m.passage k) p.length
  rw [Machine.count_passage hreads.source (by rw [hinner]; exact List.not_mem_nil), Nat.one_mul]
    at hcounted
  refine { there := h.source ▸ hcounted, inner := hinner, consumed := ?_, total := htotal,
           ready := hready }
  rw [Nat.succ_mul]
  dsimp only
  omega

/-- A load that goes on reads the next piece. -/
theorem advanceRest_midway {reads : Nat} (hsize : 0 < it.chunkSize) (hsource : load.source = k)
    (hwithin : reads ≤ n ⌈/⌉ it.pieceSize) (h : it.Abreast k n reads src s m) :
    ∃ load' m', it.advanceRest (.inl load) m = .ok (.waiting load') m' ∧ m'.face = m.face ∧
      it.Midway k n reads load' m' := by
  obtain ⟨data, p, s', hread, hp, hlength, hready⟩ := h.ready.read (Int.le_of_lt hsize)
  have hthere : m.Reads load.source src s := hsource ▸ h.there
  obtain ⟨limit, -, hadvance⟩ := it.advanceRest_inl hthere
  refine ⟨{ load with wait := .taken data }, m.updateStream src.stream fun _ => s', ?_, rfl,
    hsource, hwithin, ⟨data, p, rfl, hp, hlength⟩,
    src, s', h.there.updateStream s', h.inner, h.consumed, h.total, ?_⟩
  · rw [hadvance, proceed_at_once hthere h.ready.waits, bind_ok (take_eq_ok hthere hread)]
    rfl
  · rw [Nat.succ_mul, ← Nat.sub_sub]
    exact hready

/-- How far a load of data of a length has come after so many turns, with what it has announced on
the progress. In every turn before its last it has read once; and if it has failed, then over its
lines or over code of the user, when its source had counted all that was read. -/
inductive Paced (it : Interpreter) (k n turns : Nat) (notes : List (Nat × Literal)) :
    EStateM.Result Fault Machine Turn → Prop
  | waiting {pieces : Nat} {load : Load} {m : Machine} : turns = pieces + 1 →
      it.Midway k n pieces load m → notes = (progressOver n it.pieceSize).take pieces →
        Paced it k n turns notes (.ok (.waiting load) m)
  | finished {ls : List Line} {src : Source} {s : Stream} {m : Machine} :
      it.Abreast k n (n ⌈/⌉ it.pieceSize + 1) src s m → notes = progressOver n it.pieceSize →
        Paced it k n turns notes (.ok (.finished ls) m)
  | failed {reads : Nat} {f : Fault} {src : Source} {s : Stream} {m : Machine} :
      it.Blamed f m → reads ≤ n ⌈/⌉ it.pieceSize + 1 → it.Abreast k n reads src s m →
        notes <+: progressOver n it.pieceSize → Paced it k n turns notes (.error f m)

/-- A load that has taken in all pieces ends in its next turn, or fails over its last lines. -/
theorem resume_last (hit : it.Respects (Machine.KeepsSource k)) (callback : Option String)
    {pieces : Nat} (hsize : 0 < it.pieceSize) (h : it.Midway k n pieces load m)
    (hall : n ≤ pieces * it.pieceSize) :
    ∃ xs, it.Does callback xs m ((it.resume load).after m) ∧
      it.Paced k n (pieces + 2) ((progressOver n it.pieceSize).take pieces ++ progressOf xs)
        (it.resume load m) := by
  obtain ⟨data, p, src, s, hwait, hp, hlength, habreast⟩ := h.counts
  have hpieces : pieces = n ⌈/⌉ it.pieceSize :=
    Nat.le_antisymm h.within ((ceilDiv_le_iff_le_mul hsize).2 (Nat.mul_comm .. ▸ hall))
  have hnotes : (progressOver n it.pieceSize).take pieces = progressOver n it.pieceSize := by
    rw [List.take_of_length_le]
    simp [progressOver, hpieces]
  have hresume := it.resume_end hwait hp (by omega) m
  have hface : (m.countRead (m.passage load.source) p.length).face = m.face :=
    Machine.face_of_core (Machine.countRead_core _ _ m)
  have hquiet : (it.finish load).Moves (it.Unreported callback k) := finish_unreported hit load
  cases hfinish : it.finish load (m.countRead (m.passage load.source) p.length) with
  | ok ls m' =>
    rw [bind_ok hfinish] at hresume
    obtain ⟨⟨xs, hdoes, hxs⟩, hkeeps⟩ := hquiet.of_ok hfinish
    rw [after, hresume, hnotes]
    refine ⟨xs, hdoes.before hface, .finished (hpieces ▸ habreast.left hkeeps) ?_⟩
    rw [hxs, List.append_nil]
  | error f m' =>
    rw [bind_error hfinish] at hresume
    obtain ⟨⟨xs, hdoes, hxs⟩, hkeeps⟩ := hquiet.of_error hfinish
    rw [after, hresume, hnotes]
    refine ⟨xs, hdoes.before hface,
      .failed (finish_blamed load _ _ _ hfinish) (by omega) (habreast.left hkeeps) ?_⟩
    rw [hxs, List.append_nil]

/-- A load that holds a piece takes it in and reads the next one, or fails over its lines. -/
theorem resume_next (hit : it.Respects (Machine.KeepsSource k)) (callback : Option String)
    {pieces : Nat} (hsize : 0 < it.chunkSize) (h : it.Midway k n pieces load m)
    (hmore : pieces * it.pieceSize < n) :
    ∃ xs, it.Does callback xs m ((it.resume load).after m) ∧
      it.Paced k n (pieces + 2) ((progressOver n it.pieceSize).take pieces ++ progressOf xs)
        (it.resume load m) := by
  have hpiece : 0 < it.pieceSize := by rw [pieceSize]; omega
  obtain ⟨data, p, src, s, hwait, hp, hlength, habreast⟩ := h.counts
  have hpieces : pieces < n ⌈/⌉ it.pieceSize := (lt_ceilDiv_iff hpiece).2 hmore
  have hresume := it.resume_piece hwait hp (by omega) m
  have hface : (m.countRead (m.passage load.source) p.length).face = m.face :=
    Machine.face_of_core (Machine.countRead_core _ _ m)
  have hnext := progressOver_take_succ hpieces
  rw [← habreast.consumed, ← habreast.total] at hnext
  obtain ⟨xs, m₁, hdoes, hkeeps, hingest⟩ :=
    ingest_reported hit callback h.source habreast.there p
  have hdoes := hdoes.before hface
  have habreast₁ := habreast.left hkeeps
  rcases hingest with ⟨load₁, hok, hsource, hxs⟩ | ⟨f, herror, hblamed, hxs⟩
  · obtain ⟨load', m', hadvance, hface', hmidway⟩ :=
      it.advanceRest_midway hsize hsource hpieces habreast₁
    rw [bind_ok hok, hadvance] at hresume
    rw [after, hresume]
    refine ⟨xs, hdoes.until hface', .waiting rfl hmidway ?_⟩
    rw [hxs, hnext]
  · rw [bind_error herror] at hresume
    rw [after, hresume]
    refine ⟨xs, hdoes, .failed hblamed (by omega) habreast₁ ?_⟩
    have hnotes := (List.prefix_append_right_inj ((progressOver n it.pieceSize).take pieces)).2 hxs
    rw [← hnext] at hnotes
    exact hnotes.trans (List.take_prefix _ _)

/-- Every later turn of a load takes in what it holds. -/
theorem resume_paced (hit : it.Respects (Machine.KeepsSource k)) (callback : Option String)
    {pieces : Nat} (hsize : 0 < it.chunkSize) (h : it.Midway k n pieces load m) :
    ∃ xs, it.Does callback xs m ((it.resume load).after m) ∧
      it.Paced k n (pieces + 2) ((progressOver n it.pieceSize).take pieces ++ progressOf xs)
        (it.resume load m) := by
  rcases Nat.lt_or_ge (pieces * it.pieceSize) n with hmore | hall
  · exact resume_next hit callback hsize h hmore
  · exact resume_last hit callback (by rw [pieceSize]; omega) h hall

/-- A load of a source can be prepared if the encoding is known and nothing is in the way. -/
theorem prepare_source {e : Text.Encoding} (he : encodingNamed it.encoding = .ok e)
    (hsrc : m.sources[k]? = some src) :
    (∃ f, it.Hinders f ∧ it.prepare (.source k) .null m = .error f m) ∨
      ∃ load log, it.prepare (.source k) .null m = .ok load { m with log } ∧ load.source = k := by
  have hnamed : Act.ofExcept (encodingNamed it.encoding) m = .ok e m := by
    rw [he]
    rfl
  rw [prepare]
  rcases it.call_cases .readStream _ m with ⟨f, hop, hcall⟩ | hcall
  · exact .inl ⟨f, hop, hcall⟩
  rcases it.call_cases .pump _ m with ⟨f, hop, hcall'⟩ | hcall'
  · exact .inl ⟨f, hop, hcall.trans hcall'⟩
  have hsource : sourceOf (.source k) m = .ok k m := rfl
  have htotal : setTotal k .null m = .ok () m := rfl
  rw [hcall, hcall', bind_ok hsource, bind_ok htotal, bind_ok hnamed, bind_ok (sourceAt_eq hsrc)]
  exact .inr ⟨_, _, rfl, rfl⟩

/-- In its first turn a load reads its source once, if nothing is in the way. -/
theorem begin_paced (hsize : 0 < it.chunkSize) {e : Text.Encoding}
    (he : encodingNamed it.encoding = .ok e) (h : it.Abreast k n 0 src s m)
    (callback : Option String) :
    it.Does callback [] m ((it.begin (.source k) .null).after m) ∧
      it.Paced k n 1 [] (it.begin (.source k) .null m) := by
  have hbegin := it.begin_eq (.source k) .null
  rcases prepare_source he h.there.source with ⟨f, hop, hprepare⟩ | ⟨load, log, hprepare, hsource⟩
  · have hfails : it.begin (.source k) .null m = .error f m := by
      rw [hbegin, bind_error hprepare]
    rw [after, hfails]
    exact ⟨.idle rfl, .failed (.hinders hop) (Nat.zero_le _) h List.nil_prefix⟩
  · have hlogged : it.Abreast k n 0 src s { m with log } :=
      h.left (Machine.keepsSource_of_eq rfl rfl)
    obtain ⟨load', m', hadvance, hface, hmidway⟩ :=
      it.advanceRest_midway hsize hsource (Nat.zero_le _) hlogged
    have hwaits : it.begin (.source k) .null m = .ok (.waiting load') m' := by
      rw [hbegin, bind_ok hprepare]
      exact hadvance
    rw [after, hwaits]
    exact ⟨.idle hface, .waiting rfl hmidway rfl⟩

end Interpreter

end Gcode
