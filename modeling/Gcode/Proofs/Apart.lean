import Gcode.Proofs.Schedules
import Mathlib.Data.List.Basic

/-!
Loads that are apart. Every load that has not ended reads a stream of its own, which is the stream
of its source and of the sources that stand between them. What others do leaves a load alone if it
keeps off that stream: code outside the library does so if it stays out of all that is there
(`Machine.StaysOut`), and another load if it keeps to its own stream (`Machine.Frame`). Main
statement: then a load sees the same of its source as before (`Spares.sees`).
-/

namespace Gcode

open Act

/-- What a load sees of its source: the names of the sources that its data passes, how much has been
counted, the total, and the stream. -/
structure View where
  titles : List String
  consumed : Nat
  total : Literal
  stream : Stream

/-- What is seen of a source that is made of a stream. -/
def View.ofStream (s : Stream) (total name : Literal) : View where
  titles := [(Source.nameFor name s.label s.typeName).display]
  consumed := 0
  total := total
  stream := s

/-- What a load of a handle sees, and the number of the stream that it reads. -/
inductive Machine.Sees (m : Machine) : Handle → Nat → View → Prop
  | stream {i : Nat} {s : Stream} : m.streams[i]? = some s →
      Sees m (.stream i) i (.ofStream s .null .null)
  | source {i : Nat} {src : Source} {s : Stream} : m.Reads i src s →
      Sees m (.source i) src.stream ⟨m.sourceNames (m.passage i), src.consumed, src.total, s⟩

/-- Why there is nothing to read behind a handle, if there is not. -/
def Handle.refusal? : Handle → Option Fault
  | .missing => some .noSource
  | .unreadable type => some (.notReadable type)
  | .stream _ | .source _ => none

/-- What a task reads, or is to read. A task that opens its source reads nothing before that. -/
def Task.handle? (task : Task) : Option Handle :=
  match task.stage, task.origin with
  | .reading load, _ => some (.source load.source)
  | .scheduled, .stream h => if h.refusal?.isSome then none else some h
  | _, _ => none

theorem Task.handle?_reading {task : Task} {load : Load} (hstage : task.stage = .reading load) :
    task.handle? = some (.source load.source) := by
  rw [handle?, hstage]

theorem Task.handle?_given {task : Task} {h : Handle} (hstage : task.stage = .scheduled)
    (horigin : task.origin = .stream h) (hreadable : h.refusal? = none) : task.handle? = some h := by
  simp [handle?, hstage, horigin, hreadable]

/-- A task reads a stream, or is to read it. -/
def Machine.Uses (m : Machine) (i t : Nat) : Prop :=
  ∃ task h v, m.tasks[i]? = some task ∧ task.handle? = some h ∧ m.Sees h t v

/-- Sources stand around earlier ones of the same stream, the tasks have something to read, and no
two of them read the same stream. -/
structure Machine.Orderly (m : Machine) : Prop where
  inner : ∀ (i : Nat) (src : Source), m.sources[i]? = some src → ∀ j ∈ src.inner,
    j < i ∧ ∃ src' : Source, m.sources[j]? = some src' ∧ src'.stream = src.stream
  there : ∀ (i : Nat) (task : Task) (h : Handle), m.tasks[i]? = some task →
    task.handle? = some h → ∃ t v, m.Sees h t v
  apart : ∀ i j t, m.Uses i t → m.Uses j t → i = j

/-- Sources are the same, except for what the sources of a stream have counted and for their totals.
-/
def Machine.SourcesKeep (t : Nat) (m m' : Machine) : Prop :=
  ∀ (k : Nat) (src : Source), m.sources[k]? = some src →
    ∃ src' : Source, m'.sources[k]? = some src' ∧ src'.stream = src.stream ∧
      src'.inner = src.inner ∧ src'.name = src.name ∧ (src.stream ≠ t → src' = src)

/-- Everything that was there is there as it was, except for a stream and its sources. -/
structure Machine.Spares (t : Nat) (m m' : Machine) : Prop where
  strict : m'.strict = m.strict
  streams : ∀ (k : Nat) (s : Stream), k ≠ t → m.streams[k]? = some s → m'.streams[k]? = some s
  grows : m.streams.length ≤ m'.streams.length
  sources : m.SourcesKeep t m'
  tasks : m.tasks <+: m'.tasks
  orderly : m.Orderly → m'.Orderly

/-- What the load of a stream does: other things are spared, and tasks that were started meanwhile
do not read that stream. -/
structure Machine.Frame (t : Nat) (m m' : Machine) : Prop extends m.Spares t m' where
  fresh : ∀ (i : Nat) (task : Task) (h : Handle), m.tasks.length ≤ i → m'.tasks[i]? = some task →
    task.handle? = some h → ∃ t' v, m'.Sees h t' v ∧ t' ≠ t

/-- Everything that was there is there as it was, and the loads are as orderly as before. -/
structure Machine.LeavesLoads (m m' : Machine) : Prop where
  strict : m'.strict = m.strict
  streams : m.streams <+: m'.streams
  sources : m.sources <+: m'.sources
  tasks : m.tasks <+: m'.tasks
  orderly : m.Orderly → m'.Orderly

/-- What stays out of the loads that are there: tasks that it starts read streams that it adds. -/
structure Machine.StaysOut (m m' : Machine) : Prop extends m.LeavesLoads m' where
  fresh : ∀ (i : Nat) (task : Task) (h : Handle), m.tasks.length ≤ i → m'.tasks[i]? = some task →
    task.handle? = some h → ∃ t v, m'.Sees h t v ∧ m.streams.length ≤ t

theorem getElem?_grown {α : Type} {xs ys : List α} (h : xs <+: ys) {k : Nat} {x : α}
    (hx : xs[k]? = some x) : ys[k]? = some x := by
  obtain ⟨zs, rfl⟩ := h
  exact (List.getElem?_append_left (List.getElem?_eq_some_iff.1 hx).1).trans hx

namespace Machine

variable {m m' m'' : Machine} {h : Handle} {t t' : Nat} {v v' : View} {i j : Nat} {task : Task}
  {src : Source} {s : Stream}

/-! ### What is seen -/

theorem Sees.unique (hv : m.Sees h t v) (hv' : m.Sees h t' v') : t = t' ∧ v = v' := by
  cases hv with
  | stream hs =>
    cases hv' with
    | stream hs' =>
      cases hs.symm.trans hs'
      exact ⟨rfl, rfl⟩
  | source hm =>
    cases hv' with
    | source hm' =>
      cases hm.source.symm.trans hm'.source
      cases hm.stream.symm.trans hm'.stream
      exact ⟨rfl, rfl⟩

theorem Sees.refusal?_eq (hv : m.Sees h t v) : h.refusal? = none := by
  cases hv <;> rfl

theorem Sees.lt_length (hv : m.Sees h t v) : t < m.streams.length := by
  cases hv with
  | stream hs => exact (List.getElem?_eq_some_iff.1 hs).1
  | source hm => exact (List.getElem?_eq_some_iff.1 hm.stream).1

theorem Uses.lt_length (h : m.Uses i t) : t < m.streams.length := by
  obtain ⟨_, _, _, -, -, hv⟩ := h
  exact hv.lt_length

/-- A stream stays where it is if the streams only grow in number. -/
theorem Sees.lasts (hv : m.Sees h t v) (hgrows : m.streams.length ≤ m'.streams.length)
    (hsources : m.SourcesKeep t' m') : ∃ v', m'.Sees h t v' := by
  have hlt : t < m'.streams.length := Nat.lt_of_lt_of_le hv.lt_length hgrows
  cases hv with
  | stream hs => exact ⟨_, .stream (List.getElem?_eq_getElem hlt)⟩
  | @source i src _ hm =>
    obtain ⟨src', hsrc', hstream, -⟩ := hsources i src hm.source
    rw [← hstream] at hlt ⊢
    exact ⟨_, .source ⟨hsrc', List.getElem?_eq_getElem hlt⟩⟩

theorem sourceNames_eq {is : List Nat}
    (h : ∀ k ∈ is, m'.sources[k]?.map Source.name = m.sources[k]?.map Source.name) :
    m'.sourceNames is = m.sourceNames is := by
  rw [sourceNames, sourceNames]
  refine List.filterMap_congr fun k hk => ?_
  have hname := congrArg (Option.map Literal.display) (h k hk)
  rwa [Option.map_map, Option.map_map] at hname

/-- The names of the sources that data passes stay the same. -/
theorem sourceNames_passage_eq (hm : m.Orderly) (hsources : m.SourcesKeep t m')
    (h : m.sources[i]? = some src) : m'.sourceNames (m'.passage i) = m.sourceNames (m.passage i) := by
  obtain ⟨src', hsrc', -, hinner, -⟩ := hsources i src h
  have hpassage : m'.passage i = m.passage i := by
    rw [passage, passage, h, hsrc', Option.map_some, Option.map_some, hinner]
  rw [hpassage]
  refine sourceNames_eq fun k hk => ?_
  obtain ⟨found, hfound⟩ : ∃ found, m.sources[k]? = some found := by
    rw [passage, h] at hk
    rcases List.mem_append.1 hk with hk | hk
    · obtain ⟨-, found, hfound, -⟩ := hm.inner i src h k hk
      exact ⟨found, hfound⟩
    · rw [List.mem_singleton.1 hk]
      exact ⟨src, h⟩
  obtain ⟨kept, hkept, -, -, hname, -⟩ := hsources k found hfound
  rw [hfound, hkept, Option.map_some, Option.map_some, hname]

/-- What is spared is seen as before. -/
theorem Spares.sees (hspares : m.Spares t m') (hm : m.Orderly) (hv : m.Sees h t' v) (ht : t' ≠ t) :
    m'.Sees h t' v := by
  cases hv with
  | stream hs => exact .stream (hspares.streams _ _ ht hs)
  | @source i src s hreads =>
    obtain ⟨src', hsrc', -, -, -, heq⟩ := hspares.sources i src hreads.source
    cases heq ht
    rw [← sourceNames_passage_eq hm hspares.sources hreads.source]
    exact .source ⟨hsrc', hspares.streams _ _ ht hreads.stream⟩

theorem uses_of_uses (hm : m.Orderly) (htask : m'.tasks[i]? = m.tasks[i]?)
    (hlasts : ∀ {h t v}, m.Sees h t v → ∃ v', m'.Sees h t v') (huses : m'.Uses i t) : m.Uses i t := by
  obtain ⟨task, h, v, hi, hhandle, hv⟩ := huses
  rw [htask] at hi
  obtain ⟨t₀, v₀, hv₀⟩ := hm.there i task h hi hhandle
  obtain ⟨v', hv'⟩ := hlasts hv₀
  obtain ⟨rfl, -⟩ := hv.unique hv'
  exact ⟨task, h, v₀, hi, hhandle, hv₀⟩

/-! ### Frames -/

theorem SourcesKeep.refl (t : Nat) (m : Machine) : m.SourcesKeep t m :=
  fun _ src h => ⟨src, h, rfl, rfl, rfl, fun _ => rfl⟩

theorem SourcesKeep.trans (h : m.SourcesKeep t m') (h' : m'.SourcesKeep t m'') :
    m.SourcesKeep t m'' := by
  intro k src hsrc
  obtain ⟨src', hsrc', hstream, hinner, hname, hsame⟩ := h k src hsrc
  obtain ⟨src'', hsrc'', hstream', hinner', hname', hsame'⟩ := h' k src' hsrc'
  refine ⟨src'', hsrc'', hstream'.trans hstream, hinner'.trans hinner, hname'.trans hname,
    fun ht => ?_⟩
  rw [hsame' (by rwa [hstream]), hsame ht]

theorem Spares.trans (h : m.Spares t m') (h' : m'.Spares t m'') : m.Spares t m'' where
  strict := h'.strict.trans h.strict
  streams k s hk hs := h'.streams k s hk (h.streams k s hk hs)
  grows := Nat.le_trans h.grows h'.grows
  sources := h.sources.trans h'.sources
  tasks := h.tasks.trans h'.tasks
  orderly hm := h'.orderly (h.orderly hm)

theorem Frame.refl (t : Nat) (m : Machine) : m.Frame t m where
  strict := rfl
  streams _ _ _ hs := hs
  grows := Nat.le_refl _
  sources := .refl t m
  tasks := List.prefix_rfl
  orderly hm := hm
  fresh _ _ _ hi htask := absurd hi (Nat.not_le_of_lt (List.getElem?_eq_some_iff.1 htask).1)

theorem getElem?_before {α : Type} {xs ys : List α} (h : xs <+: ys) {k : Nat} (hk : k < xs.length) :
    ys[k]? = xs[k]? := by
  obtain ⟨zs, rfl⟩ := h
  exact List.getElem?_append_left hk

theorem Frame.trans (h : m.Frame t m') (h' : m'.Frame t m'') : m.Frame t m'' where
  toSpares := h.toSpares.trans h'.toSpares
  fresh i task handle hi htask hhandle := by
    by_cases hlt : i < m'.tasks.length
    · rw [getElem?_before h'.tasks hlt] at htask
      obtain ⟨t', v, hv, ht⟩ := h.fresh i task handle hi htask hhandle
      obtain ⟨v', hv'⟩ := hv.lasts h'.grows h'.sources
      exact ⟨t', v', hv', ht⟩
    · exact h'.fresh i task handle (Nat.le_of_not_lt hlt) htask hhandle

theorem LeavesLoads.spares (h : m.LeavesLoads m') (t : Nat) : m.Spares t m' where
  strict := h.strict
  streams _ _ _ hs := getElem?_grown h.streams hs
  grows := h.streams.length_le
  sources _ src hsrc := ⟨src, getElem?_grown h.sources hsrc, rfl, rfl, rfl, fun _ => rfl⟩
  tasks := h.tasks
  orderly := h.orderly

/-- What leaves the loads alone leaves everything as it is seen. -/
theorem LeavesLoads.sees (h : m.LeavesLoads m') (hm : m.Orderly) {handle : Handle}
    (hv : m.Sees handle t v) : m'.Sees handle t v :=
  (h.spares (t + 1)).sees hm hv (Nat.ne_of_lt (Nat.lt_succ_self t))

theorem LeavesLoads.frame (h : m.LeavesLoads m') (htasks : m'.tasks = m.tasks) (t : Nat) :
    m.Frame t m' where
  toSpares := h.spares t
  fresh i task _ hi htask := by
    rw [htasks] at htask
    exact absurd hi (Nat.not_le_of_lt (List.getElem?_eq_some_iff.1 htask).1)

theorem StaysOut.frame (h : m.StaysOut m') (ht : t < m.streams.length) : m.Frame t m' where
  toSpares := h.toLeavesLoads.spares t
  fresh i task handle hi htask hhandle := by
    obtain ⟨t', v, hv, ht'⟩ := h.fresh i task handle hi htask hhandle
    exact ⟨t', v, hv, by omega⟩

theorem StaysOut.refl (m : Machine) : m.StaysOut m where
  strict := rfl
  streams := List.prefix_rfl
  sources := List.prefix_rfl
  tasks := List.prefix_rfl
  orderly hm := hm
  fresh _ _ _ hi htask := absurd hi (Nat.not_le_of_lt (List.getElem?_eq_some_iff.1 htask).1)

theorem StaysOut.trans (h : m.StaysOut m') (h' : m'.StaysOut m'') : m.StaysOut m'' where
  strict := h'.strict.trans h.strict
  streams := h.streams.trans h'.streams
  sources := h.sources.trans h'.sources
  tasks := h.tasks.trans h'.tasks
  orderly hm := h'.orderly (h.orderly hm)
  fresh i task handle hi htask hhandle := by
    have hspares := h'.toLeavesLoads.spares 0
    by_cases hlt : i < m'.tasks.length
    · rw [getElem?_before h'.tasks hlt] at htask
      obtain ⟨t, v, hv, ht⟩ := h.fresh i task handle hi htask hhandle
      obtain ⟨v', hv'⟩ := hv.lasts hspares.grows hspares.sources
      exact ⟨t, v', hv', ht⟩
    · obtain ⟨t, v, hv, ht⟩ := h'.fresh i task handle (Nat.le_of_not_lt hlt) htask hhandle
      exact ⟨t, v, hv, Nat.le_trans h.streams.length_le ht⟩

theorem steady_staysOut : Steady StaysOut := ⟨StaysOut.refl, StaysOut.trans⟩

/-! ### What a load does to its stream -/

/-- The loads stay orderly if no task changes and no source that was there. -/
theorem orderly_of_sources (hm : m.Orderly) (htasks : m'.tasks = m.tasks)
    (hgrows : m.streams.length ≤ m'.streams.length) (hsources : m.SourcesKeep t m')
    (hnew : ∀ (i : Nat) (src : Source), m.sources.length ≤ i → m'.sources[i]? = some src →
      ∀ j ∈ src.inner, j < i ∧ ∃ src' : Source, m'.sources[j]? = some src' ∧
        src'.stream = src.stream) : m'.Orderly where
  inner i src hsrc j hj := by
    by_cases hi : i < m.sources.length
    · obtain ⟨src₁, hsrc₁, hstream, hinner, -⟩ := hsources i _ (List.getElem?_eq_getElem hi)
      cases hsrc.symm.trans hsrc₁
      rw [hinner] at hj
      obtain ⟨hlt, found, hfound, heq⟩ := hm.inner i _ (List.getElem?_eq_getElem hi) j hj
      obtain ⟨kept, hkept, hkeeps, -⟩ := hsources j found hfound
      exact ⟨hlt, kept, hkept, by rw [hkeeps, heq, hstream]⟩
    · exact hnew i src (Nat.le_of_not_lt hi) hsrc j hj
  there i task h htask hhandle := by
    rw [htasks] at htask
    obtain ⟨t', v, hv⟩ := hm.there i task h htask hhandle
    exact ⟨t', hv.lasts hgrows hsources⟩
  apart i j t' hi hj := by
    have hback : ∀ {k}, m'.Uses k t' → m.Uses k t' :=
      uses_of_uses hm (by rw [htasks]) fun hv => hv.lasts hgrows hsources
    exact hm.apart i j t' (hback hi) (hback hj)

/-- What does nothing to streams, sources and tasks stays out of the loads. -/
theorem staysOut_of_eq (hstrict : m'.strict = m.strict) (hstreams : m'.streams = m.streams)
    (hsources : m'.sources = m.sources) (htasks : m'.tasks = m.tasks) : m.StaysOut m' where
  strict := hstrict
  streams := hstreams ▸ List.prefix_rfl
  sources := hsources ▸ List.prefix_rfl
  tasks := htasks ▸ List.prefix_rfl
  orderly hm := by
    refine orderly_of_sources (t := 0) hm htasks (Nat.le_of_eq (by rw [hstreams]))
      (fun k src hsrc => ⟨src, by rw [hsources, hsrc], rfl, rfl, rfl, fun _ => rfl⟩)
      fun i src hi hsrc => ?_
    rw [hsources] at hsrc
    exact absurd hi (Nat.not_le_of_lt (List.getElem?_eq_some_iff.1 hsrc).1)
  fresh i task _ hi htask := by
    rw [htasks] at htask
    exact absurd hi (Nat.not_le_of_lt (List.getElem?_eq_some_iff.1 htask).1)

theorem staysOut_log (m : Machine) (log : List Log.Record) : m.StaysOut { m with log } :=
  staysOut_of_eq rfl rfl rfl rfl

theorem frame_of_sources (htasks : m'.tasks = m.tasks) (hstrict : m'.strict = m.strict)
    (hstreams : ∀ (k : Nat) (s : Stream), k ≠ t → m.streams[k]? = some s → m'.streams[k]? = some s)
    (hgrows : m.streams.length ≤ m'.streams.length) (hsources : m.SourcesKeep t m')
    (hnew : ∀ (i : Nat) (src : Source), m.sources.length ≤ i → m'.sources[i]? = some src →
      ∀ j ∈ src.inner, j < i ∧ ∃ src' : Source, m'.sources[j]? = some src' ∧
        src'.stream = src.stream) : m.Frame t m' where
  strict := hstrict
  streams := hstreams
  grows := hgrows
  sources := hsources
  tasks := htasks ▸ List.prefix_rfl
  orderly hm := orderly_of_sources hm htasks hgrows hsources hnew
  fresh i task _ hi htask := by
    rw [htasks] at htask
    exact absurd hi (Nat.not_le_of_lt (List.getElem?_eq_some_iff.1 htask).1)

theorem frame_updateStream (t : Nat) (f : Stream → Stream) (m : Machine) :
    m.Frame t (m.updateStream t f) := by
  refine frame_of_sources rfl rfl (fun k s hk hs => ?_) ?_ (.refl t m) fun i src hi hsrc => ?_
  · simp [updateStream, hs, Ne.symm hk]
  · simp [updateStream]
  · exact absurd hi (Nat.not_le_of_lt (List.getElem?_eq_some_iff.1 hsrc).1)

theorem length_countRead (is : List Nat) (n : Nat) : ∀ m : Machine,
    (m.countRead is n).sources.length = m.sources.length := by
  induction is with
  | nil => exact fun _ => rfl
  | cons i is ih =>
    intro m
    rw [countRead, List.foldl_cons]
    refine (ih _).trans ?_
    simp [updateSource]

/-- Data that a load has taken is counted by sources of its stream. -/
theorem frame_countRead (hm : m.Orderly) (h : m.sources[i]? = some src) (n : Nat) :
    m.Frame src.stream (m.countRead (m.passage i) n) := by
  have hother : ∀ (k : Nat) (found : Source), m.sources[k]? = some found →
      found.stream ≠ src.stream → (m.passage i).count k = 0 := by
    intro k found hfound hne
    refine List.count_eq_zero_of_not_mem fun hk => hne ?_
    rw [passage, h] at hk
    rcases List.mem_append.1 hk with hk | hk
    · obtain ⟨-, found', hfound', heq⟩ := hm.inner i src h k hk
      cases hfound.symm.trans hfound'
      exact heq
    · rw [List.mem_singleton.1 hk] at hfound
      cases h.symm.trans hfound
      rfl
  have hsources : m.SourcesKeep src.stream (m.countRead (m.passage i) n) := by
    intro k found hfound
    refine ⟨_, countRead_sources _ n hfound, rfl, rfl, rfl, fun hne => ?_⟩
    rw [hother k found hfound hne, Nat.zero_mul]
    rfl
  have hcore : (m.countRead (m.passage i) n).core = m.core := countRead_core _ n m
  have hstreams := countRead_streams (m.passage i) n m
  refine frame_of_sources (eq_of_core hcore _ fun _ => rfl) (eq_of_core hcore _ fun _ => rfl)
    (fun k s _ hs => by rw [hstreams, hs]) (Nat.le_of_eq (by rw [hstreams])) hsources
    fun j found hj hfound => ?_
  have hlt := (List.getElem?_eq_some_iff.1 hfound).1
  rw [length_countRead] at hlt
  exact absurd hj (Nat.not_le_of_lt hlt)

theorem frame_addStream (s : Stream) (t : Nat) (m : Machine) : m.Frame t (m.addStream s) := by
  refine frame_of_sources rfl rfl (fun k s' _ hs => ?_) ?_ (.refl t m) fun i src hi hsrc => ?_
  · exact getElem?_grown (List.prefix_append _ _) hs
  · simp [addStream]
  · exact absurd hi (Nat.not_le_of_lt (List.getElem?_eq_some_iff.1 hsrc).1)

/-- A source of a stream that stands around nothing. -/
theorem frame_addSource (src : Source) (hinner : src.inner = []) (t : Nat) (m : Machine) :
    m.Frame t (m.addSource src) := by
  have hsources : m.sources <+: (m.addSource src).sources := List.prefix_append _ _
  refine frame_of_sources rfl rfl (fun k s _ hs => hs) (Nat.le_refl _) (fun k found hfound => ?_)
    fun i found hi hfound j hj => ?_
  · exact ⟨found, getElem?_grown hsources hfound, rfl, rfl, rfl, fun _ => rfl⟩
  · have hlt := (List.getElem?_eq_some_iff.1 hfound).1
    rw [addSource, List.length_append, List.length_singleton] at hlt
    obtain rfl : i = m.sources.length := by omega
    rw [addSource, List.getElem?_concat_length] at hfound
    cases hfound
    rw [hinner] at hj
    cases hj

end Machine

end Gcode
