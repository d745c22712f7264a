import Gcode.Interpreter

/-!
Loading chunk by chunk. A load reads its source again and again; the lines that a chunk completes
are announced and carried out one by one, and then the progress is announced. A read of data gives
up the turn: what comes after it belongs to the next turn. A turn therefore takes a load from one
such point to the next, or to its end, which is announced too. A fault of loading ends the load and
is announced instead.
-/

namespace Gcode

open Gcode.Text

/-- What a turn of a load comes to. -/
inductive Turn where
  | waiting (load : Load)
  | finished (lines : List Line)

namespace Interpreter

/-! ### Sources -/

/-- The source of a number. -/
def sourceAt (i : Nat) : Act Source := do
  match (← get).sources[i]? with
  | some src => pure src
  | none => throw .noSource

/-- The stream of a number. -/
def streamAt (i : Nat) : Act Stream := do
  match (← get).streams[i]? with
  | some s => pure s
  | none => throw .noSource

/-- Adds a source. Gives its number. -/
def addSource (src : Source) : Act Nat := do
  let m ← get
  set (m.addSource src)
  pure m.sources.length

/-- Makes a source of a stream. Gives its number. -/
def wrapStream (stream : Nat) (total name : Literal) : Act Nat := do
  let s ← streamAt stream
  addSource { stream, total, name := Source.nameFor name s.label s.typeName }

/-- Makes a source of another source. Gives its number. -/
def wrapSource (source : Nat) (total name : Literal) : Act Nat := do
  let src ← sourceAt source
  addSource
    { stream := src.stream, inner := src.inner ++ [source], total,
      name := Source.nameFor name src.name "" }

/-- Makes a source of what a handle stands for. Gives its number. -/
def wrap (h : Handle) (total name : Literal) : Act Nat :=
  match h with
  | .missing => throw .noSource
  | .unreadable type => throw (.notReadable type)
  | .stream i => wrapStream i total name
  | .source i => wrapSource i total name

/-- Adds a stream and makes a source of it. Gives the number of the source. -/
def addStreamSource (s : Stream) (total name : Literal) : Act Nat := do
  let m ← get
  set (m.addStream s)
  wrapStream m.streams.length total name

/-- The source that a handle stands for; anything else gets a new one. -/
def sourceOf (h : Handle) : Act Nat :=
  match h with
  | .source i => pure i
  | h => wrap h .null .null

/-- A fault as sources report it that stand one around the other, the innermost first. That a load
was cancelled is no failure to read, and passes them as it is. -/
def reported (names : List String) (f : Fault) : Fault :=
  if f.kind = .cancelled then f else names.foldl (fun f name => .readFailed name f) f

/-- Reports a failure to read under the names of the sources that it passes. -/
def failRead {α : Type} (source : Nat) (f : Fault) : Act α := do
  let m ← get
  throw (reported (m.sourceNames (m.passage source)) f)

/-- Takes data from the stream of a source. -/
def take (source : Nat) (size : Int) : Act Literal := do
  let src ← sourceAt source
  let s ← streamAt src.stream
  let (got, s) := s.read size
  modify fun m => m.updateStream src.stream fun _ => s
  match got with
  | .ok x => pure x
  | .error f => failRead source f

/-- Accepts data that was taken. Every source that it passes counts it; the innermost one refuses
what is neither text nor bytes. -/
def accept (source : Nat) (data : Literal) : Act Piece := do
  let m ← get
  match Piece.ofLiteral? data, m.sourceNames (m.passage source) with
  | some piece, _ => do
    set (m.countRead (m.passage source) piece.length)
    pure piece
  | none, name :: names => throw (reported names (.wrongData name data.typeName))
  | none, [] => throw .noSource

/-- Reads a source to the end of one read, whatever turns pass on the way. -/
def readSource (source : Nat) (size : Literal) : Act Piece := do
  let src ← sourceAt source
  let s ← streamAt src.stream
  match s.sizeOf size with
  | .error f => failRead source f
  | .ok size => do
    let data ← take source size
    accept source data

/-- Makes a source of text or bytes in memory. -/
def openText (x : Literal) : Act Nat :=
  match x with
  | .null => addStreamSource (Stream.ofText []) (.int 0) (.text "<string>")
  | .text s => addStreamSource (Stream.ofText s.toList) (.int s.length) (.text "<string>")
  | .bytes b => addStreamSource (Stream.ofBytes b) (.int b.length) (.text "<bytes>")
  | .byteArray b => addStreamSource (Stream.ofBytes b) (.int b.length) (.text "<bytes>")
  | x => throw (.notText x.typeName)

/-- Opens a file as a source. -/
def openFile (it : Interpreter) (path : Literal) : Act Nat := do
  let p ← Act.ofExcept (Path.ofLiteral path)
  let b ← Act.ofExcept (it.disk.openPath p (.cannotOpen p.label p.shown))
  Act.log .debug .sources ("Opened " ++ p.label ++ " (" ++ toString b.length ++ " bytes)")
  addStreamSource (Stream.ofFile b) (.int b.length) (.text p.label)

/-! ### Turns -/

/-- Announces lines and carries them out, one after the other. -/
def deliver (it : Interpreter) : List Line → Act Unit
  | [] => pure ()
  | l :: ls => do
    it.call .deliver do
      let _ ← it.emit .data [.line l]
      let _ ← it.interpret l.words
    it.deliver ls

/-- Announces how much of the source has been read. -/
def announceProgress (it : Interpreter) (source : Nat) : Act Unit := do
  let src ← sourceAt source
  let _ ← it.emit .progress [.progress src.consumed src.total]

/-- Takes a piece of the document into a load. -/
def ingest (it : Interpreter) (load : Load) (piece : Piece) : Act Load := do
  let (text, decoder) := piece.decode load.decoder
  let (reading, reader) := load.reader.feed text
  let lines ← linesOf reading
  it.deliver lines
  it.announceProgress load.source
  pure { load with decoder, reader, lines := load.lines ++ lines }

/-- Takes in the end of the document. Gives all lines of the load. -/
def finish (it : Interpreter) (load : Load) : Act (List Line) := do
  let (reading, reader) := load.reader.feed load.decoder.finish
  let completed ← linesOf reading
  it.deliver completed
  let (reading, _) := reader.flush
  let last ← linesOf reading
  it.deliver last
  pure (load.lines ++ completed ++ last)

/-- Goes on with the data of a read. No data is the end of the document. -/
def receive (it : Interpreter) (load : Load) (data : Literal) : Act (Load ⊕ List Line) := do
  let piece ← accept load.source data
  if piece.length = 0 then
    let lines ← it.finish load
    pure (.inr lines)
  else
    let load ← it.ingest load piece
    pure (.inl load)

/-- Begins the next read. A reader that answers without letting a turn pass is read on in the same
turn, `fuel` times at most. -/
def proceed (it : Interpreter) : (fuel : Nat) → Load → Act Turn
  | fuel, load => do
    let src ← sourceAt load.source
    let s ← streamAt src.stream
    match s.waits with
    | none =>
      let data ← take load.source it.chunkSize
      pure (.waiting { load with wait := .taken data })
    | some (left + 1) => pure (.waiting { load with wait := .turns left })
    | some 0 =>
      match fuel with
      | 0 => pure (.waiting { load with wait := .turns 0 })
      | fuel + 1 =>
        let data ← take load.source it.chunkSize
        match ← it.receive load data with
        | .inl load => it.proceed fuel load
        | .inr lines => pure (.finished lines)

/-- How often a source can be read in one turn. -/
def readsLeft (source : Nat) : Act Nat := do
  let src ← sourceAt source
  let s ← streamAt src.stream
  pure (s.chunkCount + 1)

/-- Goes on with the data of a read up to the next read that gives up the turn. -/
def advanceWith (it : Interpreter) (load : Load) (data : Literal) : Act Turn := do
  match ← it.receive load data with
  | .inl load => it.proceed (← readsLeft load.source) load
  | .inr lines => pure (.finished lines)

/-- Goes on with a load that gave up its turn. -/
def resume (it : Interpreter) (load : Load) : Act Turn :=
  match load.wait with
  | .taken data => it.advanceWith load data
  | .turns 0 => do
    let data ← take load.source it.chunkSize
    it.advanceWith load data
  | .turns (left + 1) => pure (.waiting { load with wait := .turns left })

/-- Begins a load. A total that is given replaces the one that the source knows. -/
def begin (it : Interpreter) (h : Handle) (total : Literal) : Act Turn :=
  it.call .readStream <| it.call .pump do
    let source ← sourceOf h
    match total with
    | .null => pure ()
    | total => modify fun m => m.updateSource source fun s => { s with total }
    let encoding ← Act.ofExcept (encodingNamed it.encoding)
    let src ← sourceAt source
    Act.log .debug .loading ("Loading G-code from " ++ src.title)
    let strict := (← get).strict
    it.proceed (← readsLeft source)
      { source, reader := { strict }, decoder := { encoding }, wait := .turns 0 }

/-! ### Reports -/

/-- Announces a fault of loading. -/
def announceFault (it : Interpreter) (f : Fault) : Act Unit := it.report f.text (.fault f)

/-- Runs a turn and announces how the load ends, if it does: a fault of loading, or the lines. Any
other fault passes unannounced. -/
def announced (it : Interpreter) (turn : Act Turn) : Act Turn := do
  match ← turn.attempt with
  | .error f => do
    if f.isLoad then it.announceFault f
    throw f
  | .ok (.waiting load) => pure (.waiting load)
  | .ok (.finished lines) => do
    logLoaded lines.length
    let _ ← it.emit .ended [.results lines]
    pure (.finished lines)

end Interpreter

end Gcode
