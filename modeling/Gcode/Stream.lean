import Gcode.Disk
import Gcode.Limits
import Gcode.Text.Encoding

/-!
Streams and sources. A stream is anything that can be read: text or bytes in memory, an open file,
or a reader that hands out chunks, at once or after waiting. A source is a stream with a name, a
total if one is known, and a count of what was read.
-/

namespace Gcode

open Gcode.Text

/-- What a reader does when it is asked: it hands out data of any kind, or gives up. -/
inductive Chunk where
  | data (x : Literal)
  | raises (f : Fault)
  deriving Repr

/-- What a stream still has to give. -/
inductive Supply where
  | text (rest : List Char)
  | bytes (rest : Bytes)
  | file (rest : Bytes)
  /-- The chunks of a reader. `waits` says how many turns it lets pass before it takes each of them;
  nothing if it takes its chunk at once and the turn is given up afterwards. -/
  | chunks (rest : List Chunk) (waits : Option Nat)
  deriving Repr

/-- A stream. -/
structure Stream where
  supply : Supply
  /-- The name that the stream itself has. -/
  label : Literal := .null
  /-- The name of its type, for a stream without a name. -/
  typeName : String
  /-- Can it be closed? -/
  closable : Bool := true
  /-- How often it was read. -/
  reads : Nat := 0
  /-- How often it was closed. -/
  closes : Nat := 0
  deriving Repr

namespace Stream

/-- What the stream reads from. -/
def medium (s : Stream) : Medium :=
  match s.supply with
  | .text _ => .textMemory
  | .bytes _ => .byteMemory
  | .file _ => .file
  | .chunks _ _ => .reader

/-- Cuts off what a read of the given size gets: everything if the size is negative. -/
def portion {α : Type} (size : Int) (xs : List α) : List α × List α :=
  if size < 0 then (xs, []) else (xs.take size.toNat, xs.drop size.toNat)

/-- What a stream that is not closed gives, and what is left of it. -/
def draw (size : Int) : Supply → Except Fault Literal × Supply
  | .text rest =>
    let (got, rest) := portion size rest
    (.ok (.text (String.ofList got)), .text rest)
  | .bytes rest =>
    let (got, rest) := portion size rest
    (.ok (.bytes got), .bytes rest)
  | .file rest =>
    let (got, rest) := portion size rest
    (.ok (.bytes got), .file rest)
  | .chunks [] waits => (.ok (.bytes []), .chunks [] waits)
  | .chunks (.data x :: rest) waits => (.ok x, .chunks rest waits)
  | .chunks (.raises f :: rest) waits => (.error f, .chunks rest waits)

/-- Why a read of the given size is refused, if it is. A reader does not look at the size; a file
sets aside a block of that size before it reads. -/
def refusal? (s : Stream) (size : Int) : Option Fault :=
  let isFile := decide (s.medium = .file)
  if s.medium ≠ .reader ∧ !Limits.isSize size then some .sizeOutOfRange
  else if isFile ∧ size < -1 then some .negativeLength
  else if s.closes ≠ 0 then some (.closed s.medium)
  else if isFile ∧ Limits.maxSize < size.toNat + Limits.blockHeader then some .blockTooLarge
  else if isFile ∧ Limits.noBlock ≤ size.toNat then some .noMemory
  else none

/-- The size of a read that is asked for by a value. A reader does not look at it; otherwise it must
be an integer, or nothing for all there is. -/
def sizeOf (s : Stream) (size : Literal) : Except Fault Int :=
  match size with
  | .int n => .ok n
  | .bool b => .ok (if b then 1 else 0)
  | .null => .ok (-1)
  | x => if s.medium = .reader then .ok (-1) else .error (.badSize x.typeName)

/-- Reads once. -/
def read (s : Stream) (size : Int) : Except Fault Literal × Stream :=
  let s := { s with reads := s.reads + 1 }
  match s.refusal? size with
  | some f => (.error f, s)
  | none =>
    let (got, supply) := draw size s.supply
    (got, { s with supply })

/-- How many turns a read lets pass before it takes its data. Nothing means that the data is taken
at once and the turn given up afterwards. -/
def waits (s : Stream) : Option Nat :=
  match s.supply with
  | .chunks _ waits => waits
  | _ => none

/-- How many chunks a reader still has. -/
def chunkCount (s : Stream) : Nat :=
  match s.supply with
  | .chunks rest _ => rest.length
  | _ => 0

/-- Closes a stream that can be closed, and leaves any other as it is. -/
def close (s : Stream) : Stream := if s.closable then { s with closes := s.closes + 1 } else s

/-- A stream over a text in memory. -/
def ofText (s : List Char) : Stream := { supply := .text s, typeName := "StringIO" }

/-- A stream over bytes in memory. -/
def ofBytes (b : Bytes) : Stream := { supply := .bytes b, typeName := "BytesIO" }

/-- A stream in memory over what a caller hands over; nothing counts as no bytes. -/
def ofLiteral : Literal → Except Fault Stream
  | .text s => .ok (ofText s.toList)
  | .bytes b => .ok (ofBytes b)
  | .byteArray b => .ok (ofBytes b)
  | .null => .ok (ofBytes [])
  | x => .error (.notBytes x.typeName)

/-- A stream over an open file. -/
def ofFile (b : Bytes) : Stream := { supply := .file b, typeName := "file" }

end Stream

/-- Data that a source accepts from its stream. -/
inductive Piece where
  | text (s : List Char)
  | bytes (b : Bytes)
  deriving DecidableEq, Repr

namespace Piece

/-- The length of the data in characters or bytes. -/
def length : Piece → Nat
  | .text s => s.length
  | .bytes b => b.length

/-- The text of the data. Bytes go through the decoder; text passes it by. -/
def decode (d : Decoder) : Piece → List Char × Decoder
  | .text s => (s, d)
  | .bytes b => d.feed b

/-- The data that a read gave; nothing counts as no bytes. -/
def ofLiteral? : Literal → Option Piece
  | .null => some (.bytes [])
  | .text s => some (.text s.toList)
  | .bytes b => some (.bytes b)
  | .byteArray b => some (.bytes b)
  | _ => none

end Piece

/-- A stream, by its number, with what is known about it. -/
structure Source where
  stream : Nat
  /-- The sources that stand between it and the stream, the innermost first. -/
  inner : List Nat := []
  total : Literal := .null
  name : Literal
  consumed : Nat := 0
  deriving Repr

/-- The name of a source: the one it is given, else the label of what it reads, else the name of its
type. What counts as nothing is no name. -/
def Source.nameFor (given label : Literal) (type : String) : Literal :=
  if !given.isNothing then given else if !label.isNothing then label else .text type

/-- The name of a source in messages. -/
def Source.title (s : Source) : String := s.name.display

/-- What a caller hands over to be loaded. -/
inductive Handle where
  | missing
  | unreadable (type : String)
  | stream (index : Nat)
  | source (index : Nat)
  deriving DecidableEq, Repr

/-- A name that stands for the encoding of the system, where files are read whole. -/
def systemEncodingName : String := "locale"

/-- The encoding of a name. -/
def encodingNamed (name : String) : Except Fault Encoding :=
  if name.contains (Char.ofNat 0) then .error .nulInEncodingName
  else
    match Encoding.ofName? name with
    | none => .error (.unknownEncoding name)
    | some e => .ok e

/-- The whole text of some bytes. Without bytes there is nothing to decode, and an encoding that is
unknown does not matter. -/
def decodeAll (encoding : String) (b : Bytes) : Except Fault (List Char) :=
  match encodingNamed encoding with
  | .ok e => .ok (e.decode b)
  | .error f => if b.isEmpty && f != .nulInEncodingName then .ok [] else .error f

/-- The whole text of a file. A file that cannot be opened is reported before an encoding that is
unknown, and after one that is no name. -/
def Disk.readText (d : Disk) (path : Literal) (encoding : String) : Except Fault (List Char) := do
  let p ← Path.ofLiteral path
  match if encoding = systemEncodingName then .ok .utf8 else encodingNamed encoding with
  | .error .nulInEncodingName => .error .nulInEncodingName
  | found =>
    let b ← d.openPath p (.cannotRead p.label p.shown)
    let e ← found
    pure (e.decode b)

end Gcode
