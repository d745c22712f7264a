import Gcode.Text.Quoted

/-!
Text from bytes. Three encodings are known. What is not well formed is replaced: in UTF-8 every
maximal part of a sequence that breaks off gives one replacement character, in ASCII every byte
beyond it. A decoder takes one byte at a time and keeps what it has of an unfinished sequence, so
that bytes may come in pieces cut anywhere. The first two bytes of a surrogate are no part of any
character, but a decoder keeps them too until it knows what follows.
-/

namespace Gcode.Text

/-- The encodings of text. -/
inductive Encoding where
  | utf8
  | latin1
  | ascii
  deriving DecidableEq, Repr

/-- The character that stands for bytes that are no text. -/
def replacement : Char := Char.ofNat 0xFFFD

namespace Encoding

/-- A character that a name keeps. -/
def isPlain (c : Char) : Bool := c.isAlphanum || c == '.'

/-- The kept characters in lower case, with one underscore for each gap between them. -/
def joinGaps : (inGap : Bool) → List Char → List Char
  | _, [] => []
  | inGap, c :: s =>
    if isPlain c then (if inGap then ['_', c.toLower] else [c.toLower]) ++ joinGaps false s
    else joinGaps true s

/-- A name in plain form: `UTF-8` and ` utf 8` both become `utf_8`. -/
def plainName (name : String) : String :=
  String.ofList (joinGaps false (name.toList.dropWhile (!isPlain ·)))

/-- The proper name of an encoding, in plain form. -/
def properName : Encoding → String
  | .utf8 => "utf_8"
  | .latin1 => "latin_1"
  | .ascii => "ascii"

/-- The other names of an encoding, in plain form. -/
def aliases : Encoding → List String
  | .utf8 => ["utf8", "u8", "utf", "utf8_ucs2", "utf8_ucs4", "cp65001"]
  | .latin1 =>
    ["latin1", "latin", "l1", "8859", "cp819", "csisolatin1", "ibm819", "iso8859", "iso8859_1",
     "iso_8859_1", "iso_8859_1_1987", "iso_ir_100"]
  | .ascii =>
    ["us_ascii", "us", "646", "ansi_x3.4_1968", "ansi_x3_4_1968", "ansi_x3.4_1986", "cp367",
     "csascii", "ibm367", "iso646_us", "iso_646.irv_1991", "iso_ir_6"]

/-- All encodings. -/
def all : List Encoding := [.utf8, .latin1, .ascii]

/-- The encoding with this alias. -/
def ofAlias? (plain : String) : Option Encoding := all.find? (·.aliases.contains plain)

/-- A plain name with its dots written as gaps. -/
def undotted (plain : String) : String := plain.map fun c => if c = '.' then '_' else c

/-- The encoding of a name. An alias may have dots for its gaps, a proper name may not. -/
def ofName? (name : String) : Option Encoding :=
  let plain := plainName name
  ofAlias? plain <|> ofAlias? (undotted plain) <|> all.find? (·.properName = plain)

end Encoding

/-- What a decoder keeps of the bytes it has taken. -/
inductive Pending where
  /-- A sequence that has begun: how many bytes it still needs, the bounds of the next one, and the
  value of those it has. -/
  | sequence (owed low high value : Nat)
  /-- The first two bytes of a surrogate. -/
  | surrogate
  deriving DecidableEq, Repr

/-- The text for kept bytes that turn out to be no character. -/
def Pending.broken : Pending → List Char
  | .sequence _ _ _ _ => [replacement]
  | .surrogate => [replacement, replacement]

/-- A decoder between two bytes. -/
structure Decoder where
  encoding : Encoding
  pending : Option Pending := none
  deriving DecidableEq, Repr

namespace Decoder

/-- A byte at the start of a UTF-8 sequence. -/
def utf8First (b : Nat) : List Char × Option Pending :=
  if b < 0x80 then ([Char.ofNat b], none)
  else if 0xC2 ≤ b ∧ b ≤ 0xDF then ([], some (.sequence 1 0x80 0xBF (b % 32)))
  else if b = 0xE0 then ([], some (.sequence 2 0xA0 0xBF (b % 16)))
  else if b = 0xED then ([], some (.sequence 2 0x80 0x9F (b % 16)))
  else if 0xE1 ≤ b ∧ b ≤ 0xEF then ([], some (.sequence 2 0x80 0xBF (b % 16)))
  else if b = 0xF0 then ([], some (.sequence 3 0x90 0xBF (b % 8)))
  else if b = 0xF4 then ([], some (.sequence 3 0x80 0x8F (b % 8)))
  else if 0xF1 ≤ b ∧ b ≤ 0xF3 then ([], some (.sequence 3 0x80 0xBF (b % 8)))
  else ([replacement], none)

/-- A byte of UTF-8 after those kept, if it continues them. Only a sequence whose next byte ends at
`0x9F` can turn into a surrogate. -/
def utf8Next? : Pending → Nat → Option (List Char × Option Pending)
  | .surrogate, _ => none
  | .sequence owed low high value, b =>
    if low ≤ b ∧ b ≤ high then
      let value := value * 64 + b % 64
      some (if owed ≤ 1 then ([Char.ofNat value], none)
        else ([], some (.sequence (owed - 1) 0x80 0xBF value)))
    else if high = 0x9F ∧ 0xA0 ≤ b ∧ b ≤ 0xBF then some ([], some .surrogate)
    else none

/-- A byte of UTF-8. One that does not continue what is kept starts a new sequence. -/
def utf8Step : Option Pending → Nat → List Char × Option Pending
  | none, b => utf8First b
  | some p, b => (utf8Next? p b).getD (p.broken ++ (utf8First b).1, (utf8First b).2)

/-- Takes one byte. -/
def step (d : Decoder) (byte : UInt8) : List Char × Decoder :=
  let b := byte.toNat
  match d.encoding with
  | .utf8 =>
    let (cs, next) := utf8Step d.pending b
    (cs, { d with pending := next })
  | .latin1 => ([Char.ofNat b], d)
  | .ascii => ([if b < 0x80 then Char.ofNat b else replacement], d)

/-- Takes some bytes and gives the text they complete. -/
def feed (d : Decoder) : Bytes → List Char × Decoder
  | [] => ([], d)
  | b :: bs =>
    let (cs, d) := d.step b
    let (rest, d) := d.feed bs
    (cs ++ rest, d)

/-- The text for what is left at the end of the input. -/
def finish (d : Decoder) : List Char := (d.pending.map Pending.broken).getD []

end Decoder

/-- The bytes of a text in UTF-8. -/
def utf8Bytes (s : String) : Bytes := s.toUTF8.toList

/-- The text of complete data. -/
def Encoding.decode (e : Encoding) (bs : Bytes) : List Char :=
  let (cs, d) := Decoder.feed { encoding := e } bs
  cs ++ d.finish

/-! ### Feeding -/

@[simp]
theorem Decoder.feed_nil (d : Decoder) : d.feed [] = ([], d) := rfl

theorem Decoder.feed_cons (d : Decoder) (b : UInt8) (bs : Bytes) :
    d.feed (b :: bs) = ((d.step b).1 ++ ((d.step b).2.feed bs).1, ((d.step b).2.feed bs).2) := rfl

/-- Bytes may be fed in pieces. -/
theorem Decoder.feed_append (d : Decoder) (xs ys : Bytes) :
    d.feed (xs ++ ys) =
      ((d.feed xs).1 ++ ((d.feed xs).2.feed ys).1, ((d.feed xs).2.feed ys).2) := by
  induction xs generalizing d with
  | nil => simp
  | cons b xs ih => simp [Decoder.feed_cons, ih]

end Gcode.Text
