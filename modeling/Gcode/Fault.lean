import Gcode.Literal
import Gcode.Text.Encoding

/-!
Faults: everything that can end an operation early. A fault is a cause with the data that belongs to
it; its kind and its wording are functions of the cause. The faults of loading (of the source, of
the text, and those that host code raises as such) form a class of their own, `Fault.isLoad`,
because a load reports exactly these.
-/

namespace Gcode

/-- The kinds of fault that a caller can tell apart. -/
inductive Kind where
  | load
  | source
  | tokenize
  | value
  | runtime
  | zeroDivision
  | type
  | lookup
  | index
  | attribute
  | fileMissing
  | notDirectory
  | isDirectory
  | system
  | overflow
  | memory
  | key
  | cancelled
  deriving DecidableEq, Repr

/-- Is it a kind of load fault? -/
def Kind.isLoad : Kind → Bool
  | .load | .source | .tokenize => true
  | _ => false

/-- What load faults of a kind begin with. -/
def Kind.heading : Kind → String
  | .source => "Source Error"
  | .tokenize => "Tokenize Error"
  | _ => "G-code Error"

/-- Why a file cannot be opened. -/
inductive FileFault where
  | missing
  | notDirectory
  | isDirectory
  | nameTooLong
  deriving DecidableEq, Repr

namespace FileFault

/-- The kind of a file fault. -/
def kind : FileFault → Kind
  | .missing => .fileMissing
  | .notDirectory => .notDirectory
  | .isDirectory => .isDirectory
  | .nameTooLong => .system

/-- The wording of a file fault for a path in written form. -/
def message (shown : String) : FileFault → String
  | .missing => "[Errno 2] No such file or directory: " ++ shown
  | .notDirectory => "[Errno 20] Not a directory: " ++ shown
  | .isDirectory => "[Errno 21] Is a directory: " ++ shown
  | .nameTooLong => "[Errno 36] File name too long: " ++ shown

end FileFault

/-- Why a template cannot be filled. -/
inductive TemplateFault where
  /-- It has more slots than there are texts. -/
  | notEnoughTexts
  /-- It has fewer slots than there are texts. -/
  | tooManyTexts
  /-- It ends in the middle of a slot. -/
  | incomplete
  /-- A slot asks for a text by name. -/
  | needsNames
  /-- A slot takes its width or precision from a text. -/
  | starNeedsInteger
  | widthTooBig
  | precisionTooBig
  /-- A slot is for a single character. -/
  | needsCharacter
  /-- A slot is for a number in decimal. -/
  | needsNumber (mark : Char)
  /-- A slot is for an integer in another base. -/
  | needsInteger (mark : Char)
  /-- A slot is for a number with a fraction. -/
  | needsReal
  /-- The mark of a slot is unknown. -/
  | unknownMark (mark : Char) (index : Nat)
  deriving DecidableEq, Repr

namespace TemplateFault

/-- The kind of a template fault: the template itself is wrong, or it does not go with the texts. -/
def kind : TemplateFault → Kind
  | .incomplete | .widthTooBig | .precisionTooBig | .unknownMark _ _ => .value
  | _ => .type

/-- A mark in messages. -/
def shownMark (mark : Char) : Char := if 0x1F ≤ mark.toNat ∧ mark.toNat < 0x7F then mark else '?'

/-- The wording of a template fault. -/
def message : TemplateFault → String
  | .notEnoughTexts => "not enough arguments for format string"
  | .tooManyTexts => "not all arguments converted during string formatting"
  | .incomplete => "incomplete format"
  | .needsNames => "format requires a mapping"
  | .starNeedsInteger => "* wants int"
  | .widthTooBig => "width too big"
  | .precisionTooBig => "precision too big"
  | .needsCharacter => "%c requires int or char"
  | .needsNumber mark =>
    "%" ++ String.singleton mark ++ " format: a real number is required, not str"
  | .needsInteger mark => "%" ++ String.singleton mark ++ " format: an integer is required, not str"
  | .needsReal => "must be real number, not str"
  | .unknownMark mark index =>
    "unsupported format character '" ++ String.singleton (shownMark mark) ++ "' (0x" ++
      String.ofList (Nat.toDigits 16 mark.toNat) ++ ") at index " ++ toString index

end TemplateFault

/-- Why the instances of a class cannot be laid out. -/
inductive LayoutFault where
  /-- Two bases have slots of their own. -/
  | conflict
  /-- The list of slots is no list. -/
  | notIterable (type : String)
  /-- A slot is no text. -/
  | notText (type : String)
  /-- A slot is no identifier. -/
  | notIdentifier
  /-- There is room for parts of any name already. -/
  | secondDict
  /-- There is room for references already. -/
  | secondWeak
  /-- A slot has the name of another member. -/
  | taken (shown : String)
  deriving DecidableEq, Repr

namespace LayoutFault

/-- The kind of a layout fault. -/
def kind : LayoutFault → Kind
  | .taken _ => .value
  | _ => .type

/-- The wording of a layout fault. -/
def message : LayoutFault → String
  | .conflict => "multiple bases have instance lay-out conflict"
  | .notIterable type => "'" ++ type ++ "' object is not iterable"
  | .notText type => "__slots__ items must be strings, not '" ++ type ++ "'"
  | .notIdentifier => "__slots__ must be identifiers"
  | .secondDict => "__dict__ slot disallowed: we already got one"
  | .secondWeak =>
    "__weakref__ slot disallowed: either we already got one, or __itemsize__ != 0"
  | .taken shown => shown ++ " in __slots__ conflicts with class variable"

end LayoutFault

/-- What a stream reads from. -/
inductive Medium where
  | textMemory
  | byteMemory
  | file
  | reader
  deriving DecidableEq, Repr

/-- What a closed stream answers to a read. -/
def Medium.closedMessage : Medium → String
  | .textMemory => "I/O operation on closed file"
  | .byteMemory => "I/O operation on closed file."
  | .file => "read of closed file"
  | .reader => "reader is closed"

/-- A cause that ends an operation early. -/
inductive Fault where
  /-- A load was given no source. -/
  | noSource
  /-- A load was given something without a way to read it. -/
  | notReadable (type : String)
  /-- Reading the named source failed. -/
  | readFailed (source : String) (reason : Fault)
  /-- The named source gave something that is neither text nor bytes. -/
  | wrongData (source type : String)
  /-- No path was given. -/
  | noPath
  /-- What was given is no path. -/
  | badPath (shown : String)
  /-- A file to be streamed cannot be opened. -/
  | cannotOpen (path shown : String) (reason : FileFault)
  /-- A file to be read whole cannot be opened. -/
  | cannotRead (path shown : String) (reason : FileFault)
  /-- A line holds text that is neither word nor comment. -/
  | unexpectedText (stray text : String) (line : Option Int)
  /-- Host code or a reader gave up. -/
  | raised (kind : Kind) (message : String) (line : Option Int)
  /-- Host code said that an iteration is at its end. -/
  | exhausted (message : String)
  /-- A numeral is not read as an integer. -/
  | badInteger (text : String) (refusal : Integer.Refusal)
  /-- There is no event of this name. -/
  | unknownEvent (name : String)
  /-- There is no encoding of this name. -/
  | unknownEncoding (name : String)
  /-- The name of an encoding holds the character NUL. -/
  | nulInEncodingName
  /-- A path holds the character NUL. -/
  | nulInPath
  /-- A closed stream was read. -/
  | closed (medium : Medium)
  /-- A file was asked for a negative number of bytes. -/
  | negativeLength
  /-- The size of a read is no integer. -/
  | badSize (type : String)
  /-- The size of a read does not fit in a word. -/
  | sizeOutOfRange
  /-- A block of bytes would be larger than any size. -/
  | blockTooLarge
  /-- There is no block of memory of the size asked for. -/
  | noMemory
  /-- Something that has no way to be closed was to be closed. -/
  | notClosable (type : String)
  /-- What stands for an operation cannot be called. -/
  | notCallable (type : String)
  /-- An operation that takes no arguments was given one. -/
  | tooManyArguments (operation : String)
  /-- An operation was given its first argument only. -/
  | missingArguments (operation : String) (names : List String)
  /-- There is room for a part of an instance, but nothing in it. -/
  | noAttribute (type name : String)
  /-- The instances of a class cannot be laid out. -/
  | layout (reason : LayoutFault)
  /-- The full name of a class is no text. -/
  | badFullName (type : String)
  /-- The cell of a class is something else. -/
  | badCell (type : String)
  /-- Something that is no text was to be read as one. -/
  | notText (type : String)
  /-- Something that is no text was to be added to the pending text. -/
  | notJoinable (type : String)
  /-- Something that is neither text nor bytes was to be kept in memory. -/
  | notBytes (type : String)
  /-- A method was tagged with no command code. -/
  | noCodes
  /-- A method was tagged with something that is no command code. -/
  | badCode (shown : String)
  /-- The bases of a class have no consistent order. -/
  | noOrder (heads : List String)
  /-- The name of a class holds the character NUL. -/
  | nulInClassName
  /-- A class names a base twice. -/
  | repeatedBase (name : String)
  /-- A class that is no class of interpreters was asked for its commands. -/
  | noCommands (name : String)
  /-- An interpreter was to be made from a class that is no class of interpreters. -/
  | notInterpreter (name : String)
  /-- Nothing is known by this name. -/
  | unknownName (name : String)
  /-- A group has no word. -/
  | emptyGroup
  /-- Something that is no line, and so has no words, was to be carried out. -/
  | noWords (type : String)
  /-- A template cannot be filled. -/
  | template (reason : TemplateFault)
  /-- There is no event loop to start a load on. -/
  | noLoop
  /-- There is no load to cancel. -/
  | noTask
  /-- The load was cancelled. -/
  | cancelled
  deriving DecidableEq, Repr

namespace Fault

/-- The kind of a fault. The end of an iteration has no kind of its own: whoever waits for a load
sees it as a fault of the run. -/
def kind : Fault → Kind
  | .noSource | .notReadable _ | .readFailed _ _ | .wrongData _ _ | .noPath | .badPath _
  | .cannotOpen _ _ _ | .cannotRead _ _ _ => .source
  | .unexpectedText _ _ _ => .tokenize
  | .raised kind _ _ => kind
  | .badInteger _ _ | .unknownEvent _ | .nulInPath | .closed _ | .negativeLength | .noCodes
  | .badCode _ | .nulInClassName | .nulInEncodingName => .value
  | .sizeOutOfRange | .blockTooLarge => .overflow
  | .noMemory => .memory
  | .unknownEncoding _ => .lookup
  | .notText _ | .notJoinable _ | .notBytes _ | .noOrder _ | .repeatedBase _ | .notInterpreter _
  | .badSize _ | .notCallable _ | .tooManyArguments _ | .missingArguments _ _ | .badCell _
  | .badFullName _ => .type
  | .layout reason => reason.kind
  | .template reason => reason.kind
  | .emptyGroup => .index
  | .unknownName _ => .key
  | .noLoop | .exhausted _ => .runtime
  | .noTask | .noWords _ | .noAttribute _ _ | .notClosable _ | .noCommands _ => .attribute
  | .cancelled => .cancelled

/-- Is it a fault of loading? -/
def isLoad (f : Fault) : Bool := f.kind.isLoad

/-- A fault as it leaves what gives up its turn. Such a thing is itself run like an iteration, so
that the end of another one must not pass for its own. -/
def leaving : Fault → Fault
  | .exhausted _ => .raised .runtime "coroutine raised StopIteration" none
  | f => f

@[simp]
theorem isLoad_leaving (f : Fault) : f.leaving.isLoad = f.isLoad := by
  cases f <;> rfl

/-- Only the end of an iteration leaves as another fault. -/
theorem leaving_cases (f : Fault) : f.leaving = f ∨ ∃ message, f = .exhausted message ∧
    f.leaving = .raised .runtime "coroutine raised StopIteration" none := by
  cases f
  case exhausted message => exact .inr ⟨message, rfl, rfl⟩
  all_goals exact .inl rfl

/-- A fault of loading leaves as it is. -/
theorem leaving_of_isLoad {f : Fault} (h : f.isLoad = true) : f.leaving = f := by
  cases f <;> first | rfl | cases h

/-- The line that a fault of the text belongs to. -/
def line? : Fault → Option Int
  | .unexpectedText _ _ line => line
  | .raised .tokenize _ line => line
  | _ => none

/-- The kind of the fault behind a fault of loading. -/
def cause? : Fault → Option Kind
  | .readFailed _ reason => some reason.kind
  | .cannotOpen _ _ reason | .cannotRead _ _ reason => some reason.kind
  | _ => none

/-- What stands before the message of a fault. -/
def heading (kind : Kind) (line : Option Int) : String :=
  match kind.isLoad, line with
  | false, _ => ""
  | true, none => kind.heading ++ ": "
  | true, some n => kind.heading ++ " at line " ++ toString n ++ ": "

/-- The first characters of a text that is too long for a message. -/
def shortened (length : Nat) (s : String) : String := String.ofList (s.toList.take length)

/-- The text of the first bytes of a text that is too long for a message. A character cut in two is
replaced. -/
def clipped (size : Nat) (s : String) : String :=
  String.ofList (Text.Encoding.utf8.decode ((Text.utf8Bytes s).take size))

/-- The text of the first bytes of a message. Nothing is left of a message that is cut in the middle
of a character. -/
def clippedWhole (size : Nat) (s : String) : String :=
  let first := clipped size s
  if Text.utf8Bytes first = (Text.utf8Bytes s).take size then first else ""

/-- The message of a fault, without its heading. -/
def message : Fault → String
  | .noSource => "No source given"
  | .notReadable type => "Source " ++ type ++ " is not readable"
  | .readFailed source reason =>
    "Failed to read " ++ source ++ ": " ++ heading reason.kind reason.line? ++ reason.message
  | .wrongData source type =>
    "Source " ++ source ++ " returned " ++ type ++ ", expected str or bytes"
  | .noPath => "No file path given"
  | .badPath shown => "Invalid file path: " ++ shown
  | .cannotOpen path shown reason => "Cannot open " ++ path ++ ": " ++ reason.message shown
  | .cannotRead path shown reason => "Cannot read " ++ path ++ ": " ++ reason.message shown
  | .unexpectedText stray text _ => "Unexpected text '" ++ stray ++ "' in '" ++ text ++ "'"
  | .raised _ message _ | .exhausted message => message
  | .badInteger text .malformed =>
    "invalid literal for int() with base 10: " ++
      shortened 200 (Literal.quoted text)
  | .badInteger _ (.tooLong digits) =>
    "Exceeds the limit (" ++ toString Integer.maxDigits ++
      " digits) for integer string conversion: value has " ++ toString digits ++
      " digits; use sys.set_int_max_str_digits() to increase the limit"
  | .unknownEvent name =>
    "Unknown event '" ++ name ++ "', expected one of data, progress, end, error"
  | .unknownEncoding name => "unknown encoding: " ++ name
  | .nulInEncodingName => "embedded null character"
  | .nulInPath => "embedded null byte"
  | .closed medium => medium.closedMessage
  | .negativeLength => "read length must be non-negative or -1"
  | .badSize type => "argument should be integer or None, not '" ++ type ++ "'"
  | .sizeOutOfRange => "cannot fit 'int' into an index-sized integer"
  | .blockTooLarge => "byte string is too large"
  | .noMemory => ""
  | .notClosable type => "'" ++ type ++ "' object has no attribute 'close'"
  | .notCallable type => "'" ++ type ++ "' object is not callable"
  | .tooManyArguments operation =>
    operation ++ "() takes 1 positional argument but 2 were given"
  | .missingArguments operation names =>
    operation ++ "() missing " ++ toString names.length ++ " required positional argument" ++
      (if names.length = 1 then "" else "s") ++ ": " ++
      " and ".intercalate (names.map Literal.quoted)
  | .noAttribute type name =>
    "'" ++ clipped 200 type ++ "' object has no attribute '" ++ name ++ "'"
  | .layout reason => reason.message
  | .badCell type => "__classcell__ must be a nonlocal cell, not <class '" ++ type ++ "'>"
  | .badFullName type => "type __qualname__ must be a str, not " ++ type
  | .notText type => "initial_value must be str or None, not " ++ type
  | .notJoinable type => "can only concatenate str (not \"" ++ type ++ "\") to str"
  | .notBytes type => "a bytes-like object is required, not '" ++ type ++ "'"
  | .noCodes => "command() needs at least one command code"
  | .badCode shown => "Invalid command code: " ++ shown
  | .noOrder heads =>
    clippedWhole 999 ("Cannot create a consistent method resolution\norder (MRO) for bases " ++
      ", ".intercalate heads)
  | .nulInClassName => "type name must not contain null characters"
  | .repeatedBase name => "duplicate base class " ++ name
  | .noCommands name =>
    "type object '" ++ clipped 50 name ++ "' has no attribute 'list_command_methods'"
  | .notInterpreter name => clipped 200 name ++ "() takes no arguments"
  | .unknownName name => Literal.quoted name
  | .emptyGroup => "list index out of range"
  | .noWords type => "'" ++ type ++ "' object has no attribute 'words'"
  | .template reason => reason.message
  | .noLoop => "no running event loop"
  | .noTask => "'NoneType' object has no attribute 'cancel'"
  | .cancelled => ""

/-- The full text of a fault. -/
def text (f : Fault) : String := heading f.kind f.line? ++ f.message

end Fault

end Gcode
