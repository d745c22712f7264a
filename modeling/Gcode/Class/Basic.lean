import Gcode.Log
import Gcode.Operation
import Gcode.Table
import Gcode.Text.Upper

/-!
Classes and their members. A method can be tagged with command codes; a member that is no method is
a plain value, an operation of the interpreter, a slot, which stands for a part that instances have
room for, or a descriptor. Whether a member can be called as it stands in its class, and whether
that can be called which an instance finds under its name, are two questions.
-/

namespace Gcode

open Gcode.Text

/-- What is found under the name of a member. -/
inductive Found where
  /-- A function, and the host code that it runs. -/
  | method (script : Option String)
  /-- Something that cannot be called, by the name of its type. -/
  | value (type : String)
  deriving DecidableEq, Repr

/-- A member that stands for something else, which it gives to whoever looks it up: a method of the
class, for instance, a function without an instance, or a value that is made at each look. -/
structure Descriptor where
  type : String
  /-- Can it be called as it stands in its class? -/
  callable : Bool
  /-- What an instance finds. -/
  onInstance : Found
  /-- What the class finds. -/
  onClass : Found
  deriving DecidableEq, Repr

/-- What a member of a class is. -/
inductive Member where
  /-- A plain value, which cannot be called, by the name of its type. -/
  | value (type : String)
  /-- A method with the codes it is tagged with, and the host code that it runs. -/
  | method (codes : List String) (script : Option String)
  | operation (op : Operation)
  | slot
  /-- A descriptor with the codes it is tagged with. -/
  | descriptor (d : Descriptor) (codes : List String)
  deriving DecidableEq, Repr

namespace Member

/-- The type of a member in messages. -/
def typeName : Member → String
  | .value type => type
  | .slot => "member_descriptor"
  | .descriptor d _ => d.type
  | _ => "function"

/-- Why a member cannot be called on the class itself, if it cannot. -/
def refusal? (m : Member) : Option Fault :=
  match m with
  | .value _ | .slot => some (.notCallable m.typeName)
  | .descriptor d _ =>
    match d.onClass with
    | .value type => some (.notCallable type)
    | .method _ => none
  | _ => none

/-- Names under which a method is made one of the class. -/
def classMethodNames : List String := ["__init_subclass__", "__class_getitem__"]

/-- Names under which a method belongs to the class and not to its instances, and has no tags. -/
def classNames : List String := "__new__" :: classMethodNames

/-- Can a member be called as it stands in its class? A method of the class cannot: whoever looks it
up finds something else, which can. -/
def callable (name : String) : Member → Bool
  | .value _ | .slot => false
  | .method _ _ => !classMethodNames.contains name
  | .operation op => !op.ofClass
  | .descriptor d _ => d.callable

/-- The codes that a member carries. -/
def tags (name : String) : Member → List String
  | .method codes _ => if classNames.contains name then [] else codes
  | .descriptor _ codes => codes
  | _ => []

end Member

/-- What the instances of a class are made of. -/
structure Layout where
  /-- The class by which the slots are laid out. -/
  solid : Nat
  /-- Can an instance take parts of any name? -/
  hasDict : Bool
  /-- Can an instance be referred to without being kept? -/
  hasWeak : Bool
  deriving DecidableEq, Repr

/-- A class whose bases have been put in order. Classes are numbered in the order of definition. -/
structure Class where
  name : String
  /-- The class itself and those behind it. -/
  order : List Nat
  layout : Layout
  members : Table Member := ∅
  /-- The command table that a class of interpreters keeps. -/
  commands : Option (Table String) := none
  deriving Repr

/-- What a member is written as. -/
inductive MemberBody where
  | value (x : Literal)
  /-- A method with its tags, one list for each time it is tagged. -/
  | method (tags : List (List Literal)) (script : Option String)
  /-- A descriptor with its tags. -/
  | descriptor (d : Descriptor) (tags : List (List Literal))

/-- A member as it is written. -/
structure MemberSpec where
  name : String
  body : MemberBody

/-- A class as it is written. -/
structure ClassSpec where
  name : String
  /-- The names of the bases. Without one the class behind all others is the base. -/
  bases : List String
  members : List MemberSpec

/-- The member of a name as it is written: the last one, if there are several. -/
def ClassSpec.body? (spec : ClassSpec) (name : String) : Option MemberBody :=
  (spec.members.reverse.find? (·.name = name)).map (·.body)

namespace Class

/-- The name of a class by its number. -/
def nameOf (classes : List Class) (c : Nat) : String := (classes[c]?.map (·.name)).getD ""

/-- The order of classes behind a class by its number. -/
def orderOf (classes : List Class) (c : Nat) : List Nat := (classes[c]?.map (·.order)).getD []

/-- The layout of a class by its number. -/
def layoutOf (classes : List Class) (c : Nat) : Layout :=
  (classes[c]?.map (·.layout)).getD ⟨0, false, false⟩

/-- The first member of a name in the order of classes. -/
def memberIn? (classes : List Class) (order : List Nat) (name : String) : Option Member :=
  order.findSome? fun i => classes[i]?.bind fun c => c.members.get? name

/-! ### Tags -/

/-- One code of a tag. -/
def readCode : Literal → Except Fault String
  | .text s => if s.isEmpty then .error (.badCode (Literal.text s).render) else .ok (upper s)
  | x => .error (.badCode x.render)

/-- The codes of a tag, of which there must be one at least. -/
def readTag (codes : List Literal) : Except Fault (List String) :=
  if codes.isEmpty then .error .noCodes else codes.mapM readCode

/-- A member of a class with its name. -/
def readMember (spec : MemberSpec) : Except Fault (String × Member) :=
  match spec.body with
  | .value x => .ok (spec.name, .value x.typeName)
  | .method tags script =>
    match tags.mapM readTag with
    | .error f => .error f
    | .ok codes => .ok (spec.name, .method codes.flatten script)
  | .descriptor d tags =>
    match tags.mapM readTag with
    | .error f => .error f
    | .ok codes => .ok (spec.name, .descriptor d codes.flatten)

/-- The members of a class. A name that comes twice keeps its place and takes the later member. -/
def readMembers (specs : List MemberSpec) : Except Fault (Table Member) :=
  (specs.mapM readMember).map Table.ofList

end Class

end Gcode
