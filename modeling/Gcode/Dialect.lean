import Gcode.Class

/-!
Dialects: which method stands behind a command code. The command table gives the name of the method;
what can be called by that name is another question, because a class may have a plain value, a slot
or an operation of the same name in front of the method, and an interpreter keeps some names for its
own parts. In the same way a plain value or a slot may stand in front of an operation.
-/

namespace Gcode

/-- A method that can be called. -/
structure Method where
  /-- The class that defines it. -/
  owner : String
  name : String
  script : Option String := none
  deriving DecidableEq, Repr

/-- What a name stands for in an interpreter. -/
inductive Attribute where
  | method (m : Method)
  | operation (op : Operation)
  /-- What any object can do. Given the arguments of a command it does nothing, or refuses. -/
  | inherent (refusal : Option String)
  /-- A plain value, by the name of its type. -/
  | value (type : String)
  | slot
  /-- A part of the interpreter itself. -/
  | part
  deriving DecidableEq, Repr

/-- The methods of an interpreter. -/
structure Dialect where
  /-- The class of the interpreter. -/
  owner : String := Operation.interpreterName
  /-- Command code to method name. -/
  table : Table String := ∅
  /-- What the names of its classes stand for. -/
  attributes : Table Attribute := ∅
  deriving Repr

namespace Dialect

/-- The names that every interpreter keeps for its own parts. A method of such a name cannot be
called. -/
def ownNames : List String :=
  ["handlers", "strict", "state", "resolver", "dispatcher", "task", "_listeners"]

/-- What a member of a class stands for. -/
def attributeOf (c : Class) (name : String) : Member → Attribute
  | .value type => .value type
  | .method _ script => .method ⟨c.name, name, script⟩
  | .operation op => .operation op
  | .slot => .slot
  | .descriptor d _ =>
    match d.onInstance with
    | .method script => .method ⟨c.name, name, script⟩
    | .value type => .value type

/-- Enters the attributes of one class. -/
def enter (attributes : Table Attribute) (c : Class) : Table Attribute :=
  c.members.entries.foldl (fun t m => t.set m.1 (attributeOf c m.1 m.2)) attributes

/-- The name of what is called for an attribute that is not there. -/
def lastResort : String := "__getattr__"

/-- What comes of looking into a slot with nothing in it. -/
def emptySlot (owner : String) (attributes : Table Attribute) (name : String) : Fault :=
  match attributes.get? lastResort with
  | some (.value type) => .notCallable type
  | some .slot => .noAttribute owner lastResort
  | _ => .noAttribute owner name

/-- Why the attribute of a name cannot be called on an instance, if it cannot. -/
def refusalAt? (owner : String) (attributes : Table Attribute) (name : String) : Option Fault :=
  match attributes.get? name with
  | some (.value type) => some (.notCallable type)
  | some .slot => some (emptySlot owner attributes name)
  | _ => none

/-- Fails if what an instance does by itself under a name cannot be called. Nothing else is asked
when a slot of that name is empty. -/
def checkBuiltIn (owner : String) (attributes : Table Attribute) (name : String) :
    Except Fault Unit :=
  match attributes.get? name with
  | some (.value type) => .error (.notCallable type)
  | some .slot => .error (.noAttribute owner name)
  | _ => .ok ()

/-- Fails if the lookup of an attribute on an instance cannot be called. -/
def checkLookup (owner : String) (attributes : Table Attribute) : Except Fault Unit :=
  match refusalAt? owner attributes "__getattribute__" with
  | some f => .error f
  | none => .ok ()

/-- Fails if instances of a class cannot be made at all. -/
def checkMaker (classes : List Class) (c : Class) : Except Fault Unit :=
  match (Class.memberIn? classes c.order "__new__").bind Member.refusal? with
  | some f => .error f
  | none => .ok ()

/-- The dialect of a class of interpreters. -/
def ofClass (classes : List Class) (c : Class) : Except Fault Dialect := do
  let attributes := (Class.ancestry classes c).foldl enter ∅
  checkMaker classes c
  checkBuiltIn c.name attributes Operation.create.name
  match c.commands with
  | none => throw (.notInterpreter c.name)
  | some table =>
    checkBuiltIn c.name attributes "__setattr__"
    checkLookup c.name attributes
    pure
      { owner := c.name
        table
        attributes := ownNames.foldl (fun t n => t.set n .part) attributes }

/-- What the method of a code comes to: the name it is entered under, and what that stands for. -/
def attribute? (d : Dialect) (code : String) : Option (String × Attribute) :=
  (d.table.get? code).bind fun name => (d.attributes.get? name).map fun a => (name, a)

/-- Why an operation cannot be called, if it cannot. -/
def obstacle? (d : Dialect) (op : Operation) : Option Fault :=
  refusalAt? d.owner d.attributes op.name

/-- What any object of a type can do. -/
def inherent (type : String) : List (String × Attribute) :=
  let compares := ["__eq__", "__ne__", "__lt__", "__le__", "__gt__", "__ge__", "__subclasshook__"]
  let takesNothing := ["__dir__", "__getstate__", "__init_subclass__", "__reduce__", "__sizeof__"]
  let describes := ["__hash__", "__repr__", "__str__"]
  let namesPart := ["__delattr__", "__getattribute__"]
  compares.map (·, .inherent none) ++
  takesNothing.map (fun n =>
    (n, .inherent (some (type ++ "." ++ n ++ "() takes no arguments (1 given)")))) ++
  describes.map (·, .inherent (some "expected 0 arguments, got 1")) ++
  namesPart.map (·, .inherent (some "attribute name must be string, not 'dict'")) ++
  [("__setattr__", .inherent (some " expected 2 arguments, got 1")),
   ("__class__", .inherent (some (type ++ "() takes no arguments"))),
   ("__init__", .inherent (some
     (type ++ ".__init__() takes exactly one argument (the instance to initialize)"))),
   ("__new__", .inherent (some "object.__new__(X): X is not a type object (dict)")),
   ("__format__", .inherent (some "__format__() argument must be str, not dict")),
   ("__reduce_ex__", .inherent (some "'dict' object cannot be interpreted as an integer"))]

end Dialect

end Gcode
