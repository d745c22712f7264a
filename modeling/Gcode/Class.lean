import Gcode.Class.Layout
import Gcode.Class.Order

/-!
Defining classes. A member that can be called answers to its own name if that is a command code, and
to every code it is tagged with; the command table of a class gives for each code the name of the
method, and of two classes the earlier one in the order has the last word. A class that has the root
of all interpreters behind it is a class of interpreters: its command table is made when it is
defined, and kept in the class.
-/

namespace Gcode.Class

open Gcode.Text

/-! ### Command tables -/

/-- Is the name a command code: `G` or `M` and digits? A line break may stand at the end. -/
def isCodeName (name : String) : Bool :=
  match name.toList with
  | c :: s =>
    let digits := if s.getLast? = some '\n' then s.dropLast else s
    (c == 'G' || c == 'M') && !digits.isEmpty && digits.all isDecimalDigit
  | [] => false

/-- The codes that a member answers to, if it can be called as it stands. -/
def codesOf (name : String) (m : Member) : List String :=
  if m.callable name then (if isCodeName name then [name] else []) ++ m.tags name else []

/-- Enters the members of one class. -/
def enter (table : Table String) (c : Class) : Table String :=
  c.members.entries.foldl
    (fun t m => (codesOf m.1 m.2).foldl (fun t code => t.set code m.1) t) table

/-- The classes behind a class, from the last to the class itself. -/
def ancestry (classes : List Class) (c : Class) : List Class :=
  c.order.reverse.filterMap (classes[·]?)

/-- The command table of a class: code to method name. A class has the last word over those behind
it. -/
def commandTable (classes : List Class) (c : Class) : Table String :=
  (ancestry classes c).foldl enter ∅

/-! ### What a class has without being told -/

/-- The name under which a class of interpreters keeps its command table. A member of that name
gives way to the table as soon as this is made. -/
def tableName : String := "_command_methods"

/-- Adds a member if there is none of its name. -/
def supply (members : Table Member) (m : String × Member) : Table Member :=
  if (members.get? m.1).isSome then members else members.set m.1 m.2

/-- The members of a class together with those that every class has. A class that says what is equal
to an instance, and not how to look an instance up, has nothing for the latter. -/
def complete (members : Table Member) (slots : Slots) : Table Member :=
  let own := [("__module__", .value "str")] ++ slots.members ++ [("__doc__", .value "NoneType")]
  let members := own.foldl supply members
  if (members.get? "__eq__").isSome then supply members ("__hash__", .value "NoneType")
  else members

/-! ### Definitions -/

/-- The number of the root of all interpreters. -/
def root : Nat := 2

/-- The operations of a class as its members. -/
def operations (notices : Bool) : List (String × Member) :=
  (Operation.all.filter (·.isNotice = notices)).map fun op => (op.name, .operation op)

/-- The classes that are there from the start: the one behind all others, the one that gives
notices, and the root of all interpreters. -/
def initial : List Class :=
  [{ name := "object", order := [0], layout := ⟨0, false, false⟩ },
   { name := Operation.notifierName, order := [1, 0], layout := ⟨0, true, true⟩,
     members := complete (Table.ofList (operations true)) { addsDict := true, addsWeak := true } },
   { name := Operation.interpreterName, order := [root, 1, 0], layout := ⟨0, true, true⟩,
     members := complete (Table.ofList (operations false ++
       [("__annotations__", .value "dict"), (tableName, .value "dict")])) {},
     commands := some ∅ }]

/-- The number of the last class of a name. The classes behind the root are not found by name. -/
def find (classes : List Class) (name : String) : Except Fault Nat :=
  match (classes.drop root).reverse.findIdx? (·.name = name) with
  | some i => .ok (classes.length - 1 - i)
  | none => .error (.unknownName name)

/-- The classes that some definitions stand for in the end: of each name the last one. -/
def named (classes : List Class) (specs : List ClassSpec) : List Class :=
  specs.filterMap fun spec => ((find classes spec.name).toOption).bind (classes[·]?)

/-- Makes the command table of a new class of interpreters. Other classes stay as they are. -/
def settle (classes : List Class) (c : Class) : Class :=
  if c.order.contains root then
    { c with
      commands := some (commandTable (classes ++ [c]) c)
      members := c.members.set tableName (.value "dict") }
  else c

/-- The full name that a class is given must be a text, and its cell can only be made by a
definition in full. -/
def checkTransient (members : Table Member) : Except Fault Unit := do
  if let some m := members.get? "__qualname__" then
    if m.typeName ≠ "str" then throw (.badFullName m.typeName)
  if let some m := members.get? "__classcell__" then throw (.badCell m.typeName)

/-- Every class behind a new one may have a say in its definition. -/
def checkDefinition (classes : List Class) (order : List Nat) : Except Fault Unit :=
  let found := memberIn? classes (order.filter (· ≠ root)) Operation.define.name
  match found.bind Member.refusal? with
  | some f => .error f
  | none => .ok ()

/-- Adds a class to those defined before it. -/
def define (classes : List Class) (spec : ClassSpec) : Except Fault (List Class) := do
  let members ← readMembers spec.members
  let bases ← spec.bases.mapM (find classes)
  let base ← primaryBase classes (bases.headD 0) bases.tail
  let layout := layoutOf classes base
  let others := (bases.filter (· ≠ base)).map (layoutOf classes)
  let slots ← readSlots spec members layout others
  if spec.name.contains '\x00' then throw .nulInClassName
  checkTransient members
  let order ← linearise classes (if bases.isEmpty then [0] else bases)
  checkDefinition classes order
  let c : Class :=
    { name := spec.name
      order := classes.length :: order
      layout := slots.layout classes.length layout
      members := complete (transientNames.foldl Table.erase members) slots }
  pure (classes ++ [settle classes c])

/-- The command codes of a class of interpreters, in ascending order. -/
def codes (classes : List Class) (c : Class) : Except Fault (List String) :=
  match (memberIn? classes c.order Operation.listCommands.name).bind Member.refusal? with
  | some f => .error f
  | none =>
    match c.commands with
    | some table => .ok table.sortedNames
    | none => .error (.noCommands c.name)

/-- What is logged when a command table of a class is made. -/
def tableRecord (c : Class) (table : Table String) : Log.Record :=
  ⟨.debug, .dispatch,
    "Command table for " ++ c.name ++ ": " ++ (Literal.list (table.sortedNames.map .text)).render⟩

/-- Defines classes one after the other, and gives what is logged about them. -/
def defineAll (classes : List Class) : List ClassSpec → Except Fault (List Class × List Log.Record)
  | [] => .ok (classes, [])
  | spec :: specs =>
    match define classes spec with
    | .error f => .error f
    | .ok classes =>
      let made := classes.getLast?.bind fun c => c.commands.map (tableRecord c)
      (defineAll classes specs).map fun r => (r.1, made.toList ++ r.2)

end Gcode.Class
