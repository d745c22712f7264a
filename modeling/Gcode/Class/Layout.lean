import Gcode.Class.Basic
import Gcode.Text.Identifier

/-!
The layout of instances. A class may list slots, which are parts that its instances have room for.
Two bases with slots of their own cannot be joined unless one of them is behind the other. Without
such a list an instance takes parts of any name, and can be referred to without being kept; with a
list it can do so only if a base allows it or the list says so.
-/

namespace Gcode.Class

open Gcode.Text

/-- The first base, or a later one whose slots go beyond it: the base that a layout builds on. -/
def primaryBase (classes : List Class) : (base : Nat) → List Nat → Except Fault Nat
  | base, [] => .ok base
  | base, b :: bs =>
    let winner := (layoutOf classes base).solid
    let candidate := (layoutOf classes b).solid
    if (orderOf classes winner).contains candidate then primaryBase classes base bs
    else if (orderOf classes candidate).contains winner then primaryBase classes b bs
    else .error (.layout .conflict)

/-- The name under which a class lists its slots. -/
def slotsName : String := "__slots__"

/-- The slot for parts of any name. -/
def dictName : String := "__dict__"

/-- The slot for references that do not keep an instance. -/
def weakName : String := "__weakref__"

/-- The items of what is given as a list of slots. A single text is one item. -/
def listedSlots : MemberBody → Except Fault (List Literal)
  | .value (.text s) => .ok [.text s]
  | .value (.list items) => .ok items
  | .value (.dict entries) => .ok (entries.map fun e => .text e.1)
  | .value x => .error (.layout (.notIterable x.typeName))
  | .method _ _ => .error (.layout (.notIterable (Member.method [] none).typeName))
  | .descriptor d _ => .error (.layout (.notIterable d.type))

/-- The name of a slot. -/
def readSlot : Literal → Except Fault String
  | .text s => if isIdentifier s.toList then .ok s else .error (.layout .notIdentifier)
  | x => .error (.layout (.notText x.typeName))

/-- A name that begins with two underscores, and does not end so, belongs to one class alone, whose
name is put in front. -/
def privateName (className name : String) : String :=
  let owner := className.toList.dropWhile (· == '_')
  if name.startsWith "__" && !name.endsWith "__" && !owner.isEmpty then
    "_" ++ String.ofList owner ++ name
  else name

/-- What a list of slots comes to. -/
structure Slots where
  /-- The slots of the class itself. -/
  names : List String := []
  addsDict : Bool := false
  addsWeak : Bool := false
  deriving DecidableEq, Repr

/-- Takes one more slot into account. The two special ones are there only once. -/
def Slots.add (base : Layout) (slots : Slots) (item : Literal) : Except Fault Slots :=
  match readSlot item with
  | .error f => .error f
  | .ok name =>
    if name = dictName then
      if base.hasDict || slots.addsDict then .error (.layout .secondDict)
      else .ok { slots with addsDict := true }
    else if name = weakName then
      if base.hasWeak || slots.addsWeak then .error (.layout .secondWeak)
      else .ok { slots with addsWeak := true }
    else .ok { slots with names := slots.names ++ [name] }

/-- Names that a class does not keep as members, so that no slot can be in their way. -/
def transientNames : List String := ["__qualname__", "__classcell__"]

/-- A slot must not have the name of another member. -/
def checkSlot (members : Table Member) (name : String) : Except Fault Unit :=
  if (members.get? name).isSome && !transientNames.contains name then
    .error (.layout (.taken (Literal.quoted name)))
  else .ok ()

/-- The slots of a class, told its primary base and the other ones. -/
def readSlots (spec : ClassSpec) (members : Table Member) (base : Layout) (others : List Layout) :
    Except Fault Slots := do
  match spec.body? slotsName with
  | none => pure { addsDict := !base.hasDict, addsWeak := !base.hasWeak }
  | some body =>
    let items ← listedSlots body
    let slots ← items.foldlM (Slots.add base) {}
    let names := slots.names.map (privateName spec.name)
    names.forM (checkSlot members)
    pure
      { names
        addsDict := slots.addsDict || !base.hasDict && others.any (·.hasDict)
        addsWeak := slots.addsWeak || !base.hasWeak && others.any (·.hasWeak) }

/-- The layout of a class of the given number. -/
def Slots.layout (slots : Slots) (number : Nat) (base : Layout) : Layout where
  solid := if slots.names.isEmpty then base.solid else number
  hasDict := base.hasDict || slots.addsDict
  hasWeak := base.hasWeak || slots.addsWeak

/-- The members that slots make. -/
def Slots.members (slots : Slots) : List (String × Member) :=
  slots.names.map (·, .slot) ++
    (if slots.addsDict then [(dictName, .value "dict")] else []) ++
    (if slots.addsWeak then [(weakName, .value "NoneType")] else [])

end Gcode.Class
