import Gcode.Class.Basic

/-!
The order of classes. The classes behind a class are put in one order, each before its bases and the
bases in the order in which they are named. If no order keeps to all of that, the classes that stand
in each other's way are named.
-/

namespace Gcode.Class

/-- Can the class come next? It must not stand behind another class in any list. -/
def mayLead (lists : List (List Nat)) (c : Nat) : Bool := lists.all fun l => !l.tail.contains c

/-- The first elements of the lists, in order, without repetition. -/
def heads (lists : List (List Nat)) : List Nat := (lists.filterMap List.head?).eraseDups

/-- Merges lists of classes into one that keeps the order of each. The first head that stands behind
no other class comes next; if there is none, the heads are in conflict. -/
def merge : (fuel : Nat) → List (List Nat) → Except (List Nat) (List Nat)
  | 0, _ => .ok []
  | fuel + 1, lists =>
    match heads lists with
    | [] => .ok []
    | hs =>
      match hs.find? (mayLead lists) with
      | none => .error hs
      | some c =>
        let rest := lists.map fun l => if l.head? = some c then l.tail else l
        (merge fuel rest).map (c :: ·)

/-- The first class in a list that comes again later. -/
def firstRepeated : List Nat → Option Nat
  | [] => none
  | c :: cs => if cs.contains c then some c else firstRepeated cs

/-- The order of classes behind a new one with the given bases. -/
def linearise (classes : List Class) (bases : List Nat) : Except Fault (List Nat) :=
  match firstRepeated bases with
  | some c => .error (.repeatedBase (nameOf classes c))
  | none =>
    let lists := bases.map (orderOf classes) ++ [bases]
    match merge lists.flatten.length lists with
    | .ok order => .ok order
    | .error hs => .error (.noOrder (hs.map (nameOf classes)))

end Gcode.Class
