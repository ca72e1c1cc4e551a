import LangKit.Tree.Display
import LangKit.Fault

/-!
# Truth and order of trees

Nothing, zero and all that is empty count as false. Trees of one type can be sorted if the type has
an order; trees of different types cannot.
-/

namespace LangKit.Tree

def truth : Tree → Bool
  | null => false
  | bool b => b
  | int n => n != 0
  | text s => !s.isEmpty
  | list items | tuple items => !items.isEmpty
  | mapping entries => !entries.isEmpty
  | node _ _ => true

def items? : Tree → Option (List Tree)
  | list items | tuple items => some items
  | _ => none

def parts? : Tree → Option (List Tree)
  | text s => some (s.toList.map fun c => text c.toString)
  | list items | tuple items => some items
  | mapping entries => some (entries.map (·.1))
  | _ => none

def text? : Tree → Option String
  | text s => some s
  | _ => none

def comparable : Tree → Tree → Bool
  | int _, int _ | int _, bool _ | bool _, int _ | bool _, bool _ => true
  | text _, text _ | list _, list _ | tuple _, tuple _ => true
  | _, _ => false

def orderFault (a b : Tree) : Fault :=
  .wrongType ("'<' not supported between instances of '" ++ a.typeName ++ "' and '" ++
    b.typeName ++ "'")

/-- The texts of a list of trees, in order. A tree that cannot be compared with the first one is a
fault; one that is no text stands for its display. -/
def sortedTexts (trees : List Tree) : Except Fault (List String) :=
  match trees with
  | [] => .ok []
  | first :: rest =>
    match rest.find? fun t => !comparable t first with
    | some t => .error (orderFault t first)
    | none =>
      .ok ((trees.map fun t => t.text?.getD ((t.display? nodeMark).getD "")).mergeSort (· ≤ ·))

end LangKit.Tree
