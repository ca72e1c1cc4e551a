import LangKit.Store
import LangKit.Tree.Display
import LangKit.Fault

/-!
# Texts of stored values

The text of a node is its kind and its fields, each with its text; a node in a field stands in
brackets. Texts are written bare at the top and quoted inside lists, where nodes show as a mark. A
value that holds an integer which is too long has no text.
-/

namespace LangKit

namespace Datum

def typeName : Datum → String
  | null => "NoneType"
  | bool _ => "bool"
  | int _ => "int"
  | text _ => "str"
  | list _ => "list"
  | tuple _ => "tuple"
  | mapping _ => "dict"
  | node _ => "Element"

section

variable (node : Nat → Tree)

mutual

def outlineWith : Datum → Tree
  | .null => .null
  | .bool b => .bool b
  | .int n => .int n
  | .text s => .text s
  | .list items => .list (outlineAll items)
  | .tuple items => .tuple (outlineAll items)
  | .mapping entries => .mapping (outlineEntries entries)
  | .node ref => node ref

def outlineAll : List Datum → List Tree
  | [] => []
  | d :: rest => outlineWith d :: outlineAll rest

def outlineEntries : List (Datum × Datum) → List (Tree × Tree)
  | [] => []
  | (k, v) :: rest => (outlineWith k, outlineWith v) :: outlineEntries rest

end

end

/-- The value as a tree in which every node is left blank. -/
def outline (d : Datum) : Tree := d.outlineWith fun _ => .node "" []

/-- The display of a value, with texts in quotes and nodes as a mark. -/
def display (d : Datum) : Except Fault String :=
  match d.outline.display? Tree.nodeMark with
  | some s => .ok s
  | none => .error .unprintableInteger

def textWith (nodeText : Nat → Except Fault String) : Datum → Except Fault String
  | text s => .ok s
  | node ref => nodeText ref
  | other => other.display

def textsWith (nodeText : Nat → Except Fault String) : List Datum → Except Fault (List String)
  | [] => .ok []
  | d :: rest => do
    let s ← textWith nodeText d
    let ss ← textsWith nodeText rest
    return s :: ss

def fieldTextWith (nodeText : Nat → Except Fault String) : Datum → Except Fault String
  | node ref => (nodeText ref).map fun s => "[" ++ s ++ "]"
  | list items => (textsWith nodeText items).map fun ss => "[" ++ ", ".intercalate ss ++ "]"
  | other => textWith nodeText other

def fieldTextsWith (nodeText : Nat → Except Fault String) : Fields → Except Fault (List String)
  | [] => .ok []
  | (name, d) :: rest => do
    let s ← fieldTextWith nodeText d
    let ss ← fieldTextsWith nodeText rest
    return (name ++ ": " ++ s) :: ss

end Datum

namespace Store

/-- The text of a node. A text that goes deeper than there are nodes would never end. -/
def nodeText (s : Store) : Nat → Nat → Except Fault String
  | 0, _ => .error (.badState "maximum recursion depth exceeded")
  | fuel + 1, ref => do
    let fields ← Datum.fieldTextsWith (s.nodeText fuel) (s.fields ref)
    return if fields.isEmpty then s.kind ref else s.kind ref ++ ": " ++ ", ".intercalate fields

def textOf (s : Store) (d : Datum) : Except Fault String :=
  d.textWith (s.nodeText (s.cells.size + 1))

end Store

def Tree.textOf (t : Tree) : Except Fault String :=
  let (d, s) := Store.empty.load t
  s.textOf d

end LangKit
