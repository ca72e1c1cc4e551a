import LangKit.Tree
import LangKit.Text.Quoted
import LangKit.Text.Decimal

/-!
# Displaying trees

The display of a tree writes texts in quotes and lists, tuples and mappings with their brackets. A
node shows as a fixed text, because displays do not look into nodes. There is no display of a tree
with an integer that is too long to be written.
-/

namespace LangKit.Tree

def typeName : Tree → String
  | null => "NoneType"
  | bool _ => "bool"
  | int _ => "int"
  | text _ => "str"
  | list _ => "list"
  | tuple _ => "tuple"
  | mapping _ => "dict"
  | node _ _ => "Element"

def boolText (b : Bool) : String :=
  if b then "True" else "False"

mutual

def display? (nodeText : String) : Tree → Option String
  | null => some "None"
  | bool b => some (boolText b)
  | int n => Text.Decimal.write? n
  | text s => some (Text.quoted s)
  | list items => (displayAll? nodeText items).map fun ss => "[" ++ ", ".intercalate ss ++ "]"
  | tuple items => (displayAll? nodeText items).map fun ss =>
    match ss with
    | [s] => "(" ++ s ++ ",)"
    | ss => "(" ++ ", ".intercalate ss ++ ")"
  | mapping entries => (displayEntries? nodeText entries).map fun ss =>
    "\x7b" ++ ", ".intercalate ss ++ "\x7d"
  | node _ _ => some nodeText

def displayAll? (nodeText : String) : List Tree → Option (List String)
  | [] => some []
  | t :: rest =>
    (display? nodeText t).bind fun s => (displayAll? nodeText rest).map fun ss => s :: ss

def displayEntries? (nodeText : String) : List (Tree × Tree) → Option (List String)
  | [] => some []
  | (k, v) :: rest =>
    (display? nodeText k).bind fun ks => (display? nodeText v).bind fun vs =>
      (displayEntries? nodeText rest).map fun ss => (ks ++ ": " ++ vs) :: ss

end

def nodeMark : String := "<Element>"

end LangKit.Tree
