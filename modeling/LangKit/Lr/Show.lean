import LangKit.Tree.Display
import LangKit.Fault

/-!
# Values in a parser's log

On the stack a value shows as its display if that is short, else only as its type. The value of a
rule shows as its type and its display, cut after `resultLimit` characters. A display that gives
away where a node is stored is not shown.
-/

namespace LangKit.Lr

/-- The most characters of a display that a rule's value shows. -/
def resultLimit : Nat := 40

/-- Displays of at least this many characters do not show on the stack. -/
def entryLimit : Nat := 16

def placedNode : String := "<element.Element object at 0x7f0000000000>"

def placeMark : List Char := "object at 0x".toList

def namesPlace : List Char → Bool
  | [] => false
  | c :: rest => placeMark.isPrefixOf (c :: rest) || namesPlace rest

/-- A display, quoted once more if it has several lines. -/
def oneLine (display : String) : String :=
  if display.toList.contains '\n' then Text.quoted display else display

def typeMark (type : String) : String :=
  "<" ++ type ++ " @>"

def entryText (type display : String) : String :=
  let shown := oneLine display
  if shown.length < entryLimit then shown else typeMark type

def resultText (type display : String) : String :=
  let shown := oneLine display
  let cut := if resultLimit < shown.length
    then String.ofList (shown.toList.take resultLimit) ++ " ..." else shown
  if namesPlace cut.toList then typeMark type else typeMark type ++ " (" ++ cut ++ ")"

def displayTree (t : Tree) : Except Fault String :=
  match t.display? placedNode with
  | some s => .ok s
  | none => .error .unprintableInteger

def treeEntryText (t : Tree) : Except Fault String :=
  (displayTree t).map (entryText t.typeName)

def treeResultText (t : Tree) : Except Fault String :=
  (displayTree t).map (resultText t.typeName)

end LangKit.Lr
