import LangKit.Lr.Machine
import LangKit.Lr.Show

/-!
# Values of a parse

The value of a rule is a plain value, a list of values, or a symbol of the parse itself: the value
of an error symbol is the token that failed.
-/

namespace LangKit.Lr

inductive Value
  | plain (t : Tree)
  | list (items : List Value)
  | symbol (type text : String)
  deriving Inhabited

namespace Value

def none : Value := .plain .null

def text (s : String) : Value := .plain (.text s)

def int (n : Int) : Value := .plain (.int n)

def typeName : Value → String
  | plain t => t.typeName
  | list _ => "list"
  | symbol type _ => type

mutual

def display? : Value → Option String
  | plain t => t.display? placedNode
  | list items => (displayAll? items).map fun ss => "[" ++ ", ".intercalate ss ++ "]"
  | symbol _ text => some text

def displayAll? : List Value → Option (List String)
  | [] => some []
  | v :: rest => (display? v).bind fun s => (displayAll? rest).map fun ss => s :: ss

end

def display (v : Value) : String :=
  v.display?.getD ""

def entryText (v : Value) : String :=
  Lr.entryText v.typeName v.display

def resultText (v : Value) : String :=
  Lr.resultText v.typeName v.display

def isText (s : String) : Value → Bool
  | plain (.text t) => t == s
  | _ => false

end Value

abbrev TextEntry := Entry String Value

def TextEntry.text (e : TextEntry) : String :=
  match e.origin with
  | .machine => e.sort
  | .bareToken => "BareToken(" ++ e.sort ++ ")"
  | .token =>
    let number := fun (n : Option Int) => toString (n.getD 0)
    "LexToken(" ++ e.sort ++ "," ++ (e.value.getD .none).display ++ "," ++ number e.line ++ "," ++
      number e.pos ++ ")"

def TextEntry.asValue (e : TextEntry) : Value :=
  .symbol e.origin.typeName (TextEntry.text e)

end LangKit.Lr
