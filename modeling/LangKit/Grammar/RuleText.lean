import LangKit.Text.Blank
import LangKit.Fault

/-!
# Rules as text

A text of rules has one rule a line: a name, a colon and the symbols. A line that starts with a bar
gives another right side for the name above it. Blank lines are passed over, and lines are counted
from the one after the given line.
-/

namespace LangKit.Grammar

structure WrittenRule where
  file : String
  line : Int
  head : String
  symbols : List String
  deriving Repr

def readRule (file : String) (line : Int) (last : Option String) (words : List String)
    (text : String) :
    Except Fault WrittenRule :=
  let place := file ++ ":" ++ toString line ++ ": "
  match words with
  | "|" :: symbols =>
    match last with
    | some head => .ok ⟨file, line, head, symbols⟩
    | none => .error (.syntaxError (some (place ++ "Misplaced '|'")))
  | head :: colon :: symbols =>
    if colon == ":" || colon == "::=" then .ok ⟨file, line, head, symbols⟩
    else .error (.syntaxError (some (place ++ "Syntax error. Expected ':'")))
  | _ =>
    .error (.syntaxError (some (place ++ "Syntax error in rule " ++ Text.quoted (Text.trim text))))

def readLines (file : String) : Int → Option String → List String → Except Fault (List WrittenRule)
  | _, _, [] => .ok []
  | line, last, text :: rest =>
    match Text.words text with
    | [] => readLines file (line + 1) last rest
    | words => do
      let rule ← readRule file (line + 1) last words text
      let rules ← readLines file (line + 1) (some rule.head) rest
      return rule :: rules

def readRules (text file : String) (line : Int) : Except Fault (List WrittenRule) :=
  readLines file line none (Text.lines text)

end LangKit.Grammar
