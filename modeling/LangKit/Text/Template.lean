import LangKit.Fault

/-!
# Templates without arguments

A message is written through a template, in which a percent sign starts a slot and two of them stand
for one. A text that is passed as a template although it is no template is refused if it has a slot,
because there is nothing to put there.
-/

namespace LangKit.Text

def isSlotFlag (c : Char) : Bool :=
  c == '-' || c == '+' || c == ' ' || c == '#' || c == '0'

/-- The rest of a slot after its flags, width, precision and size mark. -/
def slotKind (cs : List Char) : List Char :=
  let afterWidth := (cs.dropWhile isSlotFlag).dropWhile Char.isDigit
  let afterPrecision := match afterWidth with
    | '.' :: rest => rest.dropWhile Char.isDigit
    | other => other
  match afterPrecision with
  | 'h' :: rest | 'l' :: rest | 'L' :: rest => rest
  | other => other

/-- Why a slot cannot be filled; `cs` is what follows the percent sign. -/
def slotFault (cs : List Char) : Fault :=
  match cs with
  | '(' :: _ => .wrongType "format requires a mapping"
  | _ =>
    if (slotKind cs).isEmpty then .wrongValue "incomplete format"
    else .wrongType "not enough arguments for format string"

def fillTemplateFrom : List Char → Except Fault (List Char)
  | [] => .ok []
  | '%' :: '%' :: rest => (fillTemplateFrom rest).map ('%' :: ·)
  | c :: rest => if c == '%' then .error (slotFault rest) else (fillTemplateFrom rest).map (c :: ·)

def fillTemplate (s : String) : Except Fault String :=
  (fillTemplateFrom s.toList).map String.ofList

end LangKit.Text
