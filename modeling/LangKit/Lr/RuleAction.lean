import LangKit.Lr.Value

/-!
# Stock actions

Actions that rules can be given: they collect the values of the right side, with or without places,
pass one of them on, or declare a syntax error.
-/

namespace LangKit.Lr

inductive RuleAction
  | tree
  | first
  | none
  | refuse
  | refuseBad
  | spans
  /-- A list of the rule's name, the value below the right side, and the values. -/
  | below
  deriving DecidableEq, Repr, Inhabited

def badText : String := "bad"

def entryValue (e : TextEntry) : Except ActionError Value :=
  match e.value with
  | some v => .ok v
  | Option.none => .error (.fault (.noAttribute e.origin.typeName "value"))

def entryValues : List TextEntry → Except ActionError (List Value)
  | [] => .ok []
  | e :: rest => do
    let v ← entryValue e
    let vs ← entryValues rest
    return v :: vs

/-- An entry with its places; what is not known is zero, and an end that is not known is the
start. -/
def spanOfEntry (e : TextEntry) : Except ActionError Value := do
  let v ← entryValue e
  let line := e.line.getD 0
  let pos := e.pos.getD 0
  return .list [v, .int line, .int pos,
    .list [.int line, .int (e.endLine.getD line)],
    .list [.int pos, .int (e.endPos.getD pos)]]

def spansOfEntries : List TextEntry → Except ActionError (List Value)
  | [] => .ok []
  | e :: rest => do
    let v ← spanOfEntry e
    let vs ← spansOfEntries rest
    return v :: vs

/-- Carries out an action for a rule with the given name, right side and stack below. -/
def RuleAction.run (action : RuleAction) (name : String) (right below : List TextEntry) :
    Except ActionError Value :=
  match action with
  | .tree => do return .list (.text name :: (← entryValues right))
  | .first =>
    match right with
    | [] => .ok .none
    | e :: _ => entryValue e
  | .none => .ok .none
  | .refuse => .error .syntaxError
  | .refuseBad => do
    let values ← entryValues right
    if values.any (·.isText badText) then .error .syntaxError
    else return .list (.text name :: values)
  | .spans => do return .list (.text name :: (← spansOfEntries right))
  | .below =>
    match below with
    | [] => .error (.fault Fault.listIndex)
    | e :: _ => do return .list (.text name :: e.value.getD .none :: (← entryValues right))

end LangKit.Lr
