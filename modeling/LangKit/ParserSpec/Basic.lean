import LangKit.Lr.TokenParse
import LangKit.Tree.Truth
import LangKit.Journal

/-!
# Descriptions of parsers

A parser is described by a list of named members: the tokens, the precedences and the start symbol
are values, and every rule is a function whose documentation has the rules as text. The member
`p_error` handles errors.
-/

namespace LangKit

structure RuleFunction where
  line : Int
  args : Nat
  doc : Option String
  action : Lr.RuleAction
  label : String
  deriving Repr, Inhabited

inductive SpecMember
  | value (t : Tree)
  | rule (f : RuleFunction)
  | handler (line : Int) (args : Nat) (h : Lr.ErrorHandler)

def SpecMember.isFunction : SpecMember → Bool
  | .value _ => false
  | _ => true

/-- The description of a parser: its members in the order in which they are seen, the file it stands
in, and the lines of that file. -/
structure ParserSpec where
  members : List (String × SpecMember)
  file : String
  source : List String

namespace ParserSpec

def ruleMark : String := "p_"

def handlerName : String := "p_error"

def ofMembers (members : List (String × SpecMember)) (file : String) (source : List String) :
    ParserSpec :=
  ⟨Assoc.putAll [] members, file, source⟩

def sorted (spec : ParserSpec) : ParserSpec :=
  { spec with members := spec.members.mergeSort fun a b => a.1 ≤ b.1 }

def value (spec : ParserSpec) (name : String) : Tree :=
  match Assoc.get? name spec.members with
  | some (.value t) => t
  | _ => .null

def setValue (spec : ParserSpec) (name : String) (t : Tree) : ParserSpec :=
  { spec with members := Assoc.put name (.value t) spec.members }

def rename (spec : ParserSpec) (old new : String) : ParserSpec :=
  { spec with members := spec.members.map fun (n, m) => (if n == old then new else n, m) }

def function? (spec : ParserSpec) (name : String) : Option RuleFunction :=
  match Assoc.get? name spec.members with
  | some (.rule f) => some f
  | _ => none

def rules (spec : ParserSpec) : List (String × RuleFunction) :=
  let all := spec.members.filterMap fun (n, m) =>
    match m with
    | .rule f => if n.startsWith ruleMark && n != handlerName then some (n, f) else none
    | _ => none
  all.mergeSort fun a b => a.2.line < b.2.line || (a.2.line == b.2.line && a.1 ≤ b.1)

def hasHandler (spec : ParserSpec) : Bool :=
  match Assoc.get? handlerName spec.members with
  | some (.value t) => t.truth
  | some _ => true
  | none => false

def handler? (spec : ParserSpec) : Option Lr.ErrorHandler :=
  match Assoc.get? handlerName spec.members with
  | some (.handler _ _ h) => some h
  | _ => none

def place (spec : ParserSpec) (line : Int) : String :=
  spec.file ++ ":" ++ toString line ++ ": "

def readTokens (spec : ParserSpec) : Journaled (List String) := do
  let tokens := spec.value "tokens"
  if !tokens.truth then
    Journaled.error "No token list is defined"
    return []
  match tokens.items? with
  | none =>
    Journaled.error "tokens must be a list or tuple"
    return []
  | some items => Journaled.lift (Tree.sortedTexts items)

def joined : Tree → Option String
  | .text s => some s
  | .list items | .tuple items => (items.mapM Tree.text?).map String.join
  | .mapping entries => (entries.mapM fun e : Tree × Tree => e.1.text?).map String.join
  | _ => none

def precedenceText (t : Tree) : Option String := do
  let texts ← (← t.parts?).mapM joined
  return String.join texts

/-- The signature of a description: its start symbol, precedences, tokens and rule texts, one after
the other. What follows precedences or tokens that are no texts is left out. -/
def signature (spec : ParserSpec) (tokens : List String) : Except Fault String := do
  let start := spec.value "start"
  let precedence := spec.value "precedence"
  let head ← if !start.truth then .ok "" else
    match start with
    | .text s => .ok s
    | other => .error (.wrongType
        ("sequence item 0: expected str instance, " ++ other.typeName ++ " found"))
  let docs := String.join (spec.rules.map fun (_, f) => f.doc.getD "")
  let texts := ((spec.value "tokens").items?.getD []).all fun t => t.text?.isSome
  let rest := if texts then " ".intercalate tokens ++ docs else ""
  if precedence.truth then
    match precedenceText precedence with
    | some p => return head ++ p ++ rest
    | none => return head
  else return head ++ rest

end ParserSpec

end LangKit
