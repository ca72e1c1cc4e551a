import LangKit.Journal
import LangKit.Scanner.RuleName
import LangKit.Source
import LangKit.Tree.Truth

/-!
# Descriptions of scanners

A scanner is described by a list of named members. The tokens, the literal characters and the states
are values. A rule is a member whose name starts with a mark: a text, which is its pattern, or a
function with a pattern, which is called with each token that the pattern takes.
-/

namespace LangKit.Scanner

inductive Step
  | keep
  | setType (type : String)
  | setValue (value : Tree)
  | readInteger
  | countLines
  | enter (state : String)
  | push (state : String)
  | pop
  | skip (count : Int)
  | print
  /-- On the first call, goes on with a new text; its first token is the result. -/
  | more (text : String)
  deriving Repr

structure ScanFunction where
  name : String
  file : String
  line : Int
  args : Nat
  pattern : Option String
  steps : List Step
  deriving Repr, Inhabited

def ScanFunction.place (f : ScanFunction) : String :=
  f.file ++ ":" ++ toString f.line ++ ": "

def ScanFunction.patternText (f : ScanFunction) : String :=
  f.pattern.getD "None"

inductive ScanMember
  | value (t : Tree)
  | function (f : ScanFunction)
  deriving Repr, Inhabited

/-- The description of a scanner: its members in the order in which they are seen, the file it
stands in, and the lines of that file. -/
structure ScannerSpec where
  members : List (String × ScanMember)
  file : String
  source : List String

def ruleMark : String := "t_"

namespace ScannerSpec

def ofMembers (members : List (String × ScanMember)) (file : String) (source : List String) :
    ScannerSpec :=
  ⟨Assoc.putAll [] members, file, source⟩

def sorted (spec : ScannerSpec) : ScannerSpec :=
  { spec with members := spec.members.mergeSort fun a b => a.1 ≤ b.1 }

def value (spec : ScannerSpec) (name : String) : Tree :=
  match Assoc.get? name spec.members with
  | some (.value t) => t
  | _ => .null

def rules (spec : ScannerSpec) : List (String × ScanMember) :=
  spec.members.filter fun m => m.1.startsWith ruleMark

end ScannerSpec

/-- The rules of one state: functions by line, and patterns from the longest to the shortest. -/
structure StateRules where
  functions : List (String × ScanFunction)
  texts : List (String × String)
  deriving Repr, Inhabited

structure Rules where
  tokens : Tree
  literals : Tree
  states : List (String × String)
  made : List (String × String)
  byState : List (String × StateRules)
  ignored : List (String × String)
  onError : List (String × ScanFunction)
  onEnd : List (String × ScanFunction)
  deriving Repr

/-- The kind of states that have the rules of the initial state besides their own. -/
def inclusive : String := "inclusive"

/-- The kind of states that have only their own rules. -/
def exclusive : String := "exclusive"

def shown (t : Tree) : String := (t.display? Tree.nodeMark).getD ""

def readTokens (spec : ScannerSpec) : Journaled Tree := do
  let tokens := spec.value "tokens"
  if !tokens.truth then
    Journaled.error "No token list is defined"
    return .list []
  else if tokens.items?.isNone then
    Journaled.error "tokens must be a list or tuple"
    return .list []
  else return tokens

def readLiterals (spec : ScannerSpec) : Tree :=
  let literals := spec.value "literals"
  if literals.truth then literals else .text ""

def readState (known : List (String × String)) (t : Tree) : Journaled (List (String × String)) := do
  match t with
  | .tuple [.text name, kind] =>
    let kind := kind.text?.getD ""
    if kind != inclusive && kind != exclusive then
      Journaled.error ("State type for state " ++ name ++ " must be 'inclusive' or 'exclusive'")
      return known
    else if Assoc.has name known then
      Journaled.error ("State '" ++ name ++ "' already defined")
      return known
    else return Assoc.put name kind known
  | .tuple [other, _] =>
    Journaled.error ("State name " ++ shown other ++ " must be a string")
    return known
  | other =>
    Journaled.error ("Invalid state specifier " ++ shown other ++
      ". Must be a tuple (statename,'exclusive|inclusive')")
    return known

def readStateList (known : List (String × String)) : List Tree → Journaled (List (String × String))
  | [] => pure known
  | t :: rest => do readStateList (← readState known t) rest

def readStates (spec : ScannerSpec) : Journaled (List (String × String)) := do
  let start := [(initialState, inclusive)]
  let states := spec.value "states"
  if !states.truth then return start
  match states.items? with
  | none =>
    Journaled.error "states must be defined as a tuple or list"
    return start
  | some items => readStateList start items

def Rules.update (r : Rules) (states : List String) (f : StateRules → StateRules) : Rules :=
  { r with byState := r.byState.map fun e => if states.contains e.1 then (e.1, f e.2) else e }

def addFunction (r : Rules) (name : String) (rule : RuleName) (f : ScanFunction) :
    Journaled Rules := do
  let forAll := rule.states.map fun s => (s, f)
  match rule.token with
  | "error" => return { r with onError := Assoc.putAll r.onError forAll }
  | "eof" => return { r with onEnd := Assoc.putAll r.onEnd forAll }
  | "ignore" =>
    Journaled.error (f.place ++ "Rule '" ++ f.name ++ "' must be defined as a string")
    return r
  | _ => return r.update rule.states fun s => { s with functions := s.functions ++ [(name, f)] }

def addText (r : Rules) (name : String) (rule : RuleName) (text : String) : Journaled Rules := do
  match rule.token with
  | "ignore" =>
    if text.toList.contains '\\' then
      Journaled.warning (name ++ " contains a literal backslash '\\'")
    return { r with ignored := Assoc.putAll r.ignored (rule.states.map fun s => (s, text)) }
  | "error" =>
    Journaled.error ("Rule '" ++ name ++ "' must be defined as a function")
    return r
  | _ => return r.update rule.states fun s => { s with texts := s.texts ++ [(name, text)] }

def addRules (r : Rules) : List (String × ScanMember) → Journaled Rules
  | [] => pure r
  | (name, m) :: rest => do
    let rule ← Journaled.lift (readRuleName (Assoc.keys r.states) name)
    let r := { r with made := Assoc.put name rule.token r.made }
    let r ← match m with
      | .function f => addFunction r name rule f
      | .value (.text s) => addText r name rule s
      | .value _ => do
        Journaled.error (name ++ " not defined as a function or string")
        pure r
    addRules r rest

def StateRules.sorted (s : StateRules) : StateRules :=
  ⟨s.functions.mergeSort fun a b => a.2.line ≤ b.2.line,
    s.texts.mergeSort fun a b => b.2.length ≤ a.2.length⟩

def readSpec (spec : ScannerSpec) : Journaled Rules := do
  let tokens ← readTokens spec
  let literals := readLiterals spec
  let states ← readStates spec
  let empty : Rules :=
    ⟨tokens, literals, states, [], states.map fun s => (s.1, ⟨[], []⟩), [], [], []⟩
  if spec.rules.isEmpty then
    Journaled.error "No rules of the form t_rulename are defined"
    return empty
  let r ← addRules empty spec.rules
  return { r with byState := r.byState.map fun e => (e.1, e.2.sorted) }

end LangKit.Scanner
