import LangKit.ParserSpec.Basic
import LangKit.Grammar.Declare
import LangKit.Source

/-!
# Checking a description

The parts of a description are checked one after the other: start symbol, error handler, tokens,
precedences, rules, and the source for functions that are defined twice. What is wrong goes to the
journal; the rules and precedences that can be read are the result.
-/

namespace LangKit.ParserSpec

/-- The start symbol has to be a text. That it is none is reported, but does not count as an
error. -/
def checkStart (spec : ParserSpec) : Journaled Unit := do
  match spec.value "start" with
  | .null | .text _ => pure ()
  | _ => Journaled.line "ERROR: 'start' must be a string"

def checkHandler (spec : ParserSpec) : Journaled Unit := do
  match Assoc.get? handlerName spec.members with
  | some (.handler line args _) =>
    if args != 1 then Journaled.error (spec.place line ++ "p_error() requires 1 argument")
  | some (.value t) =>
    if t.truth then Journaled.error "'p_error' defined, but is not a function or method"
  | some (.rule _) | none => pure ()

def warnRepeated : List String → List String → Journaled Unit
  | _, [] => pure ()
  | seen, t :: rest => do
    if seen.contains t then Journaled.warning ("Token " ++ Text.quoted t ++ " multiply defined")
    warnRepeated (t :: seen) rest

/-- The error symbol is no token, and a token should be named once. -/
def checkTokens (tokens : List String) : Journaled Unit := do
  if tokens.contains errorMark then
    Journaled.error "Illegal token name 'error'. Is a reserved word"
  else warnRepeated [] tokens

structure DeclaredPrecedence where
  term : String
  assoc : String
  level : Int
  deriving Repr

def readTerms (assoc : String) (level : Int) : List Tree → Option (List DeclaredPrecedence)
  | [] => some []
  | .text s :: rest => (readTerms assoc level rest).map (⟨s, assoc, level⟩ :: ·)
  | _ :: _ => none

def readLevel (level : Int) (t : Tree) : Except String (List DeclaredPrecedence) :=
  match t.items? with
  | none => .error "Bad precedence table"
  | some (.text assoc :: term :: terms) =>
    match readTerms assoc level (term :: terms) with
    | some ps => .ok ps
    | none => .error "precedence items must be strings"
  | some (_ :: _ :: _) => .error "precedence associativity must be a string"
  | some _ => .error ("Malformed precedence entry " ++ (t.display? Tree.nodeMark).getD "" ++
      ". Must be (assoc, term, ..., term)")

def readLevels : Int → List Tree → Except String (List DeclaredPrecedence)
  | _, [] => .ok []
  | level, t :: rest => do
    let ps ← readLevel level t
    let more ← readLevels (level + 1) rest
    return ps ++ more

def checkPrecedence (spec : ParserSpec) : Journaled (List DeclaredPrecedence) := do
  let t := spec.value "precedence"
  if !t.truth then return []
  match t.items? with
  | none =>
    Journaled.error "precedence must be a list or tuple"
    return []
  | some levels =>
    match readLevels 1 levels with
    | .ok ps => return ps
    | .error message =>
      Journaled.error message
      return []

abbrev NamedRule := String × Grammar.WrittenRule

def readFunction (spec : ParserSpec) (name : String) (f : RuleFunction) :
    Journaled (List NamedRule) := do
  let place := spec.place f.line
  if 1 < f.args then
    Journaled.error (place ++ "Rule " ++ Text.quoted name ++ " has too many arguments")
    return []
  else if f.args < 1 then
    Journaled.error (place ++ "Rule " ++ Text.quoted name ++ " requires an argument")
    return []
  else if (f.doc.getD "").isEmpty then
    Journaled.warning (place ++ "No documentation string specified in function " ++
      Text.quoted name ++ " (ignored)")
    return []
  else
    match Grammar.readRules (f.doc.getD "") spec.file f.line with
    | .ok rules => return rules.map fun r => (name, r)
    | .error fault =>
      Journaled.templateError fault.message
      return []

def readFunctions (spec : ParserSpec) : List (String × RuleFunction) → Journaled (List NamedRule)
  | [] => pure []
  | (name, f) :: rest => do
    let rules ← readFunction spec name f
    return rules ++ (← readFunctions spec rest)

/-- Does the documentation start like a rule: a word, one blank, a colon? -/
def looksLikeRule (doc : String) : Bool :=
  match doc.splitOn " " with
  | _ :: ":" :: _ => true
  | _ => false

def warnMember (spec : ParserSpec) (name : String) (m : SpecMember) : Journaled Unit := do
  let isRule := name.startsWith ruleMark
  if (isRule && m.isFunction) || name.startsWith "t_" then return
  if isRule && name != handlerName then
    Journaled.warning (Text.quoted name ++ " not defined as a function")
  match m with
  | .rule f =>
    if f.args == 1 && looksLikeRule (f.doc.getD "") then
      Journaled.warning (spec.place f.line ++ "Possible grammar rule " ++ Text.quoted name ++
        " defined without p_ prefix")
  | _ => pure ()

def checkRules (spec : ParserSpec) : Journaled (List NamedRule) := do
  let functions := spec.rules
  if functions.isEmpty then
    Journaled.error "no rules of the form p_rulename are defined"
    return []
  let rules ← readFunctions spec functions
  Journaled.each (fun (name, m) => warnMember spec name m) spec.members
  return rules

def warnRedefined (spec : ParserSpec) : Journaled Unit :=
  Journaled.each (fun r : Redefinition =>
    Journaled.warning (spec.place r.line ++ "Function " ++ r.name ++
      " redefined. Previously defined on line " ++ toString r.first))
    (redefinitions (Source.definedName? ruleMark) spec.source)

def hasSource (spec : ParserSpec) : Bool :=
  spec.handler?.isSome ||
    spec.rules.any fun (_, f) => f.args == 1 && !(f.doc.getD "").isEmpty

structure Checked where
  precedences : List DeclaredPrecedence
  rules : List NamedRule

def refusal : Fault := .parserError "Unable to build parser"

def stopIfFailed : Journaled Unit := do
  if (← get).failed then throw refusal

def check (spec : ParserSpec) (tokens : List String) : Journaled Checked := do
  checkStart spec
  checkHandler spec
  checkTokens tokens
  let precedences ← checkPrecedence spec
  let rules ← checkRules spec
  if hasSource spec then warnRedefined spec
  stopIfFailed
  if !spec.hasHandler then Journaled.warning "no p_error() function is defined"
  return ⟨precedences, rules⟩

end LangKit.ParserSpec
