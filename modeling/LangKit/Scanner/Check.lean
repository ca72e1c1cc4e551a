import LangKit.Pattern.Match
import LangKit.Pattern.Parse
import LangKit.Scanner.Spec

/-!
# Checking the description of a scanner

Tokens, literals and the rules of each state are checked, then the source for names that are defined
twice. What is wrong goes to the journal.
-/

namespace LangKit.Scanner

open Pattern (PatternError)

/-- The switches for the patterns of descriptions: blanks and comments are passed over. -/
def patternFlags : Pattern.Flags := { Pattern.Flags.none with verbose := true }

def namedPattern (name pattern : String) : String :=
  "(?P<" ++ name ++ ">" ++ pattern ++ ")"

def isTokenChar (c : Char) : Bool := c.isAlphanum || c == '_'

def isTokenName (s : String) : Bool :=
  let cs := s.toList
  let name := if cs.getLast? == some '\n' then cs.dropLast else cs
  !name.isEmpty && name.all isTokenChar

def checkTokens : List String → List Tree → Journaled Unit
  | _, [] => pure ()
  | seen, .text n :: rest => do
    if !isTokenName n then Journaled.error ("Bad token name '" ++ n ++ "'")
    if seen.contains n then Journaled.warning ("Token '" ++ n ++ "' multiply defined")
    checkTokens (n :: seen) rest
  | _, t :: _ =>
    throw (.wrongType ("expected string or bytes-like object, got '" ++ t.typeName ++ "'"))

def checkLiteral (t : Tree) : Journaled Unit := do
  let isChar := match t with
    | .text s => s.length ≤ 1
    | _ => false
  if !isChar then
    Journaled.error ("Invalid literal " ++ shown t ++ ". Must be a single character")

def checkLiterals (literals : Tree) : Journaled Unit := do
  match literals.parts? with
  | some items => Journaled.each checkLiteral items
  | none =>
    Journaled.error
      "Invalid literals specification. literals must be a sequence of characters"

def checkArgs (f : ScanFunction) : Journaled Bool := do
  if 1 < f.args then
    Journaled.error (f.place ++ "Rule '" ++ f.name ++ "' has too many arguments")
    return false
  else if f.args < 1 then
    Journaled.error (f.place ++ "Rule '" ++ f.name ++ "' requires an argument")
    return false
  else return true

/-- Checks the pattern of a rule. Messages start with `place`, and `mark` is the start of the
message about comments. -/
def checkPattern (place mark name label pattern : String) : Journaled Unit := do
  let whole := namedPattern name pattern
  match Pattern.parse patternFlags whole with
  | .ok p =>
    if p.matchesEmpty then
      Journaled.error (place ++ "Regular expression for rule '" ++ label ++
        "' matches empty string")
  | .error .tooLarge => throw (.overflow (PatternError.tooLarge.text whole))
  | .error e =>
    Journaled.error (place ++ "Invalid regular expression for rule '" ++ label ++
      "'. " ++ e.text whole)
    if pattern.toList.contains '#' then
      Journaled.error (mark ++ "Make sure '#' in rule '" ++ label ++ "' is escaped with '\\#'")

def checkFunction (name : String) (f : ScanFunction) : Journaled Unit := do
  if ← checkArgs f then
    if (f.pattern.getD "").isEmpty then
      Journaled.error (f.place ++ "No regular expression defined for rule '" ++ f.name ++ "'")
    else
      checkPattern f.place (f.file ++ ":" ++ toString f.line ++ ". ") name f.name f.patternText

/-- The start of the names of tokens that are passed over. -/
def ignoreMark : String := "ignore_"

def hasPart (part : String) (s : String) : Bool :=
  1 < (s.splitOn part).length

def checkText (r : Rules) (name pattern : String) : Journaled Unit := do
  let token := Assoc.getD name r.made ""
  let known := (r.tokens.items?.getD []).any fun t => t.text? == some token
  if !known && !hasPart ignoreMark token then
    Journaled.error ("Rule '" ++ name ++ "' defined for an unspecified token " ++ token)
  else checkPattern "" "" name name pattern

def checkState (r : Rules) (state : String) (rules : StateRules) : Journaled Unit := do
  Journaled.each (fun (name, f) => checkFunction name f) rules.functions
  Journaled.each (fun (name, p) => checkText r name p) rules.texts
  if rules.functions.isEmpty && rules.texts.isEmpty then
    Journaled.error ("No rules defined for state '" ++ state ++ "'")
  match Assoc.get? state r.onError with
  | some f =>
    let _ ← checkArgs f
  | none => pure ()

def sourceName? (line : String) : Option String :=
  (Source.definedName? ruleMark line).or (Source.assignedName? ruleMark line)

def checkSource (spec : ScannerSpec) : Journaled Unit :=
  Journaled.each (fun r : Redefinition =>
    Journaled.error (spec.file ++ ":" ++ toString r.line ++ ": Rule " ++ r.name ++
      " redefined. Previously defined on line " ++ toString r.first))
    (redefinitions sourceName? spec.source)

def Rules.hasSource (r : Rules) : Bool :=
  !r.onError.isEmpty || r.byState.any fun e => !e.2.functions.isEmpty

/-- Checks what a description says. A description with errors is refused. -/
def check (spec : ScannerSpec) (r : Rules) : Journaled Unit := do
  checkTokens [] (r.tokens.items?.getD [])
  checkLiterals r.literals
  Journaled.each (fun (state, rules) => checkState r state rules) r.byState
  if r.hasSource then checkSource spec
  if (← get).failed then throw (.syntaxError (some "Can't build lexer"))

end LangKit.Scanner
