import LangKit.ParserSpec.Check
import LangKit.ParserSpec.TableText
import LangKit.Grammar.Check

/-!
# Building a parser from its description

A description that passes its checks gives a grammar, the grammar is examined, and its table is
made. A table that was saved earlier is used instead if it has the version and signature that it
should have. A new table can be saved.
-/

namespace LangKit.ParserSpec

/-- The module of the table and the file of the detailed log, unless others are named. -/
def tableModule : String := "parsetab"

def logFile : String := "parser.out"

structure BuildOptions where
  method : String
  stateLimit : Nat
  detailed : Bool
  checkRecursion : Bool
  start : Option Tree
  lostLog : Option (String × String)

structure RuledTable where
  table : Lr.Table
  rules : List Production
  reduced : List (Nat × Int)
  deriving Inhabited

structure SavedTable where
  version : String
  signature : String
  content : RuledTable
  deriving Inhabited

inductive SaveTarget
  | nowhere
  | file (name path : String)
  | unwritable (name path : String)
  | loaded (shown : String)

def declarePrecedences : List DeclaredPrecedence → Grammar → Journaled Grammar
  | [], g => pure g
  | p :: rest, g =>
    match g.setPrecedence p.term p.assoc p.level with
    | .ok g => declarePrecedences rest g
    | .error (.grammarError text) => do
      Journaled.warning text
      declarePrecedences rest g
    | .error f => throw f

def declareRules : List NamedRule → Grammar → Journaled Grammar
  | [], g => pure g
  | (name, r) :: rest, g =>
    match g.addRule ⟨r.file, r.line⟩ r.head r.symbols (some name) with
    | (.ok (), g) => declareRules rest g
    | (.error (.grammarError text), g) => do
      Journaled.error text
      declareRules rest g
    | (.error f, _) => throw f

def declareStart (start : Tree) (g : Grammar) : Journaled Grammar := do
  match g.setStart start.text? with
  | .ok g => return g
  | .error (.grammarError text) =>
    Journaled.templateError text
    return g
  | .error f => throw f

def noteUses (title : String) (uses : List (String × List Nat)) : Journaled Unit := do
  Journaled.detail ""
  Journaled.detail (title ++ ", with rules where they appear")
  Journaled.detail ""
  Journaled.each (fun (symbol, rules) =>
      Journaled.detail (Text.padRight 20 symbol ++ " : " ++ " ".intercalate (rules.map toString)))
    (uses.mergeSort fun a b => a.1 ≤ b.1)

def warnCount (n : Nat) (noun : String) : Journaled Unit := do
  if n == 1 then Journaled.warning ("There is 1 unused " ++ noun)
  if 1 < n then Journaled.warning ("There are " ++ toString n ++ " unused " ++ noun ++ "s")

def reportUndefined (g : Grammar) : Journaled Unit :=
  Journaled.each (fun (symbol, p) =>
    Journaled.error (p.file ++ ":" ++ toString p.line ++ ": Symbol " ++ Text.quoted symbol ++
      " used, but not defined as a token or a rule")) g.undefinedSymbols

def reportUnusedTerminals (terms : List String) : Journaled Unit := do
  if terms.isEmpty then return
  Journaled.detail ""
  Journaled.detail "Unused terminals:"
  Journaled.detail ""
  Journaled.each (fun t => do
    Journaled.warning ("Token " ++ Text.quoted t ++ " defined, but not used")
    Journaled.detail ("    " ++ t)) terms

def noteRules (g : Grammar) : Journaled Unit := do
  Journaled.detail ""
  Journaled.detail "Grammar"
  Journaled.detail ""
  Journaled.each (fun p : Production =>
    Journaled.detail ("Rule " ++ Text.padRight 5 (toString p.number) ++ " " ++ p.text)) g.allRules

/-- Reports symbols that cannot be reached or cannot end. -/
def reportRecursion (g : Grammar) : Journaled Unit := do
  Journaled.each (fun s => Journaled.warning ("Symbol " ++ Text.quoted s ++ " is unreachable"))
    (← Journaled.lift g.unreachable)
  Journaled.each
    (fun s => Journaled.error ("Infinite recursion detected for symbol " ++ Text.quoted s))
    g.infiniteCycles

def examine (options : BuildOptions) (g : Grammar) : Journaled Unit := do
  reportUndefined g
  let terms := g.unusedTerminals
  reportUnusedTerminals terms
  if options.detailed then noteRules g
  let rules ← Journaled.lift g.unusedRules
  Journaled.each (fun p : Production =>
    Journaled.warning (p.file ++ ":" ++ toString p.line ++ ": Rule " ++ Text.quoted p.head ++
      " defined, but not used")) rules
  warnCount terms.length "token"
  warnCount rules.length "rule"
  if options.detailed then
    noteUses "Terminals" g.terminals
    noteUses "Nonterminals" g.nonterminals
    Journaled.detail ""
  if options.checkRecursion then reportRecursion g
  Journaled.each (fun (term, assoc) =>
    Journaled.error ("Precedence rule " ++ Text.quoted assoc.label ++
      " defined for unknown symbol " ++ Text.quoted term)) g.unusedPrecedences
  stopIfFailed

def warnConflicts (n : Nat) (kind : String) : Journaled Unit := do
  if n == 1 then Journaled.warning ("1 " ++ kind ++ " conflict")
  if 1 < n then Journaled.warning (toString n ++ " " ++ kind ++ " conflicts")

def warnBoth (text : String) : Journaled Unit := do
  Journaled.detailWarning text
  Journaled.warning text

def reportChoices : List (Nat × Nat × Nat) → List Lr.ReduceReduce → Journaled Unit
  | _, [] => pure ()
  | seen, c :: rest => do
    let key := (c.state, c.chosen.number, c.rejected.number)
    if seen.contains key then reportChoices seen rest
    else
      let state := toString c.state
      let chosen := "reduce/reduce conflict in state " ++ state ++ " resolved using rule (" ++
        c.chosen.text ++ ")"
      let rejected := "rejected rule (" ++ c.rejected.text ++ ") in state " ++ state
      Journaled.detailWarning chosen
      Journaled.detailWarning rejected
      Journaled.warning chosen
      Journaled.warning rejected
      reportChoices (key :: seen) rest

def reportNeverReduced (reduced : List (Nat × Int)) :
    List Nat → List Lr.ReduceReduce → Journaled Unit
  | _, [] => pure ()
  | seen, c :: rest => do
    let number := c.rejected.number
    if Assoc.getD number reduced 0 == 0 && !seen.contains number then
      warnBoth ("Rule (" ++ c.rejected.text ++ ") is never reduced")
      reportNeverReduced reduced (number :: seen) rest
    else reportNeverReduced reduced seen rest

def reportConflicts (t : Lr.Table) (reduced : List (Nat × Int)) : Journaled Unit := do
  warnConflicts t.shiftReduce.length "shift/reduce"
  warnConflicts t.reduceReduce.length "reduce/reduce"
  if t.shiftReduce.isEmpty && t.reduceReduce.isEmpty then return
  Journaled.detailWarning ""
  Journaled.detailWarning "Conflicts:"
  Journaled.detailWarning ""
  Journaled.each (fun c : Lr.ShiftReduce =>
    Journaled.detailWarning ("shift/reduce conflict for " ++ c.token ++ " in state " ++
      toString c.state ++ " resolved as " ++ c.resolution)) t.shiftReduce
  reportChoices [] t.reduceReduce
  reportNeverReduced reduced [] t.reduceReduce

def tabulate (options : BuildOptions) (g : Grammar) : Journaled RuledTable := do
  if options.detailed then Journaled.line ("Generating " ++ options.method ++ " tables")
  let (outcome, g) := Lr.buildTableNamed options.stateLimit g options.method
  let t ← Journaled.lift outcome
  modify fun j => { j with detail := j.detail ++ t.log }
  if options.detailed then reportConflicts t g.reduced
  return ⟨t, g.allRules, g.reduced⟩

def detailHeader : String := "Created by PLY version 3.11 (http://www.dabeaz.com/ply)"

def noSuchPath (path : String) : String :=
  "[Errno 2] No such file or directory: " ++ Text.quoted path

def generate (options : BuildOptions) (spec : ParserSpec) (tokens : List String) :
    Journaled RuledTable := do
  if options.detailed then
    match options.lostLog with
    | some (name, path) =>
      Journaled.warning ("Couldn't open " ++ Text.quoted name ++ ". " ++ noSuchPath path)
    | none => pure ()
  Journaled.detail detailHeader
  let checked ← spec.check tokens
  let g ← declarePrecedences checked.precedences (.ofTokens tokens)
  let g ← declareRules checked.rules g
  let g ← declareStart (spec.value "start") g
  stopIfFailed
  examine options g
  tabulate options g

def missingFunction (name : String) : String :=
  "KeyError(" ++ Text.quoted name ++ ")"

/-- What prevents a saved table from being used with a description. -/
def loadProblem (spec : ParserSpec) (t : RuledTable) : Option String :=
  match (t.rules.filterMap (·.action)).find? fun name => !Assoc.has name spec.members with
  | some name => some (missingFunction name)
  | none =>
    match t.table.defaulted with
    | .ok _ => none
    | .error f => some ("TypeError(" ++ Text.quoted f.message ++ ")")

def reuse (spec : ParserSpec) (signature : String) :
    Option SavedTable → Journaled (Option RuledTable)
  | none => pure none
  | some saved => do
    if saved.version != tableVersion then
      Journaled.warning "yacc table file version is out of date"
      return none
    else if saved.signature != signature then return none
    else
      match loadProblem spec saved.content with
      | none => return some saved.content
      | some problem =>
        Journaled.warning ("There was a problem loading the table file: " ++ problem)
        return none

def save (target : SaveTarget) (signature : String) (t : RuledTable) :
    Journaled (Option SavedTable) := do
  match target with
  | .nowhere => return none
  | .file _ _ => return some ⟨tableVersion, signature, t⟩
  | .unwritable name path =>
    Journaled.warning ("Couldn't create " ++ Text.quoted name ++ ". " ++ noSuchPath path)
    return none
  | .loaded shown =>
    Journaled.warning ("Couldn't create " ++ shown ++ ". Won't overwrite existing tabmodule")
    return none

structure BuildResult where
  content : RuledTable
  rebuilt : Bool
  saved : Option SavedTable

def build (options : BuildOptions) (spec : ParserSpec) (saved : Option SavedTable)
    (target : SaveTarget) : Journaled BuildResult := do
  modify fun j => { j with failed := false }
  let spec := match options.start with
    | some start => spec.setValue "start" start
    | none => spec
  let tokens ← spec.readTokens
  stopIfFailed
  let signature ← Journaled.lift (spec.signature tokens)
  match ← reuse spec signature saved with
  | some content => return ⟨content, false, none⟩
  | none =>
    let content ← generate options spec tokens
    let saved ← save target signature content
    let _ ← Journaled.lift content.table.defaulted
    return ⟨content, true, saved⟩

def parser (spec : ParserSpec) (t : RuledTable) (useDefaulted : Bool) : Lr.Parser :=
  let rule := fun n => t.rules[n]?
  let function := fun n => (rule n).bind fun p => p.action.bind spec.function?
  { tables := t.table.toTables (fun n => (rule n).map Lr.ruleInfo) useDefaulted
    name := fun n => ((function n).map (·.label)).getD ""
    action := fun n => ((function n).map (·.action)).getD .tree
    handler := spec.handler? }

end LangKit.ParserSpec
