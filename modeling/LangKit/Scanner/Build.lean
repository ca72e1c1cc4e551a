import LangKit.Scanner.SavedTable

/-!
# Building a scanner from its description

A description that passes its checks gives a table. An optimized scanner skips the checks; a table
that was saved earlier is used instead if it has the right version, and a new table is saved.
-/

namespace LangKit.Scanner

def tableModule : String := "lextab"

structure BuildOptions where
  detailed : Bool
  optimized : Bool

inductive SaveTarget
  | nowhere
  | file
  | loaded (shown : String)
  | missingPackage (name : String)

def note (options : BuildOptions) (s : String) : Journaled Unit := do
  if options.detailed then Journaled.line ("lex: " ++ s)

def joinLiterals (t : Tree) : Except Fault Tree :=
  let join (items : List Tree) : Except Fault Tree :=
    match items.head? with
    | some (.text _) =>
      match items.zipIdx.find? fun e => e.1.text?.isNone with
      | none => .ok (.text (String.join (items.filterMap Tree.text?)))
      | some (other, n) => .error (.wrongType ("sequence item " ++ toString n ++
          ": expected str instance, " ++ other.typeName ++ " found"))
    | some other => .error (.noAttribute other.typeName "join")
    | none => .error .listIndex
  match t with
  | .list items | .tuple items => join items
  | .text _ | .mapping _ => .ok t
  | other => .error (.wrongType ("'" ++ other.typeName ++ "' object is not iterable"))

def statePatterns (options : BuildOptions) (state : String) (rules : StateRules) :
    Journaled (List String) := do
  let all := rules.functions.map (fun e => (e.1, e.2.patternText)) ++ rules.texts
  Journaled.each (fun (name, p) =>
    note options ("Adding rule " ++ name ++ " -> '" ++ p ++ "' (state '" ++ state ++ "')")) all
  return all.map fun (name, p) => namedPattern name p

def noteMasters (options : BuildOptions) (state : String) (masters : List FormedMaster) :
    Journaled Unit :=
  Journaled.each (fun (m, n) =>
    note options ("state '" ++ state ++ "' : regex[" ++ toString n ++ "] = '" ++ m.text ++ "'"))
    (masters.zipIdx.map fun (m, n) => ((m : FormedMaster), (n : Nat)))

def allPatterns (options : BuildOptions) : List (String × StateRules) →
    Journaled (List (String × List String))
  | [] => pure []
  | (state, rules) :: rest => do
    let patterns ← statePatterns options state rules
    return (state, patterns) :: (← allPatterns options rest)

def allMasters (options : BuildOptions) (spec : ScannerSpec) (made : List (String × String)) :
    List (String × List String) → Journaled (List (String × List FormedMaster))
  | [] => pure []
  | (state, patterns) :: rest => do
    let masters ← Journaled.lift (stateMasters spec made patterns)
    noteMasters options state masters
    return (state, masters) :: (← allMasters options spec made rest)

/-- Adds the initial state's patterns to the inclusive states. -/
def includeInitial (states : List (String × String)) (masters : List (String × List FormedMaster)) :
    List (String × List FormedMaster) :=
  let initial := Assoc.getD initialState masters []
  masters.map fun (state, own) =>
    if state != initialState && Assoc.get? state states == some inclusive then
      (state, own ++ initial)
    else (state, own)

/-- What the states do about errors and ignored characters: exclusive ones are warned of, inclusive
ones do as the initial one. -/
def completeStates (ignoring : Bool) : List (String × String) →
    List (String × Option Handler) → List (String × String) →
    Journaled (List (String × Option Handler) × List (String × String))
  | [], onError, ignored => pure (onError, ignored)
  | (state, kind) :: rest, onError, ignored => do
    if kind == exclusive then
      if !Assoc.has state onError then
        Journaled.warning ("No error rule is defined for exclusive state '" ++ state ++ "'")
      if !Assoc.has state ignored && ignoring then
        Journaled.warning ("No ignore rule is defined for exclusive state '" ++ state ++ "'")
      completeStates ignoring rest onError ignored
    else
      let onError := if Assoc.has state onError then onError
        else Assoc.put state (Assoc.getD initialState onError none) onError
      let ignored := if Assoc.has state ignored then ignored
        else Assoc.put state (Assoc.getD initialState ignored "") ignored
      completeStates ignoring rest onError ignored

def handlers (functions : List (String × ScanFunction)) : List (String × Option Handler) :=
  functions.map fun e => (e.1, some (.function e.2))

def tabulate (options : BuildOptions) (spec : ScannerSpec) (r : Rules) : Journaled ScanTable := do
  note options ("tokens   = " ++ shown r.tokens)
  note options ("literals = " ++ shown r.literals)
  note options ("states   = " ++ shown (textMapping .text r.states))
  let literals ← Journaled.lift (joinLiterals r.literals)
  let patterns ← allPatterns options r.byState
  note options "==== MASTER REGEXS FOLLOW ===="
  let masters := includeInitial r.states (← allMasters options spec r.made patterns)
  if !Assoc.has initialState r.onError then Journaled.warning "No t_error rule is defined"
  let ignoring := !(Assoc.getD initialState r.ignored "").isEmpty
  let (onError, ignored) ← completeStates ignoring r.states (handlers r.onError) r.ignored
  return {
    tokens := treeTexts r.tokens
    literals, flags := patternFlagsNumber, states := r.states
    masters := masters.map fun e => (e.1, e.2.map (·.master))
    texts := masters.map fun e => (e.1, e.2.map (·.text))
    groupNames := masters.map fun e => (e.1, e.2.map (·.names))
    ignored, onError, onEnd := handlers r.onEnd
    checked := !options.optimized }

structure BuildResult where
  table : ScanTable
  reused : Bool
  saved : Option SavedTable

def reuse (options : BuildOptions) (spec : ScannerSpec) (saved : Option SavedTable) :
    Except Fault (Option ScanTable) :=
  match saved with
  | none => .ok none
  | some t =>
    if !options.optimized then .ok none
    else match t.load spec false with
      | .ok table => .ok (some table)
      | .error (.loadError _) => .ok none
      | .error f => .error f

def save (options : BuildOptions) (target : SaveTarget) (t : ScanTable) :
    Journaled (Option SavedTable) := do
  if !options.optimized then return none
  match target with
  | .nowhere => return none
  | .file => return some (← Journaled.lift t.save)
  | .missingPackage name => throw (.noModule name)
  | .loaded shown =>
    Journaled.warning
      ("Couldn't write lextab module " ++ shown ++ ". Won't overwrite existing lextab module")
    return none

def build (options : BuildOptions) (spec : ScannerSpec) (saved : Option SavedTable)
    (target : SaveTarget) : Journaled BuildResult := do
  modify fun j => { j with failed := false }
  let r ← readSpec spec
  if !options.optimized then check spec r
  match ← Journaled.lift (reuse options spec saved) with
  | some table => return ⟨table, true, none⟩
  | none =>
    let table ← tabulate options spec r
    return ⟨table, false, ← save options target table⟩

end LangKit.Scanner
