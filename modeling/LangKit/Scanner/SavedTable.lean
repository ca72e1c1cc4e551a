import LangKit.Scanner.Lexer

/-!
# Saved tables

A table is saved with the names of its functions, and as a text that can be loaded as a module.
Loading looks the names up in a description. A table of another version is refused.
-/

namespace LangKit.Scanner

/-- The entry of a group in a saved table: the name of what is called, and the token's type. -/
abbrev SavedEntry := Option (Option String × Option String)

structure SavedTable where
  version : String
  tokens : List String
  flags : Int
  literals : Tree
  states : List (String × String)
  masters : List (String × List (String × List SavedEntry))
  ignored : List (String × String)
  onError : List (String × Option String)
  onEnd : List (String × Option String)
  deriving Repr

def tableVersion : String := "3.10"

def Handler.label : Handler → Option String
  | .function f => some f.name
  | .value _ => none

def saveEntries : List (Option Entry) → List (Option String) → List SavedEntry
  | some ⟨some _, type⟩ :: entries, name :: names => some (name, type) :: saveEntries entries names
  | some ⟨none, type⟩ :: entries, _ :: names => some (none, type) :: saveEntries entries names
  | none :: entries, _ :: names => none :: saveEntries entries names
  | _, _ => []

def saveMasters : List Master → List String → List (List (Option String)) →
    List (String × List SavedEntry)
  | m :: masters, text :: texts, names :: rest =>
    (text, saveEntries m.entries.toList names) :: saveMasters masters texts rest
  | _, _, _ => []

def saveStates (t : ScanTable) : List (String × List Master) →
    Except Fault (List (String × List (String × List SavedEntry)))
  | [] => .ok []
  | (state, masters) :: rest =>
    match Assoc.get? state t.texts, Assoc.get? state t.groupNames with
    | some texts, some names => do
      return (state, saveMasters masters texts names) :: (← saveStates t rest)
    | _, _ => .error (.missingField state)

def ScanTable.save (t : ScanTable) : Except Fault SavedTable := do
  let names := fun (e : String × Option Handler) => (e.1, e.2.bind Handler.label)
  return {
    version := tableVersion
    tokens := t.tokens.mergeSort (· ≤ ·)
    flags := t.flags
    literals := t.literals
    states := t.states
    masters := ← saveStates t t.masters
    ignored := t.ignored
    onError := t.onError.map names
    onEnd := t.onEnd.map names }

def optionalText : Option String → Tree
  | none => .null
  | some s => .text s

def textMapping {α : Type} (value : α → Tree) (entries : List (String × α)) : Tree :=
  .mapping (entries.map fun e => (.text e.1, value e.2))

def entryTree : SavedEntry → Tree
  | none => .null
  | some (name, type) => .tuple [optionalText name, optionalText type]

def SavedTable.text (title : String) (t : SavedTable) : String :=
  "# " ++ title ++ ".py. This file automatically created by PLY (version 3.11). Don't edit!\n" ++
  "_tabversion   = " ++ Text.quoted t.version ++ "\n" ++
  "_lextokens    = set(" ++ shown (.tuple (t.tokens.map .text)) ++ ")\n" ++
  "_lexreflags   = " ++ toString t.flags ++ "\n" ++
  "_lexliterals  = " ++ shown t.literals ++ "\n" ++
  "_lexstateinfo = " ++ shown (textMapping .text t.states) ++ "\n" ++
  "_lexstatere   = " ++ shown (textMapping (fun ms =>
    .list (ms.map fun m => .tuple [.text m.1, .list (m.2.map entryTree)])) t.masters) ++ "\n" ++
  "_lexstateignore = " ++ shown (textMapping .text t.ignored) ++ "\n" ++
  "_lexstateerrorf = " ++ shown (textMapping optionalText t.onError) ++ "\n" ++
  "_lexstateeoff = " ++ shown (textMapping optionalText t.onEnd) ++ "\n"

def findHandler (spec : ScannerSpec) (name : Option String) : Except Fault Handler :=
  match name with
  | none => .error (.missingKey "None")
  | some n =>
    match Assoc.get? n spec.members with
    | none => .error (.missingField n)
    | some (.function f) => .ok (.function f)
    | some (.value t) => .ok (.value t)

def loadEntry (spec : ScannerSpec) : SavedEntry → Except Fault (Option Entry)
  | none => .ok none
  | some (name, type) =>
    if (name.getD "").isEmpty then .ok (some ⟨none, type⟩)
    else do return some ⟨some (← findHandler spec name), type⟩

def flagIsOn (flags bit : Int) : Bool := flags / bit % 2 == 1

def readFlags (flags : Int) : Except Fault Pattern.Flags :=
  if flagIsOn flags 4 then .error (.wrongValue "cannot use LOCALE flag with a str pattern")
  else if flagIsOn flags 256 && flagIsOn flags 32 then
    .error (.wrongValue "ASCII and UNICODE flags are incompatible")
  else .ok {
    ignoreCase := flagIsOn flags 2
    multiline := flagIsOn flags 8
    dotAll := flagIsOn flags 16
    verbose := flagIsOn flags 64
    ascii := flagIsOn flags 256 }

def compile (flags : Int) (text : String) : Except Fault Pattern.Compiled := do
  match Pattern.parse (← readFlags flags) text with
  | .ok p => return p
  | .error .tooLarge => throw (.overflow (Pattern.PatternError.tooLarge.text text))
  | .error e => throw (.patternError (e.text text))

def loadMaster (spec : ScannerSpec) (flags : Int) (m : String × List SavedEntry) :
    Except Fault Master := do
  let pattern ← compile flags m.1
  let entries ← m.2.mapM (loadEntry spec)
  return ⟨pattern, entries.toArray⟩

def otherVersion : Fault := .loadError "Inconsistent PLY version"

def SavedTable.load (t : SavedTable) (spec : ScannerSpec) (checked : Bool) :
    Except Fault ScanTable := do
  if t.version != tableVersion then throw otherVersion
  if t.literals.parts?.isNone then
    throw (.wrongType ("'" ++ t.literals.typeName ++ "' object is not iterable"))
  let masters ← t.masters.mapM fun e => do
    return (e.1, ← e.2.mapM (loadMaster spec t.flags))
  let handlers := fun (e : String × Option String) => do
    return (e.1, some (← findHandler spec e.2))
  let onError ← t.onError.mapM handlers
  let onEnd ← t.onEnd.mapM handlers
  if !Assoc.has initialState masters then throw (.wrongValue "Undefined state")
  return {
    tokens := t.tokens, literals := t.literals, flags := t.flags, states := t.states
    masters, texts := masters.map fun e => (e.1, []), groupNames := []
    ignored := t.ignored, onError, onEnd, checked }

def treeTexts (t : Tree) : List String :=
  (t.parts?.getD []).filterMap Tree.text?

def textEntries (t : Tree) : List (String × Tree) :=
  match t with
  | .mapping entries => entries.filterMap fun e => e.1.text?.map fun k => (k, e.2)
  | _ => []

def readEntry (t : Tree) : SavedEntry :=
  match t.items? with
  | some [name, type] => some (name.text?, type.text?)
  | _ => none

def readMaster (t : Tree) : Option (String × List SavedEntry) :=
  match t.items? with
  | some [.text pattern, entries] => some (pattern, (entries.items?.getD []).map readEntry)
  | _ => none

def SavedTable.ofMembers (owner : String) (members : List (String × Tree)) :
    Except Fault SavedTable := do
  let member := fun (name : String) =>
    match Assoc.get? name members with
    | some t => Except.ok t
    | none => .error (Fault.noMember owner name)
  let version := match Assoc.get? "_tabversion" members with
    | some (.text s) => s
    | _ => "0.0"
  if version != tableVersion then throw otherVersion
  let tokens ← member "_lextokens"
  let flags ← member "_lexreflags"
  let literals ← member "_lexliterals"
  let states ← member "_lexstateinfo"
  let ignored ← member "_lexstateignore"
  let masters ← member "_lexstatere"
  let onError ← member "_lexstateerrorf"
  let onEnd ← member "_lexstateeoff"
  let texts := fun (t : Tree) => (textEntries t).map fun e => (e.1, e.2.text?.getD "")
  let names := fun (t : Tree) => (textEntries t).map fun e => (e.1, e.2.text?)
  return {
    version
    tokens := treeTexts tokens
    flags := match flags with
      | .int n => n
      | _ => 0
    literals
    states := texts states
    masters := (textEntries masters).map fun e => (e.1, (e.2.items?.getD []).filterMap readMaster)
    ignored := texts ignored
    onError := names onError
    onEnd := names onEnd }

end LangKit.Scanner
