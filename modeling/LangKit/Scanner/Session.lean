import LangKit.Scanner.Build

/-!
# Working with lexers

A session has the lexer in use and the lexer that was built first. A copy of a lexer takes its place
and shares the stack of states with it. The rest of the standard input can be scanned as well.
-/

namespace LangKit.Scanner

structure Session where
  spec : ScannerSpec
  desk : Desk
  built : Option Lexer
  sharesStack : Bool
  input : String

namespace Session

def start (spec : ScannerSpec) (table : ScanTable) (input : String) : Session :=
  ⟨spec, ⟨.start table, "", []⟩, none, false, input⟩

def work {α : Type} (action : Scan α) (s : Session) : Except Fault α × Session :=
  let (result, desk) := action s.desk
  (result, { s with desk })

def replaceBy (l : Lexer) (sharesStack : Bool) (s : Session) : Session :=
  { s with
    desk := { s.desk with lexer := l }
    built := some (s.built.getD s.desk.lexer)
    sharesStack := sharesStack && (s.built.isNone || s.sharesStack) }

def copy (s : Session) : Session := s.replaceBy s.desk.lexer true

/-- A lexer without a handler for some state's errors cannot be bound again. -/
def unbound : Fault := .noAttribute "NoneType" "__name__"

def rebindHandler (spec : ScannerSpec) : Handler → Except Fault Handler
  | .function f => findHandler spec (some f.name)
  | .value t => .error (.noAttribute t.typeName "__name__")

def rebindMaster (spec : ScannerSpec) (m : Master) : Except Fault Master := do
  let entries ← m.entries.toList.mapM fun e =>
    match e with
    | some ⟨some h, type⟩ => do return some (Entry.mk (some (← rebindHandler spec h)) type)
    | other => pure other
  return { m with entries := entries.toArray }

/-- A table whose functions are looked up again. Of the patterns of a state the last one stays. -/
def rebindTable (spec : ScannerSpec) (t : ScanTable) : Except Fault ScanTable := do
  let masters ← t.masters.mapM fun (state, masters) => do
    let masters ← masters.mapM (rebindMaster spec)
    return (state, masters.getLast?.toList)
  let onError ← t.onError.mapM fun (state, h) =>
    match h with
    | none => throw unbound
    | some h => do return (state, some (← rebindHandler spec h))
  return { t with masters, onError }

/-- Takes a copy of the lexer into use whose functions are looked up again. What the present state
selected stays until a state is entered. -/
def copyRebound (s : Session) : Except Fault Unit × Session :=
  match rebindTable s.spec s.desk.lexer.table with
  | .error f => (.error f, s)
  | .ok table => (.ok (), s.replaceBy { s.desk.lexer with table } true)

def load (t : SavedTable) (s : Session) : Except Fault Unit × Session :=
  match t.load s.spec true with
  | .error f => (.error f, s)
  | .ok table => (.ok (), s.replaceBy (.start table) false)

/-- A saved table is never written over a module. -/
def overwrite : Fault := .refusedWrite "Won't overwrite existing lextab module"

def tokenLine (t : Token) : Except Fault String :=
  match t.value.display? Tree.nodeMark with
  | none => .error .unprintableInteger
  | some v => .ok ("(" ++ t.type ++ "," ++ v ++ "," ++ toString t.line ++ "," ++
      toString t.position ++ ")\n")

def printTokens : Nat → Scan Unit
  | 0 => throw unending
  | fuel + 1 => do
    match ← token with
    | none => pure ()
    | some t =>
      Scan.print (← Scan.lift (tokenLine t))
      printTokens fuel

def prompt : String := "Reading from standard input (type EOF to end):\n"

def printAll (data : Tree) : Scan Unit := do
  Scan.input data
  printTokens scanLimit

def workBuilt {α : Type} (action : Scan α) (s : Session) : Except Fault α × Session :=
  match s.built with
  | none => s.work action
  | some l =>
    let current := s.desk.lexer
    let stack := if s.sharesStack then current.stack else l.stack
    let (result, desk) := action { s.desk with lexer := { l with stack } }
    let current := if s.sharesStack then { current with stack := desk.lexer.stack } else current
    (result, { s with built := some desk.lexer, desk := { desk with lexer := current } })

/-- The line ends of a text file: all kinds read as one. -/
def plainLines : List Char → List Char
  | [] => []
  | '\r' :: '\n' :: rest => '\n' :: plainLines rest
  | '\r' :: rest => '\n' :: plainLines rest
  | c :: rest => c :: plainLines rest

/-- The text to scan: the given one, else that of a file, else the rest of the standard input. -/
def dataFor (text : Tree) (file : Option String) (s : Session) : Tree × Session :=
  if text.truth then (text, s)
  else match file with
    | some content => (.text (String.ofList (plainLines content.toList)), s)
    | none =>
      (.text s.input,
        { s with input := "", desk := { s.desk with output := s.desk.output ++ prompt } })

/-- Scans a text as a program does, with the lexer in use or with the one that was built first. -/
def runProgram (text : Tree) (file : Option String) (own : Bool) (s : Session) :
    Except Fault Unit × Session :=
  let (data, s) := s.dataFor text file
  if own then s.work (printAll data) else s.workBuilt (printAll data)

end Session

end LangKit.Scanner
