import LangKit.Script.StraightLine

/-!
# Sessions

A session is an interpreter that lives through several calls. It runs programs in one of the
dialects, or in none, and keeps its console and its reader from one run to the next.
-/

namespace LangKit.Script

open Run

/-- What a session runs: nothing, programs of the straight-line dialect, or programs of a dialect
with scopes. -/
inductive Version
  | idle
  | straightLine
  | scoped (dialect : Dialect)
  deriving DecidableEq, Repr, Inhabited

def readProgram (text : String) : Run (Except Fault Tree × String) :=
  fun ⟨store, console, functions, globals, contexts, reader⟩ =>
    let parsed := reader.parse false false text
    (.ok parsed.program, ⟨store, console, functions, globals, contexts, parsed.reader⟩)

/-- Parses a program and puts its tree into the store. What the parser prints goes to the
console. -/
def loadProgram (text : String) : Run Datum := do
  let (parsed, printed) ← readProgram text
  onConsole fun _ c => ((), { c with printed := c.printed ++ printed })
  let tree ← lift parsed
  onStore fun s => s.load tree

def findMain : List Datum → Run Datum
  | [] => pure .null
  | f :: rest => do
    if (← field f "name").same (.text "main") then return f else findMain rest

def traceMain (main : Datum) : Run Unit := do
  if ← tracing then print (← textOf main)

/-- Finds the statements of the main function. -/
def enterLoaded (functions : List Datum) : Run (List Datum) := do
  let main ← findMain functions
  traceMain main
  match main with
  | .null => report .name "No main() function was found"
  | main => items (← field main "statements")

/-- What a run does before the statements of the main function, which it gives. -/
def enterMain (text : String) : Run (List Datum) := do
  let program ← loadProgram text
  let functions ← items (← field program "functions")
  modify fun ⟨store, console, _, _, contexts, reader⟩ =>
    ⟨store, console, functions, [], contexts, reader⟩
  enterLoaded functions

/-- Runs a program. A run that goes deeper than the limit, or a loop that makes more rounds, runs
out of fuel. -/
def runProgram (limit : Nat) (version : Version) (text : String) : Run Unit := do
  match version with
  | .idle => pure ()
  | .straightLine => StraightLine.execAll limit (← enterMain text)
  | .scoped dialect =>
    let _ ← block (Handling.value.step dialect (pure .main) (exec dialect limit))
      (← enterMain text) []

def Machine.start (echo trace : Bool) (inputs : List Tree) (typed : String) : Machine :=
  let (inputs, store) := Store.empty.loadAll inputs
  ⟨store, .start echo trace inputs typed, [], [], #[], .new⟩

end LangKit.Script
