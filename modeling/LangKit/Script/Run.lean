import LangKit.Script.Console
import LangKit.Script.Parse
import LangKit.Store.Copy
import LangKit.Store.Operation

/-!
# Running programs

The state of a run and the steps that evaluators are made of. A run stops early at a fault, or when
its fuel is used up; what has happened up to there stays.
-/

namespace LangKit.Script

/-- Names and their values, in order of first assignment. -/
abbrev Scope := List (String × Datum)

/-- The state of a session. The contexts are the scopes that are passed on by reference, and the
number of one of them is its reference. -/
structure Machine where
  store : Store
  console : Console
  functions : List Datum
  globals : Scope
  contexts : Array Scope
  reader : Reader
  deriving Inhabited

inductive Stop
  | fault (f : Fault)
  | outOfFuel
  deriving Inhabited

abbrev Run := ExceptT Stop (StateM Machine)

namespace Run

def fail {α : Type} (f : Fault) : Run α :=
  throw (.fault f)

def lift {α : Type} : Except Fault α → Run α
  | .ok a => pure a
  | .error f => fail f

def onConsole {α : Type} (f : Store → Console → α × Console) : Run α :=
  fun ⟨store, console, functions, globals, contexts, reader⟩ =>
    let (a, console) := f store console
    (.ok a, ⟨store, console, functions, globals, contexts, reader⟩)

def onStore {α : Type} (f : Store → α × Store) : Run α :=
  fun ⟨store, console, functions, globals, contexts, reader⟩ =>
    let (a, store) := f store
    (.ok a, ⟨store, console, functions, globals, contexts, reader⟩)

def store : Run Store := fun m => (.ok m.store, m)

def tracing : Run Bool := fun m => (.ok m.console.trace, m)

def print (line : String) : Run Unit :=
  onConsole fun _ c => ((), c.print line)

def report {α : Type} (kind : ErrorKind) (text : String) : Run α := do
  let f ← onConsole fun _ c => c.report kind (some text) none
  fail f

def input : Run Datum := do
  let d ← onConsole fun _ c => c.input
  lift d

def output (d : Datum) : Run Unit := do
  let r ← onConsole fun s c => c.output s d
  lift r

def make (kind : String) (fields : Fields) : Run Datum :=
  onStore fun s => let (ref, s) := s.alloc kind fields; (.node ref, s)

def copy (d : Datum) : Run Datum :=
  onStore fun s => s.copy d

def textOf (d : Datum) : Run String := fun m =>
  match m.store.textOf d with
  | .ok s => (.ok s, m)
  | .error f => (.error (.fault f), m)

def nodeFor (member : String) : Datum → Run Nat
  | .node ref => pure ref
  | d => fail (.noAttribute d.typeName member)

def kindNode : Datum → Run Nat := nodeFor "elem_type"

def fieldNode : Datum → Run Nat := nodeFor "dict"

def kindOf (d : Datum) : Run String := do
  let ref ← kindNode d
  fun m => (.ok (m.store.kind ref), m)

def field? (d : Datum) (name : String) : Run (Option Datum) := do
  let ref ← fieldNode d
  fun m => (.ok (m.store.field? ref name), m)

def field (d : Datum) (name : String) : Run Datum := do
  match ← field? d name with
  | some v => pure v
  | none => fail (Fault.missingField name)

def setKind (d : Datum) (kind : String) : Run Unit := do
  let ref ← kindNode d
  onStore fun s => ((), s.setKind ref kind)

def setField (d : Datum) (name : String) (value : Datum) : Run Unit := do
  let ref ← fieldNode d
  onStore fun s => ((), s.setField ref name value)

def shareTable (d other : Datum) : Run Unit := do
  let source ← fieldNode other
  let ref ← fieldNode d
  onStore fun s => ((), s.shareTable ref source)

def items : Datum → Run (List Datum)
  | .list xs | .tuple xs => pure xs
  | .text s => pure (s.toList.map fun c => .text c.toString)
  | .mapping entries => pure (entries.map (·.1))
  | d => fail (.wrongType ("'" ++ d.typeName ++ "' object is not iterable"))

def size : Datum → Run Nat
  | .list xs | .tuple xs => pure xs.length
  | .text s => pure s.length
  | .mapping entries => pure entries.length
  | d => fail (.wrongType ("object of type '" ++ d.typeName ++ "' has no len()"))

def showScope (scope : Scope) : Run String :=
  lift (Datum.mapping (scope.map fun e => (.text e.1, e.2))).display

/-- Goes through statements until one of them gives a result. -/
def block {κ : Type} (exec : Datum → κ → Run (κ × Datum)) : List Datum → κ → Run (κ × Datum)
  | [], scope => pure (scope, .null)
  | s :: rest, scope => do
    let (scope, result) ← exec s scope
    match result with
    | .null => block exec rest scope
    | _ => pure (scope, result)

/-- Repeats a step that says whether to go on or gives a result. -/
def repeatWhile (test : Run Bool) (body : Run Datum) : Nat → Run Datum
  | 0 => throw .outOfFuel
  | fuel + 1 => do
    if ← test then
      match ← body with
      | .null => repeatWhile test body fuel
      | result => pure result
    else pure .null

/-- The scope that a reference stands for. -/
def context (c : Nat) : Run Scope := fun m => (.ok (m.contexts.getD c []), m)

def newContext (scope : Scope) : Run Nat :=
  fun ⟨store, console, functions, globals, contexts, reader⟩ =>
    (.ok contexts.size, ⟨store, console, functions, globals, contexts.push scope, reader⟩)

/-- Binds a name where all that have the reference see it. -/
def bindIn (c : Nat) (name : String) (value : Datum) : Run Nat :=
  fun ⟨store, console, functions, globals, contexts, reader⟩ =>
    (.ok c, ⟨store, console, functions, globals, contexts.modify c (Assoc.put name value), reader⟩)

end Run

/-- How evaluators hand on the names that are in scope: what they pass on for a scope, how they find
the scope again, how a block or a call gets a copy of its own, and how a name is bound. -/
structure Handling (κ : Type) where
  scope : κ → Run Scope
  fork : κ → Run κ
  bind : κ → String → Datum → Run κ

/-- The scope itself is passed on, and given back when a name has been bound in it. -/
def Handling.value : Handling Scope where
  scope := pure
  fork := pure
  bind scope name value := pure (Assoc.put name value scope)

/-- A reference is passed on, and names are bound in the context that it stands for, where they stay
whatever happens then. -/
def Handling.reference : Handling Nat where
  scope := Run.context
  fork c := do Run.newContext (← Run.context c)
  bind := Run.bindIn

end LangKit.Script
