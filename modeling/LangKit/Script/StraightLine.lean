import LangKit.Script.Eval

/-!
# The straight-line dialect

The smallest dialect: one scope for the whole program, assignments and calls of the built-in
functions, integers and texts with sums and differences. A call of the print function as an
expression has no value, and a name that was assigned no value counts as undefined.
-/

namespace LangKit.Script.StraightLine

open Run

def globals : Run Scope := fun m => (.ok m.globals, m)

def assign (name : String) (value : Datum) : Run Unit :=
  fun ⟨store, console, functions, globals, contexts, reader⟩ =>
    (.ok (), ⟨store, console, functions, Assoc.put name value globals, contexts, reader⟩)

def traceVariables : Scope → Run Unit
  | [] => pure ()
  | (name, d) :: rest => do
    print (name ++ ": " ++ (← textOf (← contents d)))
    traceVariables rest

def trace (title : String) : Run Unit := do
  if ← tracing then
    print (title ++ "\x7b")
    traceVariables (← globals)
    print "\x7d"

/-- Refuses texts as operands. The right operand is not looked at if the left one is a text. -/
def refuseTexts (op : BinaryOp) (a b : Datum) : Run Unit := do
  if (← kindOf a) == "string" then misfit op.title
  if (← kindOf b) == "string" then misfit op.title

/-- The sum of two values, with a trace before and after. -/
def add (a b : Datum) : Run Datum := do
  trace "add - "
  refuseTexts .add a b
  let result ← amend Datum.add a b
  trace "add end - "
  return result

def subtract (a b : Datum) : Run Datum := do
  refuseTexts .subtract a b
  amend Datum.subtract a b

def variableValue (node : Datum) : Run Datum := do
  let name := (← field? node "name").getD .null
  match (← globals).value? name with
  | some .null | none => report .name ("Variable " ++ (← textOf name) ++ " has not been defined")
  | some v => copy v

def outputLine (eval : Datum → Run Datum) : List Datum → String → Run String
  | [], line => pure line
  | arg :: rest, line => do
    match ← eval arg with
    | .null => report .name "Missing some var"
    | value =>
      let piece ← textOf (← contents value)
      outputLine eval rest (line ++ piece)

def printHeader (args : Datum) : Run Unit := do
  if ← tracing then print ("handle_print " ++ (← lift args.display))

def callWith (eval : Datum → Run Datum) (name args : Datum) : Run Datum := do
  match Builtin.ofName? name with
  | some .readInt =>
    promptWith "inputi" eval args
    readInput .readInt
  | some .print =>
    printHeader args
    let line ← outputLine eval (← items args) ""
    putLine line
  | _ => report .name ("Unknown function " ++ (← textOf name))

mutual

def eval : Nat → Datum → Run Datum
  | 0, _ => throw .outOfFuel
  | fuel + 1, node => do
    let kind ← kindOf node
    if kind == "int" || kind == "string" then copy node
    else if kind == "var" then variableValue node
    else if kind == "+" then
      let a ← eval fuel (← field node "op1")
      let b ← eval fuel (← field node "op2")
      add a b
    else if kind == "-" then
      let a ← eval fuel (← field node "op1")
      let b ← eval fuel (← field node "op2")
      subtract a b
    else if kind == "fcall" then
      let name ← field node "name"
      let args ← field node "args"
      call fuel name args
    else report .name ("Unknown expression " ++ (← textOf node))

def call : Nat → Datum → Datum → Run Datum
  | 0, _, _ => throw .outOfFuel
  | fuel + 1, name, args => callWith (eval fuel) name args

end

/-- What a statement does before the variables are shown. -/
def perform (fuel : Nat) (node : Datum) (kind : String) : Run Unit :=
  if kind == "=" then do
    let name ← nameText (← field node "name")
    let right ← field node "expression"
    assign name (← eval fuel right)
  else if kind == "fcall" then do
    let name ← field node "name"
    let args ← field node "args"
    let _ ← call fuel name args
  else pure ()

def exec : Nat → Datum → Run Unit
  | 0, _ => throw .outOfFuel
  | fuel + 1, node => do
    perform fuel node (← kindOf node)
    trace ""

def execAll (fuel : Nat) : List Datum → Run Unit
  | [] => pure ()
  | s :: rest => do
    exec fuel s
    execAll fuel rest

end LangKit.Script.StraightLine
