import LangKit.Script.Variable
import LangKit.Text.LetterCase

/-!
# Evaluating programs with scopes

Three functions that call each other: `eval` gives the value of an expression, `exec` carries out a
statement, and `call` calls a function. The names in scope can be handed on in different ways. A
statement gives back what it was given for a scope, with the names it has bound, and a value if it
ends the function. Blocks, rounds of a loop and calls work on a copy, so the names they bind are not
seen outside, while the values they change stay changed.

The number is fuel: it bounds the depth of the recursion and the length of each loop.
-/

namespace LangKit.Script

open Run

inductive ExprForm
  | literal
  | variable
  | lambda
  | binary (op : BinaryOp)
  | unary (op : UnaryOp)
  | call
  | object
  | methodCall
  | unknown
  deriving DecidableEq, Repr

def Dialect.exprForm (dialect : Dialect) (kind : String) : ExprForm :=
  if ["int", "string", "bool", "nil"].contains kind then .literal
  else if kind == "var" then .variable
  else if kind == "lambda" && dialect.hasClosures then .lambda
  else
    match BinaryOp.ofKind? kind, UnaryOp.ofKind? kind with
    | some op, _ => .binary op
    | none, some op => .unary op
    | none, none =>
      if kind == "fcall" then .call
      else if kind == "@" && dialect.hasObjects then .object
      else if kind == "mcall" && dialect.hasObjects then .methodCall
      else .unknown

inductive StatementForm
  | assign
  | choice
  | loop
  | return
  | call
  | other
  deriving DecidableEq, Repr

def statementForm : String → StatementForm
  | "=" => .assign
  | "if" => .choice
  | "while" => .loop
  | "return" => .return
  | "fcall" => .call
  | _ => .other

inductive Builtin
  | readInt
  | readText
  | print
  deriving DecidableEq, Repr

def Builtin.ofName? : Datum → Option Builtin
  | .text "inputi" => some .readInt
  | .text "inputs" => some .readText
  | .text "print" => some .print
  | _ => none

def promptWith (title : String) (eval : Datum → Run Datum) (args : Datum) : Run Unit := do
  let n ← size args
  if n == 1 then
    let arg := (← items args).headD .null
    output (← contents (← eval arg))
  else if n > 1 then
    report .name ("No " ++ title ++ "() function found that takes > 1 parameter")

def outputPiece (value : Datum) : Run String := do
  match value with
  | .null => report .name "Missing some var"
  | v =>
    let s ← textOf (← contents v)
    if (← kindOf v) == "bool" then return (Text.lower s) else return s

def outputLine (eval : Datum → Run Datum) : List Datum → String → Run String
  | [], line => pure line
  | arg :: rest, line => do
    let piece ← outputPiece (← eval arg)
    outputLine eval rest (line ++ piece)

/-- What the print function does before it looks at its arguments. -/
def printHeader (scope : Scope) (args : Datum) : Run Unit := do
  if ← tracing then
    print ("handle_print " ++ (← lift args.display) ++ " " ++ (← showScope scope))

def traceLine (line : String) : Run Unit := do
  if ← tracing then print line

def putLine (line : String) : Run Datum := do
  traceLine line
  output (.text line)
  return .null

def readInput : Builtin → Run Datum
  | .readInt => do makeInt (← lift (← input).toInteger)
  | .readText => do make "string" [("val", .text (← textOf (← input)))]
  | .print => pure .null

def callBuiltin (eval : Datum → Run Datum) (scope : Scope) (args : Datum) : Builtin → Run Datum
  | .readInt => do
    promptWith "inputi" eval args
    readInput .readInt
  | .readText => do
    promptWith "inputs" eval args
    readInput .readText
  | .print => do
    printHeader scope args
    let line ← outputLine eval (← items args) ""
    putLine line

/-- Refuses a condition unless it is of a kind that counts as one, and gives its truth. -/
def conditionTruth (dialect : Dialect) (title : String) (value : Datum) : Run Bool := do
  if !dialect.conditions.contains (← kindOf value) then
    report .type ("Incompatible type for " ++ title ++ " condition")
  return (← contents value).truth

/-- The values of arguments. With formals, an argument for a reference formal is passed as it is; in
the dialects with closures all others are copied. -/
def argValues (dialect : Dialect) (eval : Bool → Datum → Run Datum)
    (formals : Option (List Datum)) :
    Nat → List Datum → Run (List Datum)
  | _, [] => pure []
  | i, arg :: rest => do
    let value ← match formals with
      | none => do
        let v ← eval false arg
        if dialect.hasClosures then copy v else pure v
      | some fs => do
        match fs[i]? with
        | none => fail Fault.listIndex
        | some formal =>
          let byRef := (← kindOf formal) == "refarg"
          let v ← eval byRef arg
          if byRef then pure v else copy v
    return value :: (← argValues dialect eval formals (i + 1) rest)

def findCallee (name : Datum) (arity : Nat) : List Datum → Run (Option Datum)
  | [] => pure none
  | f :: rest => do
    if (← field f "name").same name then
      if (← size (← field f "args")) == arity then return some f
      else findCallee name arity rest
    else findCallee name arity rest

def capturedEntries : Datum → Run (List (Datum × Datum))
  | .mapping entries => pure entries
  | d => fail (.wrongType ("'" ++ d.typeName ++ "' object is not iterable"))

def traceScope : Scope → Run Unit
  | [] => pure ()
  | (name, d) :: rest => do
    print (name ++ ":" ++ (← textOf (← contents d)))
    traceScope rest

def traceCall (inner outer : Scope) : Run Unit := do
  print (← showScope inner)
  print "\x7b"
  traceScope inner
  print "\x7d"
  print "\x7b"
  traceScope outer
  print "\x7d"
  print ">>"

/-- The rows of statements that are carried out one after the other: a block, the body of a function
that is called in a context, and the main function. -/
inductive Row
  | block
  | body (outer : Scope) (title : String)
  | main

def Row.announce (dialect : Dialect) (scope : Scope) : Row → Run Unit
  | .block => pure ()
  | .body outer title => do
    if dialect.hasClosures then
      print (← showScope outer)
      print title
  | .main => do
    if dialect.hasClosures then
      print (← showScope scope)
      print "main"

/-- What is printed after a statement of a row, which has left a scope. -/
def Row.finish (dialect : Dialect) (scope : Scope) : Row → Run Unit
  | .block | .main => pure ()
  | .body outer _ => do
    if !dialect.hasClosures then
      if ← tracing then traceCall scope outer

/-- The function that a call means, the values of the arguments, and whether it is a function of the
program and not the value of a variable. -/
def chooseCalled (dialect : Dialect) (scope : Scope) (name : Datum) (values : List Datum) :
    Run (Datum × List Datum × Bool) := do
  match ← findCallee name values.length (← functions) with
  | some f => return (f, values, true)
  | none =>
    match if dialect.hasClosures then scope.value? name else none with
    | some f =>
      let kind ← kindOf f
      if kind != "func" && kind != "lambda" then
        report .type ((← textOf name) ++ " is not a function")
      if (← size (← field f "args")) == values.length then return (f, values, false)
      else
        report .type ((← textOf name) ++ " does not take " ++ toString values.length ++
          " parameters")
    | none =>
      report .name ("No " ++ (← textOf name) ++ " function found that takes " ++
        toString values.length ++ " parameters")

def callValue : Datum → Run Datum
  | .null => makeNil
  | d => pure d

namespace Handling

variable {κ : Type} (h : Handling κ)

def bindFormals (c : κ) : List Datum → List Datum → Run κ
  | [], _ => pure c
  | _ :: _, [] => fail Fault.listIndex
  | formal :: formals, value :: values => do
    let name ← nameText (← field formal "name")
    bindFormals (← h.bind c name value) formals values

/-- Binds the values that a lambda has taken along, over the names that are there. -/
def bindCaptured (c : κ) : List (Datum × Datum) → Run κ
  | [] => pure c
  | (_, .null) :: rest => bindCaptured c rest
  | (name, value) :: rest => do
    bindCaptured (← h.bind c (← nameText name) value) rest

/-- Binds what a function is called with. It gives the row that the body makes, its statements, and
the scope in which they are carried out. -/
def enterBody (outer inner : κ) (name f : Datum) (named : Bool) (values : List Datum) :
    Run (Run Row × List Datum × κ) := do
  let inner ← h.bindFormals inner (← items (← field f "args")) values
  if named then
    let title ← nameText name
    return (do return .body (← h.scope outer) title, ← items (← field f "statements"), inner)
  else
    let inner ← if (← kindOf f) == "lambda" then do
        h.bindCaptured inner (← capturedEntries (← field f "free_vars"))
      else pure inner
    return (pure .block, ← items (← field f "statements"), inner)

/-- Carries out a statement of a row, with what is printed around it. -/
def step (dialect : Dialect) (row : Run Row) (exec : Datum → κ → Run (κ × Datum))
    (statement : Datum) (c : κ) :
    Run (κ × Datum) := do
  (← row).announce dialect (← h.scope c)
  let (c, result) ← exec statement c
  (← row).finish dialect (← h.scope c)
  return (c, result)

section

variable (dialect : Dialect) (eval : Bool → κ → Datum → Run Datum)
  (exec : Datum → κ → Run (κ × Datum)) (call : κ → Datum → Datum → Run Datum) (c : κ) (node : Datum)

def evalForm (byRef : Bool) : ExprForm → Run Datum
  | .literal => copy node
  | .variable => do variableValue dialect byRef (← h.scope c) node
  | .lambda => do lambdaValue dialect (← h.scope c) node
  | .binary op => do
    let a ← eval false c (← field node "op1")
    let b ← eval false c (← field node "op2")
    applyBinary dialect op a b
  | .unary op => do
    let a ← eval false c (← field node "op1")
    applyUnary dialect op a
  | .call => do
    let name ← field node "name"
    let args ← field node "args"
    callValue (← call c name args)
  | .object => do
    let _ ← field node "name"
    make "obj" [("proto", .null)]
  | .methodCall => do
    let _ ← field node "objref"
    let name ← field node "name"
    let args ← field node "args"
    -- The copy for the method is made and left unused.
    let _ ← h.fork c
    callValue (← call c name args)
  | .unknown => do report .name ("Unknown expression " ++ (← textOf node))

/-- Carries out a block, and forgets the names that it has bound. -/
def carryOut (inner : κ) (body : Datum) : Run (κ × Datum) := do
  let (_, result) ← block exec (← items body) inner
  return (c, result)

def carryOutElse (inner : κ) : Datum → Run (κ × Datum)
  | .null => pure (c, .null)
  | body => carryOut exec c inner body

def loopTest : Run Bool := do
  let value ← eval false c (← field node "condition")
  conditionTruth dialect "while" value

def loopBody : Run Datum := do
  let inner ← h.fork c
  let (_, result) ← block exec (← items (← field node "statements")) inner
  return result

def resultValue : Datum → Run Datum
  | .null => makeNil
  | right => do
    let value ← eval false c right
    if dialect.hasClosures then copy value else pure value

def execForm (fuel : Nat) : StatementForm → Run (κ × Datum)
  | .assign => do
    let name ← nameText (← field node "name")
    let right ← field node "expression"
    let c ← h.assign dialect c name (eval false c right)
    return (c, .null)
  | .choice => do
    let value ← eval false c (← field node "condition")
    let truth ← conditionTruth dialect "if" value
    let inner ← h.fork c
    if truth then carryOut exec c inner (← field node "statements")
    else carryOutElse exec c inner (← field node "else_statements")
  | .loop => do
    return (c, ← repeatWhile (loopTest dialect eval c node) (loopBody h exec c node) fuel)
  | .return => do return (c, ← resultValue dialect eval c (← field node "expression"))
  | .call => do
    let name ← field node "name"
    let args ← field node "args"
    return (c, ← call c name args)
  | .other => pure (c, .null)

/-- Carries out the body of a function that has been entered. -/
def runBody (entered : Run Row × List Datum × κ) : Run Datum := do
  let (_, result) ← block (h.step dialect entered.1 exec) entered.2.1 entered.2.2
  return result

/-- Calls a function that is not built in. -/
def callOwn (name args : Datum) : Run Datum := do
  let argument := fun byRef arg => eval byRef c arg
  let values ← argValues dialect argument none 0 (← items args)
  let (f, values, named) ← chooseCalled dialect (← h.scope c) name values
  let inner ← h.fork c
  -- With closures, the arguments are evaluated once more.
  let values ← if dialect.hasClosures then do
      let formals ← items (← field f "args")
      argValues dialect argument (some formals) 0 (← items args)
    else pure values
  h.runBody dialect exec (← h.enterBody c inner name f named values)

end

mutual

/-- The value of an expression. By reference, a variable gives its own value and no copy. -/
def eval (dialect : Dialect) : Nat → Bool → κ → Datum → Run Datum
  | 0, _, _, _ => throw .outOfFuel
  | fuel + 1, byRef, c, node => do
    h.evalForm dialect (eval dialect fuel) (call dialect fuel) c node byRef
      (dialect.exprForm (← kindOf node))

def exec (dialect : Dialect) : Nat → Datum → κ → Run (κ × Datum)
  | 0, _, _ => throw .outOfFuel
  | fuel + 1, node, c => do
    h.execForm dialect (eval dialect fuel) (exec dialect fuel) (call dialect fuel) c node fuel
      (statementForm (← kindOf node))

/-- Calls a function by name. The value is null if the function ends without a result. -/
def call (dialect : Dialect) : Nat → κ → Datum → Datum → Run Datum
  | 0, _, _, _ => throw .outOfFuel
  | fuel + 1, c, name, args => do
    match Builtin.ofName? name with
    | some builtin => callBuiltin (eval dialect fuel false c) (← h.scope c) args builtin
    | none => h.callOwn dialect (eval dialect fuel) (exec dialect fuel) c name args

end

end Handling

/-! ## Scopes that are given back -/

def eval (dialect : Dialect) (fuel : Nat) (byRef : Bool) (scope : Scope) (node : Datum) :
    Run Datum :=
  Handling.value.eval dialect fuel byRef scope node

def exec (dialect : Dialect) (fuel : Nat) (node : Datum) (scope : Scope) : Run (Scope × Datum) :=
  Handling.value.exec dialect fuel node scope

def call (dialect : Dialect) (fuel : Nat) (scope : Scope) (name args : Datum) : Run Datum :=
  Handling.value.call dialect fuel scope name args

end LangKit.Script
