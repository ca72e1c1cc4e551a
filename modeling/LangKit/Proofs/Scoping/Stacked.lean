import LangKit.Proofs.Ast.Basic
import LangKit.Script.Session

/-!
# Programs over a stack of frames

A plain semantics of the scoped dialect. Values are numbers, truth values, texts and nil; nothing is
shared and nothing is changed in place. The environment is a stack of frames that bind names to
values. A branch and each round of a loop run in an empty frame of their own, and a call runs in a
frame with its parameters, on top of the caller's frames. A name means its innermost binding; an
assignment changes the innermost binding, or makes one in the top frame if there is none.

Values that a host passes in stay as they are, in the store in which the host passes them.
-/

namespace LangKit.Script.Stacked

open Ast

inductive Value
  | int (n : Int)
  | bool (b : Bool)
  | string (s : String)
  | nil
  deriving DecidableEq, Repr, Inhabited

def Value.contents? : Value → Option Datum
  | .int n => some (.int n)
  | .bool b => some (.bool b)
  | .string s => some (.text s)
  | .nil => none

/-! ## Environments -/

section

variable {ν : Type}

/-- The innermost binding of a name in a stack of frames. -/
def lookup (x : String) : List (List (String × ν)) → Option ν
  | [] => none
  | frame :: rest => (Assoc.get? x frame).or (lookup x rest)

/-- Changes the innermost binding of a name. -/
def update (x : String) (v : ν) : List (List (String × ν)) → List (List (String × ν))
  | [] => []
  | frame :: rest =>
    if Assoc.has x frame then Assoc.put x v frame :: rest else frame :: update x v rest

def define (x : String) (v : ν) : List (List (String × ν)) → List (List (String × ν))
  | [] => [[(x, v)]]
  | frame :: rest => Assoc.put x v frame :: rest

end

/-- Frames of bindings, the innermost one first. -/
abbrev Env := List (List (String × Value))

/-- The frame of a call: each formal with its value, the last one of a name counts. -/
def frameOf (formals : List Formal) (values : List Value) : List (String × Value) :=
  Assoc.putAll [] ((formals.map (·.name.text)).zip values)

/-! ## Steps -/

structure World where
  env : Env
  console : Console
  nilAssigned : Bool

abbrev Act := ExceptT Stop (StateM World)

section

variable {α : Type}

def fail (f : Fault) : Act α :=
  throw (.fault f)

def lift : Except Fault α → Act α
  | .ok a => pure a
  | .error f => fail f

def onConsole (f : Console → α × Console) : Act α := fun w =>
  let (a, console) := f w.console
  (.ok a, { w with console })

def report (kind : ErrorKind) (text : String) : Act α := do
  let f ← onConsole fun c => c.report kind (some text) none
  fail f

/-- Runs a step with a frame on top of the environment. -/
def inFrame (frame : List (String × Value)) (body : Act α) : Act α := do
  modify fun w => { w with env := frame :: w.env }
  let a ← body
  modify fun w => { w with env := w.env.tail }
  return a

end

def variableValue (x : String) : Act Value := do
  match lookup x (← get).env with
  | some v => return v
  | none => report .name ("Variable " ++ x ++ " has not been defined")

/-- The state after an assignment: the innermost binding is changed, or one is made in the top
frame. -/
def World.assign (w : World) (x : String) (v : Value) : World :=
  if (lookup x w.env).isSome then
    { w with env := update x v w.env, nilAssigned := w.nilAssigned || v == .nil }
  else { w with env := define x v w.env }

def assign (x : String) (v : Value) : Act Unit :=
  modify fun w => w.assign x v

/-- What a value holds; nil holds nothing. -/
def contents (v : Value) : Act Datum :=
  match v.contents? with
  | some d => pure d
  | none => fail (Fault.missingField "val")

/-! ## Operators -/

/-- Reports operands that an operator does not take. -/
def misfit {α : Type} (title : String) : Act α :=
  report .type ("Incompatible types for " ++ title ++ " operation")

def applyBinary : BinaryOp → Value → Value → Act Value
  | .add, .int m, .int n => return .int (m + n)
  | .add, .string s, .string t => return .string (s ++ t)
  | .subtract, .int m, .int n => return .int (m - n)
  | .multiply, .int m, .int n => return .int (m * n)
  | .divide, .int m, .int n => if n = 0 then fail .divisionByZero else return .int (m.fdiv n)
  | .equal, a, b => return .bool (a == b)
  | .notEqual, a, b => return .bool (a != b)
  | .order o, .int m, .int n => return .bool (o.holds (compare m n))
  | .and, .bool a, .bool b => return .bool (a && b)
  | .or, .bool a, .bool b => return .bool (a || b)
  | op, _, _ => misfit op.title

def applyUnary : UnaryOp → Value → Act Value
  | .negate, .int n => return .int (-n)
  | .not, .bool b => return .bool !b
  | op, _ => misfit op.title

def conditionTruth (title : String) : Value → Act Bool
  | .bool b => return b
  | _ => report .type ("Incompatible type for " ++ title ++ " condition")

/-! ## Built-in functions -/

def input : Act Datum := do
  let d ← onConsole Console.input
  lift d

def outputPiece : Value → Act String
  | .int n => lift (Datum.int n).display
  | .bool b => return if b then "true" else "false"
  | .string s => return s
  | .nil => fail (Fault.missingField "val")

def outputLine (eval : Expr → Act Value) : Args → String → Act String
  | .nil, line => return line
  | .cons e rest, line => do
    let piece ← outputPiece (← eval e)
    outputLine eval rest (line ++ piece)

section

variable (host : Store)

def output (d : Datum) : Act Unit := do
  let r ← onConsole fun c => c.output host d
  lift r

def promptWith (title : String) (eval : Expr → Act Value) : Args → Act Unit
  | .nil => return ()
  | .cons e .nil => do output host (← contents (← eval e))
  | .cons _ (.cons _ _) =>
    report .name ("No " ++ title ++ "() function found that takes > 1 parameter")

def callBuiltin (eval : Expr → Act Value) (args : Args) : Builtin → Act (Option Value)
  | .readInt => do
    promptWith host "inputi" eval args
    let n ← lift (← input).toInteger
    return some (.int n)
  | .readText => do
    promptWith host "inputs" eval args
    let s ← lift (host.textOf (← input))
    return some (.string s)
  | .print => do
    let line ← outputLine eval args ""
    output host (.text line)
    return none

end

/-! ## Expressions and statements -/

def evalAll (eval : Expr → Act Value) : Args → Act (List Value)
  | .nil => return []
  | .cons e rest => do
    let v ← eval e
    return v :: (← evalAll eval rest)

/-- Carries out statements until one of them gives a result. -/
def runBlock (exec : Stmt → Act (Option Value)) : Block → Act (Option Value)
  | .last s => exec s
  | .cons s rest => do
    match ← exec s with
    | some v => return some v
    | none => runBlock exec rest

/-- Repeats a step that says whether to go on or gives a result. -/
def repeatWhile (test : Act Bool) (body : Act (Option Value)) : Nat → Act (Option Value)
  | 0 => throw .outOfFuel
  | fuel + 1 => do
    if ← test then
      match ← body with
      | some v => return some v
      | none => repeatWhile test body fuel
    else return none

section

variable (functions : List Function) (host : Store)

mutual

def eval : Nat → Expr → Act Value
  | 0, _ => throw .outOfFuel
  | _ + 1, .int n => return .int n.value
  | _ + 1, .bool b => return .bool b
  | _ + 1, .nil => return .nil
  | _ + 1, .string s => return .string s.text
  | _ + 1, .var x => variableValue x.text
  | fuel + 1, .unary op e => do applyUnary op (← eval fuel e)
  | fuel + 1, .binary op left right => do
    let a ← eval fuel left
    let b ← eval fuel right
    applyBinary op a b
  | fuel + 1, .call f args => do return (← call fuel f args).getD .nil
  | _ + 1, e => do report .name ("Unknown expression " ++ (← lift e.tree.textOf))

/-- Carries out a statement. A call as a statement gives the result of the function. -/
def exec : Nat → Stmt → Act (Option Value)
  | 0, _ => throw .outOfFuel
  | fuel + 1, .assign x e => do
    assign x.text (← eval fuel e)
    return none
  | fuel + 1, .choice condition body => do
    if ← conditionTruth "if" (← eval fuel condition) then inFrame [] (runBlock (exec fuel) body)
    else return none
  | fuel + 1, .choiceElse condition body other => do
    if ← conditionTruth "if" (← eval fuel condition) then inFrame [] (runBlock (exec fuel) body)
    else inFrame [] (runBlock (exec fuel) other)
  | fuel + 1, .loop condition body =>
    repeatWhile (do conditionTruth "while" (← eval fuel condition))
      (inFrame [] (runBlock (exec fuel) body)) fuel
  | fuel + 1, .result e => do return some (← eval fuel e)
  | _ + 1, .noResult => return some .nil
  | fuel + 1, .expr (.call f args) => call fuel f args
  | _ + 1, .expr _ => return none

/-- Calls a function by name: a built-in one, or the first one with this name and this many
formals. -/
def call : Nat → Name → Args → Act (Option Value)
  | 0, _, _ => throw .outOfFuel
  | fuel + 1, f, args =>
    match Builtin.ofName? (.text f.text) with
    | some builtin => callBuiltin host (eval fuel) args builtin
    | none => do
      let values ← evalAll (eval fuel) args
      match functions.find? fun g => g.name.text == f.text && g.formals.length == values.length with
      | some g => inFrame (frameOf g.formals values) (runBlock (exec fuel) g.body)
      | none => report .name ("No " ++ f.text ++ " function found that takes " ++
          toString values.length ++ " parameters")

end

end

/-- Runs a program: the statements of its first function with the name `main`. -/
def run (limit : Nat) (p : Program) (host : Store) : Act Unit :=
  match p.functions.find? fun f => f.name.text == "main" with
  | some main => do
    let _ ← runBlock (exec p.functions host limit) main.body
  | none => report .name "No main() function was found"

def World.start (console : Console) : World :=
  ⟨[[]], console, false⟩

end LangKit.Script.Stacked
