import LangKit.Script.Session
import LangKit.Store.Shared

/-!
# Evaluating single parts of programs

A workbench evaluates statements, expressions and calls over a context that can be set up from
outside, with values that no program builds. Parts of programs are given as code or as nodes.
-/

namespace LangKit.Script

open Run

inductive Fragment
  | code (text : String)
  | node (t : SharedTree)

inductive Operator
  | binary (op : BinaryOp)
  | unary (op : UnaryOp)

inductive Task
  | statement (f : Fragment)
  | expression (f : Fragment) (byRef : Bool)
  | call (name : String) (args : List String)
  | args (args : List String) (formals : Option SharedTree)
  | apply (name : String) (op : Option Operator) (args : List SharedTree)
  | bind (name : String) (value : SharedTree)

structure Bench where
  context : Nat
  numbers : List (Int × Nat)
  deriving Inhabited

abbrev AtBench := StateT Bench Run

namespace AtBench

def place (t : SharedTree) : AtBench Datum := do
  let b ← get
  let (d, numbers) ← onStore fun s =>
    let (d, p) := Placing.place t ⟨s, b.numbers⟩
    ((d, p.numbers), p.store)
  set { b with numbers }
  return d

def placeAll : List SharedTree → AtBench (List Datum)
  | [] => pure []
  | t :: rest => do
    let d ← place t
    return d :: (← placeAll rest)

def parseStatement (code : String) : Run Datum := do
  let program ← loadProgram ("func main() \x7b " ++ code ++ " \x7d")
  let functions ← items (← field program "functions")
  let statements ← items (← field (functions.headD .null) "statements")
  return statements.headD .null

def parseExpression (code : String) : Run Datum := do
  field (← parseStatement ("return " ++ code ++ ";")) "expression"

def parseExpressions : List String → Run (List Datum)
  | [] => pure []
  | code :: rest => do
    let d ← parseExpression code
    return d :: (← parseExpressions rest)

def fragment (parse : String → Run Datum) : Fragment → AtBench Datum
  | .code text => parse text
  | .node t => place t

def ownerName : Version → String
  | .idle => "InterpreterBase"
  | _ => "Interpreter"

/-- Reports a number of operands that an operation does not take. -/
def miscount (version : Version) (name : String) (params : List String) (given : Nat) : Run Datum :=
  let quoted := (params.drop given).map fun p => "'" ++ p ++ "'"
  let owned := ownerName version ++ "." ++ name ++ "() "
  fail <| .wrongType <| owned ++ match quoted with
    | [] => "takes " ++ toString (params.length + 1) ++ " positional arguments but " ++
        toString (given + 1) ++ " were given"
    | [p] => "missing 1 required positional argument: " ++ p
    | ps => "missing " ++ toString ps.length ++ " required positional arguments: " ++
        " and ".intercalate ps

def apply (version : Version) (name : String) (op : Option Operator) (args : List Datum) :
    Run Datum :=
  match version, op, args with
  | .straightLine, some (.binary .add), [a, b] => StraightLine.add a b
  | .straightLine, some (.binary .subtract), [a, b] => StraightLine.subtract a b
  | .scoped d, some (.binary op), [a, b] => applyBinary d op a b
  | .scoped d, some (.unary op), [a] => applyUnary d op a
  | .straightLine, some (.binary .add), _ | .straightLine, some (.binary .subtract), _
  | .scoped _, some (.binary _), _ => miscount version name ["op1", "op2"] args.length
  | .scoped _, some (.unary _), _ => miscount version name ["op1"] args.length
  | _, _, _ => fail (.noAttribute (ownerName version) name)

def statement (limit : Nat) (version : Version) (node : Datum) : AtBench Datum := do
  match version with
  | .scoped d =>
    let (_, result) ← Handling.reference.exec d limit node (← get).context
    return result
  | _ =>
    StraightLine.exec limit node
    return .null

def perform (limit : Nat) (version : Version) : Task → AtBench Datum
  | .statement f => do statement limit version (← fragment parseStatement f)
  | .expression f byRef => do
    let node ← fragment parseExpression f
    match version with
    | .scoped d => Handling.reference.eval d limit byRef (← get).context node
    | _ => StraightLine.eval limit node
  | .call name args => do
    let args := Datum.list (← parseExpressions args)
    match version with
    | .scoped d => Handling.reference.call d limit (← get).context (.text name) args
    | _ => StraightLine.call limit (.text name) args
  | .args args formals => do
    let args ← parseExpressions args
    let formals ← match formals with
      | none => pure none
      | some t => do pure (some (← Run.items (← place t)))
    match version with
    | .scoped d =>
      let c := (← get).context
      let eval := fun byRef arg => Handling.reference.eval d limit byRef c arg
      return .list (← argValues d eval formals 0 args)
    | _ => fail (.noAttribute (ownerName version) "evaluate_arg_values")
  | .apply name op args => do apply version name op (← placeAll args)
  | .bind name value => do
    let _ ← bindIn (← get).context name (← place value)
    return .null

def bindAll : List (String × SharedTree) → AtBench Unit
  | [] => pure ()
  | (name, t) :: rest => do
    let _ ← bindIn (← get).context name (← place t)
    bindAll rest

def setUp (functions : Option String) (nodes : List SharedTree)
    (context : List (String × SharedTree)) :
    AtBench Unit := do
  match functions with
  | some text =>
    let program ← loadProgram text
    let all ← Run.items (← field program "functions")
    modifyThe Machine fun m => { m with functions := all }
  | none => pure ()
  let more ← placeAll nodes
  modifyThe Machine fun m => { m with functions := m.functions ++ more }
  let c ← newContext []
  modify fun b => { b with context := c }
  bindAll context

end AtBench

structure Workbench where
  machine : Machine
  bench : Bench
  deriving Inhabited

/-- Works at the bench. What has been done to the machine before a fault stays done, in the contexts
too. -/
def Workbench.work {α : Type} (w : Workbench) (action : AtBench α) : Except Stop α × Workbench :=
  match action w.bench w.machine with
  | (.ok (a, bench), machine) => (.ok a, ⟨machine, bench⟩)
  | (.error e, machine) => (.error e, ⟨machine, w.bench⟩)

def Workbench.scope (w : Workbench) : Scope :=
  w.machine.contexts.getD w.bench.context []

/-- Does a task. The straight-line dialect does not pass its variables on, it has them in the
machine. -/
def Workbench.perform (w : Workbench) (limit : Nat) (version : Version) (task : Task) :
    Except Stop Datum × Workbench :=
  if version == .straightLine then
    let w := { w with machine := { w.machine with globals := w.scope } }
    let (result, w) := w.work (AtBench.perform limit version task)
    match task with
    | .bind _ _ => (result, w)
    | _ =>
      let contexts := w.machine.contexts.setIfInBounds w.bench.context w.machine.globals
      (result, { w with machine := { w.machine with contexts } })
  else w.work (AtBench.perform limit version task)

end LangKit.Script
