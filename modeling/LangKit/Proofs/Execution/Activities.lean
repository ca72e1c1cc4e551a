import LangKit.Proofs.Parser.Readers
import LangKit.Proofs.Execution.Steps
import LangKit.Script.Session

/-!
# The inside of a run

An evaluator takes a state to a result and a state, and what happens in between does not show. Here
it is made visible. A `Job` is what one of the three evaluators is asked to do, an `Activity` is a
job with the state in which it begins, and `Starts` says which activities an activity starts on its
way. A row of activities is `Running` if each was started by the one after it and the last one
carries out a statement of the main function. So the running rows are the call stacks of a run, and
the moments at which their innermost activity begins or ends are the states that the run goes
through (`Moment`).

What an evaluator does before it starts another one is told by running that part: a statement of a
block is reached if the statements before it end without a result (`Reached`). For calls and for
whole programs this part has a name of its own (`enterCall`, `enterMain`), and the evaluators are
put together from these parts: `call_own`, `runProgram_eq_enter`.
-/

namespace LangKit.Script

open Run

inductive Job
  | eval (byRef : Bool) (scope : Scope) (node : Datum)
  | exec (scope : Scope) (node : Datum)
  | call (scope : Scope) (name args : Datum)

/-- A job, with the fuel that is left for it and the state in which it begins. -/
structure Activity where
  fuel : Nat
  job : Job
  machine : Machine

def Activity.scope (a : Activity) : Scope :=
  match a.job with
  | .eval _ scope _ => scope
  | .exec scope _ => scope
  | .call scope _ _ => scope

/-- What an activity leaves, if it ends well or not: its context, in which a statement may have
bound a name, and the state. -/
def Activity.outcome (dialect : Dialect) (a : Activity) : Scope × Machine :=
  match a.job with
  | .eval byRef scope node => (scope, (eval dialect a.fuel byRef scope node a.machine).2)
  | .exec scope node =>
    match exec dialect a.fuel node scope a.machine with
    | (.ok (scope', _), m) => (scope', m)
    | (.error _, m) => (scope, m)
  | .call scope name args => (scope, (call dialect a.fuel scope name args a.machine).2)

/-! ## What comes before a start -/

def IsExpression (dialect : Dialect) (m : Machine) (node : Datum) (form : ExprForm) : Prop :=
  ∃ kind, kindOf node m = (.ok kind, m) ∧ dialect.exprForm kind = form

def IsStatement (m : Machine) (node : Datum) (form : StatementForm) : Prop :=
  ∃ kind, kindOf node m = (.ok kind, m) ∧ statementForm kind = form

/-- Carries out a statement of a row, with what is printed around it. -/
def Row.stepWith (dialect : Dialect) (exec : Datum → Scope → Run (Scope × Datum)) (row : Row)
    (statement : Datum) (scope : Scope) : Run (Scope × Datum) := do
  row.announce dialect scope
  let (scope', result) ← exec statement scope
  row.finish dialect scope'
  return (scope', result)

def Row.step (dialect : Dialect) (fuel : Nat) (row : Row) : Datum → Scope → Run (Scope × Datum) :=
  row.stepWith dialect (exec dialect fuel)

/-- Binds what a function is called with. It gives the row that the body makes, its statements, and
the scope in which they are carried out. -/
def enterBody (scope : Scope) (name f : Datum) (named : Bool) (values : List Datum) :
    Run (Row × List Datum × Scope) := do
  let inner ← bindFormals scope (← items (← field f "args")) values
  if named then
    let title ← nameText name
    return (.body scope title, ← items (← field f "statements"), inner)
  else
    let inner ← if (← kindOf f) == "lambda" then do
        bindCaptured inner (← capturedEntries (← field f "free_vars"))
      else pure inner
    return (.block, ← items (← field f "statements"), inner)

theorem enterBody_value (scope : Scope) (name f : Datum) (named : Bool) (values : List Datum) :
    Handling.value.enterBody scope scope name f named values = (do
      let (row, statements, inner) ← enterBody scope name f named values
      return (pure row, statements, inner)) := by
  unfold Handling.enterBody enterBody bindFormals bindCaptured
  cases named with
  | true => simp
  | false =>
    simp only [bind_assoc, Bool.false_eq_true, if_false]
    refine bind_congr fun _ => bind_congr fun _ => bind_congr fun inner => bind_congr fun kind => ?_
    split <;> simp

section

variable (dialect : Dialect) (fuel : Nat) (scope : Scope)

def loopTest (node : Datum) : Run Bool := do
  let value ← eval dialect fuel false scope (← field node "condition")
  conditionTruth dialect "while" value

def loopBody (node : Datum) : Run Datum := do
  let (_, result) ← block (exec dialect fuel) (← items (← field node "statements")) scope
  return result

def argument (byRef : Bool) (arg : Datum) : Run Datum :=
  eval dialect fuel byRef scope arg

def findCalled (name args : Datum) : Run (Datum × List Datum × Bool) := do
  let values ← argValues dialect (argument dialect fuel scope) none 0 (← items args)
  chooseCalled dialect scope name values

/-- What a call does when its function is found. With closures, the arguments are evaluated once
more. -/
def enterFound (name args : Datum) (r : Datum × List Datum × Bool) :
    Run (Row × List Datum × Scope) :=
  if dialect.hasClosures then do
    let formals ← items (← field r.1 "args")
    let values ← argValues dialect (argument dialect fuel scope) (some formals) 0 (← items args)
    enterBody scope name r.1 r.2.2 values
  else enterBody scope name r.1 r.2.2 r.2.1

/-- What a call does before the body of its function. -/
def enterCall (name args : Datum) : Run (Row × List Datum × Scope) :=
  findCalled dialect fuel scope name args >>= enterFound dialect fuel scope name args

/-- Carries out the body of a function that has been entered. -/
def runBody (r : Row × List Datum × Scope) : Run Datum := do
  let r' ← block (r.1.step dialect fuel) r.2.1 r.2.2
  return r'.2

end

/-! ## How the evaluators are put together -/

/-- The reader after a text. -/
def Reader.after (r : Reader) (text : String) : Reader :=
  (r.parse false false text).reader

/-- What has been read before does not matter for what is loaded. -/
theorem loadProgram_eq (text : String) :
    loadProgram text = (do
      modify fun m => { m with reader := m.reader.after text }
      onConsole fun _ c => ((), { c with printed := c.printed ++ (parseProgram text).2 })
      let tree ← lift (parseProgram text).1
      onStore fun s => s.load tree) := by
  have hread : readProgram text =
      (modify fun m => { m with reader := m.reader.after text }) >>=
        fun _ => pure (parseProgram text) := by
    funext m
    rw [← m.reader.program_eq text]
    rfl
  rw [loadProgram, hread]
  generalize parseProgram text = parsed
  simp only [bind_assoc, pure_bind]

theorem loadProgram_apply {text printed : String} (h : parseProgram text = (.ok t, printed))
    (m : Machine) :
    loadProgram text m = (.ok (m.store.load t).1, { m with
      store := (m.store.load t).2
      console := { m.console with printed := m.console.printed ++ printed }
      reader := m.reader.after text }) := by
  rw [loadProgram_eq, h]
  rfl

theorem eq_of_loadProgram {text : String}
    (h : loadProgram text m = (.ok d, m')) :
    ∃ t printed, parseProgram text = (.ok t, printed) ∧ d = (m.store.load t).1 ∧ m' = { m with
      store := (m.store.load t).2
      console := { m.console with printed := m.console.printed ++ printed }
      reader := m.reader.after text } := by
  rcases hparse : parseProgram text with ⟨f | t, printed⟩
  · rw [loadProgram_eq, hparse] at h
    cases h
  · rw [loadProgram_apply hparse] at h
    obtain ⟨hd, rfl⟩ := Prod.mk.inj h
    exact ⟨t, printed, rfl, (Except.ok.inj hd).symm, rfl⟩

theorem Row.step_block (dialect : Dialect) (fuel : Nat) :
    Row.block.step dialect fuel = exec dialect fuel := by
  funext statement scope
  simp [Row.step, Row.stepWith, Row.announce, Row.finish]

theorem runProgram_eq_enter (limit : Nat) (dialect : Dialect) (text : String) :
    runProgram limit (.scoped dialect) text = (do
      let statements ← enterMain text
      let _ ← block (Row.main.step dialect limit) statements []) :=
  rfl

theorem call_builtin {scope : Scope} {name : Datum}
    (h : Builtin.ofName? name = some builtin) (args : Datum) :
    call dialect (fuel + 1) scope name args = callBuiltin (eval dialect fuel false scope) scope
      args builtin := by
  rw [call, Handling.call, h]
  rfl

theorem call_own {scope : Scope} {name : Datum} (h : Builtin.ofName? name = none)
    (args : Datum) :
    call dialect (fuel + 1) scope name args =
      enterCall dialect fuel scope name args >>= runBody dialect fuel := by
  have hcall : call dialect (fuel + 1) scope name args =
      Handling.value.callOwn dialect (eval dialect fuel) (exec dialect fuel) scope name args := by
    rw [call, Handling.call, h]
    rfl
  have harg : (fun byRef arg => eval dialect fuel byRef scope arg) = argument dialect fuel scope :=
    rfl
  rw [hcall, Handling.callOwn]
  simp only [Handling.scope_value, Handling.fork_value, pure_bind, enterBody_value, enterCall,
    findCalled, bind_assoc, harg]
  refine bind_congr fun ds => bind_congr fun values => bind_congr fun r => ?_
  cases hc : dialect.hasClosures with
  | false =>
    simp only [enterFound, hc, Bool.false_eq_true, if_false]
    rfl
  | true =>
    simp only [enterFound, hc, if_true, bind_assoc]
    rfl

/-! ## Activities that start others -/

section

variable (dialect : Dialect)

inductive Starts : Activity → Activity → Prop
  -- expressions
  | left (form : IsExpression dialect m node (.binary op))
      (operand : field node "op1" m = (.ok d, m)) :
      Starts ⟨fuel + 1, .eval byRef scope node, m⟩ ⟨fuel, .eval false scope d, m⟩
  | right (form : IsExpression dialect m node (.binary op))
      (first : field node "op1" m = (.ok d1, m))
      (left : eval dialect fuel false scope d1 m = (.ok a, m1))
      (operand : field node "op2" m1 = (.ok d, m1)) :
      Starts ⟨fuel + 1, .eval byRef scope node, m⟩ ⟨fuel, .eval false scope d, m1⟩
  | operand (form : IsExpression dialect m node (.unary op))
      (operand : field node "op1" m = (.ok d, m)) :
      Starts ⟨fuel + 1, .eval byRef scope node, m⟩ ⟨fuel, .eval false scope d, m⟩
  | invoke (form : IsExpression dialect m node .call)
      (called : field node "name" m = (.ok name, m)) (given : field node "args" m = (.ok args, m)) :
      Starts ⟨fuel + 1, .eval byRef scope node, m⟩ ⟨fuel, .call scope name args, m⟩
  | invokeMember (form : IsExpression dialect m node .methodCall)
      (on : field node "objref" m = (.ok object, m))
      (called : field node "name" m = (.ok name, m)) (given : field node "args" m = (.ok args, m)) :
      Starts ⟨fuel + 1, .eval byRef scope node, m⟩ ⟨fuel, .call scope name args, m⟩
  -- statements
  | assigned (form : IsStatement m node .assign) (called : field node "name" m = (.ok name, m))
      (spelled : nameText name m = (.ok x, m)) (right : field node "expression" m = (.ok d, m))
      (allowed : isBound dialect scope x || !(dialect.hasObjects && isDotted x)) :
      Starts ⟨fuel + 1, .exec scope node, m⟩ ⟨fuel, .eval false scope d, m⟩
  | condition (form : IsStatement m node .choice) (asked : field node "condition" m = (.ok d, m)) :
      Starts ⟨fuel + 1, .exec scope node, m⟩ ⟨fuel, .eval false scope d, m⟩
  | branch (form : IsStatement m node .choice) (asked : field node "condition" m = (.ok d, m))
      (answer : eval dialect fuel false scope d m = (.ok value, m1))
      (truth : conditionTruth dialect "if" value m1 = (.ok go, m2))
      (chosen : field node (if go then "statements" else "else_statements") m2 = (.ok body, m2))
      (row : items body m2 = (.ok statements, m2))
      (reached : Reached (exec dialect fuel) statements scope m2 s scope' m3) :
      Starts ⟨fuel + 1, .exec scope node, m⟩ ⟨fuel, .exec scope' s, m3⟩
  | test (form : IsStatement m node .loop)
      (rounds : Rounds (loopTest dialect fuel scope node) (loopBody dialect fuel scope node) fuel m
      m1) (asked : field node "condition" m1 = (.ok d, m1)) :
      Starts ⟨fuel + 1, .exec scope node, m⟩ ⟨fuel, .eval false scope d, m1⟩
  | round (form : IsStatement m node .loop)
      (rounds : Rounds (loopTest dialect fuel scope node) (loopBody dialect fuel scope node) fuel m
      m1) (go : loopTest dialect fuel scope node m1 = (.ok true, m2))
      (repeated : field node "statements" m2 = (.ok body, m2))
      (row : items body m2 = (.ok statements, m2))
      (reached : Reached (exec dialect fuel) statements scope m2 s scope' m3) :
      Starts ⟨fuel + 1, .exec scope node, m⟩ ⟨fuel, .exec scope' s, m3⟩
  | result (form : IsStatement m node .return) (right : field node "expression" m = (.ok d, m))
      (given : d ≠ .null) : Starts ⟨fuel + 1, .exec scope node, m⟩ ⟨fuel, .eval false scope d, m⟩
  | perform (form : IsStatement m node .call) (called : field node "name" m = (.ok name, m))
      (given : field node "args" m = (.ok args, m)) :
      Starts ⟨fuel + 1, .exec scope node, m⟩ ⟨fuel, .call scope name args, m⟩
  -- calls
  | prompt (known : Builtin.ofName? name = some builtin) (reads : builtin ≠ .print)
      (row : items args m = (.ok [arg], m)) :
      Starts ⟨fuel + 1, .call scope name args, m⟩ ⟨fuel, .eval false scope arg, m⟩
  | piece (known : Builtin.ofName? name = some .print)
      (header : printHeader scope args m = (.ok (), m1))
      (row : items args m1 = (.ok (before ++ arg :: after), m1))
      (earlier : outputLine (eval dialect fuel false scope) before "" m1 = (.ok line, m2)) :
      Starts ⟨fuel + 1, .call scope name args, m⟩ ⟨fuel, .eval false scope arg, m2⟩
  | argument (own : Builtin.ofName? name = none)
      (row : items args m = (.ok (before ++ arg :: after), m))
      (earlier : argValues dialect (argument dialect fuel scope) none 0 before m =
        (.ok values, m1)) :
      Starts ⟨fuel + 1, .call scope name args, m⟩ ⟨fuel, .eval false scope arg, m1⟩
  | pass (own : Builtin.ofName? name = none) (closures : dialect.hasClosures = true)
      (found : findCalled dialect fuel scope name args m = (.ok (f, values, named), m1))
      (declared : field f "args" m1 = (.ok list, m1))
      (parameters : items list m1 = (.ok formals, m1))
      (row : items args m1 = (.ok (before ++ arg :: after), m1))
      (earlier : argValues dialect (argument dialect fuel scope) (some formals) 0 before m1 =
      (.ok values', m2)) (meant : formals[before.length]? = some formal)
        (mode : kindOf formal m2 = (.ok kind, m2)) :
      Starts ⟨fuel + 1, .call scope name args, m⟩ ⟨fuel, .eval (kind == "refarg") scope arg, m2⟩
  | body (own : Builtin.ofName? name = none)
      (entered : enterCall dialect fuel scope name args m = (.ok (row, statements, scope0), m1))
      (reached : Reached (row.step dialect fuel) statements scope0 m1 s scope' m2)
      (announced : row.announce dialect scope' m2 = (.ok (), m3)) :
      Starts ⟨fuel + 1, .call scope name args, m⟩ ⟨fuel, .exec scope' s, m3⟩

variable (limit : Nat) (text : String) (m : Machine)

inductive MainStarts : Activity → Prop
  | statement (entered : enterMain text m = (.ok statements, m1))
      (reached : Reached (Row.main.step dialect limit) statements [] m1 s scope m2)
      (announced : Row.main.announce dialect scope m2 = (.ok (), m3)) :
      MainStarts ⟨limit, .exec scope s, m3⟩

/-- The activities that are under way at the same time in the run of a program, the innermost
first. -/
inductive Running : List Activity → Prop
  | main {a : Activity} (starts : MainStarts dialect limit text m a) : Running [a]
  | inner {a b : Activity} {rest : List Activity} (outer : Running (a :: rest))
      (starts : Starts dialect a b) : Running (b :: a :: rest)

/-- The live contexts, the innermost first, and the state of a run at some time: when its innermost
activity begins or when it ends. -/
inductive Moment : List Scope → Machine → Prop
  | begins (running : Running dialect limit text m (a :: rest)) :
      Moment (a.scope :: rest.map Activity.scope) a.machine
  | ends (running : Running dialect limit text m (a :: rest)) :
      Moment ((a.outcome dialect).1 :: rest.map Activity.scope) (a.outcome dialect).2

end

end LangKit.Script
