import LangKit.Script.Run

/-!
# Operators of the dialects

The dialects differ in what their operators take. The scoped dialect keeps integers and truth values
apart; the later ones take either where a number or a condition is asked for. The left operand is
looked at first, and a fault there is the one that is reported.
-/

namespace LangKit.Script

/-- The dialects with scopes. Each adds to the one before: closures add functions as values, objects
add dotted names. -/
inductive Dialect
  | scoped
  | closures
  | objects
  deriving DecidableEq, Repr, Inhabited

def Dialect.hasClosures : Dialect → Bool
  | .scoped => false
  | .closures | .objects => true

def Dialect.hasObjects : Dialect → Bool
  | .scoped | .closures => false
  | .objects => true

inductive BinaryOp
  | add | subtract | multiply | divide
  | equal | notEqual
  | order (o : Order)
  | and | or
  deriving DecidableEq, Repr

inductive UnaryOp
  | negate
  | not
  deriving DecidableEq, Repr

def BinaryOp.ofKind? : String → Option BinaryOp
  | "+" => some .add
  | "-" => some .subtract
  | "*" => some .multiply
  | "/" => some .divide
  | "==" => some .equal
  | "!=" => some .notEqual
  | "<" => some (.order .less)
  | "<=" => some (.order .lessEqual)
  | ">" => some (.order .greater)
  | ">=" => some (.order .greaterEqual)
  | "&&" => some .and
  | "||" => some .or
  | _ => none

def UnaryOp.ofKind? : String → Option UnaryOp
  | "neg" => some .negate
  | "!" => some .not
  | _ => none

def BinaryOp.title : BinaryOp → String
  | add => "add"
  | subtract => "subtract"
  | multiply => "multiply"
  | divide => "divide"
  | equal => "=="
  | notEqual => "!="
  | order o => o.sign
  | and => "&&"
  | or => "||"

def UnaryOp.title : UnaryOp → String
  | negate => "neg"
  | not => "!"

open Run

def contents (d : Datum) : Run Datum :=
  field d "val"

def makeBool (b : Bool) : Run Datum :=
  make "bool" [("val", .bool b)]

def makeInt (n : Int) : Run Datum :=
  make "int" [("val", .int n)]

def makeNil : Run Datum :=
  make "nil" []

def misfit {α : Type} (title : String) : Run α :=
  report .type ("Incompatible types for " ++ title ++ " operation")

/-- Refuses operands unless both are of one of the kinds. The right one is not looked at if the left
one does not fit. -/
def require2 (title : String) (kinds : List String) (a b : Datum) : Run Unit := do
  if !kinds.contains (← kindOf a) then misfit title
  if !kinds.contains (← kindOf b) then misfit title

def require1 (title : String) (kinds : List String) (a : Datum) : Run Unit := do
  if !kinds.contains (← kindOf a) then misfit title

def Dialect.numbers (d : Dialect) : List String :=
  if d.hasClosures then ["int", "bool"] else ["int"]

def Dialect.conditions (d : Dialect) : List String :=
  if d.hasClosures then ["int", "bool"] else ["bool"]

/-- A copy of the left operand with new contents. -/
def amend (f : Datum → Datum → Except Fault Datum) (a b : Datum) : Run Datum := do
  let result ← copy a
  let x ← contents a
  let y ← contents b
  setField result "val" (← lift (f x y))
  pure result

def arithmetic (dialect : Dialect) (op : BinaryOp) (f : Datum → Datum → Except Fault Datum)
    (a b : Datum) : Run Datum := do
  require2 op.title dialect.numbers a b
  if dialect.hasClosures then
    let x ← lift (← contents a).toInteger
    let y ← lift (← contents b).toInteger
    make "int" [("val", ← lift (f (.int x) (.int y)))]
  else amend f a b

/-- Are both operands texts? The right one is looked at only if the left one is a text. -/
def bothTexts (a b : Datum) : Run Bool := do
  if (← kindOf a) == "string" then
    return (← kindOf b) == "string"
  else return false

/-- Equality of two operands. In the dialects with closures two functions are equal if they are the
same node, and a truth value is compared with the truth of an integer. -/
def equality (dialect : Dialect) (a b : Datum) : Run Bool := do
  let ka ← kindOf a
  let kb ← kindOf b
  if ka == "nil" && kb == "nil" then return true
  else if dialect.hasClosures && ka == kb && (ka == "func" || ka == "lambda") then
    return a.same b
  else if ka == "nil" then return false
  else if dialect.hasClosures && ka == "bool" && kb == "int" then
    let x ← contents a
    let y ← contents b
    return x.same (.bool y.truth)
  else if dialect.hasClosures && ka == "int" && kb == "bool" then
    let x ← contents a
    let y ← contents b
    return Datum.same (.bool x.truth) y
  else if ka != kb then return false
  else
    let x ← contents a
    let y ← contents b
    return x.same y

/-- A conjunction or disjunction: the left contents decide, or else the right ones do. -/
def connective (dialect : Dialect) (op : BinaryOp) (decides : Bool) (a b : Datum) : Run Datum := do
  require2 op.title dialect.conditions a b
  let x ← contents a
  let result ← if x.truth == decides then pure x else contents b
  if dialect.hasClosures then makeBool result.truth
  else make "bool" [("val", result)]

def applyBinary (dialect : Dialect) (op : BinaryOp) (a b : Datum) : Run Datum :=
  match op with
  | .add => do
    if ← bothTexts a b then amend Datum.add a b else arithmetic dialect op Datum.add a b
  | .subtract => arithmetic dialect op Datum.subtract a b
  | .multiply => arithmetic dialect op Datum.multiply a b
  | .divide => arithmetic dialect op Datum.divide a b
  | .equal => do makeBool (← equality dialect a b)
  | .notEqual => do makeBool !(← equality dialect a b)
  | .order o => do
    require2 op.title ["int"] a b
    let x ← contents a
    let y ← contents b
    makeBool (← lift (Datum.compare o x y))
  | .and => connective dialect op false a b
  | .or => connective dialect op true a b

def applyUnary (dialect : Dialect) (op : UnaryOp) (a : Datum) : Run Datum :=
  match op with
  | .negate => do
    require1 op.title ["int"] a
    make "int" [("val", ← lift (← contents a).negate)]
  | .not => do
    require1 op.title dialect.conditions a
    makeBool !(← contents a).truth

end LangKit.Script
