import LangKit.Store.Display

/-!
# Operations on plain values

Arithmetic, order and equality of values as a program's operators use them. A truth value counts as
zero or one. Each operation says which types it does not take.
-/

namespace LangKit

inductive Order
  | less
  | lessEqual
  | greater
  | greaterEqual
  deriving DecidableEq, Repr

namespace Order

def sign : Order → String
  | less => "<"
  | lessEqual => "<="
  | greater => ">"
  | greaterEqual => ">="

/-- Does the relation hold of two things that compare in this way? -/
def holds : Order → Ordering → Bool
  | less, o => o == .lt
  | lessEqual, o => o != .gt
  | greater, o => o == .gt
  | greaterEqual, o => o != .lt

end Order

namespace Datum

def number? : Datum → Option Int
  | int n => some n
  | bool b => some (if b then 1 else 0)
  | _ => none

def truth : Datum → Bool
  | null => false
  | bool b => b
  | int n => n != 0
  | text s => !s.isEmpty
  | list items => !items.isEmpty
  | tuple items => !items.isEmpty
  | mapping entries => !entries.isEmpty
  | node _ => true

mutual

/-- Are two values equal? Nodes are equal if they are the same node. -/
def same : Datum → Datum → Bool
  | null, null => true
  | text s, text t => s == t
  | list xs, list ys => sameAll xs ys
  | tuple xs, tuple ys => sameAll xs ys
  | mapping xs, mapping ys => xs.length == ys.length && sameEntries xs ys
  | node r, node r' => r == r'
  | int n, other => other.number? == some n
  | bool b, other => other.number? == some (if b then 1 else 0)
  | _, _ => false

def sameAll : List Datum → List Datum → Bool
  | [], [] => true
  | x :: xs, y :: ys => same x y && sameAll xs ys
  | _, _ => false

/-- Has every entry of the first mapping an equal entry in the second? -/
def sameEntries : List (Datum × Datum) → List (Datum × Datum) → Bool
  | [], _ => true
  | (k, v) :: rest, ys => ys.any (fun e => same k e.1 && same v e.2) && sameEntries rest ys

end

/-- Two types that an operator does not take together. -/
def unsupported (sign : String) (a b : Datum) : Fault :=
  .wrongType ("unsupported operand type(s) for " ++ sign ++ ": '" ++ a.typeName ++ "' and '" ++
    b.typeName ++ "'")

def cannotJoin (a b : Datum) : Fault :=
  .wrongType ("can only concatenate " ++ a.typeName ++ " (not \"" ++ b.typeName ++
    "\") to " ++ a.typeName)

/-- The sum of two numbers, or two sequences joined. -/
def add (a b : Datum) : Except Fault Datum :=
  match a.number?, b.number? with
  | some m, some n => .ok (.int (m + n))
  | _, _ =>
    match a, b with
    | text s, text t => .ok (.text (s ++ t))
    | list xs, list ys => .ok (.list (xs ++ ys))
    | tuple xs, tuple ys => .ok (.tuple (xs ++ ys))
    | text _, _ | list _, _ | tuple _, _ => .error (cannotJoin a b)
    | _, _ => .error (unsupported "+" a b)

def subtract (a b : Datum) : Except Fault Datum :=
  match a.number?, b.number? with
  | some m, some n => .ok (.int (m - n))
  | _, _ => .error (unsupported "-" a b)

def repeated? (n : Int) : Datum → Option Datum
  | text s => some (.text (String.join (List.replicate n.toNat s)))
  | list xs => some (.list (List.replicate n.toNat xs).flatten)
  | tuple xs => some (.tuple (List.replicate n.toNat xs).flatten)
  | _ => none

def isSequence : Datum → Bool
  | text _ | list _ | tuple _ => true
  | _ => false

/-- The product of two numbers, or a sequence repeated. -/
def multiply (a b : Datum) : Except Fault Datum :=
  match a.number?, b.number? with
  | some m, some n => .ok (.int (m * n))
  | some m, none =>
    match repeated? m b with
    | some d => .ok d
    | none => .error (unsupported "*" a b)
  | none, some n =>
    match repeated? n a with
    | some d => .ok d
    | none => .error (unsupported "*" a b)
  | none, none =>
    if a.isSequence then
      .error (.wrongType ("can't multiply sequence by non-int of type '" ++ b.typeName ++ "'"))
    else if b.isSequence then
      .error (.wrongType ("can't multiply sequence by non-int of type '" ++ a.typeName ++ "'"))
    else .error (unsupported "*" a b)

/-- The quotient of two numbers, rounded down. -/
def divide (a b : Datum) : Except Fault Datum :=
  match a.number?, b.number? with
  | some m, some n => if n == 0 then .error .divisionByZero else .ok (.int (m.fdiv n))
  | _, _ => .error (unsupported "//" a b)

def negate (a : Datum) : Except Fault Datum :=
  match a.number? with
  | some n => .ok (.int (-n))
  | none => .error (.wrongType ("bad operand type for unary -: '" ++ a.typeName ++ "'"))

mutual

/-- Compares two numbers, two texts, two lists or two tuples. -/
def compare (order : Order) : Datum → Datum → Except Fault Bool
  | text s, text t => .ok (order.holds (Ord.compare s t))
  | list xs, list ys => compareAll order xs ys
  | tuple xs, tuple ys => compareAll order xs ys
  | a, b =>
    match a.number?, b.number? with
    | some m, some n => .ok (order.holds (Ord.compare m n))
    | _, _ =>
      .error (.wrongType ("'" ++ order.sign ++ "' not supported between instances of '" ++
        a.typeName ++ "' and '" ++ b.typeName ++ "'"))

/-- Compares two rows of values: the first place where they differ decides, and else their
lengths. -/
def compareAll (order : Order) : List Datum → List Datum → Except Fault Bool
  | [], [] => .ok (order.holds .eq)
  | [], _ :: _ => .ok (order.holds .lt)
  | _ :: _, [] => .ok (order.holds .gt)
  | x :: xs, y :: ys => if x.same y then compareAll order xs ys else compare order x y

end

def toInteger (a : Datum) : Except Fault Int :=
  match a.number?, a with
  | some n, _ => .ok n
  | none, text s =>
    match Text.Decimal.read s with
    | .ok n => .ok n
    | .error .malformed => .error (.malformedInteger s)
    | .error (.tooLong digits) => .error (.overlongInteger digits)
  | none, _ =>
    .error (.wrongType
      ("int() argument must be a string, a bytes-like object or a real number, not '" ++
        a.typeName ++ "'"))

end Datum

end LangKit
