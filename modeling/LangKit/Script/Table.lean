import LangKit.Script.Grammar
import LangKit.Lr.Machine

/-!
# The parsing table of the script language

One entry per state of the parser: the tokens it shifts, the one rule it may reduce by and the
symbols on which it does, and where it goes after a reduction. The lists that many states share have
names, so the operator precedences can be read off: after a comparison a sum is still shifted and a
second comparison is not.
-/

namespace LangKit.Script

structure State where
  shifts : List (TokenKind × Nat)
  reduction : Option Nat
  on : List Symbol
  gotos : List (Phrase × Nat)
  accepts : Bool
  deriving Repr, Inhabited

namespace State

def shifting (shifts : List (TokenKind × Nat)) (gotos : List (Phrase × Nat)) : State :=
  ⟨shifts, none, [], gotos, false⟩

def reducing (rule : Nat) (on : List Symbol) : State :=
  ⟨[], some rule, on, [], false⟩

def either (shifts : List (TokenKind × Nat)) (rule : Nat) (on : List Symbol)
    (gotos : List (Phrase × Nat)) : State :=
  ⟨shifts, some rule, on, gotos, false⟩

def accepting : State :=
  ⟨[], none, [], [], true⟩

def action (s : State) (symbol : Symbol) : Option Lr.Action :=
  let shift := match symbol with
    | .token kind => (s.shifts.lookup kind).map Lr.Action.shift
    | _ => none
  match shift with
  | some a => some a
  | none =>
    if s.on.contains symbol then s.reduction.map Lr.Action.reduce
    else if s.accepts && symbol == .endMark then some .accept
    else none

def sole (s : State) : Option Nat :=
  if s.shifts.isEmpty && s.on.length == 1 && !s.accepts then s.reduction else none

def goto (s : State) : Symbol → Option Nat
  | .phrase p => s.gotos.lookup p
  | _ => none

end State

private def literalShifts : List (TokenKind × Nat) := [
  (.lparen, 20), (.not, 28), (.minus, 29), (.number, 30), (.true, 32), (.false, 33), (.nil, 34),
  (.at, 35), (.string, 36), (.lambda, 37)]

def operandShifts : List (TokenKind × Nat) :=
  (.name, 43) :: literalShifts

def statementShifts : List (TokenKind × Nat) :=
  (.name, 19) :: (.if, 25) :: (.while, 26) :: (.return, 27) :: literalShifts

def productShifts : List (TokenKind × Nat) := [(.multiply, 56), (.divide, 57)]

def sumShifts : List (TokenKind × Nat) := (.plus, 54) :: (.minus, 55) :: productShifts

def comparisonShifts : List (TokenKind × Nat) :=
  [(.eq, 48), (.greater, 49), (.less, 50), (.notEq, 51), (.greaterEq, 52), (.lessEq, 53)] ++
    sumShifts

def conjunctShifts : List (TokenKind × Nat) := [(.and, 59)]

def operatorShifts : List (TokenKind × Nat) :=
  (.or, 58) :: conjunctShifts ++ comparisonShifts

private def tokensOf (shifts : List (TokenKind × Nat)) : List Symbol :=
  shifts.map fun e => .token e.1

def afterFunction : List Symbol := [.token .func, .endMark]

def afterItem : List Symbol := [.token .comma, .token .rparen]

private def closers : List Symbol := [.token .semi, .token .comma, .token .rparen]

def afterStatement : List Symbol := .token .rbrace :: tokensOf statementShifts

def afterExpression : List Symbol := closers ++ tokensOf operatorShifts

def afterLeading : List Symbol := .token .semi :: tokensOf operatorShifts

def afterTarget : List Symbol := .token .assign :: afterLeading

def afterDisjunct : List Symbol := .token .or :: closers

def afterConjunct : List Symbol := .token .and :: afterDisjunct

def afterComparison : List Symbol :=
  [.token .eq, .token .greater, .token .less, .token .notEq, .token .greaterEq, .token .lessEq] ++
    afterConjunct

def afterSum : List Symbol := .token .plus :: .token .minus :: afterComparison

def operandGotos (expression : Nat) : List (Phrase × Nat) :=
  [(.expression, expression), (.variable, 42), (.lambda, 31)]

def statementGotos (statement : Nat) : List (Phrase × Nat) :=
  [(.statement, statement), (.variable, 23), (.expression, 24), (.lambda, 31)]

def blockGotos (statements : Nat) : List (Phrase × Nat) :=
  (.statements, statements) :: statementGotos 22

def states : Array State := #[
  .shifting [(.func, 4)] [(.program, 1), (.functions, 2), (.function, 3)],
  .accepting,
  .either [(.func, 4)] 1 [.endMark] [(.function, 5)],
  .reducing 3 afterFunction,
  .shifting [(.name, 6)] [],
  .reducing 2 afterFunction,
  .shifting [(.lparen, 7)] [],
  .shifting [(.name, 8), (.rparen, 10), (.ref, 12)] [(.formals, 9), (.formal, 11)],
  .reducing 10 afterItem,
  .shifting [(.rparen, 13), (.comma, 14)] [],
  .shifting [(.lbrace, 15)] [],
  .reducing 9 afterItem,
  .shifting [(.name, 16)] [],
  .shifting [(.lbrace, 17)] [],
  .shifting [(.name, 8), (.ref, 12)] [(.formal, 18)],
  .shifting statementShifts (blockGotos 21),
  .reducing 11 afterItem,
  .shifting statementShifts (blockGotos 38),
  .reducing 8 afterItem,
  .either [(.dot, 39), (.lparen, 40)] 16 afterTarget [],
  .shifting operandShifts (operandGotos 41),
  .shifting (statementShifts ++ [(.rbrace, 44)]) (statementGotos 45),
  .reducing 13 afterStatement,
  .either [(.assign, 46)] 45 afterLeading [],
  .shifting (operatorShifts ++ [(.semi, 47)]) [],
  .shifting [(.lparen, 60)] [],
  .shifting [(.lparen, 61)] [],
  .shifting (operandShifts ++ [(.semi, 63)]) (operandGotos 62),
  .shifting operandShifts (operandGotos 64),
  .shifting operandShifts (operandGotos 65),
  .reducing 38 afterExpression,
  .reducing 39 afterExpression,
  .reducing 40 afterExpression,
  .reducing 41 afterExpression,
  .reducing 42 afterExpression,
  .reducing 43 afterExpression,
  .reducing 44 afterExpression,
  .shifting [(.lparen, 66)] [],
  .shifting (statementShifts ++ [(.rbrace, 67)]) (statementGotos 45),
  .shifting [(.name, 68)] [],
  .shifting (operandShifts ++ [(.rparen, 70)]) (operandGotos 71 ++ [(.arguments, 69)]),
  .shifting (operatorShifts ++ [(.rparen, 72)]) [],
  .reducing 45 afterExpression,
  .either [(.lparen, 40), (.dot, 73)] 16 afterExpression [],
  .reducing 5 afterFunction,
  .reducing 12 afterStatement,
  .shifting operandShifts (operandGotos 74),
  .reducing 20 afterStatement,
  .shifting operandShifts (operandGotos 75),
  .shifting operandShifts (operandGotos 76),
  .shifting operandShifts (operandGotos 77),
  .shifting operandShifts (operandGotos 78),
  .shifting operandShifts (operandGotos 79),
  .shifting operandShifts (operandGotos 80),
  .shifting operandShifts (operandGotos 81),
  .shifting operandShifts (operandGotos 82),
  .shifting operandShifts (operandGotos 83),
  .shifting operandShifts (operandGotos 84),
  .shifting operandShifts (operandGotos 85),
  .shifting operandShifts (operandGotos 86),
  .shifting operandShifts (operandGotos 87),
  .shifting operandShifts (operandGotos 88),
  .shifting (operatorShifts ++ [(.semi, 89)]) [],
  .reducing 22 afterStatement,
  .reducing 23 afterExpression,
  .reducing 24 afterExpression,
  .shifting [(.name, 8), (.ref, 12), (.rparen, 91)] [(.formals, 90), (.formal, 11)],
  .reducing 4 afterFunction,
  .either [(.lparen, 92)] 15 afterTarget [],
  .shifting [(.rparen, 93), (.comma, 94)] [],
  .reducing 47 afterExpression,
  .either operatorShifts 51 afterItem [],
  .reducing 35 afterExpression,
  .shifting [(.name, 95)] [],
  .shifting (operatorShifts ++ [(.semi, 96)]) [],
  .either sumShifts 25 afterComparison [],
  .either sumShifts 26 afterComparison [],
  .either sumShifts 27 afterComparison [],
  .either sumShifts 28 afterComparison [],
  .either sumShifts 29 afterComparison [],
  .either sumShifts 30 afterComparison [],
  .either productShifts 31 afterSum [],
  .either productShifts 32 afterSum [],
  .reducing 33 afterExpression,
  .reducing 34 afterExpression,
  .either (conjunctShifts ++ comparisonShifts) 36 afterDisjunct [],
  .either comparisonShifts 37 afterConjunct [],
  .shifting (operatorShifts ++ [(.rparen, 97)]) [],
  .shifting (operatorShifts ++ [(.rparen, 98)]) [],
  .reducing 21 afterStatement,
  .shifting [(.comma, 14), (.rparen, 99)] [],
  .shifting [(.lbrace, 100)] [],
  .shifting (operandShifts ++ [(.rparen, 102)]) (operandGotos 71 ++ [(.arguments, 101)]),
  .reducing 46 afterExpression,
  .shifting operandShifts (operandGotos 103),
  .either [(.lparen, 92)] 15 afterExpression [],
  .reducing 14 afterStatement,
  .shifting [(.lbrace, 104)] [],
  .shifting [(.lbrace, 105)] [],
  .shifting [(.lbrace, 106)] [],
  .shifting statementShifts (blockGotos 107),
  .shifting [(.comma, 94), (.rparen, 108)] [],
  .reducing 49 afterExpression,
  .either operatorShifts 50 afterItem [],
  .shifting statementShifts (blockGotos 109),
  .shifting statementShifts (blockGotos 110),
  .shifting statementShifts (blockGotos 111),
  .shifting (statementShifts ++ [(.rbrace, 112)]) (statementGotos 45),
  .reducing 48 afterExpression,
  .shifting (statementShifts ++ [(.rbrace, 113)]) (statementGotos 45),
  .shifting (statementShifts ++ [(.rbrace, 114)]) (statementGotos 45),
  .shifting (statementShifts ++ [(.rbrace, 115)]) (statementGotos 45),
  .reducing 7 afterExpression,
  .either [(.else, 116)] 17 afterStatement [],
  .reducing 19 afterStatement,
  .reducing 6 afterExpression,
  .shifting [(.lbrace, 117)] [],
  .shifting statementShifts (blockGotos 118),
  .shifting (statementShifts ++ [(.rbrace, 119)]) (statementGotos 45),
  .reducing 18 afterStatement
]

def Rule.info (r : Rule) : Lr.RuleInfo Symbol :=
  ⟨.phrase r.head, r.body.length, r.text⟩

def tables : Lr.Tables Symbol where
  action s symbol := states[s]?.bind (·.action symbol)
  sole s := states[s]?.bind (·.sole)
  goto s symbol := states[s]?.bind (·.goto symbol)
  rule n := rules[n]?.map Rule.info

end LangKit.Script
