import LangKit.Proofs.Ast.Basic
import LangKit.Script.Eval

/-!
# First-order programs

A program is first-order if it has no lambdas and no reference formals, and if no call of one of its
functions has another call among its arguments. Such a program means something in the scoped
dialect, and evaluating the arguments of a call twice does no harm.
-/

namespace LangKit.Script.Ast

def Expr.isCallFree : Expr → Bool
  | .int _ | .bool _ | .nil | .object | .string _ | .var _ => true
  | .unary _ e => e.isCallFree
  | .binary _ left right => left.isCallFree && right.isCallFree
  | .call _ _ | .method _ _ _ | .lambda _ _ => false

def Args.isCallFree : Args → Bool
  | .nil => true
  | .cons e rest => e.isCallFree && rest.isCallFree

def Name.isBuiltin (f : Name) : Bool :=
  (Builtin.ofName? (.text f.text)).isSome

mutual

/-- Is an expression without lambdas, and without calls among the arguments of the program's
functions? -/
def Expr.isFirstOrder : Expr → Bool
  | .int _ | .bool _ | .nil | .object | .string _ | .var _ => true
  | .unary _ e => e.isFirstOrder
  | .binary _ left right => left.isFirstOrder && right.isFirstOrder
  | .call f args => (f.isBuiltin || args.isCallFree) && args.isFirstOrder
  | .method _ _ args => args.isFirstOrder
  | .lambda _ _ => false

def Args.isFirstOrder : Args → Bool
  | .nil => true
  | .cons e rest => e.isFirstOrder && rest.isFirstOrder

def Stmt.isFirstOrder : Stmt → Bool
  | .assign _ e => e.isFirstOrder
  | .choice condition body => condition.isFirstOrder && body.isFirstOrder
  | .choiceElse condition body other =>
    condition.isFirstOrder && body.isFirstOrder && other.isFirstOrder
  | .loop condition body => condition.isFirstOrder && body.isFirstOrder
  | .result e => e.isFirstOrder
  | .noResult => true
  | .expr e => e.isFirstOrder

def Block.isFirstOrder : Block → Bool
  | .last s => s.isFirstOrder
  | .cons s rest => s.isFirstOrder && rest.isFirstOrder

end

def Function.isFirstOrder (f : Function) : Bool :=
  f.formals.all (fun x => !x.byRef) && f.body.isFirstOrder

def Program.isFirstOrder (p : Program) : Bool :=
  p.functions.all Function.isFirstOrder

end LangKit.Script.Ast
