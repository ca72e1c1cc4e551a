import LangKit.Proofs.Ast.Basic
import LangKit.Script.Variable

/-!
# Programs without objects

A program speaks of objects if it makes one, calls a method or uses a name with a dot in it. Whether
it does so shows in its tree alone.
-/

namespace LangKit.Script.Ast

/-- Is a variable called by a name without a dot? -/
def Place.isPlain : Place → Bool
  | .plain _ => true
  | .member _ _ => false

mutual

/-- Does an expression say nothing about objects? -/
def Expr.isObjectFree : Expr → Bool
  | .int _ | .bool _ | .nil | .string _ => true
  | .object | .method _ _ _ => false
  | .var x => x.isPlain
  | .unary _ e => e.isObjectFree
  | .binary _ left right => left.isObjectFree && right.isObjectFree
  | .call _ args => args.isObjectFree
  | .lambda _ body => body.isObjectFree

/-- Do arguments say nothing about objects? -/
def Args.isObjectFree : Args → Bool
  | .nil => true
  | .cons e rest => e.isObjectFree && rest.isObjectFree

/-- Does a statement say nothing about objects? -/
def Stmt.isObjectFree : Stmt → Bool
  | .assign x e => x.isPlain && e.isObjectFree
  | .choice condition body => condition.isObjectFree && body.isObjectFree
  | .choiceElse condition body other =>
    condition.isObjectFree && body.isObjectFree && other.isObjectFree
  | .loop condition body => condition.isObjectFree && body.isObjectFree
  | .result e => e.isObjectFree
  | .noResult => true
  | .expr e => e.isObjectFree

def Block.isObjectFree : Block → Bool
  | .last s => s.isObjectFree
  | .cons s rest => s.isObjectFree && rest.isObjectFree

end

def Program.isObjectFree (p : Program) : Bool :=
  p.functions.all fun f => f.body.isObjectFree

theorem Name.isDotted_text (x : Name) : isDotted x.text = false := by
  obtain ⟨text, valid⟩ := x
  unfold isName at valid
  unfold isDotted
  dsimp only
  split at valid
  · cases valid
  · rename_i c cs htext
    simp only [Bool.and_eq_true, List.all_eq_true] at valid
    obtain ⟨⟨hstart, hwords⟩, -⟩ := valid
    have hdot : Text.isWord '.' = false := by decide +kernel
    rw [htext, List.contains_eq_mem, decide_eq_false_iff_not]
    intro hmem
    have hword : Text.isWord '.' = true := by
      rcases List.mem_cons.1 hmem with rfl | hmem
      · exact Text.isWord_of_isNameStart hstart
      · exact hwords _ hmem
    rw [hdot] at hword
    cases hword

theorem Place.isDotted_text {x : Place} (h : x.isPlain = true) : isDotted x.text = false := by
  cases x with
  | plain x => exact x.isDotted_text
  | member => cases h

end LangKit.Script.Ast
