import LangKit.Proofs.Execution.Assignment
import LangKit.Proofs.Safety.Operators

/-!
# How a scoped run can fail

Apart from the errors that a program reports, a scoped run can only fail in a few ways, each at an
activity of a certain form: `Mishap`. A fault of an activity comes from a mishap of the activity
itself or of one that it has started (`Blames`).
-/

namespace LangKit.Script

open Run
open Stacked (Setting Value Held)

/-! ## Mishaps -/

section

variable (ev : Datum → Run Datum)

/-- A printed line comes to an argument: the arguments before it have been evaluated and written. -/
def Pieced (args : List Datum) (line : String) (m : Machine) (arg : Datum) (m' : Machine) : Prop :=
  ∃ before after line', args = before ++ arg :: after ∧
    outputLine ev before line m = (.ok line', m')

theorem Pieced.cons {ev : Datum → Run Datum} {rest : List Datum}
    {line piece : String} {d arg arg' : Datum} {m m1 m2 m' : Machine}
    (h : Pieced ev rest (line ++ piece) m2 arg' m') (harg : ev arg m = (.ok d, m1))
    (hpiece : outputPiece d m1 = (.ok piece, m2)) : Pieced ev (arg :: rest) line m arg' m' := by
  obtain ⟨before, after, line', rfl, hbefore⟩ := h
  refine ⟨arg :: before, after, line', rfl, ?_⟩
  rw [outputLine, bind_of_ok harg, bind_of_ok hpiece, hbefore]

def Passed (ev : Bool → Datum → Run Datum) (i : Nat) (args : List Datum) (m : Machine) (arg : Datum)
    (m' : Machine) : Prop :=
  ∃ before after values, args = before ++ arg :: after ∧
    argValues .scoped ev none i before m = (.ok values, m')

end

def Printed (fuel : Nat) (scope : Scope) (args : Datum) (m : Machine) (d : Datum) (m' : Machine) :
    Prop :=
  ∃ ds arg m1 m2, printHeader scope args m = (.ok (), m1) ∧ items args m1 = (.ok ds, m1) ∧
    Pieced (eval .scoped fuel false scope) ds "" m1 arg m2 ∧
    eval .scoped fuel false scope arg m2 = (.ok d, m')

inductive NotInteger : Datum → Fault → Prop
  | malformed {s : String} (read : Text.Decimal.read s = .error .malformed) :
      NotInteger (.text s) (.malformedInteger s)
  | overlong {s : String} {n : Nat} (read : Text.Decimal.read s = .error (.tooLong n)) :
      NotInteger (.text s) (.overlongInteger n)
  | usedUp : NotInteger .null (.wrongType
      "int() argument must be a string, a bytes-like object or a real number, not 'NoneType'")

inductive Mishap : Activity → Fault → Prop
  | division (form : IsExpression .scoped m node (.binary .divide))
      (first : field node "op1" m = (.ok d1, m))
      (left : eval .scoped fuel false scope d1 m = (.ok a, m1))
      (second : field node "op2" m1 = (.ok d2, m1))
      (right : eval .scoped fuel false scope d2 m1 = (.ok b, m2))
      (zero : Held m2.store b (.int 0)) :
      Mishap ⟨fuel + 1, .eval byRef scope node, m⟩ .divisionByZero
  | nilAssigned (assigns : Assigns m node x e) (bound : Assoc.has x scope = true)
      (value : eval .scoped fuel false scope e m = (.ok d, m1)) (nil : Held m1.store d .nil) :
      Mishap ⟨fuel + 1, .exec scope node, m⟩ (Fault.missingField "val")
  | nilPrinted (printed : Printed fuel scope args m d m1) (nil : Held m1.store d .nil) :
      Mishap ⟨fuel + 1, .call scope (.text "print") args, m⟩ (Fault.missingField "val")
  | longPrinted (printed : Printed fuel scope args m d m1) (int : Held m1.store d (.int n))
      (long : Text.Decimal.write? n = none) :
      Mishap ⟨fuel + 1, .call scope (.text "print") args, m⟩ .unprintableInteger
  | nilPrompt (known : Builtin.ofName? (.text title) = some builtin) (reads : builtin ≠ .print)
      (row : items args m = (.ok [arg], m))
      (value : eval .scoped fuel false scope arg m = (.ok d, m1)) (nil : Held m1.store d .nil) :
      Mishap ⟨fuel + 1, .call scope (.text title) args, m⟩ (Fault.missingField "val")
  | noInput (known : Builtin.ofName? (.text title) = some builtin) (reads : builtin ≠ .print)
      (prompted : promptWith title (eval .scoped fuel false scope) args m = (.ok (), m1))
      (ends : input m1 = (.error (.fault .endOfInput), m2)) :
      Mishap ⟨fuel + 1, .call scope (.text title) args, m⟩ .endOfInput
  | noNumber
      (prompted : promptWith "inputi" (eval .scoped fuel false scope) args m = (.ok (), m1))
      (given : input m1 = (.ok d, m2)) (none : NotInteger d f) :
      Mishap ⟨fuel + 1, .call scope (.text "inputi") args, m⟩ f

inductive Blames : Activity → Fault → Prop
  | here {a : Activity} {f : Fault} (mishap : Mishap a f) : Blames a f
  | inner {a b : Activity} {f : Fault} (starts : Starts .scoped a b) (blames : Blames b f) :
      Blames a f

open Store

variable {rest ds : List Datum} {d : Datum} {m : Machine} {b : Ast.Block}
  {a : Activity} {c : Setting}

/-! ## Code -/

section

variable (c : Setting)

def IsExpr (d : Datum) : Prop :=
  ∃ e : Ast.Expr, c.Code d e.tree

def IsStmt (d : Datum) : Prop :=
  ∃ s : Ast.Stmt, c.Code d s.tree

end

theorem code_of_args {p : Ast.Expr → Bool} {q : Ast.Args → Bool}
    (hall : ∀ e rest, q (.cons e rest) = (p e && q rest)) {args : Ast.Args} {ds : List Datum}
    (h : HoldsAll c.base c.base.size ds args.trees) (hargs : q args = true) :
    ∀ d ∈ ds, ∃ e : Ast.Expr, c.Code d e.tree ∧ p e = true := by
  match args, h with
  | .nil, .nil => exact nofun
  | .cons e rest, .cons first more =>
    obtain ⟨he, hrest⟩ := Bool.and_eq_true_iff.1 ((hall e rest).symm.trans hargs)
    exact List.forall_mem_cons.2 ⟨⟨e, first, he⟩, code_of_args hall more hrest⟩

theorem code_of_block {p : Ast.Stmt → Bool} {q : Ast.Block → Bool} (hlast : ∀ s, q (.last s) = p s)
    (hall : ∀ s rest, q (.cons s rest) = (p s && q rest)) {b : Ast.Block} {ds : List Datum}
    (h : HoldsAll c.base c.base.size ds b.trees) (hb : q b = true) :
    ∀ d ∈ ds, ∃ s : Ast.Stmt, c.Code d s.tree ∧ p s = true := by
  match b, h with
  | .last s, .cons first .nil => exact List.forall_mem_cons.2 ⟨⟨s, first, hlast s ▸ hb⟩, nofun⟩
  | .cons s rest, .cons first more =>
    obtain ⟨hs, hrest⟩ := Bool.and_eq_true_iff.1 ((hall s rest).symm.trans hb)
    exact List.forall_mem_cons.2 ⟨⟨s, first, hs⟩, code_of_block hlast hall more hrest⟩

theorem isExpr_of_args {args : Ast.Args} (h : HoldsAll c.base c.base.size ds args.trees) :
    ∀ d ∈ ds, IsExpr c d :=
  fun d hd => (code_of_args (p := fun _ => true) (q := fun _ => true) (fun _ _ => rfl) h rfl d
    hd).imp fun _ => And.left

theorem isStmt_of_block (h : HoldsAll c.base c.base.size ds b.trees) : ∀ d ∈ ds, IsStmt c d :=
  fun d hd => (code_of_block (p := fun _ => true) (q := fun _ => true) (fun _ => rfl) (fun _ _ =>
    rfl) h rfl d hd).imp fun _ => And.left

theorem items_of_block (h : c.Code d (.list b.trees)) :
    ∃ ds, items d m = (.ok ds, m) ∧ ∀ s ∈ ds, IsStmt c s := by
  obtain ⟨ds, rfl, hds⟩ := h.eq_list
  exact ⟨ds, rfl, isStmt_of_block hds⟩

/-! ## What the evaluators are to meet -/

section

variable (c : Setting) (fuel : Nat)

/-- Expressions give new nodes. -/
def EvalMeets : Prop :=
  ∀ {scope : Scope} {outer : List Scope} {m : Machine} {d : Datum}, Intact c m →
    Unshared c m.store (scope :: outer) → IsExpr c d →
    Meets c m (eval .scoped fuel false scope d) (fun a m' => IsNew m.store m'.store a)
      (Blames ⟨fuel, .eval false scope d, m⟩)

/-- What a statement leaves: names that share no nodes, and a new node if it gives a result. -/
def Leaves (outer : List Scope) (m : Machine) (r : Scope × Datum) (m' : Machine) : Prop :=
  Unshared c m'.store (r.1 :: outer) ∧ IsResult m.store m'.store r.2

/-- Statements bind names to new nodes and give new nodes. -/
def ExecMeets : Prop :=
  ∀ {scope : Scope} {outer : List Scope} {m : Machine} {d : Datum}, Intact c m →
    Unshared c m.store (scope :: outer) → IsStmt c d →
    Meets c m (exec .scoped fuel d scope) (Leaves c outer m) (Blames ⟨fuel, .exec scope d, m⟩)

/-- Calls give new nodes or nothing. -/
def CallMeets : Prop :=
  ∀ {scope : Scope} {outer : List Scope} {m : Machine} {f : String} {ds : List Datum}, Intact c m →
    Unshared c m.store (scope :: outer) → (∀ d ∈ ds, IsExpr c d) →
    Meets c m (call .scoped fuel scope (.text f) (.list ds))
      (fun d m' => IsResult m.store m'.store d) (Blames ⟨fuel, .call scope (.text f) (.list ds), m⟩)

end

section

variable {fuel : Nat} {scope : Scope} {outer : List Scope}

theorem EvalMeets.started (h : EvalMeets c fuel) (hm : Intact c m)
    (hs : Unshared c m.store (scope :: outer)) (hd : IsExpr c d)
    (ha : Starts .scoped a ⟨fuel, .eval false scope d, m⟩) :
    Meets c m (eval .scoped fuel false scope d) (fun a m' => IsNew m.store m'.store a) (Blames a) :=
  (h hm hs hd).blame fun _ => .inner ha

theorem CallMeets.started (h : CallMeets c fuel) (hm : Intact c m)
    (hs : Unshared c m.store (scope :: outer)) (hds : ∀ d ∈ ds, IsExpr c d)
    (ha : Starts .scoped a ⟨fuel, .call scope (.text f) (.list ds), m⟩) :
    Meets c m (call .scoped fuel scope (.text f) (.list ds))
      (fun d m' => IsResult m.store m'.store d) (Blames a) :=
  (h hm hs hds).blame fun _ => .inner ha

end

end LangKit.Script
