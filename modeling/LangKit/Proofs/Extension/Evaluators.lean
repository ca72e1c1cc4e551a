import LangKit.Proofs.Extension.Calls
import LangKit.Proofs.Scoping.Refinement

/-!
# Expressions and statements side by side

Whatever ends well in the scoped dialect ends well with closures: `forward_all`, by induction on the
fuel.
-/

namespace LangKit.Script.Extension

open Run Store
open Stacked (Setting Value Held)

variable {kind : String} {ts : List (String × Tree)} {b body : Ast.Block} {condition : Ast.Expr}

variable {c : Setting} {R : Pairs} {m n : Machine} {scope scope' : Scope} {fuel : Nat} {d : Datum}

/-! ## Expressions -/

theorem forward_literal {v : Value} (hl : Link c R m n) (hd : c.Code d v.tree) :
    Forward c R m n (eval .scoped (fuel + 1) false scope d)
      (eval .closures (fuel + 1) false scope' d) (NewPair m.store.size) := by
  have hcopy := forward_copy hl trivial (hd.literal hl.left.base) (hd.literal hl.right.base)
  rw [eval_succ, eval_succ]
  cases v <;> exact .step (hd.kindOf hl.left.base) (hd.kindOf hl.right.base) hcopy

theorem forward_unknown {Q : Pairs → Datum → Datum → Prop} (hl : Link c R m n)
    (hd : c.Code d (.node kind ts)) (hform : Dialect.scoped.exprForm kind = .unknown) :
    Forward c R m n (eval .scoped (fuel + 1) false scope d) y Q := by
  rw [eval_succ]
  refine .congr ?_ (bind_of_ok (hd.kindOf hl.left.base)) rfl
  rw [hform]
  rcases htext : textOf d m with ⟨e | s, m1⟩
  · exact .of_error (bind_eq_error.2 (.inl htext))
  · obtain rfl := Has.eq htext
    exact forward_report (bind_of_ok htext)

theorem isCallFree_of_own {f : Ast.Name} {args : Ast.Args}
    (h : f.isBuiltin = true ∨ args.isCallFree = true)
    (hown : Builtin.ofName? (.text f.text) = none) : args.isCallFree = true := by
  rcases h with hbuiltin | hfree
  · rw [Ast.Name.isBuiltin, hown] at hbuiltin
    cases hbuiltin
  · exact hfree

theorem evalForward_succ (heval : EvalForward c fuel) (hcall : CallForward c fuel) :
    EvalForward c (fuel + 1) := by
  rintro R m n scope scope' d hl hs ⟨e, hd, he⟩ hclean
  cases e with
  | int k => exact forward_literal (v := .int k.value) hl hd
  | bool b => exact forward_literal (v := .bool b) hl hd
  | nil => exact forward_literal (v := .nil) hl hd
  | string s => exact forward_literal (v := .string s.text) hl hd
  | var x =>
    rw [eval_succ, eval_succ]
    exact .step (hd.kindOf hl.left.base) (hd.kindOf hl.right.base) (forward_variable hl hs hd)
  | object => exact forward_unknown hl hd rfl
  | method o f args => exact forward_unknown hl hd rfl
  | lambda formals body => exact forward_unknown hl hd rfl
  | unary op e =>
    have hform : IsExpression .scoped m d (.unary op) :=
      ⟨_, hd.kindOf hl.left.base, Stacked.exprForm_unary op⟩
    have hform' : IsExpression .closures n d (.unary op) :=
      ⟨_, hd.kindOf hl.right.base, Stacked.exprForm_unary op⟩
    obtain ⟨d1, hd1, hd1', hcode1⟩ := hl.field hd "op1" rfl
    have hoperand := heval hl hs ⟨e, hcode1, he⟩ (hclean.started (.operand hform hd1))
    refine .congr ?_ (eval_unary hform) (eval_unary hform')
    refine .step hd1 hd1' (hoperand.bind fun a b m1 n1 R1 _ _ ho hab => ?_)
    obtain ⟨v, -, hv, hv'⟩ := ho.link.held hab.paired
    intro r m2 hr
    have hnew := (makeAlike_unary hv hv' hr).forward ho.link
    exact (hnew.mono fun _ _ _ h => h.mono ho.size) r m2 hr
  | binary op left right =>
    simp only [Ast.Expr.isFirstOrder, Bool.and_eq_true] at he
    have hform : IsExpression .scoped m d (.binary op) :=
      ⟨_, hd.kindOf hl.left.base, Stacked.exprForm_binary op⟩
    have hform' : IsExpression .closures n d (.binary op) :=
      ⟨_, hd.kindOf hl.right.base, Stacked.exprForm_binary op⟩
    obtain ⟨d1, hd1, hd1', hcode1⟩ := hl.field hd "op1" rfl
    have hleft := heval hl hs ⟨left, hcode1, he.1⟩ (hclean.started (.left hform hd1))
    refine .congr ?_ (eval_binary hform) (eval_binary hform')
    refine .step hd1 hd1' (hleft.bind fun a b m1 n1 R1 ha _ ho hab => ?_)
    obtain ⟨d2, hd2, hd2', hcode2⟩ := ho.link.field hd "op2" rfl
    have hright := heval ho.link (hs.mono ho.pairs) ⟨right, hcode2, he.2⟩
      (hclean.started (.right hform hd1 ha hd2))
    refine .step hd2 hd2' (hright.bind fun p q m2 n2 R2 hp _ ho2 hpq => ?_)
    obtain ⟨v, -, hv, hv'⟩ := ho2.link.held (hab.paired.mono ho2.pairs)
    obtain ⟨u, -, hu, hu'⟩ := ho2.link.held hpq.paired
    have hmixed : op = .equal ∨ op = .notEqual → ¬ Mixed v u := fun hop hmixed =>
      hclean.here.1 (.compares hform hop hd1 ha hd2 hp hv hu hmixed)
    intro r m3 hr
    have hnew := (makeAlike_binary hv hu hv' hu' ho2.link.left.base.separate
      ho2.link.right.base.separate hmixed hr).forward ho2.link
    exact (hnew.mono fun _ _ _ h => h.mono (ho.trans ho2).size) r m3 hr
  | call f args =>
    simp only [Ast.Expr.isFirstOrder, Bool.and_eq_true, Bool.or_eq_true] at he
    have hform : IsExpression .scoped m d .call := ⟨_, hd.kindOf hl.left.base, rfl⟩
    have hd1 := hd.text_field hl.left.base "name" rfl
    obtain ⟨ds, hds, hargs⟩ := hd.list_field "args" rfl
    have hd2 := hargs hl.left.base
    have hvalue := hcall hl hs (code_of_args (fun _ _ => rfl) hds he.2)
      (fun hnone => code_of_args (fun _ _ => rfl) hds (isCallFree_of_own he.1 hnone))
      (hclean.started (.invoke hform hd1 hd2))
    refine .congr ?_ (eval_call hform) (eval_call ⟨_, hd.kindOf hl.right.base, rfl⟩)
    refine .step hd1 (hd.text_field hl.right.base "name" rfl) (.step hd2 (hargs hl.right.base) ?_)
    refine hvalue.bind fun a b m1 n1 R1 _ _ ho hab => ?_
    cases hab with
    | none => exact (forward_make (v := .nil) ho.link trivial).mono fun _ _ _ h => h.mono ho.size
    | some pair =>
      cases pair with
      | node pair new => exact .pure ho.link (.node pair new)

/-! ## Statements -/

theorem forward_carryOut (hexec : ExecForward c fuel) (hl : Link c R m n)
    (hs : SameScope R scope scope') (hd : c.Code d (.list b.trees)) (hb : b.isFirstOrder = true)
    (hclean : ∀ statements s scope1 m1, items d m = (.ok statements, m) →
      Reached (exec .scoped fuel) statements scope m s scope1 m1 →
      Clean ⟨fuel, .exec scope1 s, m1⟩) :
    Forward c R m n (carryOut .scoped fuel scope d) (carryOut .closures fuel scope' d)
      (SameEnd m.store.size) := by
  obtain ⟨ds, rfl, hds⟩ := hd.eq_list
  have hclean' : ∀ s scope1 m1, Reached (Row.block.step .scoped fuel) ds scope m s scope1 m1 →
      Clean ⟨fuel, .exec scope1 s, m1⟩ := by
    intro s scope1 m1 hreached
    rw [Row.step_block] at hreached
    exact hclean ds s scope1 m1 rfl hreached
  have hrow := forward_row hexec hl hs .block (code_of_block (fun _ => rfl) (fun _ _ => rfl) hds hb)
    hclean'
  rw [Row.step_block, Row.step_block] at hrow
  exact .step rfl rfl (hrow.map fun ho hend => ⟨hs.mono ho.pairs, hend.2⟩)

section

variable (heval : EvalForward c fuel) (hexec : ExecForward c fuel) (hl : Link c R m n)
  (hs : SameScope R scope scope')
include heval hexec hl hs

theorem forward_choice (other : Option Ast.Block)
    (hd : c.Code d (Ast.choiceTree condition body other))
    (hcondition : condition.isFirstOrder = true) (hbody : body.isFirstOrder = true)
    (hother : ∀ b, other = some b → b.isFirstOrder = true)
    (hclean : Clean ⟨fuel + 1, .exec scope d, m⟩) :
    Forward c R m n (exec .scoped (fuel + 1) d scope) (exec .closures (fuel + 1) d scope')
      (SameEnd m.store.size) := by
  have hform : IsStatement m d .choice := ⟨_, hd.kindOf hl.left.base, rfl⟩
  obtain ⟨d1, hd1, hd1', hcode1⟩ := hl.field hd "condition" rfl
  have hvalue := heval hl hs ⟨condition, hcode1, hcondition⟩ (hclean.started (.condition hform hd1))
  refine .congr ?_ (exec_choice hform) (exec_choice ⟨_, hd.kindOf hl.right.base, rfl⟩)
  refine .step hd1 hd1' (hvalue.bind fun a b m1 n1 R1 ha _ ho hab => ?_)
  obtain ⟨v, -, hv, hv'⟩ := ho.link.held hab.paired
  refine (forward_condition hv hv' ho.link "if").bind ?_
  rintro go _ m2 n2 R2 hgo - ho2 rfl
  have hlink := ho.trans ho2
  have hs2 := hs.mono hlink.pairs
  cases go with
  | true =>
    obtain ⟨d2, hd2, hd2', hcode2⟩ := hlink.link.field hd "statements" rfl
    refine .step hd2 hd2' ((forward_carryOut hexec hlink.link hs2 hcode2 hbody ?_).mono ?_)
    · intro statements s scope1 m3 hitems hreached
      exact hclean.started (.branch hform hd1 ha hgo hd2 hitems hreached)
    · exact fun _ _ _ h => h.mono hlink.size
  | false =>
    obtain ⟨d2, hd2, hd2', hcode2⟩ := hlink.link.field hd "else_statements" rfl
    refine .step hd2 hd2' ?_
    cases other with
    | none =>
      cases hcode2
      exact .pure hlink.link ⟨hs2, .none⟩
    | some other =>
      have hbranch := forward_carryOut hexec hlink.link hs2 hcode2 (hother other rfl)
        fun statements s scope1 m3 hitems hreached =>
          hclean.started (.branch hform hd1 ha hgo hd2 hitems hreached)
      obtain ⟨ds, rfl, -⟩ := hcode2.eq_list
      exact hbranch.mono fun _ _ _ h => h.mono hlink.size

theorem forward_while
    (hd : c.Code d (Ast.Stmt.loop condition body).tree)
    (hcondition : condition.isFirstOrder = true) (hbody : body.isFirstOrder = true)
    (hclean : Clean ⟨fuel + 1, .exec scope d, m⟩) :
    Forward c R m n (exec .scoped (fuel + 1) d scope) (exec .closures (fuel + 1) d scope')
      (SameEnd m.store.size) := by
  have hform : IsStatement m d .loop := ⟨_, hd.kindOf hl.left.base, rfl⟩
  have hloop : Forward c R m n
      (repeatWhile (loopTest .scoped fuel scope d) (loopBody .scoped fuel scope d) fuel)
      (repeatWhile (loopTest .closures fuel scope' d) (loopBody .closures fuel scope' d) fuel)
      (SameResult m.store.size) := by
    refine forward_loop hl (fun m1 hrounds R1 n1 hR hl1 => ?_)
      fun m1 m2 hrounds hgo R2 n2 hR hl2 => ?_
    · obtain ⟨d1, hd1, hd1', hcode1⟩ := hl1.field hd "condition" rfl
      have hvalue := heval hl1 (hs.mono hR) ⟨condition, hcode1, hcondition⟩
        (hclean.started (.test hform hrounds hd1))
      refine .step hd1 hd1' (hvalue.bind fun a b m2 n2 R2 _ _ ho hab => ?_)
      obtain ⟨v, -, hv, hv'⟩ := ho.link.held hab.paired
      exact forward_condition hv hv' ho.link "while"
    · obtain ⟨d1, hd1, hd1', hcode1⟩ := hl2.field hd "statements" rfl
      have hround := forward_carryOut hexec hl2 (hs.mono hR) hcode1 hbody
        fun statements s scope1 m3 hitems hreached =>
          hclean.started (.round hform hrounds hgo hd1 hitems hreached)
      obtain ⟨ds, rfl, -⟩ := hcode1.eq_list
      -- A round gives what its block gives, without the scope.
      have hforget : ∀ (dialect : Dialect) (scope : Scope), loopBody dialect fuel scope d = (do
          let body ← field d "statements"
          let r ← carryOut dialect fuel scope body
          return r.2) := by
        intro dialect scope
        simp only [loopBody, carryOut, bind_assoc, pure_bind]
      rw [hforget, hforget]
      exact .step hd1 hd1' (hround.map fun _ hend => hend.2)
  refine .congr ?_ (exec_loop hform) (exec_loop ⟨_, hd.kindOf hl.right.base, rfl⟩)
  exact hloop.map fun ho hresult => ⟨hs.mono ho.pairs, hresult⟩

end

theorem forward_idle (hl : Link c R m n) (hs : SameScope R scope scope')
    (hd : c.Code d (.node kind ts)) (hform : statementForm kind = .other) :
    Forward c R m n (exec .scoped (fuel + 1) d scope) (exec .closures (fuel + 1) d scope')
      (SameEnd m.store.size) := by
  refine .congr (.pure hl ⟨hs, .none⟩) (exec_other ?_) (exec_other ?_)
  · exact ⟨kind, hd.kindOf hl.left.base, hform⟩
  · exact ⟨kind, hd.kindOf hl.right.base, hform⟩

theorem execForward_succ (heval : EvalForward c fuel) (hexec : ExecForward c fuel)
    (hcall : CallForward c fuel) : ExecForward c (fuel + 1) := by
  rintro R m n scope scope' d hl hs ⟨st, hd, hst⟩ hclean
  cases st with
  | assign x e =>
    have hform : IsStatement m d .assign := ⟨_, hd.kindOf hl.left.base, rfl⟩
    have hd1 := hd.text_field hl.left.base "name" rfl
    obtain ⟨d2, hd2, hd2', hcode2⟩ := hl.field hd "expression" rfl
    have hassigns : Assigns m d x.text d2 := ⟨hform, ⟨_, hd1, rfl⟩, hd2⟩
    have hvalue := heval hl hs ⟨e, hcode2, hst⟩
      (hclean.started (.assigned hform hd1 rfl hd2 (by simp [Dialect.hasObjects])))
    refine .congr ?_ (exec_assign hform) (exec_assign ⟨_, hd.kindOf hl.right.base, rfl⟩)
    refine .step hd1 (hd.text_field hl.right.base "name" rfl) (.step rfl rfl (.step hd2 hd2' ?_))
    refine (forward_assign hs hvalue fun a m1 k hx ha hk hlong => ?_).map fun _ h => ⟨h, .none⟩
    exact hclean.here.2 (.assigns hassigns hx ha hk hlong)
  | choice condition body =>
    simp only [Ast.Stmt.isFirstOrder, Bool.and_eq_true] at hst
    refine forward_choice heval hexec hl hs none hd hst.1 hst.2 (fun b hb => ?_) hclean
    cases hb
  | choiceElse condition body other =>
    simp only [Ast.Stmt.isFirstOrder, Bool.and_eq_true] at hst
    refine forward_choice heval hexec hl hs (some other) hd hst.1.1 hst.1.2 (fun b hb => ?_) hclean
    obtain rfl := Option.some.inj hb
    exact hst.2
  | loop condition body =>
    simp only [Ast.Stmt.isFirstOrder, Bool.and_eq_true] at hst
    exact forward_while heval hexec hl hs hd hst.1 hst.2 hclean
  | result e =>
    have hform : IsStatement m d .return := ⟨_, hd.kindOf hl.left.base, rfl⟩
    obtain ⟨d1, hd1, hd1', hcode1⟩ := hl.field hd "expression" rfl
    obtain ⟨ref, rfl⟩ := hcode1.eq_node
    have hvalue := heval hl hs ⟨e, hcode1, hst⟩ (hclean.started (.result hform hd1
      fun h => by cases h))
    refine .congr ?_ (exec_return hform) (exec_return ⟨_, hd.kindOf hl.right.base, rfl⟩)
    refine .step hd1 hd1' ?_
    rw [resultValue, resultValue_node]
    exact (hvalue.copied hl (Nat.le_refl _)).map fun ho hab => ⟨hs.mono ho.pairs, .some hab⟩
  | noResult =>
    have hform : IsStatement m d .return := ⟨_, hd.kindOf hl.left.base, rfl⟩
    obtain ⟨d1, hd1, hd1', hcode1⟩ := hl.field hd "expression" rfl
    cases hcode1
    refine .congr ?_ (exec_return hform) (exec_return ⟨_, hd.kindOf hl.right.base, rfl⟩)
    refine .step hd1 hd1' ((forward_make (v := .nil) hl trivial).map
      fun ho hab => ⟨hs.mono ho.pairs, .some hab⟩)
  | expr e =>
    cases e with
    | call f args =>
      have hform : IsStatement m d .call := ⟨_, hd.kindOf hl.left.base, rfl⟩
      simp only [Ast.Stmt.isFirstOrder, Ast.Expr.isFirstOrder, Bool.and_eq_true,
        Bool.or_eq_true] at hst
      have hd1 := hd.text_field hl.left.base "name" rfl
      obtain ⟨ds, hds, hargs⟩ := hd.list_field "args" rfl
      have hd2 := hargs hl.left.base
      have hvalue := hcall hl hs (code_of_args (fun _ _ => rfl) hds hst.2)
        (fun hnone => code_of_args (fun _ _ => rfl) hds (isCallFree_of_own hst.1 hnone))
        (hclean.started (.perform hform hd1 hd2))
      refine .congr ?_ (exec_call hform) (exec_call ⟨_, hd.kindOf hl.right.base, rfl⟩)
      refine .step hd1 (hd.text_field hl.right.base "name" rfl) (.step hd2 (hargs hl.right.base) ?_)
      exact hvalue.map fun ho h => ⟨hs.mono ho.pairs, h⟩
    | unary op e => exact forward_idle hl hs hd (Stacked.statementForm_unary op)
    | binary op left right => exact forward_idle hl hs hd (Stacked.statementForm_binary op)
    | _ => exact forward_idle hl hs hd rfl

/-! ## All together -/

theorem forward_all (hfunctions : ∀ g ∈ c.functions, g.isFirstOrder = true) (fuel : Nat) :
    EvalForward c fuel ∧ ExecForward c fuel ∧ CallForward c fuel := by
  induction fuel with
  | zero => exact ⟨fun _ _ _ _ => .of_error rfl, fun _ _ _ _ => .of_error rfl,
      fun _ _ _ _ _ => .of_error rfl⟩
  | succ fuel ih =>
    obtain ⟨heval, hexec, hcall⟩ := ih
    exact ⟨evalForward_succ heval hcall, execForward_succ heval hexec hcall,
      callForward_succ hfunctions heval hexec⟩

end LangKit.Script.Extension
