import LangKit.Proofs.Ast.Writable
import LangKit.Proofs.Safety.Calls
import LangKit.Proofs.Scoping.Refinement

/-!
# Expressions and statements

Every expression gives a new node, every statement leaves names that share no nodes, and every fault
is one that the program reports or comes from a mishap: `meets_all`, by induction on the fuel.
-/

namespace LangKit.Script

open Run Store
open Stacked (Setting Value Held)

variable {kind : String} {ts : List (String × Tree)} {condition : Ast.Expr} {body : Ast.Block}

variable {c : Setting} {m : Machine} {E : Fault → Prop} {scope : Scope} {outer : List Scope}
  {fuel : Nat} {d : Datum}

/-! ## Expressions -/

theorem meets_literal {v : Value} (hm : Intact c m) (hd : c.Code d v.tree) :
    Meets c m (eval .scoped (fuel + 1) false scope d) (fun a m' => IsNew m.store m'.store a) E := by
  rw [eval_succ]
  have hcopy := meets_copy (E := E) hm (hd.literal hm.base)
  cases v <;> exact .step (hd.kindOf hm.base) hcopy

theorem meets_unknown (hm : Intact c m) (hd : c.Code d (.node kind ts))
    (hform : Dialect.scoped.exprForm kind = .unknown)
    (htext : ∃ s, (Tree.node kind ts).textOf = .ok s) :
    Meets c m (eval .scoped (fuel + 1) false scope d) (fun a m' => IsNew m.store m'.store a) E := by
  obtain ⟨s, hs⟩ := htext
  have hshown : Run.textOf d m = (.ok s, m) := by
    rw [hd.textOf hm.base, hs]
    rfl
  rw [eval_succ]
  refine .step (hd.kindOf hm.base) ?_
  rw [hform]
  exact .step hshown (meets_report hm .name _)

theorem evalMeets_succ (heval : EvalMeets c fuel) (hcall : CallMeets c fuel) :
    EvalMeets c (fuel + 1) := by
  rintro scope outer m d hm hs ⟨e, hd⟩
  cases e with
  | int n => exact meets_literal (v := .int n.value) hm hd
  | bool b => exact meets_literal (v := .bool b) hm hd
  | nil => exact meets_literal (v := .nil) hm hd
  | string s => exact meets_literal (v := .string s.text) hm hd
  | var x =>
    rw [eval_succ]
    exact .step (hd.kindOf hm.base) (meets_variable hm hs hd)
  | object => exact meets_unknown hm hd rfl Ast.Expr.object.exists_text
  | method o f args => exact meets_unknown hm hd rfl (Ast.Expr.method o f args).exists_text
  | lambda formals body => exact meets_unknown hm hd rfl (Ast.Expr.lambda formals body).exists_text
  | unary op e =>
    have hform : IsExpression .scoped m d (.unary op) :=
      ⟨_, hd.kindOf hm.base, Stacked.exprForm_unary op⟩
    obtain ⟨d1, hd1, hcode1⟩ := hd.field hm.base "op1" rfl
    have hoperand := heval.started (a := ⟨fuel + 1, .eval false scope d, m⟩) hm hs ⟨e, hcode1⟩
      (.operand hform hd1)
    rw [eval_succ]
    refine .step (hd.kindOf hm.base) ?_
    rw [Stacked.exprForm_unary]
    refine .step hd1 (hoperand.bind fun a m1 _ hm1 hl hnew => ?_)
    obtain ⟨v, hv⟩ := hnew.held hm1 hm.base.size
    exact (meets_unary hv hm1 op).weaken fun _ _ h => h.mono hl.size
  | binary op left right =>
    have hform : IsExpression .scoped m d (.binary op) :=
      ⟨_, hd.kindOf hm.base, Stacked.exprForm_binary op⟩
    obtain ⟨d1, hd1, hcode1⟩ := hd.field hm.base "op1" rfl
    have hleft := heval.started (a := ⟨fuel + 1, .eval false scope d, m⟩) hm hs ⟨left, hcode1⟩
      (.left hform hd1)
    rw [eval_succ]
    refine .step (hd.kindOf hm.base) ?_
    rw [Stacked.exprForm_binary]
    refine .step hd1 (hleft.bind fun a m1 ha hm1 hl1 hnew1 => ?_)
    obtain ⟨d2, hd2, hcode2⟩ := hd.field hm1.base "op2" rfl
    have hright := heval.started (a := ⟨fuel + 1, .eval false scope d, m⟩) hm1 (hs.mono hl1.size)
      ⟨right, hcode2⟩ (.right hform hd1 ha hd2)
    refine .step hd2 (hright.bind fun b m2 hb hm2 hl2 hnew2 => ?_)
    obtain ⟨va, hva⟩ := (hnew1.later hl2.size).held hm2 hm.base.size
    obtain ⟨vb, hvb⟩ := hnew2.held hm2 hm1.base.size
    refine (meets_binary hva hvb hm2 op ?_).weaken fun _ _ h => h.mono (hl1.trans hl2).size
    rintro rfl rfl
    exact .here (.division hform hd1 ha hd2 hb hvb)
  | call f args =>
    have hform : IsExpression .scoped m d .call := ⟨_, hd.kindOf hm.base, rfl⟩
    have hd1 := hd.text_field hm.base "name" rfl
    obtain ⟨ds, hds, hargs⟩ := hd.list_field "args" rfl
    have hd2 := hargs hm.base
    have hvalue := hcall.started (a := ⟨fuel + 1, .eval false scope d, m⟩) hm hs
      (isExpr_of_args hds) (.invoke hform hd1 hd2)
    rw [eval_succ]
    refine .step (hd.kindOf hm.base)
      (.step hd1 (.step hd2 (hvalue.bind fun r m1 _ hm1 hl hr => ?_)))
    rcases hr with rfl | ⟨ref, rfl, hnew⟩
    · exact (meets_make hm1 .nil).weaken fun _ _ h => h.1.mono hl.size
    · exact .pure hm1 ⟨ref, rfl, hnew⟩

/-! ## Statements -/

theorem meets_branch (hexec : ExecMeets c fuel) (hm : Intact c m)
    (hs : Unshared c s (scope :: outer)) (hl : s.size ≤ m.store.size) (hds : ∀ d ∈ ds, IsStmt c d)
    (hE : ∀ d scope' m' f, Reached (exec .scoped fuel) ds scope m d scope' m' →
      Blames ⟨fuel, .exec scope' d, m'⟩ f → E f) :
    Meets c m (block (exec .scoped fuel) ds scope) (fun r m' => IsResult s m'.store r.2) E := by
  rw [← Row.step_block] at hE ⊢
  have hrow := meets_row hexec .block hm (hs.push.mono hl) hds hE
  exact hrow.weaken fun r m' h => h.2.mono hl

theorem meets_choice (heval : EvalMeets c fuel) (hexec : ExecMeets c fuel) (hm : Intact c m)
    (hs : Unshared c m.store (scope :: outer)) (other : Option Ast.Block)
    (hd : c.Code d (Ast.choiceTree condition body other)) :
    Meets c m (exec .scoped (fuel + 1) d scope) (Leaves c outer m)
      (Blames ⟨fuel + 1, .exec scope d, m⟩) := by
  have hform : IsStatement m d .choice := ⟨_, hd.kindOf hm.base, rfl⟩
  obtain ⟨d1, hd1, hcode1⟩ := hd.field hm.base "condition" rfl
  have hvalue := heval.started hm hs ⟨condition, hcode1⟩ (.condition hform hd1)
  rw [exec_succ]
  refine .step (hd.kindOf hm.base) (.step hd1 (hvalue.bind fun a m1 ha hm1 hl hnew => ?_))
  obtain ⟨v, hv⟩ := hnew.held hm1 hm.base.size
  refine (meets_condition hv hm1 "if").bind ?_
  rintro go _ hgo - - rfl
  -- The blocks bind their names in scopes of their own, so the names are those from before.
  have hdone : ∀ r m', Later m1 m' → IsResult m.store m'.store r → Leaves c outer m (scope, r) m' :=
    fun r m' hl' hr => ⟨hs.mono (Nat.le_trans hl.size hl'.size), hr⟩
  cases go with
  | true =>
    obtain ⟨d2, hd2, hcode2⟩ := hd.field hm1.base "statements" rfl
    obtain ⟨ds, hds, hstmts⟩ := items_of_block (m := m1) hcode2
    have hbranch := meets_branch hexec hm1 hs hl.size hstmts fun s scope' m' f hreached =>
      Blames.inner (.branch hform hd1 ha hgo hd2 hds hreached)
    refine .step rfl (.step hd2 (.step hds (hbranch.map (g := fun r => (scope, r.2)) ?_)))
    exact fun r m' _ hl' hr => hdone r.2 m' hl' hr
  | false =>
    obtain ⟨d2, hd2, hcode2⟩ := hd.field hm1.base "else_statements" rfl
    refine .step rfl (.step hd2 ?_)
    cases other with
    | none =>
      cases hcode2
      exact .pure hm1 (hdone .null m1 (.refl m1) (.inl rfl))
    | some other =>
      obtain ⟨ds, rfl, hds⟩ := hcode2.eq_list
      have hitems : items (.list ds) m1 = (.ok ds, m1) := rfl
      have hbranch := meets_branch hexec hm1 hs hl.size (isStmt_of_block hds)
        fun s scope' m' f hreached =>
        Blames.inner (.branch hform hd1 ha hgo hd2 hitems hreached)
      refine .step hitems (hbranch.map (g := fun r => (scope, r.2)) ?_)
      exact fun r m' _ hl' hr => hdone r.2 m' hl' hr

section

variable (hd : c.Code d (Ast.Stmt.loop condition body).tree)

include hd

theorem meets_loopTest (heval : EvalMeets c fuel) (hm : Intact c m)
    (hs : Unshared c m.store (scope :: outer))
    (hE : ∀ d1 f, field d "condition" m = (.ok d1, m) → Blames ⟨fuel, .eval false scope d1, m⟩ f →
      E f) :
    Meets c m (loopTest .scoped fuel scope d) (fun _ _ => True) E := by
  obtain ⟨d1, hd1, hcode1⟩ := hd.field hm.base "condition" rfl
  have hvalue := (heval hm hs ⟨condition, hcode1⟩).blame fun f => hE d1 f hd1
  refine .step hd1 (hvalue.bind fun a m1 _ hm1 hl hnew => ?_)
  obtain ⟨v, hv⟩ := hnew.held hm1 hm.base.size
  exact (meets_condition hv hm1 "while").weaken fun _ _ _ => trivial

theorem meets_loopBody (hexec : ExecMeets c fuel) (hm : Intact c m)
    (hs : Unshared c m.store (scope :: outer))
    (hE : ∀ d1 statements s scope' m' f, field d "statements" m = (.ok d1, m) →
      items d1 m = (.ok statements, m) →
      Reached (exec .scoped fuel) statements scope m s scope' m' →
      Blames ⟨fuel, .exec scope' s, m'⟩ f → E f) :
    Meets c m (loopBody .scoped fuel scope d) (fun r m' => IsResult m.store m'.store r) E := by
  obtain ⟨d1, hd1, hcode1⟩ := hd.field hm.base "statements" rfl
  obtain ⟨ds, hds, hstmts⟩ := items_of_block (m := m) hcode1
  have hbranch := meets_branch hexec hm hs (Nat.le_refl _) hstmts fun s scope' m' f hreached =>
    hE d1 ds s scope' m' f hd1 hds hreached
  exact .step hd1 (.step hds (hbranch.map fun r m' _ _ hr => hr))

theorem meets_while (heval : EvalMeets c fuel) (hexec : ExecMeets c fuel) (hm : Intact c m)
    (hs : Unshared c m.store (scope :: outer)) :
    Meets c m (exec .scoped (fuel + 1) d scope) (Leaves c outer m)
      (Blames ⟨fuel + 1, .exec scope d, m⟩) := by
  have hform : IsStatement m d .loop := ⟨_, hd.kindOf hm.base, rfl⟩
  have hloop : Meets c m (repeatWhile (loopTest .scoped fuel scope d)
      (loopBody .scoped fuel scope d) fuel) (fun r m' => IsResult m.store m'.store r)
        (Blames ⟨fuel + 1, .exec scope d, m⟩) := by
    refine meets_loop hm (fun m' hrounds hm' hl => ?_) fun m1 m2 hrounds hgo hm2 hl => ?_
    · refine meets_loopTest hd heval hm' (hs.mono hl.size) fun d1 f hd1 => ?_
      exact .inner (.test hform hrounds hd1)
    · refine meets_loopBody hd hexec hm2 (hs.mono hl.size)
        fun d1 statements s scope' m' f hd1 hrow hreached => ?_
      exact .inner (.round hform hrounds hgo hd1 hrow hreached)
  rw [exec_succ]
  refine .step (hd.kindOf hm.base) (hloop.map (g := fun r => (scope, r)) ?_)
  exact fun r m' _ hl hr => ⟨hs.mono hl.size, hr⟩

end

theorem meets_idle (hm : Intact c m) (hs : Unshared c m.store (scope :: outer))
    (hd : c.Code d (.node kind ts)) (hform : statementForm kind = .other) :
    Meets c m (exec .scoped (fuel + 1) d scope) (Leaves c outer m) E := by
  rw [exec_succ]
  refine .step (hd.kindOf hm.base) ?_
  rw [hform]
  exact .pure hm ⟨hs, .inl rfl⟩

theorem execMeets_succ (heval : EvalMeets c fuel) (hexec : ExecMeets c fuel)
    (hcall : CallMeets c fuel) :
    ExecMeets c (fuel + 1) := by
  rintro scope outer m d hm hs ⟨st, hd⟩
  cases st with
  | assign x e =>
    have hform : IsStatement m d .assign := ⟨_, hd.kindOf hm.base, rfl⟩
    have hd1 := hd.text_field hm.base "name" rfl
    obtain ⟨d2, hd2, hcode2⟩ := hd.field hm.base "expression" rfl
    have hassigns : Assigns m d x.text d2 := ⟨hform, ⟨_, hd1, rfl⟩, hd2⟩
    have hvalue := heval.started hm hs ⟨e, hcode2⟩
      (.assigned hform hd1 rfl hd2 (by simp [Dialect.hasObjects]))
    rw [exec_succ]
    refine .step (hd.kindOf hm.base) (.step hd1 (.step rfl (.step hd2 ?_)))
    refine (meets_assign hm hs hvalue fun a m' hx ha hnil => ?_).map fun scope' m' _ _ h =>
      ⟨h, .inl rfl⟩
    exact .here (.nilAssigned hassigns hx ha hnil)
  | choice condition body => exact meets_choice heval hexec hm hs none hd
  | choiceElse condition body other => exact meets_choice heval hexec hm hs (some other) hd
  | loop condition body => exact meets_while hd heval hexec hm hs
  | result e =>
    have hform : IsStatement m d .return := ⟨_, hd.kindOf hm.base, rfl⟩
    obtain ⟨d1, hd1, hcode1⟩ := hd.field hm.base "expression" rfl
    obtain ⟨ref, rfl⟩ := hcode1.eq_node
    have hvalue := heval.started hm hs ⟨e, hcode1⟩ (.result hform hd1 fun h => by cases h)
    rw [exec_succ]
    refine .step (hd.kindOf hm.base) (.step hd1 ?_)
    rw [resultValue_node]
    exact hvalue.bind fun a m1 _ hm1 hl hnew => .pure hm1 ⟨hs.mono hl.size, .inr hnew⟩
  | noResult =>
    obtain ⟨d1, hd1, hcode1⟩ := hd.field hm.base "expression" rfl
    cases hcode1
    rw [exec_succ]
    refine .step (hd.kindOf hm.base) (.step hd1 ?_)
    exact (meets_make hm .nil).map (g := fun r => (scope, r)) fun _ _ _ hl h =>
      ⟨hs.mono hl.size, .inr h.1⟩
  | expr e =>
    cases e with
    | call f args =>
      have hform : IsStatement m d .call := ⟨_, hd.kindOf hm.base, rfl⟩
      have hd1 := hd.text_field hm.base "name" rfl
      obtain ⟨ds, hds, hargs⟩ := hd.list_field "args" rfl
      have hd2 := hargs hm.base
      have hvalue := hcall.started hm hs (isExpr_of_args hds) (.perform hform hd1 hd2)
      rw [exec_succ]
      refine .step (hd.kindOf hm.base) (.step hd1 (.step hd2 ?_))
      exact hvalue.map (g := fun r => (scope, r)) fun _ _ _ hl hr => ⟨hs.mono hl.size, hr⟩
    | unary op e => exact meets_idle hm hs hd (Stacked.statementForm_unary op)
    | binary op left right => exact meets_idle hm hs hd (Stacked.statementForm_binary op)
    | _ => exact meets_idle hm hs hd rfl

/-! ## All together -/

theorem meets_all (c : Setting) (fuel : Nat) :
    EvalMeets c fuel ∧ ExecMeets c fuel ∧ CallMeets c fuel := by
  induction fuel with
  | zero =>
    refine ⟨fun hm _ _ => ?_, fun hm _ _ => ?_, fun hm _ _ => ?_⟩
    all_goals exact meets_outOfFuel hm
  | succ fuel ih =>
    obtain ⟨heval, hexec, hcall⟩ := ih
    exact ⟨evalMeets_succ heval hcall, execMeets_succ heval hexec hcall, callMeets_succ heval hexec⟩

end LangKit.Script
