import LangKit.Proofs.Execution.Activities
import LangKit.Proofs.Store.Sharing

/-!
# Evaluators, form by form

What an expression or a statement of a given form does. Each form has an equation of its own, which
later proofs use instead of the whole evaluator.
-/

namespace LangKit.Script

open Run Store

variable {body args d name v node : Datum} {statements ds : List Datum} {ev : Datum → Run Datum}

variable {dialect : Dialect} {fuel : Nat} {byRef : Bool} {scope : Scope} {m : Machine}

/-! ## Expressions -/

theorem eval_of_form (h : IsExpression dialect m node form) :
    eval dialect (fuel + 1) byRef scope node m =
      Handling.value.evalForm dialect (eval dialect fuel) (call dialect fuel) scope node
        byRef form m := by
  obtain ⟨kind, hkind, rfl⟩ := h
  rw [eval_succ, bind_of_ok hkind]

theorem eval_literal (form : IsExpression dialect m node .literal) :
    eval dialect (fuel + 1) byRef scope node m = copy node m :=
  eval_of_form form

theorem eval_variable (form : IsExpression dialect m node .variable) :
    eval dialect (fuel + 1) byRef scope node m = variableValue dialect byRef scope node m :=
  eval_of_form form

theorem eval_lambda (form : IsExpression dialect m node .lambda) :
    eval dialect (fuel + 1) byRef scope node m = lambdaValue dialect scope node m :=
  eval_of_form form

theorem eval_binary (form : IsExpression dialect m node (.binary op)) :
    eval dialect (fuel + 1) byRef scope node m = (do
      let a ← eval dialect fuel false scope (← field node "op1")
      let b ← eval dialect fuel false scope (← field node "op2")
      applyBinary dialect op a b) m :=
  eval_of_form form

theorem eval_unary (form : IsExpression dialect m node (.unary op)) :
    eval dialect (fuel + 1) byRef scope node m = (do
      let a ← eval dialect fuel false scope (← field node "op1")
      applyUnary dialect op a) m :=
  eval_of_form form

theorem eval_call (form : IsExpression dialect m node .call) :
    eval dialect (fuel + 1) byRef scope node m = (do
      let name ← field node "name"
      let args ← field node "args"
      callValue (← call dialect fuel scope name args)) m :=
  eval_of_form form

theorem eval_object (form : IsExpression dialect m node .object) :
    eval dialect (fuel + 1) byRef scope node m = (do
      let _ ← field node "name"
      make "obj" [("proto", .null)]) m :=
  eval_of_form form

theorem eval_methodCall (form : IsExpression dialect m node .methodCall) :
    eval dialect (fuel + 1) byRef scope node m = (do
      let _ ← field node "objref"
      let name ← field node "name"
      let args ← field node "args"
      callValue (← call dialect fuel scope name args)) m :=
  eval_of_form form

theorem eval_unknown (form : IsExpression dialect m node .unknown) :
    eval dialect (fuel + 1) byRef scope node m =
      (do report .name ("Unknown expression " ++ (← textOf node)) : Run Datum) m :=
  eval_of_form form

/-! ## Statements -/

/-- Carries out a block in a scope, and forgets the names that it has bound. -/
def carryOut (dialect : Dialect) (fuel : Nat) (scope : Scope) (body : Datum) :
    Run (Scope × Datum) := do
  let r ← block (exec dialect fuel) (← items body) scope
  return (scope, r.2)

def carryOutElse (dialect : Dialect) (fuel : Nat) (scope : Scope) (body : Datum) :
    Run (Scope × Datum) :=
  Handling.carryOutElse (exec dialect fuel) scope scope body

theorem carryOutElse_of_items (h : items body m = (.ok statements, m')) :
    carryOutElse dialect fuel scope body = carryOut dialect fuel scope body := by
  cases body with
  | null => cases h
  | _ => rfl

theorem exec_of_form (h : IsStatement m node form) :
    exec dialect (fuel + 1) node scope m = Handling.value.execForm dialect (eval dialect fuel)
      (exec dialect fuel) (call dialect fuel) scope node fuel form m := by
  obtain ⟨kind, hkind, rfl⟩ := h
  rw [exec_succ, bind_of_ok hkind]

theorem exec_assign (form : IsStatement m node .assign) :
    exec dialect (fuel + 1) node scope m = (do
      let name ← nameText (← field node "name")
      let right ← field node "expression"
      let scope' ← assign dialect scope name (eval dialect fuel false scope right)
      return (scope', Datum.null)) m :=
  exec_of_form form

theorem exec_choice (form : IsStatement m node .choice) :
    exec dialect (fuel + 1) node scope m = (do
      let value ← eval dialect fuel false scope (← field node "condition")
      if ← conditionTruth dialect "if" value then
        carryOut dialect fuel scope (← field node "statements")
      else carryOutElse dialect fuel scope (← field node "else_statements")) m :=
  exec_of_form form

theorem exec_loop (form : IsStatement m node .loop) :
    exec dialect (fuel + 1) node scope m = (do
      let result ← repeatWhile (loopTest dialect fuel scope node)
        (loopBody dialect fuel scope node) fuel
      return (scope, result)) m :=
  exec_of_form form

/-- What a statement gives that ends the function: nil, or the value of an expression. -/
def resultValue (dialect : Dialect) (fuel : Nat) (scope : Scope) (right : Datum) : Run Datum :=
  Handling.resultValue dialect (eval dialect fuel) scope right

theorem resultValue_node (ref : Nat) :
    Handling.resultValue .scoped (eval .scoped fuel) scope (.node ref) = eval .scoped fuel false
      scope (.node ref) :=
  bind_pure _

theorem exec_return (form : IsStatement m node .return) :
    exec dialect (fuel + 1) node scope m = (do
      let result ← resultValue dialect fuel scope (← field node "expression")
      return (scope, result)) m :=
  exec_of_form form

theorem exec_call (form : IsStatement m node .call) :
    exec dialect (fuel + 1) node scope m = (do
      let name ← field node "name"
      let args ← field node "args"
      return (scope, ← call dialect fuel scope name args)) m :=
  exec_of_form form

theorem exec_other (form : IsStatement m node .other) :
    exec dialect (fuel + 1) node scope m = (.ok (scope, .null), m) :=
  exec_of_form form

/-! ## Calls -/

theorem callBuiltin_reads (h : builtin ≠ .print) :
    ∃ title, callBuiltin ev scope args builtin = (do
      promptWith title ev args
      readInput builtin) := by
  cases builtin with
  | readInt => exact ⟨"inputi", rfl⟩
  | readText => exact ⟨"inputs", rfl⟩
  | print => exact absurd rfl h

theorem items_elsewhere (h : items d m = (.ok ds, m)) (m1 : Machine) :
    items d m1 = (.ok ds, m1) := by
  cases d with
  | list | tuple | text | mapping =>
    obtain ⟨rfl, -⟩ := pure_eq_ok.1 h
    rfl
  | _ => cases h

theorem size_of_items (h : items d m = (.ok ds, m)) : size d m = (.ok ds.length, m) := by
  cases d with
  | list xs | tuple xs =>
    obtain ⟨rfl, -⟩ := pure_eq_ok.1 h
    rfl
  | text s =>
    obtain ⟨rfl, -⟩ := pure_eq_ok.1 h
    rw [List.length_map, String.length_toList]
    rfl
  | mapping es =>
    obtain ⟨rfl, -⟩ := pure_eq_ok.1 h
    rw [List.length_map]
    rfl
  | _ => cases h

theorem promptWith_single (title : String) (h : items args m = (.ok [arg], m)) :
    promptWith title ev args m = (do output (← contents (← ev arg)) : Run Unit) m := by
  rw [promptWith, bind_of_ok (size_of_items h)]
  change ((do
    let arg := (← items args).headD .null
    output (← contents (← ev arg))) : Run Unit) m = _
  rw [bind_of_ok h]
  rfl

/-! ## The node of a bound name -/

section

variable {r q : Nat}

theorem bound_eq (h : Assoc.get? x scope = some v) : bound scope x = pure v := by
  rw [bound, h]

theorem overwrite_step (hr : r < m.store.size) :
    overwrite dialect (pure (.node r)) (.node q) m = (do
      if dialect.hasClosures && m.store.kind q == "func" then shareTable (.node r) (.node q)
      else
        let new ← contents (.node q)
        setField (.node r) "val" new : Run Unit)
      { m with store := m.store.setKind r (m.store.kind q) } := by
  have hkind : (m.store.setKind r (m.store.kind q)).kind r = m.store.kind q := kind_setKind_self hr
  change (do
      if dialect.hasClosures && (m.store.setKind r (m.store.kind q)).kind r == "func" then
        shareTable (.node r) (.node q)
      else
        let new ← contents (.node q)
        setField (.node r) "val" new : Run Unit)
      { m with store := m.store.setKind r (m.store.kind q) } = _
  rw [hkind]

theorem overwrite_func (hc : dialect.hasClosures = true) (hr : r < m.store.size)
    (hk : m.store.kind q = "func") :
    overwrite dialect (pure (.node r)) (.node q) m =
      (.ok (), { m with store := (m.store.setKind r "func").shareTable r q }) := by
  rw [overwrite_step hr, hk, hc]
  rfl

theorem overwrite_contents (hr : r < m.store.size)
    (hk : (dialect.hasClosures && m.store.kind q == "func") = false)
    (hd : m.store.field? q "val" = some d) :
    overwrite dialect (pure (.node r)) (.node q) m =
      (.ok (), { m with store := (m.store.setKind r (m.store.kind q)).setField r "val" d }) := by
  have hfield : (m.store.setKind r (m.store.kind q)).field? q "val" = some d := by
    rw [Store.field?, fields_setKind]
    exact hd
  have hcontents : contents (.node q) { m with store := m.store.setKind r (m.store.kind q) } =
      (.ok d, { m with store := m.store.setKind r (m.store.kind q) }) := field_apply hfield
  rw [overwrite_step hr, hk]
  simp only [Bool.false_eq_true, if_false]
  rw [bind_of_ok hcontents]
  rfl

theorem overwrite_empty (hr : r < m.store.size)
    (hk : (dialect.hasClosures && m.store.kind q == "func") = false)
    (hd : m.store.field? q "val" = none) :
    overwrite dialect (pure (.node r)) (.node q) m =
      (.error (.fault (Fault.missingField "val")),
        { m with store := m.store.setKind r (m.store.kind q) }) := by
  have hcontents : contents (.node q) { m with store := m.store.setKind r (m.store.kind q) } =
      (.error (.fault (Fault.missingField "val")),
        { m with store := m.store.setKind r (m.store.kind q) }) := by
    have hfield : (m.store.setKind r (m.store.kind q)).field? q "val" = none := by
      rw [Store.field?, fields_setKind]
      exact hd
    rw [contents, field_node]
    simp only [hfield]
    rfl
  rw [overwrite_step hr, hk]
  simp only [Bool.false_eq_true, if_false]
  rw [bind_apply, hcontents]

end

end LangKit.Script
