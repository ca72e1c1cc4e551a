import LangKit.Proofs.Closures.Capture
import LangKit.Proofs.Execution.Arguments
import LangKit.Proofs.Objects.Lookup

/-!
# Functions as values

Two functions are equal if they are the same node. A function that is read from a variable, assigned
to a new name, passed by reference or taken along by a lambda is still the same node. An argument
that is passed by value and the result of a call are copies, and so is what a lambda has taken along
when the lambda is copied itself. `Flow` follows a function on such ways, and tells whether it has
come through without a copy. A copy is a new node, so it is never the function again, whatever way
it goes from there: a function on its way compares equal to the function that the name stands for if
and only if it has not been copied (`equality_of_flow`).
-/

namespace LangKit.Script.Closures

open Run Objects Parallel
open Store hiding node

inductive TakenAlong (m : Machine) (scope : Scope) (x : String) (r : Nat) : Prop
  | intro (formed : m.store.Formed) (closed : Closed m.store)
      (inside : ∀ e ∈ scope, ∀ q ∈ e.2.refs, q < m.store.size)
      (form : IsExpression .closures m node .lambda)
      (run : eval .closures (fuel + 1) byRef scope node m = (.ok (.node l), m'))
      (free : m'.store.field? l "free_vars" = some (.mapping es)) (taken : (.text x, .node r) ∈ es)
      (func : m'.store.kind r = "func")

/-- A lambda that has taken a node along for a name is copied, and its copy has another node for the
name. -/
inductive CopiedAlong (m : Machine) (x : String) (r r' : Nat) : Prop
  | intro {l l' : Nat} {es es' : List (Datum × Datum)} {m' : Machine} (formed : m.store.Formed)
      (closed : Closed m.store) (free : m.store.field? l "free_vars" = some (.mapping es))
      (taken : (.text x, .node r) ∈ es) (run : copy (.node l) m = (.ok (.node l'), m'))
      (free' : m'.store.field? l' "free_vars" = some (.mapping es'))
      (taken' : (.text x, .node r') ∈ es')

/-- The ways that a function takes from hand to hand. Each step starts from the node that the step
before has led to, and it is told whether this node is still the function and no copy. -/
inductive Flow (f : Nat) : Bool → Nat → Prop
  | self : Flow f true f
  | read (before : Flow f kept r) (form : IsExpression .closures m node .variable)
      (name : field node "name" m = (.ok (.text x), m))
      (held : Assoc.get? x scope = some (.node r)) (func : m.store.kind r = "func")
      (run : eval .closures (fuel + 1) byRef scope node m = (.ok (.node r'), m')) : Flow f kept r'
  | assigned (before : Flow f kept r) (form : Assigns m node x e)
      (new : Assoc.get? x scope = none)
      (value : eval .closures fuel false scope e m = (.ok (.node r), m1))
      (run : exec .closures (fuel + 1) node scope m = (.ok (scope', d), m'))
      (held : Assoc.get? x scope' = some (.node r')) : Flow f kept r'
  | passed (before : Flow f kept r) (mode : passMode formal m = (.ok byRef, m))
      (run : eval .closures fuel byRef scope arg m = (.ok (.node r), m1))
      (func : m1.store.kind r = "func")
      (pass : passedValue .closures byRef (.node r) m1 = (.ok (.node r'), m2)) :
      Flow f (kept && byRef) r'
  | returned (before : Flow f kept r) (form : IsStatement m node .return)
      (right : field node "expression" m = (.ok (.node e), m))
      (value : eval .closures fuel false scope (.node e) m = (.ok (.node r), m1))
      (func : m1.store.kind r = "func")
      (run : exec .closures (fuel + 1) node scope m = (.ok (scope', .node r'), m')) :
      Flow f false r'
  | captured (before : Flow f kept r) (held : Assoc.get? x scope = some (.node r))
      (taken : TakenAlong m scope x r') : Flow f kept r'
  | carried (before : Flow f kept r) (func : m.store.kind r = "func")
      (copied : CopiedAlong m x r r') : Flow f false r'

variable {f r : Nat} {kept : Bool} {m : Machine}

theorem deliver_func (byRef : Bool) (h : m.store.kind r = "func") :
    deliver .closures byRef (.node r) m = (.ok (.node r), m) := by
  cases byRef with
  | true => rfl
  | false =>
    have hkind : kindOf (.node r) m = (.ok "func", m) := congrArg (fun k => (Except.ok k, m)) h
    exact bind_of_ok hkind

theorem CopiedAlong.le (h : CopiedAlong m x r r') : m.store.size ≤ r' := by
  obtain @⟨l, _, _, _, _, formed, closed, free, -, run, free', taken'⟩ := h
  obtain ⟨R, hcopied, hlike⟩ := copied_copy formed (fun ref href => ⟨href, closed ref href⟩)
    (d := .node l) (List.forall_mem_singleton.2 (lt_size_of_field? free))
  obtain rfl := Datum.node.inj (eq_of_copy run)
  obtain ⟨-, rfl⟩ := Prod.mk.inj run
  rw [fst_copy_node] at hlike
  cases hlike with
  | node hR =>
    rcases (hcopied.fields _ _ hR).get? "free_vars" with ⟨-, hnone⟩ | ⟨d, d', -, hd', hlike⟩
    · cases hnone.symm.trans free'
    · obtain rfl := Option.some.inj (hd'.symm.trans free')
      cases hlike with
      | mapping entries =>
        obtain ⟨e, -, hlike⟩ := LikeEntries.mem entries _ taken'
        cases he : e.2 <;> rw [he] at hlike <;> cases hlike
        rename_i hR'
        exact (hcopied.fresh _ _ hR').1

theorem TakenAlong.eq {scope : Scope} (h : TakenAlong m scope x r')
    (held : Assoc.get? x scope = some (.node r)) : r' = r := by
  obtain @⟨_, _, _, node, _, _, formed, closed, inside, form, run, free, taken, func⟩ := h
  rw [eval_lambda form] at run
  obtain ⟨kind, hkind, hform⟩ := form
  obtain ⟨n, rfl, hnode⟩ := exists_node_of_kindOf hkind
  have hn : n < m.store.size := by
    refine lt_size_of_kind hnode ?_
    rintro rfl
    exact absurd hform (by decide)
  obtain ⟨-, -, formals, copies, s, free', -, -, -, hcopies, hfree, hl, rfl⟩ :=
    lambdaValue_eq_ok run
  obtain rfl := Datum.node.inj hl
  obtain ⟨R, hcopied, hlike⟩ :=
    copied_copyFields formed (fun ref href => ⟨href, closed ref href⟩) inside
  rw [hcopies] at hcopied hlike
  have hclosed : ∀ ref, ref < m.store.size →
      ref < s.size ∧ ∀ e ∈ s.fields ref, ∀ q ∈ e.2.refs, q < m.store.size := by
    intro ref href
    refine ⟨Nat.lt_of_lt_of_le href hcopied.grown.size, ?_⟩
    rw [show s.fields ref = m.store.fields ref from congrArg Prod.snd
      (hcopied.grown.node formed href)]
    exact closed ref href
  obtain ⟨R', hcopied', hlike'⟩ :=
    copied_copy hcopied.formed hclosed (d := .node n) (List.forall_mem_singleton.2 hn)
  rw [fst_copy_node] at hlike'
  cases hlike' with
  | node hR =>
    have hget : ((s.copy (.node n)).2.setField s.size "free_vars" (.mapping free')).field?
        s.size "free_vars" = some (.mapping free') := by
      rw [Store.field?, fields_setField hcopied'.formed (hcopied'.fresh _ _ hR).2, if_pos rfl,
        Assoc.get?_put_self]
    obtain rfl := Datum.mapping.inj (Option.some.inj (hget.symm.trans free))
    obtain ⟨y, q, hname, hq, hv⟩ := captured_eq_ok hfree taken
    obtain rfl := Datum.text.inj hname
    split at hv
    · cases hv
    split at hv
    · rw [Assoc.getD, held] at hv
      exact Datum.node.inj hv
    · -- The copy of a value of another kind is no function.
      rename_i hshared
      obtain rfl := Datum.node.inj hv
      obtain ⟨e, -, hlike⟩ := Parallel.LikeFields.mem hlike _ hq
      cases he : e.2 <;> rw [he] at hlike <;> cases hlike
      rename_i hR'
      rw [kind_setField, hcopied'.grown.kind_eq (hcopied.fresh _ _ hR').2] at func
      exact absurd (by rw [func]; decide) hshared

/-- A function that has not been copied is the same node, and a copy of it is a node that came
later. -/
theorem Flow.node (h : Flow f kept r) : if kept then r = f else f < r := by
  have hcopy : ∀ {r r' : Nat} {kept : Bool} {m m' : Machine}, (if kept then r = f else f < r) →
      m.store.kind r = "func" → copy (.node r) m = (.ok (.node r'), m') → f < r' := by
    intro r r' kept m m' hr hfunc hrun
    have hlt : r < m.store.size := lt_size_of_kind hfunc (by decide)
    rw [Datum.node.inj (eq_of_copy hrun)]
    cases kept with
    | true => exact hr ▸ hlt
    | false => exact Nat.lt_trans hr hlt
  induction h with
  | self => rfl
  | read before form name held func run ih =>
    rw [eval_variable form, variableValue_eq, bind_of_ok (field?_of_field name),
      Option.getD_some, namedValue, Scope.value?, held] at run
    obtain rfl := Datum.node.inj (ok_inj ((deliver_func _ func).symm.trans run)).1
    exact ih
  | @assigned _ _ _ _ x _ scope _ _ _ _ _ _ before form new value run held ih =>
    have hunbound : isBound .closures scope x = false := by
      simp [isBound, Assoc.has, new, Dialect.hasObjects]
    rw [form.exec_eq, assign_of_unbound rfl hunbound] at run
    obtain ⟨scope1, m1, hassign, h⟩ := bind_eq_ok.1 run
    rw [bind_of_ok value] at hassign
    obtain ⟨rfl, rfl⟩ := pure_eq_ok.1 hassign
    obtain ⟨rfl, -⟩ := Prod.mk.inj (pure_eq_ok.1 h).1
    rw [Assoc.get?_put_self] at held
    obtain rfl := Datum.node.inj (Option.some.inj held)
    exact ih
  | @passed kept _ _ _ byRef _ _ _ _ _ _ before mode run func pass ih =>
    cases byRef with
    | true =>
      obtain ⟨hr, -⟩ := pure_eq_ok.1 pass
      obtain rfl := Datum.node.inj hr
      rwa [Bool.and_true]
    | false =>
      rw [Bool.and_false]
      exact hcopy ih func pass
  | returned before form right value func run ih =>
    rw [exec_return form, bind_of_ok right] at run
    obtain ⟨v, m2, hv, h⟩ := bind_eq_ok.1 run
    obtain ⟨rfl, rfl⟩ := Prod.mk.inj (pure_eq_ok.1 h).1
    have hresult : (eval .closures _ false _ _ >>= copy) _ = _ := hv
    rw [bind_of_ok value] at hresult
    exact hcopy ih func hresult
  | captured before held taken ih => rwa [taken.eq held]
  | @carried kept r m _ _ before func copied ih =>
    have hlt : r < m.store.size := lt_size_of_kind func (by decide)
    have hle := copied.le
    cases kept with
    | true => exact Nat.lt_of_lt_of_le (ih ▸ hlt) hle
    | false => exact Nat.lt_trans ih (Nat.lt_of_lt_of_le hlt hle)

/-- **Equality of functions.** A function has been on its way, through variables, arguments, results
and lambdas, and it is compared with the only function of a name. If it has been passed on without a
copy, it is still the node of this function; if it has been copied, as an argument by value, as a
result or together with a lambda, it is another node, which came later. The two comparisons tell
this: they give true and false in the first case, in this order, and false and true in the
second. -/
theorem equality_of_flow {fuel : Nat} {byRef : Bool} {scope : Scope} {node left right : Datum}
    {x : String} {m1 : Machine} (h : Flow f kept r) (hleft : field node "op1" m = (.ok left, m))
    (hvalue : eval .closures (fuel + 1) false scope left m = (.ok (.node r), m1))
    (hright : field node "op2" m1 = (.ok right, m1))
    (hform : IsExpression .closures m1 right .variable)
    (hname : field right "name" m1 = (.ok (.text x), m1)) (hfree : Assoc.get? x scope = none)
    (hnamed : AllNamed m1) (honly : functionNamed x m1 = (.ok (.node f), m1))
    (hkind : m1.store.kind r = "func") (hfunc : m1.store.kind f = "func") :
    (if kept then r = f else f < r) ∧
    (IsExpression .closures m node (.binary .equal) →
      eval .closures (fuel + 2) byRef scope node m = makeBool kept m1) ∧
    (IsExpression .closures m node (.binary .notEqual) →
      eval .closures (fuel + 2) byRef scope node m = makeBool (!kept) m1) := by
  have hsame : (Datum.node r).same (.node f) = kept := by
    have hnode := h.node
    cases kept with
    | true => simp [Datum.same, show r = f from hnode]
    | false => simpa [Datum.same] using Nat.ne_of_gt hnode
  have hequal : equality .closures (.node r) (.node f) m1 = (.ok kept, m1) := by
    have hr : kindOf (.node r) m1 = (.ok "func", m1) := congrArg (fun k => (Except.ok k, m1)) hkind
    have hf : kindOf (.node f) m1 = (.ok "func", m1) := congrArg (fun k => (Except.ok k, m1)) hfunc
    rw [equality, bind_of_ok hr, bind_of_ok hf, ← hsame]
    rfl
  have hoperand : eval .closures (fuel + 1) false scope right m1 = (.ok (.node f), m1) := by
    rw [eval_variable hform, variableValue_closures hname hfree hnamed, honly]
  have hoperands : ∀ op, IsExpression .closures m node (.binary op) →
      eval .closures (fuel + 2) byRef scope node m = applyBinary .closures op (.node r)
        (.node f) m1 := by
    intro op hop
    rw [eval_binary hop, bind_of_ok hleft, bind_of_ok hvalue, bind_of_ok hright,
      bind_of_ok hoperand]
  refine ⟨h.node, fun hop => ?_, fun hop => ?_⟩
  · rw [hoperands _ hop, applyBinary, bind_of_ok hequal]
  · rw [hoperands _ hop, applyBinary, bind_of_ok hequal]

/-- A function `g`, the variables `v` and `g`, and their comparisons. -/
def comparing : Machine where
  store := ⟨#[⟨"func", 0⟩, ⟨"var", 1⟩, ⟨"var", 2⟩, ⟨"==", 3⟩, ⟨"!=", 4⟩],
    #[[("name", .text "g")], [("name", .text "v")], [("name", .text "g")],
      [("op1", .node 1), ("op2", .node 2)], [("op1", .node 1), ("op2", .node 2)]]⟩
  console := Console.start false false [] ""
  functions := [.node 0]
  globals := []
  contexts := #[]
  reader := .new

/-- The function is passed by value and bound to `v`. -/
theorem equality_of_flow_passed :
    ∃ m, passedValue .closures false (.node 0) comparing = (.ok (.node 5), m) ∧
    Flow 0 (true && false) 5 ∧
    eval .closures 2 false [("v", .node 5)] (.node 3) m = makeBool false m ∧
    eval .closures 2 false [("v", .node 5)] (.node 4) m = makeBool true m := by
  have hflow : Flow 0 (true && false) 5 :=
    .passed .self (rfl : passMode none comparing = (.ok false, comparing))
      (rfl : eval .closures 1 false [] (.node 2) comparing = (.ok (.node 0), comparing)) rfl rfl
  have hnamed : AllNamed (copy (.node 0) comparing).2 :=
    List.forall_mem_singleton.2 ⟨0, .text "g", rfl, rfl⟩
  refine ⟨_, rfl, hflow, ?_, ?_⟩
  · exact (equality_of_flow hflow rfl rfl rfl ⟨_, rfl, rfl⟩ rfl rfl hnamed rfl rfl rfl).2.1
      ⟨_, rfl, rfl⟩
  · exact (equality_of_flow hflow rfl rfl rfl ⟨_, rfl, rfl⟩ rfl rfl hnamed rfl rfl rfl).2.2
      ⟨_, rfl, rfl⟩

/-- A function that is passed by value is not equal to itself. -/
theorem passed_function_differs :
    (runProgram 1000 (.scoped .closures)
      "func g() \x7b return 1; \x7d func h(p) \x7b print(p == g); \x7d func main() \x7b h(g); \x7d"
      (Machine.start false false [] "")).2.console.log.toList.map (Datum.same (.text "false")) =
        [true] := by
  decide +kernel

end LangKit.Script.Closures
