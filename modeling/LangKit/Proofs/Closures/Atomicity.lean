import LangKit.Proofs.Closures.Readiness

/-!
# Assignments to bound names

An assignment without calls to a name that is bound evaluates its expression, which changes no
variable, and then changes the node of the name in place: first its kind, then its contents. So if
the value has no contents, the assignment stops between the two, and is not undone:
`exec_assign_bound`.
-/

namespace LangKit.Script.Closures

open Run Store Parallel

/-- The variables of a scope have the kinds and the fields that they had. -/
def Unchanged (scope : Scope) (s s' : Store) : Prop :=
  ∀ x ref, Assoc.get? x scope = some (.node ref) → s'.node ref = s.node ref

/-- Reading a name gives the kind and the contents of a node of some store, and the whole table of a
function. -/
def Reads (dialect : Dialect) (scope : Scope) (m : Machine) (x : String) (s : Store) (q : Nat) :
    Prop :=
  ∀ fuel node, IsExpression dialect m node .variable →
    field? node "name" m = (.ok (some (.text x)), m) →
    ∃ w m', eval dialect (fuel + 1) false scope node m = (.ok (.node w), m') ∧
      m'.store.kind w = s.kind q ∧
      m'.store.field? w "val" = s.field? q "val" ∧
      (s.kind q = "func" → m'.store.fields w = s.fields q)

/-- How an assignment of the value in a node to a bound name ends, after its expression has left a
store. -/
inductive Ending (dialect : Dialect) (scope : Scope) (x : String) (r q : Nat) (s : Store) :
    Except Stop (Scope × Datum) × Machine → Prop
  | done {m : Machine} (reads : Reads dialect scope m x s q) :
      Ending dialect scope x r q s (.ok (scope, .null), m)
  | unprinted {m : Machine} {f : Fault} (closures : dialect.hasClosures = true)
      (text : s.textOf (.node q) = .error f) (store : m.store = s) :
      Ending dialect scope x r q s (.error (.fault f), m)
  | halfway {m : Machine} (kind : s.kind q = "nil" ∨ s.kind q = "lambda")
      (empty : s.field? q "val" = none) (store : m.store = s.setKind r (s.kind q)) :
      Ending dialect scope x r q s (.error (.fault (Fault.missingField "val")), m)

variable {g : Region} {dialect : Dialect} {scope : Scope} {m : Machine} {x : String} {r q : Nat}

theorem copy_value (h : Furnished g m.store) (hr : g.Own m.store r) :
    ∃ m', copy (.node r) m = (.ok (.node m.store.size), m') ∧
      m'.store.kind m.store.size = m.store.kind r ∧
      m'.store.field? m.store.size "val" = m.store.field? r "val" := by
  obtain ⟨R, hcopied, hlike⟩ := copied_copy h.formed h.closed (d := .node r) (known_node.2 hr)
  rw [fst_copy_node] at hlike
  cases hlike with
  | node hR =>
    refine ⟨_, congrArg (fun d => (Except.ok d, _))
      (fst_copy_node : (m.store.copy (.node r)).1 = _), hcopied.kind _ _ hR, ?_⟩
    rcases (hcopied.fields _ _ hR).get? "val" with ⟨hnone, hnone'⟩ | ⟨d, d', hd, hd', hsame⟩
    · exact hnone'.trans hnone.symm
    · rw [hsame.eq_of_isAtom ((h.fit r hr).contents d hd)] at hd'
      exact hd'.trans hd.symm

theorem reads_of_bound (h : Furnished g m.store) (hr : g.Own m.store r)
    (hx : Assoc.get? x scope = some (.node r)) (hkind : m.store.kind r = s.kind q)
    (hval : m.store.field? r "val" = s.field? q "val")
    (hfunc : s.kind q = "func" → dialect.sharedKinds.contains "func" = true ∧
      dialect.hasClosures = true ∧
      m.store.fields r = s.fields q) :
    Reads dialect scope m x s q := by
  intro fuel node form hname
  have hread : eval dialect (fuel + 1) false scope node m = deliver dialect false (.node r) m := by
    rw [eval_variable form, variableValue, bind_of_ok hname]
    simp only [Option.getD_some, Scope.value?, hx]
  obtain ⟨m', hcopy, hkind', hval'⟩ := copy_value h hr
  have hcopied : deliver dialect false (.node r) m = copy (.node r) m → s.kind q ≠ "func" →
      ∃ w m', eval dialect (fuel + 1) false scope node m = (.ok (.node w), m') ∧
        m'.store.kind w = s.kind q ∧
        m'.store.field? w "val" = s.field? q "val" ∧
        (s.kind q = "func" → m'.store.fields w = s.fields q) :=
    fun heq hne => ⟨_, m', hread.trans (heq.trans hcopy), hkind'.trans hkind, hval'.trans hval,
      fun hk => absurd hk hne⟩
  cases hc : dialect.hasClosures with
  | false =>
    refine hcopied ?_ fun hk => ?_
    · simp [deliver, hc]
    · exact absurd (hfunc hk).2.1 (by simp [hc])
  | true =>
    have hdeliver : deliver dialect false (.node r) m =
        (if dialect.sharedKinds.contains (m.store.kind r) then pure (.node r) else copy (.node r))
          m := by
      simp only [deliver, hc, Bool.false_eq_true, if_false, if_true]
      exact bind_of_ok rfl
    cases hshared : dialect.sharedKinds.contains (m.store.kind r) with
    | true =>
      rw [hshared, if_pos rfl] at hdeliver
      exact ⟨r, m, hread.trans hdeliver, hkind, hval, fun hk => (hfunc hk).2.2⟩
    | false =>
      rw [hshared, if_neg Bool.false_ne_true] at hdeliver
      refine hcopied hdeliver fun hk => ?_
      rw [hkind, hk, (hfunc hk).1] at hshared
      cases hshared

/-- The value is printed before it is taken over, and that does not change the nodes. -/
theorem shown_cases (dialect : Dialect) {value : Run Datum} (hv : value m = (.ok v, m1)) :
    (dialect.hasClosures = true ∧ ∃ f, m1.store.textOf v = .error f ∧
      shown dialect value m = (.error (.fault f), m1)) ∨
    ∃ console, shown dialect value m = (.ok v, { m1 with console }) := by
  rw [shown, bind_of_ok hv]
  cases hc : dialect.hasClosures with
  | false => exact .inr ⟨m1.console, rfl⟩
  | true =>
    cases ht : m1.store.textOf v with
    | error f => exact .inl ⟨rfl, f, rfl, by simp [bind_apply, Run.textOf, ht]⟩
    | ok t => exact .inr ⟨_, by simp [bind_apply, Run.textOf, ht]; rfl⟩

theorem ending_overwrite (hg : g.closures = dialect.hasClosures) (h : Sane g m)
    (hs : Bound g m.store scope) (hx : Assoc.get? x scope = some (.node r))
    (hq : IsValue g m.store (.node q)) :
    Ending dialect scope x r q m.store ((do
      overwrite dialect (bound scope x) (.node q)
      return (scope, Datum.null)) m) := by
  obtain ⟨_, hr, hown, -⟩ := hs.value hx
  cases hr
  have hdone : ∀ {m'}, overwrite dialect (pure (.node r)) (.node q) m = (.ok (), m') →
    Furnished g m'.store ∧
      g.Own m'.store r := fun heq => by
    obtain ⟨hgoes, -⟩ := Matches.goes (matches_overwrite (B := .none) hg (joined_of_sane h)
      ⟨hs.value hx, .refl _⟩ ⟨hq, .refl _⟩) heq
    exact ⟨hgoes.sane.furnished, hown.mono hgoes.onward.later.size⟩
  obtain ⟨_, hqr, hqown, hkind, -⟩ := hq
  cases hqr
  have hset : (m.store.setKind r (m.store.kind q)).kind r = m.store.kind q :=
    kind_setKind_self hown.2
  rw [bound_eq hx]
  cases hother : dialect.hasClosures && m.store.kind q == "func" with
  | true =>
    obtain ⟨hc, hfunc⟩ := Bool.and_eq_true_iff.1 hother
    have heq := overwrite_func hc hown.2 (eq_of_beq hfunc)
    obtain ⟨hfurnished, hown'⟩ := hdone heq
    have hfields : ((m.store.setKind r "func").shareTable r q).fields r = m.store.fields q := by
      rw [fields_shareTable_self (by rw [size_setKind]; exact hown.2), fields_setKind]
    rw [bind_of_ok heq]
    rw [eq_of_beq hfunc] at hset
    refine .done (reads_of_bound hfurnished hown' hx ?_ ?_ fun _ => ⟨?_, hc, hfields⟩)
    · rw [kind_shareTable, hset, eq_of_beq hfunc]
    · rw [Store.field?, hfields, Store.field?]
    · cases dialect <;> first | rfl | cases hc
  | false =>
    cases hval : m.store.field? q "val" with
    | none =>
      rw [bind_apply, overwrite_empty hown.2 hother hval]
      refine .halfway ?_ hval rfl
      rcases kind_cases hg h.furnished hqown hkind hother with ⟨-, hnil⟩ | ⟨hlambda, -⟩
      · exact .inl (hnil hval)
      · exact .inr hlambda
    | some d =>
      have heq := overwrite_contents hown.2 hother hval
      obtain ⟨hfurnished, hown'⟩ := hdone heq
      rw [bind_of_ok heq]
      refine .done (reads_of_bound hfurnished hown' hx ?_ ?_ fun hfunc => ?_)
      · rw [kind_setField, hset]
      · rw [Store.field?, fields_setField h.furnished.formed.setKind
          (by rw [size_setKind]; exact hown.2), if_pos rfl, Assoc.get?_put_self, hval]
      · rcases kind_cases hg h.furnished hqown hkind hother with ⟨hmade, -⟩ | ⟨hlambda, -⟩
        · exact absurd (hfunc ▸ hmade) (by decide)
        · exact absurd (hfunc.symm.trans hlambda) (by decide)

theorem unchanged_of_growth (h : Sane g m) (hs : Bound g m.store scope) (hgrowth : Growth m m1) :
    Unchanged scope m.store m1.store := by
  intro y ref hy
  obtain ⟨_, href, hown, -⟩ := hs.value hy
  cases href
  exact hgrowth.grown.node h.furnished.formed hown.2

/-- An assignment without calls to a bound name, in a scope of values. If its expression fails, then
so does the assignment, and all variables have the kinds and the fields that they had. If its
expression has a value, then all variables are still unchanged, and either the name has this value
afterwards; or the value cannot be printed, and nothing changes; or it has no contents, as nil and
lambdas do: then the assignment fails, but the variable has the kind of the value. -/
theorem exec_assign_bound {node e : Datum} (fuel : Nat) (plain : dialect.hasObjects = false)
    (region : g.closures = dialect.hasClosures) (sane : Sane g m) (bound : Bound g m.store scope)
    (known : Known g m.store node) (assigns : Assigns m node x e)
    (free : CallFree dialect m.store e) (name : Assoc.get? x scope = some (.node r)) :
    (∀ stop m1, eval dialect fuel false scope e m = (.error stop, m1) →
      exec dialect (fuel + 1) node scope m = (.error stop, m1) ∧ Unchanged scope m.store m1.store) ∧
    (∀ v m1, eval dialect fuel false scope e m = (.ok v, m1) → Unchanged scope m.store m1.store ∧
      ∃ q, v = .node q ∧ Ending dialect scope x r q m1.store
        (exec dialect (fuel + 1) node scope m)) := by
  have hbound : isBound dialect scope x = true := by
    rw [isBound, Assoc.has, name]
    rfl
  have hgrowth : Growth m (eval dialect fuel false scope e m).2 :=
    growth_eval_of_callFree fuel sane.furnished.formed free
  have hexec : exec dialect (fuel + 1) node scope m = _ := assigns.exec_eq
  rw [assign_of_bound plain hbound, bind_assoc] at hexec
  refine ⟨fun stop m1 hv => ?_, fun v m1 hv => ?_⟩
  · rw [hv] at hgrowth
    refine ⟨?_, unchanged_of_growth sane bound hgrowth⟩
    simp only [hexec, shown, bind_apply, hv]
  · rw [hv] at hgrowth
    obtain ⟨heval, -, -⟩ := matches_all (itself g m) region fuel
    have hsettled : Settled dialect m.store scope e := fun hobjects => by simp [plain] at hobjects
    obtain ⟨hgoes, v', hvalues, -⟩ := Matches.goes (heval false (joined_of_sane sane) bound.scopes
      (pair_of_known (known_field sane known assigns.right)) fun _ => hsettled) hv
    obtain ⟨q, rfl, -⟩ := hvalues.value
    refine ⟨unchanged_of_growth sane bound hgrowth, q, rfl, ?_⟩
    rw [hexec]
    rcases shown_cases dialect hv with ⟨hc, f, htext, hshown⟩ | ⟨console, hshown⟩
    · rw [bind_apply, hshown]
      exact .unprinted hc htext rfl
    · have hsane : Sane g { m1 with console } :=
        ⟨hgoes.sane.furnished, hgoes.sane.functions, hgoes.sane.globals⟩
      rw [bind_of_ok hshown, bind_assoc]
      have hbound' : Bound g m1.store scope := bound.later hgoes
      exact ending_overwrite region hsane hbound' name hvalues.value

def emptied : String :=
  "func main() \x7b x = 1; x = nil; print(\"end\"); \x7d"

theorem emptied_assign {dialect : Dialect} (plain : dialect.hasObjects = false) :
    ∃ scope node e m r v m1, Running dialect 1000 emptied (Machine.start false false [] "")
      [⟨1000, .exec scope node, m⟩] ∧
      Assigns m node "x" e ∧ CallFree dialect m.store e ∧ Assoc.get? "x" scope = some (.node r) ∧
      eval dialect 999 false scope e m = (.ok v, m1) ∧ m.store.kind r = "int" ∧
      (exec dialect 1000 node scope m).1.toOption.isNone ∧
      (exec dialect 1000 node scope m).2.store.kind r = "nil" := by
  have hrun : (path? dialect 1000 (enterMain emptied) (Machine.start false false [] "") 1 []).any
    fun a =>
      decide (a.2.length = 0 ∧ a.1.fuel = 1000) && a.1.assigns?.any fun p =>
        (decide (p.2.2.1 = "x" ∧ (kindOf p.2.2.2 a.1.machine).1.toOption = some "nil") &&
          (eval dialect 999 false p.1 p.2.2.2 a.1.machine).1.toOption.isSome) &&
        (Assoc.get? "x" p.1).any fun d => (nodeRef? d).any
          fun r => decide (a.1.machine.store.kind r = "int" ∧
          (exec dialect 1000 p.2.1 p.1 a.1.machine).1.toOption.isNone ∧
          (exec dialect 1000 p.2.1 p.1 a.1.machine).2.store.kind r = "nil") := by
    cases dialect
    case objects => cases plain
    all_goals decide +kernel
  simp only [Option.any_eq_true, Bool.and_eq_true, decide_eq_true_eq,
    Option.isSome_iff_exists] at hrun
  obtain ⟨⟨⟨_, job, m⟩, rest⟩, hpath, ⟨hrest, rfl⟩, ⟨scope, node, _, e⟩, hassigns,
    ⟨⟨rfl, hkind⟩, v, hv⟩, d, hget, r, hr, hbefore, hafter⟩ := hrun
  obtain ⟨m1, hv⟩ := exists_of_toOption hv
  obtain rfl := List.length_eq_zero_iff.1 hrest
  obtain ⟨rfl, assigns⟩ := Activity.assigns_of_assigns? hassigns
  obtain rfl := eq_node_of_nodeRef? hr
  have free : CallFree dialect m.store e :=
    callFree_of_kind ((observes_kindOf e).of_toOption hkind) (by decide)
      (by cases dialect <;> decide)
  exact ⟨scope, node, e, m, r, v, m1, running_of_path? hpath, assigns, free, hget, hv,
    hbefore, hafter⟩

/-- The assignment to `x` fails, although its expression has a value, and has changed `x`. -/
theorem exec_assign_leaves_kind : ∃ scope node e m r v m1,
    Running .scoped 1000 emptied (Machine.start false false [] "") [⟨1000, .exec scope node, m⟩] ∧
      Assigns m node "x" e ∧ CallFree .scoped m.store e ∧ Assoc.get? "x" scope = some (.node r) ∧
      eval .scoped 999 false scope e m = (.ok v, m1) ∧ m.store.kind r = "int" ∧
      (exec .scoped 1000 node scope m).1.toOption.isNone ∧
      (exec .scoped 1000 node scope m).2.store.kind r = "nil" :=
  emptied_assign rfl

theorem exec_assign_bound_emptied : ∃ g scope node e m r v m1 q,
    Sane g m ∧ Bound g m.store scope ∧ Known g m.store node ∧ Assigns m node "x" e ∧
      CallFree .closures m.store e ∧ Assoc.get? "x" scope = some (.node r) ∧
      eval .closures 999 false scope e m = (.ok v, m1) ∧ Unchanged scope m.store m1.store ∧
      v = .node q ∧
      Ending .closures scope "x" r q m1.store (exec .closures 1000 node scope m) := by
  obtain ⟨scope, node, e, m, r, v, m1, running, assigns, free, name, hv, -⟩ :=
    emptied_assign (rfl : Dialect.closures.hasObjects = false)
  obtain ⟨⟨sane, bound, known, -⟩, -⟩ := Running.ready_start running
  obtain ⟨-, hvalue⟩ := exec_assign_bound 999 rfl rfl sane bound known assigns free name
  obtain ⟨unchanged, q, hq, hends⟩ := hvalue v m1 hv
  exact ⟨_, scope, node, e, m, r, v, m1, q, sane, bound, known, assigns, free, name, hv,
    unchanged, hq, hends⟩

end LangKit.Script.Closures
