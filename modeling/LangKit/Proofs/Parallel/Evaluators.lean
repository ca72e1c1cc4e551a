import LangKit.Proofs.Parallel.Rows

/-!
# Expressions, statements and calls in two runs

The evaluators go in step, by induction on the fuel: `matches_all`. Each form of an expression or a
statement reads the fields that its node has, so that a field is missing only at the mishaps that
are named.
-/

namespace LangKit.Script.Parallel

open Run Store
open Closures (valueKinds madeKinds)

variable {op : BinaryOp} {f x kind : String} {body body' : Datum} {m1' : Machine}

set_option synthInstance.maxSize 1000000

variable {g : Region} {b : Bridge g}
  {B : Blame} {m m' m1 : Machine} {dialect : Dialect} {fuel : Nat} {scope scope' : Scope}
  {node node' args args' : Datum}

section

variable (b) (dialect fuel)

/-- Expressions go in step. A variable that has been evaluated can be passed by reference then. -/
def EvalMatches : Prop :=
  ∀ {m m' : Machine} {scope scope' : Scope} {node node' : Datum} (byRef : Bool), Joined b m m' →
    Scopes b m.store scope scope' → Pair b m.store node node' →
    (byRef = true → Settled dialect m.store scope node) →
    Matches b (blame dialect ⟨fuel, .eval byRef scope node, m⟩) m m'
      (eval dialect fuel byRef scope node) (eval dialect fuel byRef scope' node')
      fun v v' m1 => Values b m1.store v v' ∧ Settled dialect m1.store scope node

def ExecMatches : Prop :=
  ∀ {m m' : Machine} {scope scope' : Scope} {node node' : Datum}, Joined b m m' →
    Scopes b m.store scope scope' → Pair b m.store node node' →
    Matches b (blame dialect ⟨fuel, .exec scope node, m⟩) m m' (exec dialect fuel node scope)
      (exec dialect fuel node' scope') (After (Ends b))

def CallMatches : Prop :=
  ∀ {m m' : Machine} {scope scope' : Scope} {args args' : Datum} (x : String), Joined b m m' →
    Scopes b m.store scope scope' → Pair b m.store args args' → Shown args →
    Matches b (blame dialect ⟨fuel, .call scope (.text x) args, m⟩) m m'
      (call dialect fuel scope (.text x) args) (call dialect fuel scope' (.text x) args')
      (After (Results b))

end

/-- The value of an expression that is not passed by reference, as a part of something else. -/
theorem EvalMatches.value (heval : EvalMatches b dialect fuel) (h : Joined b m m')
    (hs : Scopes b m.store scope scope') (hn : Pair b m.store node node')
    (hstarts : Starts dialect a ⟨fuel, .eval false scope node, m⟩) :
    Matches b (blame dialect a) m m' (eval dialect fuel false scope node)
      (eval dialect fuel false scope' node') (After (Values b)) := by
  have hvalue := heval false h hs hn fun hfalse => by cases hfalse
  exact (hvalue.mono fun _ _ _ _ hq => hq.1).blame (covers_of_starts hstarts)

/-! ## Forms of expressions -/

inductive ExprKind (dialect : Dialect) (kind : String) : ExprForm → Prop
  | literal (made : kind ∈ madeKinds) : ExprKind dialect kind .literal
  | var (var : kind = "var") : ExprKind dialect kind .variable
  | lambda (lambda : kind = "lambda") (closures : dialect.hasClosures = true) :
      ExprKind dialect kind .lambda
  | binary {op : BinaryOp} (sign : BinaryOp.ofKind? kind = some op) :
      ExprKind dialect kind (.binary op)
  | unary {op : UnaryOp} (other : BinaryOp.ofKind? kind = none)
      (sign : UnaryOp.ofKind? kind = some op) :
      ExprKind dialect kind (.unary op)
  | call (fcall : kind = "fcall") : ExprKind dialect kind .call
  | object (fresh : kind = "@") (objects : dialect.hasObjects = true) :
      ExprKind dialect kind .object
  | methodCall (mcall : kind = "mcall") : ExprKind dialect kind .methodCall
  | unknown (other : kind ≠ "var") : ExprKind dialect kind .unknown

theorem exprKind (dialect : Dialect) (kind : String) :
    ExprKind dialect kind (dialect.exprForm kind) := by
  unfold Dialect.exprForm
  split
  · rename_i hliteral
    simp only [List.contains_eq_mem, decide_eq_true_eq, List.mem_cons, List.not_mem_nil,
      or_false] at hliteral
    refine .literal ?_
    rcases hliteral with rfl | rfl | rfl | rfl <;> decide
  split
  · exact .var (eq_of_beq ‹_›)
  rename_i hvar
  have hvar : kind ≠ "var" := fun heq => hvar (beq_iff_eq.2 heq)
  split
  · rename_i hlambda
    rw [Bool.and_eq_true] at hlambda
    exact .lambda (eq_of_beq hlambda.1) hlambda.2
  split
  · exact .binary ‹_›
  · exact .unary ‹_› ‹_›
  split
  · exact .call (eq_of_beq ‹_›)
  split
  · rename_i hobject
    rw [Bool.and_eq_true] at hobject
    exact .object (eq_of_beq hobject.1) hobject.2
  split
  · rename_i hmethod
    rw [Bool.and_eq_true] at hmethod
    exact .methodCall (eq_of_beq hmethod.1)
  · exact .unknown hvar

theorem binary_notMem_valueKinds (h : BinaryOp.ofKind? kind = some op) : kind ∉ valueKinds := by
  have hnone : ∀ k ∈ valueKinds, BinaryOp.ofKind? k = none := by decide
  intro hk
  cases (hnone kind hk).symm.trans h

theorem unary_notMem_valueKinds {op : UnaryOp} (h : UnaryOp.ofKind? kind = some op) :
    kind ∉ valueKinds := by
  have hnone : ∀ k ∈ valueKinds, UnaryOp.ofKind? k = none := by decide
  intro hk
  cases (hnone kind hk).symm.trans h

theorem required_binary (h : BinaryOp.ofKind? kind = some op) : required kind = ["op1", "op2"] := by
  simp only [required, h, Option.isSome_some, if_true]

theorem required_unary {op : UnaryOp} (hnone : BinaryOp.ofKind? kind = none)
    (h : UnaryOp.ofKind? kind = some op) : required kind = ["op1"] := by
  simp only [required, hnone, h, Option.isSome_some, Option.isSome_none, Bool.false_eq_true,
    if_true, if_false]

theorem settled_of_kind (h : s.kind r ≠ "var") :
    Settled dialect s scope (.node r) := by
  rintro - q x heq hk -
  obtain rfl := Datum.node.inj heq
  exact absurd hk h

theorem field_missing (h : Assoc.get? f (m.store.fields r) = none) :
    field (.node r) f m = (.error (.fault (Fault.missingField f)), m) := by
  rw [field_node, Store.field?, h, Option.elim_none]

theorem matches_callValue (h : Joined b m m') (hr : Results b m.store d d') :
    Matches b B m m' (callValue d) (callValue d') (After (Values b)) := by
  cases hr with
  | none => exact matches_makeNil h
  | some values =>
    obtain ⟨r, r', rfl, rfl, -⟩ := values.exists_node
    exact .pure h values

theorem evalMatches_succ (hg : g.closures = dialect.hasClosures)
    (heval : EvalMatches b dialect fuel) (hcall : CallMatches b dialect fuel) :
    EvalMatches b dialect (fuel + 1) := by
  intro m m' scope scope' node node' byRef h hs hn hsettled
  rcases kindOf_cases h hn with ⟨e, he, he', hread⟩ | ⟨r, rfl, hr, hkind, hkind'⟩
  · exact matches_of_error h (eval_of_kindOf_error he) (eval_of_kindOf_error he')
      fun hr => absurd hr hread
  have hform : IsExpression dialect m (.node r) (dialect.exprForm (m.store.kind r)) :=
    ⟨_, hkind, rfl⟩
  have hform' : IsExpression dialect m' node' (dialect.exprForm (m.store.kind r)) :=
    ⟨_, hkind', rfl⟩
  have hforms := exprKind dialect (m.store.kind r)
  -- All forms but variables give a value that is passed as it is.
  have hother : ∀ {B : Blame} {x y : Run Datum}, m.store.kind r ≠ "var" →
      Matches b B m m' x y (After (Values b)) →
      Matches b B m m' x y
        (fun v v' m1 => Values b m1.store v v' ∧ Settled dialect m1.store scope (.node r)) :=
    fun hne hmatch => hmatch.mono fun _ _ _ ho hv =>
      ⟨hv, (settled_of_kind hne).later hn.known ho.later⟩
  generalize dialect.exprForm (m.store.kind r) = form at hform hform' hforms
  have hcode : ∀ {kind : String}, m.store.kind r = kind → kind ∉ valueKinds →
      CodePair b m.store kind (.node r) node' := fun hk hv => ⟨hn, r, rfl, hr, hk, hv⟩
  cases hforms with
  | literal made =>
    refine hother (fun heq => absurd (heq ▸ made) (by decide))
      (.congr ?_ (eval_literal hform) (eval_literal hform'))
    have hladen : Laden m.store r := laden_of_ne (ne_lambda_of_loose (mem_looseKinds_of_made made))
    have hvalue : Values b m.store (.node r) node' :=
      ⟨⟨r, rfl, hr, mem_kinds_of_made made, hladen⟩, hn.like⟩
    exact (matches_copy h hvalue).mono fun _ _ _ _ hq => hq.1
  | var var =>
    refine .congr ?_ (eval_variable hform) (eval_variable hform')
    have hvar : ∀ q, Datum.node r = .node q → m.store.kind q = "var" := by
      rintro q heq
      rw [← Datum.node.inj heq, var]
    exact matches_variableValue hg h hs hn hvar hsettled
  | lambda lambda closures =>
    refine hother (fun heq => absurd (heq.symm.trans lambda) (by decide))
      (.congr ?_ (eval_lambda hform) (eval_lambda hform'))
    exact matches_lambdaValue (hg.trans closures) h hs hn rfl lambda
  | @binary op sign =>
    have hn := hcode rfl (binary_notMem_valueKinds sign)
    have hf := required_binary sign
    refine hother (fun heq => by rw [heq] at sign; cases sign)
      (.congr ?_ (eval_binary hform) (eval_binary hform'))
    refine .part h hn (by rw [hf]; decide) fun d1 d1' hd1 hpair1 => ?_
    refine .bind (heval.value h hs hpair1 (.left hform hd1)) fun v v' m1 m1' hv hj ho hvalues => ?_
    refine .part hj (hn.later ho) (by rw [hf]; decide) fun d2 d2' hd2 hpair2 => ?_
    refine .bind (heval.value hj (hs.later ho) hpair2 (.right hform hd1 hv hd2))
      fun u u' m2 m2' _ hj2 ho2 hvalues2 => ?_
    exact matches_applyBinary hg op hj2 (hvalues.later ho2) hvalues2
  | @unary op other sign =>
    have hn := hcode rfl (unary_notMem_valueKinds sign)
    have hf := required_unary other sign
    refine hother (fun heq => by rw [heq] at sign; cases sign)
      (.congr ?_ (eval_unary hform) (eval_unary hform'))
    refine .part h hn (by rw [hf]; decide) fun d1 d1' hd1 hpair1 => ?_
    refine .bind (heval.value h hs hpair1 (.operand hform hd1))
      fun v v' m1 m1' _ hj _ hvalues => ?_
    exact matches_applyUnary op hj hvalues
  | call fcall =>
    refine hother (fun heq => absurd (heq.symm.trans fcall) (by decide))
      (.congr ?_ (eval_call hform) (eval_call hform'))
    refine .invocation h (hcode fcall (by decide)) (by decide)
      fun x args args' hx hargs hpair hshown => ?_
    refine .bind ((hcall x h hs hpair hshown).blame (covers_of_starts (.invoke hform hx hargs)))
      fun d d' m1 m1' _ hj _ hresult => ?_
    exact matches_callValue hj hresult
  | object fresh _ =>
    have hbare := (h.sane.furnished.fit r hr).bare fresh
    have hlike := hn.like
    cases hlike with
    | @node _ r' related =>
      have hbare' := get?_none_of_like (b.fields h.stores hr related) hbare
      have hmissing := field_missing hbare
      have hfail : eval dialect (fuel + 1) byRef scope (.node r) m =
          (.error (.fault (Fault.missingField "name")), m) :=
        (eval_object hform).trans (bind_eq_error.2 (.inl hmissing))
      refine matches_of_error h hfail ?_
        fun _ => .here ⟨.object hform hmissing, bind_eq_error.2 (.inl hfail)⟩
      exact (eval_object hform').trans (bind_eq_error.2 (.inl (field_missing hbare')))
  | methodCall mcall =>
    have hn := hcode mcall (by decide)
    refine hother (fun heq => absurd (heq.symm.trans mcall) (by decide))
      (.congr ?_ (eval_methodCall hform) (eval_methodCall hform'))
    refine .part h hn (by decide) fun o o' ho _ => ?_
    refine .invocation h hn (by decide) fun x args args' hx hargs hpair hshown => ?_
    refine .bind ((hcall x h hs hpair hshown).blame
      (covers_of_starts (.invokeMember hform ho hx hargs))) fun d d' m1 m1' _ hj _ hresult => ?_
    exact matches_callValue hj hresult
  | unknown other =>
    refine .congr ?_ (eval_unknown hform) (eval_unknown hform')
    exact .textOf h (h.text_eq hn) fun t _ => matches_report h _ _

/-! ## Statements -/

inductive StmtKind (kind : String) : StatementForm → Prop
  | assign (sign : kind = "=") : StmtKind kind .assign
  | choice (word : kind = "if") : StmtKind kind .choice
  | loop (word : kind = "while") : StmtKind kind .loop
  | result (word : kind = "return") : StmtKind kind .return
  | call (fcall : kind = "fcall") : StmtKind kind .call
  | other : StmtKind kind .other

theorem stmtKind (kind : String) : StmtKind kind (statementForm kind) := by
  unfold statementForm
  split
  · exact .assign rfl
  · exact .choice rfl
  · exact .loop rfl
  · exact .result rfl
  · exact .call rfl
  · exact .other

section

variable (hexec : ExecMatches b dialect fuel) (h : Joined b m m')
  (hs : Scopes b m.store scope scope') (hbody : Pair b m.store body body')
  (hcovers : ∀ statements s scope1 m1, items body m = (.ok statements, m) →
    Reached (exec dialect fuel) statements scope m s scope1 m1 →
    B.Covers (blame dialect ⟨fuel, .exec scope1 s, m1⟩))

include hexec h hs hbody hcovers

theorem matches_carryOut :
    Matches b B m m' (carryOut dialect fuel scope body) (carryOut dialect fuel scope' body')
      (After (Ends b)) := by
  refine .items h hbody fun ds ds' hds hpairs => ?_
  refine .bind (matches_block h hs hpairs
    fun s s' scope1 scope1' m1 m1' hreached hj _ hscopes hpair => ?_)
      fun r r' m1 m1' _ hj ho hends => .pure hj ⟨hs.later ho, hends.result⟩
  exact (hexec hj hscopes hpair).blame (hcovers ds s scope1 m1 hds hreached)

theorem matches_carryOutElse :
    Matches b B m m' (carryOutElse dialect fuel scope body) (carryOutElse dialect fuel scope' body')
      (After (Ends b)) := by
  have hblock := matches_carryOut hexec h hs hbody hcovers
  have hlike := hbody.like
  cases hlike with
  | null => exact .pure h ⟨hs, .none⟩
  | _ => exact hblock

end

theorem matches_resultValue (heval : EvalMatches b dialect fuel) (h : Joined b m m')
    (hs : Scopes b m.store scope scope')
    {right right' : Datum} (hright : Pair b m.store right right')
    (hcovers : right ≠ .null → B.Covers (blame dialect ⟨fuel, .eval false scope right, m⟩)) :
    Matches b B m m' (resultValue dialect fuel scope right) (resultValue dialect fuel scope' right')
      (After (Values b)) := by
  have hvalue : right ≠ .null → Matches b B m m'
      (do
        let value ← eval dialect fuel false scope right
        if dialect.hasClosures then copy value else pure value)
      (do
        let value ← eval dialect fuel false scope' right'
        if dialect.hasClosures then copy value else pure value)
      (After (Values b)) := by
    intro hne
    have hright := (heval false h hs hright fun hfalse => by cases hfalse).blame (hcovers hne)
    refine .bind hright fun v v' m1 m1' _ hj _ hv => ?_
    refine matches_ite (fun _ => ?_) fun _ => .pure hj hv.1
    exact (matches_copy hj hv.1).mono fun _ _ _ _ hq => hq.1
  have hlike := hright.like
  cases hlike with
  | null => exact matches_makeNil h
  | _ => exact hvalue Datum.noConfusion

theorem matches_assign (hg : g.closures = dialect.hasClosures) (h : Joined b m m')
    (hs : Scopes b m.store scope scope') (x : String) {value value' : Run Datum}
    (hvalue : (isBound dialect scope x || !(dialect.hasObjects && isDotted x)) = true →
      Matches b B m m' value value' (After (Values b)))
    (hread : ∀ v m1 m2 e, value m = (.ok v, m1) → m2.store = m1.store → dialect.hasObjects = true →
      isDotted x = true → boundMember scope x m2 = (.error e, m2) → B.reads e m2) :
    Matches b B m m' (assign dialect scope x value) (assign dialect scope' x value')
      (After (Scopes b)) := by
  have hbound : isBound dialect scope' x = isBound dialect scope x := isBound_eq hs x
  by_cases hallowed : isBound dialect scope x || !(dialect.hasObjects && isDotted x)
  · rw [assign_of_allowed hallowed, assign_of_allowed (hbound.symm ▸ hallowed)]
    refine .bind (hvalue hallowed) ?_
    intro v v' m1 m1' hv hj ho hvalues
    exact matches_assignValue hg hj (hs.later ho) hvalues x
      fun e m2 hstore hobjects hdotted hfail _ =>
      hread v m1 m2 e hv hstore hobjects hdotted hfail
  · rw [Bool.or_eq_true, Bool.not_eq_true', not_or, Bool.not_eq_true, Bool.not_eq_false] at hallowed
    simp only [assign, hbound, hallowed.1, hallowed.2, Bool.false_eq_true, if_true, if_false]
    exact matches_report h _ _

theorem execMatches_succ (hg : g.closures = dialect.hasClosures)
    (heval : EvalMatches b dialect fuel) (hexec : ExecMatches b dialect fuel)
    (hcall : CallMatches b dialect fuel) :
    ExecMatches b dialect (fuel + 1) := by
  intro m m' scope scope' node node' h hs hn
  rcases kindOf_cases h hn with ⟨e, he, he', hread⟩ | ⟨r, rfl, hr, hkind, hkind'⟩
  · exact matches_of_error h (exec_of_kindOf_error he) (exec_of_kindOf_error he')
      fun hr => absurd hr hread
  have hform : IsStatement m (.node r) (statementForm (m.store.kind r)) := ⟨_, hkind, rfl⟩
  have hform' : IsStatement m' node' (statementForm (m.store.kind r)) := ⟨_, hkind', rfl⟩
  have hforms := stmtKind (m.store.kind r)
  generalize statementForm (m.store.kind r) = form at hform hform' hforms
  have hcode : ∀ {kind : String}, m.store.kind r = kind → kind ∉ valueKinds →
      CodePair b m.store kind (.node r) node' := fun hk hv => ⟨hn, r, rfl, hr, hk, hv⟩
  cases hforms with
  | assign kind =>
    -- That a member is missing is known here, and that the assignment fails for it is known at the
    -- end.
    let B : Blame := ⟨fun e m1 => (blame dialect ⟨fuel + 1, .exec scope (.node r), m⟩).reads e m1 ∨
      Lacks dialect ⟨fuel + 1, .exec scope (.node r), m⟩,
        (blame dialect ⟨fuel + 1, .exec scope (.node r), m⟩).cut⟩
    suffices hinner : Matches b B m m' (exec dialect (fuel + 1) (.node r) scope)
        (exec dialect (fuel + 1) node' scope') (After (Ends b)) from
      hinner.because (fun e m1 hfail hcause => hcause.elim id fun hlacks => .here ⟨hlacks, hfail⟩)
        fun _ _ _ hcut => hcut
    refine .congr ?_ (exec_assign hform) (exec_assign hform')
    have hn := hcode kind (by decide)
    refine .name h hn (by decide) fun x hx => .bind_pure ?_
    refine .part h hn (by decide) fun d d' hd hpair => ?_
    have hassign : Matches b B m m' (assign dialect scope x (eval dialect fuel false scope d))
        (assign dialect scope' x (eval dialect fuel false scope' d'))
        (After (Scopes b)) := by
      refine matches_assign hg h hs x (fun hallowed => ?_)
        fun v m1 m2 e hv hkept hobjects hdotted hfail => ?_
      · exact (heval.value h hs hpair (.assigned hform hx rfl hd hallowed)).blame
          ⟨fun _ _ hread => .inl hread, fun _ _ hcut => hcut⟩
      · exact .inr (.member hobjects hform hx hdotted hd hv hkept hfail)
    exact .bind hassign fun sc sc' m1 m1' _ hj _ hscopes => .pure hj ⟨hscopes, .none⟩
  | choice kind =>
    have hn := hcode kind (by decide)
    refine .congr ?_ (exec_choice hform) (exec_choice hform')
    refine .part h hn (by decide) fun d d' hd hpair => ?_
    refine .bind (heval.value h hs hpair (.condition hform hd)) ?_
    intro v v' m1 m1' hv hj ho hvalues
    refine .next (matches_conditionTruth "if" hj hvalues) ?_
    rintro _ go m2 m2' hgo hj2 ho2 rfl
    have ho2 := ho.trans ho2
    refine matches_ite (fun htrue => ?_) fun hfalse => ?_
    · obtain rfl : go = true := htrue
      refine .part hj2 (hn.later ho2) (by decide) fun t t' ht hpair => ?_
      exact matches_carryOut hexec hj2 (hs.later ho2) hpair
        fun statements s scope1 m3 hitems hreached =>
        covers_of_starts (.branch hform hd hv hgo ht hitems hreached)
    · obtain rfl : go = false := Bool.not_eq_true _ ▸ hfalse
      refine .part hj2 (hn.later ho2) (by decide) fun t t' ht hpair => ?_
      exact matches_carryOutElse hexec hj2 (hs.later ho2) hpair
        fun statements s scope1 m3 hitems hreached =>
        covers_of_starts (.branch hform hd hv hgo ht hitems hreached)
  | loop kind =>
    have hn := hcode kind (by decide)
    refine .congr ?_ (exec_loop hform) (exec_loop hform')
    have hloop : Matches b (blame dialect ⟨fuel + 1, .exec scope (.node r), m⟩) m m'
        (repeatWhile (loopTest dialect fuel scope (.node r)) (loopBody dialect fuel scope (.node r))
        fuel) (repeatWhile (loopTest dialect fuel scope' node')
        (loopBody dialect fuel scope' node') fuel) (After (Results b)) := by
      refine matches_repeatWhile h
        (fun m1 m1' hrounds hj ho => ?_) fun m1 m2 m2' hrounds hgo hj ho => ?_
      · refine .part hj (hn.later ho) (by decide) fun d d' hd hpair => ?_
        refine .bind (heval.value hj (hs.later ho) hpair (.test hform hrounds hd))
          fun v v' m2 m2' _ hj2 _ hvalues => ?_
        exact matches_conditionTruth "while" hj2 hvalues
      · refine .part hj (hn.later ho) (by decide) fun d d' hd hpair => ?_
        refine .items hj hpair fun ds ds' hds hpairs => ?_
        refine .bind (matches_block hj (hs.later ho) hpairs
          fun s s' scope1 scope1' m3 m3' hreached hj3 _ hscopes hpair => ?_)
            fun r r' m3 m3' _ hj3 _ hends => .pure hj3 hends.result
        exact (hexec hj3 hscopes hpair).blame
          (covers_of_starts (.round hform hrounds hgo hd hds hreached))
    refine .bind hloop fun d d' m1 m1' _ hj ho hresult => ?_
    exact .pure hj ⟨hs.later ho, hresult⟩
  | result kind =>
    refine .congr ?_ (exec_return hform) (exec_return hform')
    refine .part h (hcode kind (by decide)) (by decide) fun d d' hd hpair => ?_
    refine .bind (matches_resultValue heval h hs hpair
      fun hne => covers_of_starts (.result hform hd hne)) fun v v' m1 m1' _ hj ho hvalues => ?_
    exact .pure hj ⟨hs.later ho, .some hvalues⟩
  | call kind =>
    refine .congr ?_ (exec_call hform) (exec_call hform')
    refine .invocation h (hcode kind (by decide)) (by decide)
      fun x args args' hx hargs hpair hshown => ?_
    refine .bind ((hcall x h hs hpair hshown).blame (covers_of_starts (.perform hform hx hargs)))
      fun d d' m1 m1' _ hj ho hresult => ?_
    exact .pure hj ⟨hs.later ho, hresult⟩
  | other => exact .congr (.pure h ⟨hs, .none⟩) (exec_other hform) (exec_other hform')

/-! ## Calls -/

/-- The arguments of a call have been evaluated, so that they can be passed by reference. -/
def AllSettled (dialect : Dialect) (s : Store) (scope : Scope) (args : Datum) : Prop :=
  ∀ ds m, items args m = (.ok ds, m) → ∀ arg ∈ ds, Settled dialect s scope arg

theorem matches_findCalled (heval : EvalMatches b dialect fuel) (h : Joined b m m')
    (hs : Scopes b m.store scope scope') (hown : Builtin.ofName? (.text x) = none)
    (hargs : Pair b m.store args args') :
    Matches b (blame dialect ⟨fuel + 1, .call scope (.text x) args, m⟩) m m'
      (findCalled dialect fuel scope (.text x) args)
      (findCalled dialect fuel scope' (.text x) args') (fun r r' m1 => Chosen b m1.store r r' ∧
        AllSettled dialect m1.store scope args) := by
  rw [findCalled, findCalled]
  refine .items h hargs fun ds ds' hds hpairs => ?_
  have hvalues : Matches b (blame dialect ⟨fuel + 1, .call scope (.text x) args, m⟩) m m'
      (argValues dialect (argument dialect fuel scope) none 0 ds)
      (argValues dialect (argument dialect fuel scope') none 0 ds')
      (fun vs vs' m1 => ValueRows b m1.store vs vs' ∧
        ∀ arg ∈ ds, Settled dialect m1.store scope arg) := by
    refine matches_argValues h .none hpairs ?_
    intro before arg after arg' values byRef m1 m1' hsplit hbefore hpassed hj ho hpair
    cases hpassed
    have harg := heval false hj (hs.later ho) hpair fun hfalse => by cases hfalse
    exact harg.blame (covers_of_starts (.argument hown (hsplit ▸ hds) hbefore))
  refine .bind hvalues ?_
  rintro vs vs' m1 m1' - hj ho ⟨hrows, hsettled⟩
  refine (matches_chooseCalled hj (hs.later ho) x hrows).mono ?_
  rintro r r' m2 - ⟨hchosen, rfl⟩
  refine ⟨hchosen, fun es m3 hes => ?_⟩
  obtain rfl : ds = es := (ok_inj ((items_elsewhere hds m3).symm.trans hes)).1
  exact hsettled

theorem matches_enterFound (heval : EvalMatches b dialect fuel)
    (hown : Builtin.ofName? (.text x) = none)
    (hfound : findCalled dialect fuel scope (.text x) args m = (.ok r, m1)) (h : Joined b m1 m1')
    (hs : Scopes b m1.store scope scope') (hargs : Pair b m1.store args args')
    (hr : Chosen b m1.store r r') (hsettled : AllSettled dialect m1.store scope args) :
    Matches b (blame dialect ⟨fuel + 1, .call scope (.text x) args, m⟩) m1 m1'
      (enterFound dialect fuel scope (.text x) args r)
      (enterFound dialect fuel scope' (.text x) args' r') (After (Entered b)) := by
  unfold enterFound
  rw [hr.named]
  refine matches_ite (fun hclosures => ?_) fun _ => ?_
  · refine .formals h hr.callable hr.like fun fs fs' hfs hformals hlike => ?_
    refine .items h hargs fun ds ds' hds hpairs => ?_
    have hmodes : Modes b m1.store (some fs) (some fs') :=
      .some ⟨fun d hd => (hformals d hd).known, hlike⟩
    have hvalues : Matches b (blame dialect ⟨fuel + 1, .call scope (.text x) args, m⟩) m1 m1'
        (argValues dialect (argument dialect fuel scope) (some fs) 0 ds)
        (argValues dialect (argument dialect fuel scope') (some fs') 0 ds')
        (fun vs vs' m2 => ValueRows b m2.store vs vs' ∧
          ∀ arg ∈ ds, Settled dialect m2.store scope arg) := by
      refine matches_argValues h hmodes hpairs ?_
      intro before arg after arg' values byRef m2 m2' hsplit hbefore hpassed hj ho hpair
      cases hpassed with
      | @formal _ formal kind meant mode =>
        rw [Nat.zero_add] at meant
        have hmem : arg ∈ ds := hsplit ▸ List.mem_append_right _ List.mem_cons_self
        have harg := heval (kind == "refarg") hj (hs.later ho) hpair fun _ =>
          (hsettled ds m1 hds arg hmem).later (hpairs.known arg hmem) ho.later
        exact harg.blame (covers_of_starts
          (.pass hown hclosures hfound hfs rfl (hsplit ▸ hds) hbefore meant mode))
    refine .bind hvalues ?_
    rintro vs vs' m2 m2' - hj ho ⟨hrows, -⟩
    exact matches_enterBody hj (hs.later ho) x (hr.callable.later ho.later) hr.like r.2.2 hrows
  · exact matches_enterBody h hs x hr.callable hr.like r.2.2 hr.values

theorem matches_enterCall (heval : EvalMatches b dialect fuel) (h : Joined b m m')
    (hs : Scopes b m.store scope scope') (hown : Builtin.ofName? (.text x) = none)
    (hargs : Pair b m.store args args') :
    Matches b (blame dialect ⟨fuel + 1, .call scope (.text x) args, m⟩) m m'
      (enterCall dialect fuel scope (.text x) args) (enterCall dialect fuel scope' (.text x) args')
      (After (Entered b)) := by
  rw [enterCall, enterCall]
  refine .bind (matches_findCalled heval h hs hown hargs) ?_
  rintro r r' m1 m1' hfound hj ho ⟨hchosen, hsettled⟩
  exact matches_enterFound heval hown hfound hj (hs.later ho) (hargs.later ho) hchosen hsettled

theorem matches_runBody (hexec : ExecMatches b dialect fuel)
    (hown : Builtin.ofName? (.text x) = none)
    (hentered : enterCall dialect fuel scope (.text x) args m = (.ok r, m1)) (h : Joined b m1 m1')
    (hr : Entered b m1.store r r') :
    Matches b (blame dialect ⟨fuel + 1, .call scope (.text x) args, m⟩) m1 m1'
      (runBody dialect fuel r) (runBody dialect fuel r') (After (Results b)) := by
  obtain ⟨row, statements, inner⟩ := r
  have hrow : Matches b (blame dialect ⟨fuel + 1, .call scope (.text x) args, m⟩) m1 m1'
      (block (row.step dialect fuel) statements inner)
      (block (r'.1.step dialect fuel) r'.2.1 r'.2.2) (After (Ends b)) := by
    refine matches_block h hr.inner hr.statements ?_
    intro s s' scope1 scope1' m2 m2' hreached hj ho hscopes hpair
    refine matches_step (hr.row.later ho) hj hscopes (fun m3 m3' hsaid hj3 ho3 => ?_) ?_
    · exact (hexec hj3 (hscopes.later ho3) (hpair.later ho3)).blame
        (covers_of_starts (.body hown hentered hreached hsaid))
    · intro outer title m3 scope2 d m4 e m5 hbody hsaid hdone hclosures htrace hfail
      obtain rfl : row = .body outer title := hbody
      exact .here (.trace hclosures hown hentered hreached hsaid hdone htrace hfail)
  exact .bind hrow fun q q' m2 m2' _ hj _ hends => .pure hj hends.result

theorem matches_callBuiltin (heval : EvalMatches b dialect fuel) (h : Joined b m m')
    (hs : Scopes b m.store scope scope') (hknown : Builtin.ofName? (.text x) = some builtin)
    (hargs : Pair b m.store args args') (hshown : Shown args) :
    Matches b (blame dialect ⟨fuel + 1, .call scope (.text x) args, m⟩) m m'
      (callBuiltin (eval dialect fuel false scope) scope args builtin)
      (callBuiltin (eval dialect fuel false scope') scope' args' builtin)
      (After (Results b)) := by
  by_cases hprint : builtin = .print
  · subst hprint
    rw [callBuiltin, callBuiltin]
    refine .next (matches_printHeader h hs hargs hshown) fun _ _ m1 m1' hheader hj ho _ => ?_
    refine .items hj (hargs.later ho) fun ds ds' hds hpairs => ?_
    have hline : Matches b (blame dialect ⟨fuel + 1, .call scope (.text x) args, m⟩) m1 m1'
        (outputLine (eval dialect fuel false scope) ds "")
        (outputLine (eval dialect fuel false scope') ds' "") (fun t t' _ => t' = t) := by
      refine matches_outputLine hj hpairs fun arg arg' m2 m2' hpieced hj2 ho2 hpair => ?_
      obtain ⟨before, after, line, hsplit, hearlier⟩ := hpieced
      exact heval.value hj2 (hs.later (ho.trans ho2)) hpair
        (.piece hknown hheader (hsplit ▸ hds) hearlier)
    refine .bind hline ?_
    rintro _ t m2 m2' - hj2 - rfl
    exact matches_putLine hj2 t
  · have hreads : ∀ ev scope args, callBuiltin ev scope args builtin = (do
        promptWith (if builtin = .readInt then "inputi" else "inputs") ev args
        readInput builtin) := by
      intro ev scope args
      cases builtin with
      | readInt | readText => rfl
      | print => exact absurd rfl hprint
    rw [hreads, hreads]
    have hprompt : ∀ title, Matches b (blame dialect ⟨fuel + 1, .call scope (.text x) args, m⟩) m m'
        (promptWith title (eval dialect fuel false scope) args)
        (promptWith title (eval dialect fuel false scope') args') (fun _ _ _ => True) := by
      intro title
      refine matches_promptWith h hargs title (fun arg arg' hrow hpair => ?_)
        fun arg v z m1 φ hrow hv hz _ hecho hφ => ?_
      · exact (heval.value h hs hpair (.prompt hknown hprint hrow)).mono fun _ _ _ _ hv => .some hv
      · exact .here (.echo hknown hprint hrow hv hz hecho hφ)
    refine .bind (hprompt _) fun _ _ m1 m1' _ hj _ _ => ?_
    exact matches_readInput hj builtin

theorem callMatches_succ (heval : EvalMatches b dialect fuel) (hexec : ExecMatches b dialect fuel) :
    CallMatches b dialect (fuel + 1) := by
  intro m m' scope scope' args args' x h hs hargs hshown
  cases hname : Builtin.ofName? (.text x) with
  | some builtin =>
    rw [call_builtin hname, call_builtin hname]
    exact matches_callBuiltin heval h hs hname hargs hshown
  | none =>
    rw [call_own hname, call_own hname]
    refine .bind (matches_enterCall heval h hs hname hargs) ?_
    exact fun r r' m1 m1' hentered hj _ hr => matches_runBody hexec hname hentered hj hr

/-! ## All together -/

theorem matches_all (b : Bridge g) (hg : g.closures = dialect.hasClosures) (fuel : Nat) :
    EvalMatches b dialect fuel ∧ ExecMatches b dialect fuel ∧ CallMatches b dialect fuel := by
  induction fuel with
  | zero =>
    exact ⟨fun _ h _ _ _ => matches_throw h not_isRead_outOfFuel,
      fun h _ _ => matches_throw h not_isRead_outOfFuel,
        fun _ h _ _ _ => matches_throw h not_isRead_outOfFuel⟩
  | succ fuel ih =>
    obtain ⟨heval, hexec, hcall⟩ := ih
    exact ⟨evalMatches_succ hg heval hcall, execMatches_succ hg heval hexec hcall,
      callMatches_succ heval hexec⟩

end LangKit.Script.Parallel
