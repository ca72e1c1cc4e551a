import LangKit.Proofs.Execution.Continuation
import LangKit.Proofs.Extension.Rows

/-!
# Calls side by side

With closures, the arguments of a call are evaluated twice and copied. The first time only their
number counts. In a first-order program they have no calls, so this only adds nodes that nothing
refers to (`Link.repeated`), and the second time goes together with the one time that the scoped run
evaluates them.
-/

namespace LangKit.Script.Extension

open Run Store
open Stacked (Setting Value Held)

variable {values ds statements : List Datum} {m n : Machine} {c : Setting} {R : Pairs}

/-! ## Expressions without calls -/

/-- A step that ends well leaves the console as it is. -/
def KeepsConsole {α : Type} (x : Run α) : Prop :=
  ∀ m a m', x m = (.ok a, m') → m'.console = m.console

instance : InheritsFreely KeepsConsole where
  look hx m a m' h := by rw [hx.eq h]
  bind := by
    intro α β x f hx hf m b m' h
    obtain ⟨a, m1, ha, hb⟩ := bind_eq_ok.1 h
    rw [hf a m1 b m' hb, hx m a m1 ha]
  onStore _ := ⟨fun _ _ _ h => by
    obtain ⟨-, rfl⟩ := Prod.mk.inj h
    rfl⟩
  report _ _ := ⟨fun _ _ _ h => by cases (Prod.mk.inj h).1⟩

theorem Has.console [h : Has KeepsConsole x] {m m' : Machine}
    (hx : x m = (.ok a, m')) : m'.console = m.console :=
  h.holds m a m' hx

section

variable {dialect : Dialect} {scope : Scope} {m' : Machine}

theorem console_eval_of_callFree (fuel : Nat) {node a : Datum} (hm : m.store.Formed)
    (h : CallFree dialect m.store node) (hr : eval dialect fuel byRef scope node m = (.ok a, m')) :
    m'.console = m.console := by
  induction fuel generalizing byRef node m m' a with
  | zero => cases hr
  | succ fuel ih =>
    cases h with
    | @leaf ref form lt kind plain =>
      rw [eval_of_form ⟨_, rfl, kind⟩] at hr
      cases form with
      | literal | «variable» | lambda | object | unknown =>
        rw [Handling.evalForm] at hr
        exact Has.console hr
      | _ => simp at plain
    | @binary ref op d1 d2 lt kind first second left right =>
      rw [eval_binary ⟨_, rfl, kind⟩, bind_of_ok (field_apply first)] at hr
      obtain ⟨x, m1, hx, hr⟩ := bind_eq_ok.1 hr
      have hgrowth : Growth m m1 := by
        have hleft : Growth m (eval dialect fuel false scope d1 m).2 :=
          growth_eval_of_callFree fuel hm left
        rwa [hx] at hleft
      have second' : m1.store.field? ref "op2" = some d2 := by
        rw [hgrowth.grown.field?_eq hm lt, second]
      rw [bind_of_ok (field_apply second')] at hr
      obtain ⟨y, m2, hy, hr⟩ := bind_eq_ok.1 hr
      rw [Has.console hr, ih hgrowth.formed (right.grown hm hgrowth.grown) hy, ih hm left hx]
    | @unary ref op d lt kind first operand =>
      rw [eval_unary ⟨_, rfl, kind⟩, bind_of_ok (field_apply first)] at hr
      obtain ⟨x, m1, hx, hr⟩ := bind_eq_ok.1 hr
      rw [Has.console hr, ih hm operand hx]

theorem growth_argValues_of_callFree {args : List Datum} (hm : m.store.Formed)
    (h : ∀ d ∈ args, CallFree dialect m.store d)
    (hr : argValues dialect (argument dialect fuel scope) none i args m = (.ok values, m')) :
    Growth m m' ∧ m'.console = m.console := by
  induction args generalizing m i values with
  | nil =>
    obtain ⟨-, rfl⟩ := pure_eq_ok.1 hr
    exact ⟨.refl hm, rfl⟩
  | cons arg rest ih =>
    obtain ⟨harg, hrest⟩ := List.forall_mem_cons.1 h
    rw [argValues_cons] at hr
    obtain ⟨v, m1, hv, hr⟩ := bind_eq_ok.1 hr
    obtain ⟨vs, m2, hvs, hr⟩ := bind_eq_ok.1 hr
    obtain ⟨-, rfl⟩ := pure_eq_ok.1 hr
    -- The value of the first argument, and a copy of it with closures.
    obtain ⟨a, m3, ha, hv⟩ := bind_eq_ok.1 hv
    have hgrowth : Growth m m3 := by
      have harg : Growth m (argument dialect fuel scope false arg m).2 :=
        growth_eval_of_callFree fuel hm harg
      rwa [ha] at harg
    have hcopy : Growth m3 m1 := by
      have hcopied : Growth m3
          ((if dialect.hasClosures then copy a else pure a : Run Datum) m3).2 :=
        Has.growth hgrowth.formed
      rwa [hv] at hcopied
    have hfirst := hgrowth.trans hcopy
    obtain ⟨hlater, hconsole⟩ :=
      ih hfirst.formed (fun d hd => (hrest d hd).grown hm hfirst.grown) hvs
    refine ⟨hfirst.trans hlater, ?_⟩
    rw [hconsole, Has.console hv, console_eval_of_callFree fuel hm harg ha]

end

/-! ## Reading the program -/

section

variable {d : Datum}

theorem callFree_of_leaf {kind : String} (hd : c.Code d (.node kind ts))
    (he : Extends c.base n.store)
    (hform : Dialect.closures.exprForm kind ∈ [.literal, .variable, .lambda, .object, .unknown]) :
    CallFree .closures n.store d := by
  cases hd.held he with
  | node lt named => exact .leaf lt rfl (named ▸ hform)

theorem callFree_of_code (e : Ast.Expr) {d : Datum} (hd : c.Code d e.tree) (h : e.isCallFree = true)
    (he : Extends c.base n.store) : CallFree .closures n.store d := by
  match e with
  | .int _ | .bool _ | .nil | .object | .string _ | .var _ =>
    exact callFree_of_leaf hd he (by decide)
  | .unary op e =>
    obtain ⟨d1, hd1, hcode⟩ := hd.field? he "op1" rfl
    cases hd.held he with
    | @node _ ref _ _ lt named _ =>
      have hfield := (ok_inj ((field?_apply ref "op1" n).symm.trans hd1)).1
      exact .unary lt (named ▸ Stacked.exprForm_unary op) hfield (callFree_of_code e hcode h he)
  | .binary op left right =>
    simp only [Ast.Expr.isCallFree, Bool.and_eq_true] at h
    obtain ⟨d1, hd1, hcode1⟩ := hd.field? he "op1" rfl
    obtain ⟨d2, hd2, hcode2⟩ := hd.field? he "op2" rfl
    cases hd.held he with
    | @node _ ref _ _ lt named _ =>
      have hfield1 := (ok_inj ((field?_apply ref "op1" n).symm.trans hd1)).1
      have hfield2 := (ok_inj ((field?_apply ref "op2" n).symm.trans hd2)).1
      exact .binary lt (named ▸ Stacked.exprForm_binary op) hfield1 hfield2
        (callFree_of_code left hcode1 h.1 he) (callFree_of_code right hcode2 h.2 he)
  | .call _ _ | .method _ _ _ | .lambda _ _ => cases h

end

/-! ## Arguments -/

section

variable {n1 : Machine}

/-- The second run may evaluate arguments without calls as often as it likes. -/
theorem Link.repeated (hl : Link c R m n) (hn : Intact c n1) (hg : Growth n n1)
    (hconsole : n1.console = n.console) : Link c R m n1 := by
  have hextends : Extends n.store n1.store :=
    ⟨hn.base.separate, hg.grown.size, fun r hr => hg.grown.node hl.right.base.separate.formed hr⟩
  exact hl.extend hl.left hn (.refl hl.left.base.separate) hextends rfl (hconsole ▸ hl.console)

def CopiesArgument (c : Setting) (ev : Bool → Datum → Run Datum) (formals : Option (List Datum))
    (i : Nat) :
    Prop :=
  ∀ arg n, Extends c.base n.store →
    argValue .closures ev formals i arg n = (ev false arg >>= copy) n

theorem forward_arguments {formals : Option (List Datum)}
    (hl : Link c R m n) (hmode : ∀ j < ds.length, CopiesArgument c ev' formals (i + j))
    (hev : ∀ arg m1, Passed ev i ds m arg m1 → ∀ {R1 n1}, R ≤ R1 → Link c R1 m1 n1 →
      Forward c R1 m1 n1 (ev false arg) (ev' false arg) (NewPair m1.store.size)) :
    Forward c R m n (argValues .scoped ev none i ds) (argValues .closures ev' formals i ds)
      fun R1 values values' => List.Forall₂ (Paired R1) values values' ∧
        values.length = ds.length := by
  induction ds generalizing m n R i with
  | nil => exact .pure hl ⟨.nil, rfl⟩
  | cons arg rest ih =>
    rw [argValues_cons, argValues_cons]
    have hfirst : argValue .scoped ev none i arg = ev false arg := by
      simp [argValue, Dialect.hasClosures]
    have hcopies := hmode 0 (by simp) arg n hl.right.base
    have harg := (hev arg m ⟨[], rest, [], rfl, rfl⟩ (le_refl R) hl).copied hl (Nat.le_refl _)
    rw [hfirst]
    refine (harg.congr rfl hcopies).bind fun a b m1 n1 R1 ha _ ho hab => ?_
    have hrest : Forward c R1 m1 n1 (argValues .scoped ev none (i + 1) rest)
        (argValues .closures ev' formals (i + 1) rest)
        fun R2 values values' => List.Forall₂ (Paired R2) values values' ∧
          values.length = rest.length := by
      refine ih ho.link (fun j hj => ?_) fun arg' m' h R' n' hR => ?_
      · have hmode' := hmode (j + 1) (by simpa using hj)
        rwa [show i + (j + 1) = i + 1 + j by omega] at hmode'
      · obtain ⟨before, after, values, rfl, hbefore⟩ := h
        refine hev arg' m' ⟨arg :: before, after, a :: values, rfl, ?_⟩ (le_trans ho.pairs hR)
        rw [argValues_cons, hfirst, bind_of_ok ha, bind_of_ok hbefore, pure_apply]
    refine hrest.map fun ho2 hvalues => ?_
    exact ⟨.cons (hab.paired.mono ho2.pairs) hvalues.1, congrArg (· + 1) hvalues.2⟩

end

/-! ## Calls of the program's functions -/

section

variable (c : Setting) (fuel : Nat)

def EvalForward : Prop :=
  ∀ {R : Pairs} {m n : Machine} {scope scope' : Scope} {d : Datum}, Link c R m n →
    SameScope R scope scope' → ExprCode c d → Clean ⟨fuel, .eval false scope d, m⟩ →
    Forward c R m n (eval .scoped fuel false scope d) (eval .closures fuel false scope' d)
      (NewPair m.store.size)

def ExecForward : Prop :=
  ∀ {R : Pairs} {m n : Machine} {scope scope' : Scope} {d : Datum}, Link c R m n →
    SameScope R scope scope' → StmtCode c d → Clean ⟨fuel, .exec scope d, m⟩ →
    Forward c R m n (exec .scoped fuel d scope) (exec .closures fuel d scope')
      (SameEnd m.store.size)

def CallForward : Prop :=
  ∀ {R : Pairs} {m n : Machine} {scope scope' : Scope} {f : String} {ds : List Datum},
    Link c R m n →
    SameScope R scope scope' → (∀ d ∈ ds, ExprCode c d) →
    (Builtin.ofName? (.text f) = none → ∀ d ∈ ds, CallFreeCode c d) →
    Clean ⟨fuel, .call scope (.text f) (.list ds), m⟩ →
    Forward c R m n (call .scoped fuel scope (.text f) (.list ds))
      (call .closures fuel scope' (.text f) (.list ds)) (SameResult m.store.size)

end

section

variable {scope scope' : Scope} {fuel : Nat} {f : String} {builtin : Builtin}

theorem forward_row (hexec : ExecForward c fuel) {row row' : Row} (hl : Link c R m n)
    (hs : SameScope R scope scope') (hrow : SameRow R row row')
    (hcode : ∀ s ∈ statements, StmtCode c s)
    (hclean : ∀ s scope1 m1, Reached (row.step .scoped fuel) statements scope m s scope1 m1 →
      Clean ⟨fuel, .exec scope1 s, m1⟩) :
    Forward c R m n (block (row.step .scoped fuel) statements scope)
      (block (row'.step .closures fuel) statements scope') (SameEnd m.store.size) := by
  refine forward_block hl hs fun s scope1 m1 hreached R1 n1 scope1' hR hl1 hs1 => ?_
  have hmem : s ∈ statements := by
    obtain ⟨before, after, rfl, -⟩ := hreached
    simp
  refine forward_step hl1 hs1 (hrow.mono hR) fun hl2 => ?_
  exact hexec hl2 hs1 (hcode s hmem) (hclean s scope1 m1 hreached)

theorem forward_builtin (heval : EvalForward c fuel) (hl : Link c R m n)
    (hs : SameScope R scope scope') (hds : ∀ d ∈ ds, ExprCode c d)
    (hname : Builtin.ofName? (.text f) = some builtin)
    (hclean : Clean ⟨fuel + 1, .call scope (.text f) (.list ds), m⟩) :
    Forward c R m n (callBuiltin (eval .scoped fuel false scope) scope (.list ds) builtin)
      (callBuiltin (eval .closures fuel false scope') scope' (.list ds) builtin)
      (SameResult m.store.size) := by
  by_cases hprint : builtin = .print
  · subst hprint
    rw [callBuiltin, callBuiltin]
    refine (forward_printHeader hl hs (.list ds)).bind fun _ _ m1 n1 R1 hheader _ ho _ => ?_
    refine .step rfl rfl (Follows.bind (forward_line ho.link fun arg m2 h R2 n2 hR hl2 => ?_) ?_)
    · obtain ⟨before, after, line, rfl, hbefore⟩ := h
      refine heval hl2 (hs.mono (le_trans ho.pairs hR)) (hds arg (by simp)) (hclean.started ?_)
      exact .piece hname hheader rfl hbefore
    · rintro line _ m2 n2 R2 - - ho2 rfl
      refine (forward_putLine ho2.link line).mono ?_
      rintro _ _ _ ⟨rfl, rfl⟩
      exact .none
  · obtain ⟨title, hreads, hreads'⟩ :
      ∃ title, (callBuiltin (eval .scoped fuel false scope) scope (.list ds) builtin =
        do promptWith title (eval .scoped fuel false scope) (.list ds); readInput builtin) ∧
        (callBuiltin (eval .closures fuel false scope') scope' (.list ds) builtin =
          do promptWith title (eval .closures fuel false scope')
              (.list ds); readInput builtin) := by
      cases builtin with
      | readInt => exact ⟨"inputi", rfl, rfl⟩
      | readText => exact ⟨"inputs", rfl, rfl⟩
      | print => exact absurd rfl hprint
    rw [hreads, hreads']
    refine (forward_prompt hl title fun arg h => ?_).bind fun _ _ m1 n1 R1 _ _ ho _ => ?_
    · subst h
      exact heval hl hs (hds arg List.mem_cons_self) (hclean.started (.prompt hname hprint rfl))
    · exact (forward_readInput ho.link builtin).mono fun _ _ _ h => h.mono ho.size

/-- What two runs have when they enter a function. -/
structure SameEntry (c : Setting) (R : Pairs) (r r' : Row × List Datum × Scope) : Prop where
  row : SameRow R r.1 r'.1
  statements : r'.2.1 = r.2.1
  code : ∀ s ∈ r.2.1, StmtCode c s
  scope : SameScope R r.2.2 r'.2.2

theorem forward_enterBody {d : Datum} {g : Ast.Function} {values' : List Datum} (hl : Link c R m n)
    (hs : SameScope R scope scope') (hd : c.Code d g.tree) (hg : g.isFirstOrder = true)
    (hlength : g.formals.length = values.length)
    (hvalues : List.Forall₂ (Paired R) values values') :
    Forward c R m n (enterBody scope (.text f) d true values)
      (enterBody scope' (.text f) d true values') (SameEntry c) := by
  obtain ⟨formals, hformals, hd1⟩ := hd.list_field "args" rfl
  obtain ⟨body, hbody, hd2⟩ := hd.list_field "statements" rfl
  simp only [Ast.Function.isFirstOrder, Bool.and_eq_true] at hg
  have hbind := Stacked.bindFormals_apply hl.left.base hformals hlength scope
  have hbind' := Stacked.bindFormals_apply hl.right.base hformals (hlength.trans hvalues.length_eq)
    scope'
  refine .step (hd1 hl.left.base) (hd1 hl.right.base) (.step rfl rfl (.step hbind hbind' ?_))
  refine .step (a := f) (b := f) rfl rfl (.step (hd2 hl.left.base) (hd2 hl.right.base)
    (.step rfl rfl ?_))
  exact .pure hl ⟨.body hs f, rfl, code_of_block (fun _ => rfl) (fun _ _ => rfl) hbody hg.2,
    hs.putAll _ hvalues⟩

theorem copiesArgument_of_formals {formals : List Ast.Formal} {fs : List Datum}
    (hfs : HoldsAll c.base c.base.size fs (formals.map Ast.Formal.tree))
    (hplain : formals.all (fun x => !x.byRef) = true) (ev : Bool → Datum → Run Datum) {i : Nat}
    (hi : i < formals.length) : CopiesArgument c ev (some fs) i := by
  intro arg n he
  obtain ⟨formal, hget, hkind⟩ : ∃ formal, fs[i]? = some formal ∧
      kindOf formal n = (.ok "arg", n) := by
    induction formals generalizing fs i with
    | nil => simp at hi
    | cons x formals ih =>
      cases hfs with
      | cons first rest =>
        simp only [List.all_cons, Bool.and_eq_true] at hplain
        cases i with
        | zero =>
          refine ⟨_, rfl, ?_⟩
          have htree : x.tree = .node "arg" [("name", .text x.name.text)] := by
            have hx : x.byRef = false := by simpa using hplain.1
            rw [Ast.Formal.tree, hx]
            rfl
          exact Setting.Code.kindOf (c := c) (htree ▸ first) he
        | succ i => exact ih rest hplain.2 (by simpa using hi)
  simp only [argValue, hget]
  rw [bind_of_ok hkind]
  rfl

/-- What a call does before the body of its function can be followed, though the arguments are
evaluated twice. -/
theorem forward_enterCall (heval : EvalForward c fuel)
    (hfunctions : ∀ g ∈ c.functions, g.isFirstOrder = true) (hl : Link c R m n)
    (hs : SameScope R scope scope') (hds : ∀ d ∈ ds, ExprCode c d)
    (hname : Builtin.ofName? (.text f) = none) (hfree : ∀ d ∈ ds, CallFreeCode c d)
    (hclean : Clean ⟨fuel + 1, .call scope (.text f) (.list ds), m⟩) :
    Forward c R m n (enterCall .scoped fuel scope (.text f) (.list ds))
      (enterCall .closures fuel scope' (.text f) (.list ds)) (SameEntry c) := by
  -- The arguments go together from all states of the second run that are linked to the first.
  have hargs : ∀ {n : Machine} {formals : Option (List Datum)}, Link c R m n →
      (∀ j < ds.length, CopiesArgument c (argument .closures fuel scope') formals (0 + j)) →
      Forward c R m n (argValues .scoped (argument .scoped fuel scope) none 0 ds)
        (argValues .closures (argument .closures fuel scope') formals 0 ds)
        fun R1 values values' => List.Forall₂ (Paired R1) values values' ∧
          values.length = ds.length := by
    intro n formals hl hmode
    refine forward_arguments hl hmode fun arg m1 h R1 n1 hR hl1 => ?_
    obtain ⟨before, after, values, rfl, hbefore⟩ := h
    exact heval hl1 (hs.mono hR) (hds arg (by simp)) (hclean.started (.argument hname rfl hbefore))
  have hnone : ∀ j < ds.length, CopiesArgument c (argument .closures fuel scope') none (0 + j) := by
    intro j _ arg n _
    rfl
  intro r m1 hr
  rw [enterCall, findCalled, bind_assoc] at hr
  rw [enterCall, findCalled, bind_assoc]
  have hitems : ∀ m : Machine, items (.list ds) m = (.ok ds, m) := fun _ => rfl
  rw [bind_of_ok (hitems m), bind_assoc] at hr
  rw [bind_of_ok (hitems n), bind_assoc]
  obtain ⟨values, m2, hvalues, hr⟩ := bind_eq_ok.1 hr
  obtain ⟨values1, n2, R2, hvalues1, ho, hpairs, hcount⟩ := hargs hl hnone values m2 hvalues
  rw [bind_of_ok hvalues1]
  -- The first time: nodes are added, and the function is found by its name and the number of
  -- arguments.
  have hgrowth : Growth n n2 ∧ n2.console = n.console := by
    refine growth_argValues_of_callFree hl.right.base.separate.formed (fun d hd => ?_) hvalues1
    obtain ⟨e, he, hfree⟩ := hfree d hd
    exact callFree_of_code e he hfree hl.right.base
  have hl2 : Link c R m n2 := hl.repeated ho.link.right hgrowth.1 hgrowth.2
  obtain ⟨found, hfound, hrel⟩ :=
    Stacked.findCallee_apply f values.length c.holds_functions
  have hfunctionsOf : ∀ {m : Machine}, Intact c m → functions m = (.ok c.loaded, m) := by
    intro m hm
    rw [functions, hm.functions]
  have hfound' : findCallee (.text f) values1.length c.loaded n2 = (.ok found, n2) := by
    rw [← hpairs.length_eq]
    exact hfound ho.link.right.base
  obtain ⟨called, m3, hcalled, hr⟩ := bind_eq_ok.1 hr
  rw [chooseCalled, bind_of_ok (hfunctionsOf ho.link.left),
    bind_of_ok (hfound ho.link.left.base)] at hcalled
  generalize hg : c.functions.find? (fun g =>
    g.name.text == f && g.formals.length == values.length) = callee at hrel
  cases hrel with
  | none => cases (Prod.mk.inj hcalled).1
  | @some d g hd =>
    obtain ⟨rfl, rfl⟩ := pure_eq_ok.1 hcalled
    have hchosen : chooseCalled .closures scope' (.text f) values1 n2 =
        (.ok (d, values1, true), n2) := by
      rw [chooseCalled, bind_of_ok (hfunctionsOf ho.link.right), bind_of_ok hfound']
      rfl
    rw [bind_of_ok hchosen]
    have hfits := List.find?_some hg
    simp only [Bool.and_eq_true, beq_iff_eq] at hfits
    have hfirst : g.isFirstOrder = true := hfunctions g (List.mem_of_find?_eq_some hg)
    -- The second time: the arguments go with those of the first run.
    obtain ⟨formals, hformals, hd1⟩ := hd.list_field "args" rfl
    have hmode : ∀ j < ds.length, CopiesArgument c (argument .closures fuel scope')
        (some formals) (0 + j) := by
      intro j hj
      rw [Nat.zero_add]
      simp only [Ast.Function.isFirstOrder, Bool.and_eq_true] at hfirst
      exact copiesArgument_of_formals hformals hfirst.1 _ (by omega)
    obtain ⟨values2, n3, R3, hvalues2, ho3, hpairs2, -⟩ := hargs hl2 hmode values m2 hvalues
    have henter : enterFound .closures fuel scope' (.text f) (.list ds) (d, values1, true) n2 =
        enterBody scope' (.text f) d true values2 n3 := by
      have hdef : enterFound .closures fuel scope' (.text f) (.list ds) (d, values1, true) = (do
          let formals ← items (← Run.field d "args")
          let ds ← items (.list ds)
          let values ← argValues .closures (argument .closures fuel scope') (some formals) 0 ds
          enterBody scope' (.text f) d true values) := rfl
      rw [hdef, bind_of_ok (hd1 ho.link.right.base),
        bind_of_ok (show items (.list formals) n2 = (.ok formals, n2) from rfl),
          bind_of_ok (hitems n2), bind_of_ok hvalues2]
    rw [henter]
    obtain ⟨r', n4, R4, hr', ho4, hentry⟩ :=
      forward_enterBody ho3.link (hs.mono ho3.pairs) hd hfirst hfits.2 hpairs2 r m1 hr
    exact ⟨r', n4, R4, hr', ho3.trans ho4, hentry⟩

theorem callForward_succ (hfunctions : ∀ g ∈ c.functions, g.isFirstOrder = true)
    (heval : EvalForward c fuel) (hexec : ExecForward c fuel) : CallForward c (fuel + 1) := by
  intro R m n scope scope' f ds hl hs hds hfree hclean
  cases hname : Builtin.ofName? (.text f) with
  | some builtin =>
    rw [call_builtin hname, call_builtin hname]
    exact forward_builtin heval hl hs hds hname hclean
  | none =>
    rw [call_own hname, call_own hname]
    refine (forward_enterCall heval hfunctions hl hs hds hname (hfree hname) hclean).bind ?_
    rintro ⟨row, statements, inner⟩ ⟨row', _, inner'⟩ m1 n1 R1 hentered - ho
      ⟨hrow, rfl, hcode, hinner⟩
    refine (forward_row hexec ho.link hinner hrow hcode fun s scope1 m2 hreached => ?_).map
      fun _ h => ?_
    · exact hclean.started (.body hname hentered hreached (announce_scoped row scope1 m2))
    · exact h.2.mono ho.size

end

end LangKit.Script.Extension
