import LangKit.Proofs.Scoping.Steps

/-!
# Calls

The parts of a call: prompts, printed lines and inputs of the built-in functions, and the arguments,
the callee and the frame of the others. All of them take the evaluator as a parameter, with what is
known of it (`Evaluates`).
-/

namespace LangKit.Script.Stacked

open Ast Store

variable {d : Datum} {v : Value} {args : Args} {ds : List Datum} {m : Machine} {dialect : Dialect}

variable {c : Setting} {places : Places} {w : World}

/-! ## The console -/

theorem agree_onConsole {α : Type} {f : Store → Console → α × Console} {g : Console → α × Console}
    (hl : Linked c places m w) (hfg : f m.store m.console = g m.console)
    (ht : (g m.console).2.trace = m.console.trace)
    (hi : (g m.console).2.inputs = m.console.inputs) :
    Agree m w (Run.onConsole f) (onConsole g)
      fun a b m' w' => a = b ∧ a = (g m.console).1 ∧ m'.store = m.store ∧
        Linked c places m' w' := by
  intro _
  have hx : Run.onConsole f m = (.ok (g m.console).1, { m with console := (g m.console).2 }) := by
    rw [← hfg]
    rfl
  have hy : onConsole g w = (.ok (g m.console).1, { w with console := (g m.console).2 }) := by
    rw [hl.console]
    rfl
  rw [hx, hy]
  exact .ok ⟨rfl, rfl, rfl, hl.setConsole (ht.trans hl.trace) (hi.trans hl.inputs)⟩

theorem textOf_atom (s s' : Store) (h : d.isAtom = true) : s.textOf d = s'.textOf d := by
  cases d <;> first | rfl | cases h

theorem output_keeps (console : Console) (s : Store) (d : Datum) :
    (console.output s d).2.echo = console.echo ∧ (console.output s d).2.trace = console.trace ∧
      (console.output s d).2.inputs = console.inputs := by
  unfold Console.output
  split
  · split <;> exact ⟨rfl, rfl, rfl⟩
  · exact ⟨rfl, rfl, rfl⟩

theorem agree_output (hl : Linked c places m w) (hd : d.isAtom = true) :
    Agree m w (Run.output d) (output c.host d) fun _ _ m' w' => Continues c places
      m.store m' w' := by
  have hfg : m.console.output m.store d = m.console.output c.host d := by
    simp only [Console.output, textOf_atom m.store c.host hd]
  obtain ⟨-, ht, hi⟩ := output_keeps m.console c.host d
  refine .bind (agree_onConsole hl hfg ht hi) latches_lift ?_
  rintro r _ m' w' ⟨rfl, _, hstore, hl'⟩
  refine (agree_lift hl' r).mono ?_
  rintro _ _ _ _ ⟨_, rfl, rfl⟩
  exact ⟨hl', hstore ▸ .refl⟩

theorem input_keeps (console : Console) :
    console.input.2.echo = console.echo ∧ console.input.2.trace = console.trace ∧
      console.input.2.inputs = console.inputs := by
  unfold Console.input
  split
  · split <;> exact ⟨rfl, rfl, rfl⟩
  · split <;> exact ⟨rfl, rfl, rfl⟩

/-- The next input is a line that is typed or one of the given values, or there is none left of
them. -/
theorem input_cases (console : Console) :
    (∃ s, console.input.1 = .ok (.text s)) ∨ (∃ d ∈ console.inputs, console.input.1 = .ok d) ∨
      console.input.1 = .ok .null ∨ console.input.1 = .error .endOfInput := by
  unfold Console.input
  split
  · split
    · exact .inl ⟨_, rfl⟩
    · exact .inr (.inr (.inr rfl))
  · split
    · next d hget => exact .inr (.inl ⟨d, List.mem_of_getElem? hget, rfl⟩)
    · exact .inr (.inr (.inl rfl))

theorem given_of_input (hi : m.console.inputs = c.inputs) (h : m.console.input.1 = .ok d) :
    c.Given d := by
  rcases input_cases m.console with ⟨s, hr⟩ | ⟨d', hmem, hr⟩ | hr | hr <;> cases h.symm.trans hr
  · exact ⟨_, .text _, .text _⟩
  · exact c.holds_inputs d (hi ▸ hmem)
  · exact ⟨_, .null, .null⟩

theorem agree_input (hl : Linked c places m w) :
    Agree m w Run.input input
      fun a b m' w' => a = b ∧ c.Given a ∧ m'.store = m.store ∧ Linked c places m' w' := by
  obtain ⟨-, ht, hi⟩ := input_keeps m.console
  refine .bind (agree_onConsole hl rfl ht hi) latches_lift ?_
  rintro r _ m' w' ⟨rfl, hr, hstore, hl'⟩
  cases r with
  | error f => exact .throw _ hl'.console
  | ok d => exact .pure ⟨rfl, given_of_input hl.inputs hr.symm, hstore, hl'⟩

theorem Setting.Given.textOf {d : Datum} (h : c.Given d) (he : Extends c.base m.store) :
    Run.textOf d m = Run.lift (c.host.textOf d) m := by
  obtain ⟨t, hbase, hhost⟩ := h
  have hstore : Holds m.store m.store.size d t := hbase.of_extends he
  have htext : m.store.textOf d = c.host.textOf d :=
    hstore.textOf_eq (Nat.le_refl _) (Nat.le_refl _) hhost
  simp only [Run.textOf, htext]
  cases c.host.textOf d <;> rfl

/-! ## Built-in functions -/

/-- What a call leaves: the state is linked as before, and a result is in a new node. -/
structure Returns (c : Setting) (places : Places) (s : Store) (d : Datum) (v : Option Value)
    (m : Machine) (w : World) : Prop where
  linked : Linked c places m w
  grows : Grows places s m.store
  result : Result s m.store d v

theorem Makes.returns (h : Makes m x v) (hl : Linked c places m w)
    (hg : Grows places s m.store) : Agree m w x (pure (some v)) (Returns c places s) := by
  obtain ⟨d, s', hx, hext, hfresh⟩ := h
  intro _
  rw [hx]
  exact .ok ⟨hl.extend hext, hg.trans_same (.of_extends hext), .some (hfresh.of_le hg.size)⟩

/-- Two evaluators give the same values for the same code, in states that are linked by the
places. -/
structure Evaluates (c : Setting) (places : Places) (ev : Datum → Run Datum)
    (ev' : Expr → Act Value) :
    Prop where
  agree : ∀ {e : Expr} {d : Datum} {m : Machine} {w : World}, Linked c places m w →
    c.Code d e.tree →
    Agree m w (ev d) (ev' e) (Gives c places m.store)
  latches : ∀ e, Latches (ev' e)

theorem agree_contents (hl : Linked c places m w) (hd : Held m.store d v) :
    Agree m w (Script.contents d) (contents v)
      fun a b m' w' => a = b ∧ a.isAtom = true ∧ m' = m ∧ w' = w := by
  cases hv : v.contents? with
  | none =>
    obtain rfl : v = .nil := by cases v <;> first | rfl | cases hv
    exact .congr hd.contents_nil rfl (.throw _ hl.console)
  | some x =>
    refine .congr (hd.contents hv) ?_ (.pure ⟨rfl, isAtom_of_contents hv, rfl, rfl⟩)
    simp only [contents, hv]

section

variable {ev : Datum → Run Datum} {ev' : Expr → Act Value} (hev : Evaluates c places ev ev')

include hev

theorem agree_prompt (hl : Linked c places m w)
    (title : String) (hds : HoldsAll c.base c.base.size ds args.trees) :
    Agree m w (Script.promptWith title ev (.list ds)) (promptWith c.host title ev' args)
      fun _ _ m' w' => Continues c places m.store m' w' := by
  match args, hds with
  | .nil, .nil => exact .pure ⟨hl, .refl⟩
  | .cons e .nil, .cons first .nil =>
    refine .step rfl (.step rfl (.bind (hev.agree hl first) ?_ ?_))
    · exact fun v => latches_bind (latches_contents v) fun d => latches_output c.host d
    · intro d v m' w' hgives
      refine .bind (agree_contents hgives.linked hgives.fresh.held) (latches_output c.host) ?_
      rintro x _ _ _ ⟨rfl, hatom, rfl, rfl⟩
      refine (agree_output hgives.linked hatom).mono ?_
      exact fun _ _ m'' w'' h => ⟨h.linked, hgives.grows.trans_same h.grows⟩
  | .cons _ (.cons _ rest), .cons _ (.cons _ more) =>
    refine .step (a := rest.trees.length + 2) (by rw [← more.length_eq]; rfl) ?_
    rw [if_neg (by simp), if_pos (by simp)]
    exact agree_report hl .name ("No " ++ title ++ "() function found that takes > 1 parameter")

omit hev in
theorem agree_piece (hl : Linked c places m w) (hd : Held m.store d v) :
    Agree m w (Script.outputPiece d) (outputPiece v) fun a b m' w' => a = b ∧ m' = m ∧ w' = w := by
  obtain ⟨ref, rfl, hlt, hnode⟩ := id hd
  cases v with
  | nil =>
    intro _
    have hfail : Script.outputPiece (.node ref) m =
        (.error (.fault (Fault.missingField "val")), m) := by
      rw [Script.outputPiece, bind_apply, hd.contents_nil]
      exact Datum.noConfusion
    rw [hfail]
    exact .error _ hl.console
  | int n =>
    refine .step (hd.contents rfl) ?_
    have htext : Run.textOf (.int n) m = Run.lift (Datum.int n).display m := by
      simp only [Run.textOf, Store.textOf, Datum.textWith]
      cases (Datum.int n).display <;> rfl
    simp only [outputPiece]
    cases hd' : (Datum.int n).display with
    | ok s =>
      rw [hd'] at htext
      exact .step htext (.step hd.kindOf (.pure ⟨rfl, rfl, rfl⟩))
    | error f =>
      intro _
      rw [bind_apply, htext, hd']
      exact .error _ hl.console
  | bool b =>
    refine .step (hd.contents rfl) ?_
    cases b with
    | true => exact .step (a := "True") rfl (.step hd.kindOf (.pure ⟨by decide, rfl, rfl⟩))
    | false => exact .step (a := "False") rfl (.step hd.kindOf (.pure ⟨by decide, rfl, rfl⟩))
  | string s =>
    refine .step (hd.contents rfl) (.step rfl (.step hd.kindOf ?_))
    exact .pure ⟨rfl, rfl, rfl⟩

theorem agree_line {m : Machine} {w : World} (hl : Linked c places m w)
    {args : Args} {ds : List Datum} (hds : HoldsAll c.base c.base.size ds args.trees)
    (line : String) :
    Agree m w (Script.outputLine ev ds line) (outputLine ev' args line)
      fun a b m' w' => a = b ∧ Continues c places m.store m' w' := by
  match args, hds with
  | .nil, .nil => exact .pure ⟨rfl, hl, .refl⟩
  | .cons e rest, .cons first more =>
    refine .bind (hev.agree hl first) (fun v => ?_) ?_
    · exact latches_bind (latches_outputPiece v) fun _ => latches_outputLine hev.latches rest _
    · intro d v m' w' hgives
      refine .bind (agree_piece hgives.linked hgives.fresh.held) (fun _ => ?_) ?_
      · exact latches_outputLine hev.latches rest _
      · rintro piece _ _ _ ⟨rfl, rfl, rfl⟩
        refine (agree_line hgives.linked more (line ++ piece)).mono ?_
        exact fun _ _ m'' w'' h => ⟨h.1, h.2.linked, hgives.grows.trans_same h.2.grows⟩

theorem agree_prompted (hl : Linked c places m w) (title : String)
    (hds : HoldsAll c.base c.base.size ds args.trees) {α β : Type} {f : Datum → Run α}
    {g : Datum → Act β} {R : α → β → Machine → World → Prop} (hg : ∀ d, Latches (g d))
    (hf : ∀ d m' w', c.Given d → Continues c places m.store m' w' → Agree m' w' (f d) (g d) R) :
    Agree m w (do
        Script.promptWith title ev (.list ds)
        f (← Run.input))
      (do
        promptWith c.host title ev' args
        g (← input)) R := by
  refine .bind (agree_prompt hev hl title hds) (fun _ => latches_bind latches_input hg) ?_
  intro _ _ m1 w1 hcont
  refine .bind (agree_input hcont.linked) hg ?_
  rintro d _ m2 w2 ⟨rfl, hgiven, hstore, hl2⟩
  exact hf d m2 w2 hgiven ⟨hl2, hstore ▸ hcont.grows⟩

/-- A built-in function gives its result, and it is called with no scope that would show. -/
theorem agree_builtin (hl : Linked c places m w)
    (scope : Scope) (hds : HoldsAll c.base c.base.size ds args.trees) (builtin : Builtin) :
    Agree m w (Script.callBuiltin ev scope (.list ds) builtin) (callBuiltin c.host ev' args builtin)
      (Returns c places m.store) := by
  cases builtin with
  | readInt =>
    refine agree_prompted hev hl "inputi" hds (fun d => ?_) ?_
    · exact latches_bind (latches_lift _) fun _ => latches_pure _
    · intro d m' w' _ hcont
      refine .bind (agree_lift hcont.linked d.toInteger) (fun n => latches_pure _) ?_
      rintro n _ _ _ ⟨rfl, rfl, rfl⟩
      exact (makes_make hcont.linked.base.separate (.int n)).returns hcont.linked hcont.grows
  | readText =>
    refine agree_prompted hev hl "inputs" hds (fun d => ?_) ?_
    · exact latches_bind (latches_lift _) fun _ => latches_pure _
    · intro d m' w' hgiven hcont
      have htext := Agree.congr (hgiven.textOf hcont.linked.base) rfl (agree_lift hcont.linked _)
      refine .bind htext (fun s => latches_pure _) ?_
      rintro s _ _ _ ⟨rfl, rfl, rfl⟩
      exact (makes_make hcont.linked.base.separate (.string s)).returns hcont.linked hcont.grows
  | print =>
    refine .step (hl.untraced _) (.step rfl (.bind (agree_line hev hl hds "") (fun line => ?_) ?_))
    · exact latches_bind (latches_output c.host _) fun _ => latches_pure _
    · rintro line _ m1 w1 ⟨rfl, hcont⟩
      refine .step (hcont.linked.untraced _)
        (.bind (agree_output hcont.linked rfl) (fun _ => latches_pure _) ?_)
      intro _ _ m2 w2 hcont'
      exact .pure ⟨hcont'.linked, hcont.grows.trans_same hcont'.grows, .none⟩

end

/-! ## Calls of the program's functions -/

/-- The values of arguments, each in a new node. -/
structure Passes (c : Setting) (places : Places) (s : Store) (ds : List Datum) (vs : List Value)
    (rs : List Nat) (m : Machine) (w : World) : Prop where
  linked : Linked c places m w
  grows : Grows places s m.store
  data : ds = rs.map .node
  nodes : List.Forall₂ (fun r v => m.store.node r = v.node) rs vs
  nodup : rs.Nodup
  range : ∀ r ∈ rs, s.size ≤ r ∧ r < m.store.size

theorem agree_arguments
    (hev : Evaluates c places (ev false) ev') {m : Machine} {w : World} (hl : Linked c places m w)
    {args : Args} {ds : List Datum} (hds : HoldsAll c.base c.base.size ds args.trees) (i : Nat) :
    Agree m w (argValues .scoped ev none i ds) (evalAll ev' args)
      fun values vs m' w' => ∃ rs, Passes c places m.store values vs rs m' w' := by
  match args, hds with
  | .nil, .nil => exact .pure ⟨[], hl, .refl, rfl, .nil, .nil, nofun⟩
  | .cons e rest, .cons first more =>
    refine .bind (hev.agree hl first) (fun v => ?_) ?_
    · exact latches_bind (latches_evalAll hev.latches rest) fun _ => latches_pure _
    · intro d v m1 w1 hgives
      refine .step rfl (.bind (agree_arguments hev hgives.linked more (i + 1))
        (fun _ => latches_pure _) ?_)
      rintro values vs m2 w2 ⟨rs, hpass⟩
      -- The later arguments change places only, so the first value's node is as it was.
      obtain ⟨r, hd, hlow, hmid, _⟩ := hgives.fresh
      obtain ⟨r', hd', _, hhigh, hnode⟩ := hgives.fresh.keep hl.lt_size hpass.grows
      obtain rfl : r = r' := Datum.node.inj (hd.symm.trans hd')
      refine .pure ⟨r :: rs, hpass.linked, hgives.grows.trans_same hpass.grows, ?_,
        .cons hnode hpass.nodes, List.nodup_cons.mpr ⟨fun hm => ?_, hpass.nodup⟩,
          List.forall_mem_cons.mpr ⟨⟨hlow, hhigh⟩, ?_⟩⟩
      · rw [hd, hpass.data]
        rfl
      · exact Nat.not_le_of_lt hmid (hpass.range r hm).1
      · exact fun r' hr' => ⟨Nat.le_trans hgives.grows.size (hpass.range r' hr').1,
          (hpass.range r' hr').2⟩

theorem bindFormals_apply {m : Machine} (he : Extends c.base m.store) {formals : List Formal}
    {ds : List Datum} (hds : HoldsAll c.base c.base.size ds (formals.map Formal.tree))
    {values : List Datum} (hvalues : formals.length = values.length) (scope : Scope) :
    bindFormals scope ds values m =
      (.ok (Assoc.putAll scope ((formals.map (·.name.text)).zip values)), m) := by
  match formals, hds, values with
  | [], .nil, [] => rfl
  | f :: formals, .cons (d := d) first rest, value :: values =>
    have hfield := Setting.Code.text_field (c := c) first he "name" rfl
    simp only [bindFormals_cons, bind_apply, hfield, nameText, pure_apply]
    exact bindFormals_apply he rest (Nat.succ.inj hvalues) (Assoc.put f.name.text value scope)

theorem Linked.bindAll {w : World} (names : List String)
    {frame : List (String × Nat)}
    (hl : Linked c (frame :: places) m { w with env := bindings :: env })
    (hnodes : List.Forall₂ (fun r v => m.store.node r = v.node) rs vs) (hnodup : rs.Nodup)
    (hrange : ∀ r ∈ rs, c.base.size ≤ r ∧ r < m.store.size ∧ r ∉ refs (frame :: places)) :
    Linked c (Assoc.putAll frame (names.zip rs) :: places) m
      { w with env := Assoc.putAll bindings (names.zip vs) :: env } := by
  induction names generalizing rs vs frame bindings with
  | nil => exact hl
  | cons x names ih =>
    cases hnodes with
    | nil => exact hl
    | @cons r v rs vs hnode hnodes =>
      obtain ⟨⟨hbase, hhigh, hr⟩, hrest⟩ := List.forall_mem_cons.mp hrange
      obtain ⟨hnotMem, hnodup'⟩ := List.nodup_cons.mp hnodup
      refine ih (hl.define hbase hhigh hnode hr x) hnodes hnodup' fun r' hr' => ?_
      obtain ⟨hbase', hhigh', hnot⟩ := hrest r' hr'
      -- Of the frame's nodes only the one just bound is new, and it is none of the rest.
      refine ⟨hbase', hhigh', fun hm => ?_⟩
      rcases refs_put_subset hm with rfl | hm
      · exact hnotMem hr'
      · exact hnot hm

theorem findCallee_apply (f : String) (arity : Nat) {functions : List Function}
    (hds : HoldsAll c.base c.base.size ds (functions.map Function.tree)) :
    ∃ found, (∀ {m : Machine}, Extends c.base m.store →
      findCallee (.text f) arity ds m = (.ok found, m)) ∧
      Option.Rel (fun d g => c.Code d (Function.tree g)) found
        (functions.find? fun g => g.name.text == f && g.formals.length == arity) := by
  induction functions generalizing ds with
  | nil =>
    cases hds
    exact ⟨none, fun _ => rfl, .none⟩
  | cons g functions ih =>
    cases hds with | @cons _ d _ ds _ first rest =>
    obtain ⟨formals, hformals, hargs⟩ := Setting.Code.list_field (c := c) first "args" rfl
    have hlength : formals.length = g.formals.length := by simpa using hformals.length_eq
    have hstep : ∀ {m : Machine}, Extends c.base m.store → findCallee (.text f) arity (d :: ds) m =
        if g.name.text == f && g.formals.length == arity then (.ok (some d), m)
        else findCallee (.text f) arity ds m := by
      intro m he
      have hname := Setting.Code.text_field (c := c) first he "name" rfl
      have hsame : (Datum.text g.name.text).same (.text f) = (g.name.text == f) := rfl
      simp only [findCallee, bind_apply, hname, hsame]
      cases g.name.text == f with
      | false => rfl
      | true =>
        simp only [if_true, bind_apply, hargs he, Run.size, pure_apply, hlength, Bool.true_and]
        split <;> rfl
    obtain ⟨found, hfound, hrel⟩ := ih rest
    rw [List.find?_cons]
    cases hg : g.name.text == f && g.formals.length == arity with
    | false =>
      refine ⟨found, fun he => ?_, hrel⟩
      rw [hstep he, hg, if_neg Bool.false_ne_true, hfound he]
    | true =>
      refine ⟨some d, fun he => ?_, .some first⟩
      rw [hstep he, hg, if_pos rfl]

theorem exprForm_binary (op : BinaryOp) : dialect.exprForm op.nodeKind = .binary op := by
  cases op with
  | order o => cases o <;> rfl
  | _ => rfl

theorem exprForm_unary (op : UnaryOp) : dialect.exprForm op.nodeKind = .unary op := by
  cases op <;> rfl

end LangKit.Script.Stacked
