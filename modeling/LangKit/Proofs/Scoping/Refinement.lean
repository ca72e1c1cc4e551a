import LangKit.Proofs.Scoping.Calls

/-!
# Shared nodes make a stack of frames

Blocks, branches, loops, expressions, statements and calls of the scoped dialect, which pass around
one flat scope of shared nodes and change them in place, end as those over a stack of frames do:
`agree_all`.
-/

namespace LangKit.Script.Stacked

open Ast Store

variable {frame : List (String × Nat)} {s : Store} {scope : Scope} {b : Block} {ds : List Datum}
  {m : Machine} {fuel : Nat} {d : Datum} {kind : String} {ts : List (String × Tree)}
  {ex : Datum → Scope → Run (Scope × Datum)} {ex' : Stmt → Act (Option Value)}

variable {c : Setting} {places : Places} {w : World}

/-! ## Blocks and frames -/

theorem Leaves.trans {frame frame' : List (String × Nat)} {s : Store} {scope : Scope}
    (hgrows : Grows (frame :: places) s m.store)
    (hrefs : ∀ r ∈ refs (frame' :: places), r ∈ refs (frame :: places) ∨ s.size ≤ r)
    (h : Leaves c frame' places m.store scope m' w') : Leaves c frame places s scope m' w' := by
  obtain ⟨frame'', hflat, hl, hgrows', hrefs'⟩ := h
  refine ⟨frame'', hflat, hl, hgrows.trans hrefs hgrows', fun r hr => ?_⟩
  rcases hrefs' r hr with hr | hr
  · exact hrefs r hr
  · exact .inr (Nat.le_trans hgrows.size hr)

/-- How a statement finishes: it leaves a scope, and it may give a result. -/
structure Finishes (c : Setting) (frame : List (String × Nat)) (places : Places) (s : Store)
    (p : Scope × Datum) (v : Option Value) (m : Machine) (w : World) : Prop where
  leaves : Leaves c frame places s p.1 m w
  result : Result s m.store p.2 v

/-- Two ways to carry out statements leave the same frames and give the same results. -/
structure Executes (c : Setting) (ex : Datum → Scope → Run (Scope × Datum))
    (ex' : Stmt → Act (Option Value)) : Prop where
  agree : ∀ {st : Stmt} {d : Datum} {frame : List (String × Nat)} {places : Places} {scope : Scope}
    {m : Machine} {w : World}, Linked c (frame :: places) m w → Flat (frame :: places) scope →
    c.Code d st.tree →
    Agree m w (ex d scope) (ex' st) (Finishes c frame places m.store)
  latches : ∀ st, Latches (ex' st)

section

variable (hex : Executes c ex ex')

include hex

theorem agree_block {m : Machine} {w : World} {frame : List (String × Nat)} {scope : Scope}
    (hl : Linked c (frame :: places) m w) (hflat : Flat (frame :: places) scope) {b : Block}
    {ds : List Datum} (hds : HoldsAll c.base c.base.size ds b.trees) :
    Agree m w (Run.block ex ds scope) (runBlock ex' b) (Finishes c frame places m.store) := by
  match b, hds with
  | .last st, .cons first .nil =>
    rw [runBlock, ← bind_pure (ex' st)]
    refine .bind (hex.agree hl hflat first) latches_pure ?_
    rintro ⟨scope', d⟩ v m' w' ⟨hleaves, hresult⟩
    cases hresult with
    | none => exact .pure ⟨hleaves, .none⟩
    | some fresh =>
      obtain ⟨ref, rfl, hfresh⟩ := fresh
      exact .pure ⟨hleaves, .some ⟨ref, rfl, hfresh⟩⟩
  | .cons st rest, .cons first more =>
    refine .bind (hex.agree hl hflat first) (fun v => ?_) ?_
    · cases v with
      | none => exact latches_runBlock hex.latches rest
      | some _ => exact latches_pure _
    · rintro ⟨scope', d⟩ v m' w' ⟨hleaves, hresult⟩
      cases hresult with
      | none =>
        obtain ⟨frame', hflat', hl', hgrows, hrefs⟩ := hleaves
        refine (agree_block hl' hflat' more).mono ?_
        rintro p v m'' w'' ⟨hleaves', hresult'⟩
        exact ⟨hleaves'.trans hgrows hrefs, hresult'.of_le hgrows.size⟩
      | some fresh =>
        obtain ⟨ref, rfl, hfresh⟩ := fresh
        exact .pure ⟨hleaves, .some ⟨ref, rfl, hfresh⟩⟩

omit hex in
theorem Linked.pop (hl : Linked c (frame :: places) m w) :
    Linked c places m { w with env := w.env.tail } :=
  { hl with
    nodup := (List.nodup_append.mp hl.nodup).2.1
    range := fun r hr => hl.range r (List.mem_append_right _ hr)
    frames := by
      obtain ⟨env, _, _⟩ := w
      cases hl.frames with
      | cons _ rest => exact rest }

omit hex in
theorem Linked.push (hl : Linked c places m w) :
    Linked c ([] :: places) m { w with env := [] :: w.env } :=
  { hl with frames := .cons .nil hl.frames }

theorem agree_inFrame
    (hl : Linked c (frame :: places) m { w with env := bindings :: w.env })
    (hflat : Flat (frame :: places) scope) (hgrows : Grows places s m.store)
    (hframe : ∀ r ∈ frameRefs frame, s.size ≤ r) (hds : HoldsAll c.base c.base.size ds b.trees) :
    Agree m w (Run.block ex ds scope) (inFrame bindings (runBlock ex' b))
      fun p v m' w' => Returns c places s p.2 v m' w' := by
  rw [← bind_pure (Run.block ex ds scope)]
  refine .step_right rfl ?_
  refine .bind (agree_block hex hl hflat hds) (fun v => ?_) ?_
  · exact latches_bind (fun _ h => h) fun _ => latches_pure v
  · rintro ⟨scope', d⟩ v m' w' ⟨⟨frame', _, hl', hgrows', _⟩, hresult⟩
    refine .step_right rfl (.pure ⟨hl'.pop, ?_, ?_⟩)
    · -- The frame's own nodes are younger than the store before: only the places may have changed.
      refine hgrows.trans (fun r hr => ?_) hgrows'
      rcases List.mem_append.mp hr with hr | hr
      · exact .inr (hframe r hr)
      · exact .inl hr
    · exact hresult.of_le hgrows.size

theorem agree_branch (hl : Linked c places m w) (hflat : Flat places scope)
    (hgrows : Grows places s m.store) (hds : HoldsAll c.base c.base.size ds b.trees) :
    Agree m w (Run.block ex ds scope) (inFrame [] (runBlock ex' b))
      fun p v m' w' => Returns c places s p.2 v m' w' :=
  agree_inFrame hex hl.push hflat.push hgrows nofun hds

end

theorem agree_repeatWhile {body : Run Datum}
    (ht : Latches test') (hb : Latches body') (htest : ∀ {m w}, Linked c places m w →
      Agree m w test test' fun a b m' w' => a = b ∧ Continues c places m.store m' w')
    (hbody : ∀ {m w}, Linked c places m w → Agree m w body body' (Returns c places m.store))
      (fuel : Nat)
    {w : World} (hl : Linked c places m w) :
    Agree m w (Run.repeatWhile test body fuel) (repeatWhile test' body' fuel)
      (Returns c places m.store) := by
  induction fuel generalizing m w with
  | zero => exact .throw _ hl.console
  | succ fuel ih =>
    refine .bind (htest hl) (fun go => ?_) ?_
    · cases go with
      | false => exact latches_pure _
      | true =>
        refine latches_bind hb fun result => ?_
        cases result with
        | none => exact latches_repeatWhile ht hb fuel
        | some _ => exact latches_pure _
    · rintro go _ m1 w1 ⟨rfl, hcont⟩
      cases go with
      | false => exact .pure ⟨hcont.linked, hcont.grows, .none⟩
      | true =>
        refine .bind (hbody hcont.linked) (fun result => ?_) ?_
        · cases result with
          | none => exact latches_repeatWhile ht hb fuel
          | some _ => exact latches_pure _
        · intro d v m2 w2 hreturns
          have hgrows := hcont.grows.trans_same hreturns.grows
          cases hreturns.result with
          | none =>
            refine (ih hreturns.linked).mono ?_
            intro d v m3 w3 h
            exact ⟨h.linked, hgrows.trans_same h.grows, h.result.of_le hgrows.size⟩
          | some fresh =>
            obtain ⟨ref, rfl, hfresh⟩ := fresh.of_le hcont.grows.size
            exact .pure ⟨hreturns.linked, hgrows, .some ⟨ref, rfl, hfresh⟩⟩

/-! ## Expressions, statements and calls -/

def CallsAgree (c : Setting) (fuel : Nat) : Prop :=
  ∀ {places : Places} {scope : Scope} {m : Machine} {w : World} {f : Name} {args : Args}
    {ds : List Datum}, Linked c places m w → Flat places scope →
    HoldsAll c.base c.base.size ds args.trees →
    Agree m w (Script.call .scoped fuel scope (.text f.text) (.list ds))
      (call c.functions c.host fuel f args) (Returns c places m.store)

def ExpressionsAgree (c : Setting) (fuel : Nat) : Prop :=
  ∀ {places : Places} {scope : Scope}, Flat places scope →
    Evaluates c places (Script.eval .scoped fuel false scope) (eval c.functions c.host fuel)

theorem agree_literal (hl : Linked c places m w) (hd : c.Code d v.tree) :
    Agree m w (Script.eval .scoped (fuel + 1) false scope d) (pure v) (Gives c places m.store) := by
  rw [eval_succ]
  have hcopy := (makes_copy hl.base.separate (hd.literal hl.base)).agree hl
  cases v <;> exact .step (hd.kindOf hl.base) hcopy

theorem agree_unknown (hl : Linked c places m w) (hd : c.Code d (.node kind ts))
    (hform : Dialect.scoped.exprForm kind = .unknown) :
    Agree m w (Script.eval .scoped (fuel + 1) false scope d)
      (do report .name ("Unknown expression " ++ (← lift (Tree.node kind ts).textOf)))
      (Gives c places m.store) := by
  rw [eval_succ]
  refine .step (hd.kindOf hl.base) ?_
  rw [hform]
  refine .bind (.congr (hd.textOf hl.base) rfl (agree_lift hl _)) (fun s => latches_report _ _) ?_
  rintro s _ _ _ ⟨rfl, rfl, rfl⟩
  exact agree_report hl .name ("Unknown expression " ++ s)

theorem expressionsAgree_succ (heval : ExpressionsAgree c fuel) (hcall : CallsAgree c fuel) :
    ExpressionsAgree c (fuel + 1) := by
  intro places scope hflat
  refine ⟨?_, (latches_all c.functions c.host (fuel + 1)).1⟩
  intro e d m w hl hd
  have hlatch := (latches_all c.functions c.host fuel).1
  cases e with
  | int n => exact agree_literal (v := .int n.value) hl hd
  | bool b => exact agree_literal (v := .bool b) hl hd
  | nil => exact agree_literal (v := .nil) hl hd
  | string s => exact agree_literal (v := .string s.text) hl hd
  | var x =>
    rw [eval_succ]
    exact .step (hd.kindOf hl.base) (agree_variable hl hflat hd)
  | object => exact agree_unknown hl hd rfl
  | method o f args => exact agree_unknown hl hd rfl
  | lambda formals body => exact agree_unknown hl hd rfl
  | unary op e =>
    rw [eval_succ]
    refine .step (hd.kindOf hl.base) ?_
    rw [exprForm_unary]
    obtain ⟨d1, hd1, hcode⟩ := hd.field hl.base "op1" rfl
    refine .step hd1 (.bind ((heval hflat).agree hl hcode) (latches_applyUnary op) ?_)
    intro a va m1 w1 ha
    refine ((unary_outcome ha.fresh.held op).agree ha.linked).mono ?_
    exact fun _ _ _ _ h => ⟨h.linked, ha.grows.trans_same h.grows, h.fresh.of_le ha.grows.size⟩
  | binary op left right =>
    rw [eval_succ]
    refine .step (hd.kindOf hl.base) ?_
    rw [exprForm_binary]
    obtain ⟨d1, hd1, hcode1⟩ := hd.field hl.base "op1" rfl
    refine .step hd1 (.bind ((heval hflat).agree hl hcode1) (fun a => ?_) ?_)
    · exact latches_bind (hlatch right) fun b => latches_applyBinary op a b
    · intro a va m1 w1 ha
      obtain ⟨d2, hd2, hcode2⟩ := hd.field ha.linked.base "op2" rfl
      refine .step hd2 (.bind ((heval hflat).agree ha.linked hcode2)
        (fun b => latches_applyBinary op va b) ?_)
      intro b vb m2 w2 hb
      -- The right operand may assign to variables, but the left value is in none of their nodes.
      have ha' := (ha.fresh.keep hl.lt_size hb.grows).held
      have hgrows := ha.grows.trans_same hb.grows
      refine ((binary_outcome ha' hb.fresh.held hb.linked.base.separate op).agree hb.linked).mono ?_
      exact fun _ _ _ _ h => ⟨h.linked, hgrows.trans_same h.grows, h.fresh.of_le hgrows.size⟩
  | call f args =>
    rw [eval_succ]
    refine .step (hd.kindOf hl.base) ?_
    obtain ⟨ds, hds, hargs⟩ := hd.list_field "args" rfl
    refine .step (hd.text_field hl.base "name" rfl)
      (.step (hargs hl.base) (.bind (hcall hl hflat hds) (fun _ => latches_pure _) ?_))
    intro d v m1 w1 hreturns
    cases hreturns.result with
    | none =>
      refine ((makes_make hreturns.linked.base.separate .nil).agree hreturns.linked).mono ?_
      exact fun _ _ _ _ h =>
        ⟨h.linked, hreturns.grows.trans_same h.grows, h.fresh.of_le hreturns.grows.size⟩
    | some fresh =>
      obtain ⟨ref, rfl, hfresh⟩ := fresh
      exact .pure ⟨hreturns.linked, hreturns.grows, ref, rfl, hfresh⟩

theorem Returns.finishes (h : Returns c (frame :: places) s d v m w)
    (hflat : Flat (frame :: places) scope) : Finishes c frame places s (scope, d) v m w :=
  ⟨⟨frame, hflat, h.linked, h.grows, fun _ hr => .inl hr⟩, h.result⟩

theorem statementForm_binary (op : BinaryOp) : statementForm op.nodeKind = .other := by
  cases op with
  | order o => cases o <;> rfl
  | _ => rfl

theorem statementForm_unary (op : UnaryOp) : statementForm op.nodeKind = .other := by
  cases op <;> rfl

theorem agree_idle (hl : Linked c (frame :: places) m w) (hflat : Flat (frame :: places) scope)
    (hd : c.Code d (.node kind ts)) (hform : statementForm kind = .other) :
    Agree m w (Script.exec .scoped (fuel + 1) d scope) (pure none)
      (Finishes c frame places m.store) := by
  rw [exec_succ]
  refine .step (hd.kindOf hl.base) ?_
  rw [hform]
  exact .pure ⟨⟨frame, hflat, hl, .refl, fun _ hr => .inl hr⟩, .none⟩

theorem agree_branchStatement (hex : Executes c ex ex') (hl : Linked c (frame :: places) m w)
    (hflat : Flat (frame :: places) scope) (hgrows : Grows (frame :: places) s m.store)
    (hd : c.Code d (.list b.trees)) :
    Agree m w (do
        let (_, result) ← Run.block ex (← Run.items d) scope
        return (scope, result))
      (inFrame [] (runBlock ex' b)) (Finishes c frame places s) := by
  obtain ⟨ds, rfl, hds⟩ := hd.eq_list
  refine .step rfl (Agree.map_left (h := fun p => (scope, p.2)) (agree_branch hex hl hflat
    hgrows hds) ?_)
  exact fun _ _ _ _ h => h.finishes hflat

theorem agree_choice (heval : ExpressionsAgree c fuel)
    (hexec : Executes c (Script.exec .scoped fuel) (exec c.functions c.host fuel))
    (hl : Linked c (frame :: places) m w) (hflat : Flat (frame :: places) scope) {body : Block}
    (other : Option Block)
    (hd : c.Code d (choiceTree condition body other)) :
    Agree m w (Script.exec .scoped (fuel + 1) d scope) (do
        if ← conditionTruth "if" (← eval c.functions c.host fuel condition) then
          inFrame [] (runBlock (exec c.functions c.host fuel) body)
        else
          (other.map fun b => inFrame [] (runBlock (exec c.functions c.host fuel) b)).getD
            (pure none))
      (Finishes c frame places m.store) := by
  have hlatch : ∀ go : Bool, Latches
      (if go then inFrame [] (runBlock (exec c.functions c.host fuel) body)
      else (other.map fun b => inFrame [] (runBlock (exec c.functions c.host fuel) b)).getD
        (pure none)) := by
    have hblock := latches_runBlock hexec.latches
    intro go
    cases go <;> cases other <;> simp [hblock]
  rw [exec_succ]
  obtain ⟨d1, hd1, hcode1⟩ := hd.field hl.base "condition" rfl
  refine .step (hd.kindOf hl.base)
    (.step hd1 (.bind ((heval hflat).agree hl hcode1) (fun v => ?_) ?_))
  · exact latches_bind (latches_conditionTruth "if" v) hlatch
  · intro a va m1 w1 ha
    refine .bind (agree_condition ha.linked ha.fresh.held "if") hlatch ?_
    rintro go _ _ _ ⟨rfl, rfl, rfl⟩
    cases go with
    | true =>
      obtain ⟨d2, hd2, hcode2⟩ := hd.field ha.linked.base "statements" rfl
      exact .step rfl (.step hd2 (agree_branchStatement hexec ha.linked hflat ha.grows hcode2))
    | false =>
      obtain ⟨d2, hd2, hcode2⟩ := hd.field ha.linked.base "else_statements" rfl
      refine .step rfl (.step hd2 ?_)
      cases other with
      | none =>
        cases hcode2
        exact .pure (Returns.finishes ⟨ha.linked, ha.grows, .none⟩ hflat)
      | some other =>
        obtain ⟨ds, rfl, hds⟩ := hcode2.eq_list
        exact agree_branchStatement hexec ha.linked hflat ha.grows (.list hds)

theorem executes_succ (heval : ExpressionsAgree c fuel) (hcall : CallsAgree c fuel)
    (hexec : Executes c (Script.exec .scoped fuel) (exec c.functions c.host fuel)) :
    Executes c (Script.exec .scoped (fuel + 1)) (exec c.functions c.host (fuel + 1)) := by
  refine ⟨?_, (latches_all c.functions c.host (fuel + 1)).2.1⟩
  intro st d frame places scope m w hl hflat hd
  have hblock := latches_runBlock hexec.latches
  cases st with
  | assign x e =>
    rw [exec_succ]
    refine .step (hd.kindOf hl.base) ?_
    obtain ⟨d2, hd2, hcode2⟩ := hd.field hl.base "expression" rfl
    have hassign : exec c.functions c.host (fuel + 1) (.assign x e) =
        ((do assign x.text (← eval c.functions c.host fuel e)) >>= fun _ => pure none) :=
      (bind_assoc _ _ _).symm
    rw [hassign]
    refine .step (hd.text_field hl.base "name" rfl) (.step rfl (.step hd2 (.bind
      (agree_assign hl hflat ((heval hflat).agree hl hcode2)) (fun _ => latches_pure _) ?_)))
    exact fun _ _ _ _ h => .pure ⟨h, .none⟩
  | choice condition body => exact agree_choice heval hexec hl hflat none hd
  | choiceElse condition body other => exact agree_choice heval hexec hl hflat (some other) hd
  | loop condition body =>
    rw [exec_succ]
    refine .step (hd.kindOf hl.base) ?_
    rw [← bind_pure (exec c.functions c.host (fuel + 1) (.loop condition body))]
    refine .bind (agree_repeatWhile ?_ (latches_inFrame (hblock body)) ?_ ?_ fuel hl)
      latches_pure ?_
    · exact latches_bind ((heval hflat).latches condition) (latches_conditionTruth "while")
    · intro m w hl
      obtain ⟨d1, hd1, hcode1⟩ := hd.field hl.base "condition" rfl
      refine .step hd1 (.bind ((heval hflat).agree hl hcode1) (latches_conditionTruth "while") ?_)
      intro a va m1 w1 ha
      refine (agree_condition ha.linked ha.fresh.held "while").mono ?_
      rintro _ _ _ _ ⟨rfl, rfl, rfl⟩
      exact ⟨rfl, ha.linked, ha.grows⟩
    · intro m w hl
      obtain ⟨ds, hds, hbody⟩ := hd.list_field "statements" rfl
      refine .step rfl (.step (hbody hl.base) (.step rfl ?_))
      exact Agree.map_left (h := fun p => p.2) (agree_branch hexec hl hflat .refl hds)
        fun _ _ _ _ h => h
    · exact fun _ _ _ _ h => .pure (h.finishes hflat)
  | result e =>
    rw [exec_succ]
    obtain ⟨d1, hd1, hcode1⟩ := hd.field hl.base "expression" rfl
    obtain ⟨ref, rfl⟩ := hcode1.eq_node
    refine .step (hd.kindOf hl.base) (.step hd1 ?_)
    rw [resultValue_node]
    refine .bind ((heval hflat).agree hl hcode1) (fun _ => latches_pure _) ?_
    intro a va m1 w1 ha
    exact .pure (Returns.finishes ⟨ha.linked, ha.grows, .some ha.fresh⟩ hflat)
  | noResult =>
    rw [exec_succ]
    obtain ⟨d1, hd1, hcode1⟩ := hd.field hl.base "expression" rfl
    cases hcode1
    refine .step (hd.kindOf hl.base) (.step hd1 ?_)
    exact Agree.map_left (h := fun d => (scope, d))
      ((makes_make hl.base.separate .nil).returns hl .refl) fun _ _ _ _ h => h.finishes hflat
  | expr e =>
    cases e with
    | call f args =>
      rw [exec_succ]
      obtain ⟨ds, hds, hargs⟩ := hd.list_field "args" rfl
      have hname := hd.text_field hl.base "name" rfl
      refine .step (hd.kindOf hl.base) (.step hname (.step (hargs hl.base) ?_))
      exact Agree.map_left (h := fun d => (scope, d)) (hcall hl hflat hds)
        fun _ _ _ _ h => h.finishes hflat
    | unary op e => exact agree_idle hl hflat hd (statementForm_unary op)
    | binary op left right => exact agree_idle hl hflat hd (statementForm_binary op)
    | _ => exact agree_idle hl hflat hd rfl

/-- The statements of a function's body and of the main function are carried out like others. -/
theorem executes_row (hex : Executes c ex ex') (row : Row) :
    Executes c (row.stepWith .scoped ex) ex' := by
  refine ⟨?_, hex.latches⟩
  intro st d frame places scope m w hl hflat hd
  have hannounce : row.announce .scoped scope m = (.ok (), m) := by cases row <;> rfl
  rw [← bind_pure (ex' st)]
  refine .step hannounce (.bind (hex.agree hl hflat hd) latches_pure ?_)
  rintro ⟨scope', d'⟩ v m' w' ⟨hleaves, hresult⟩
  obtain ⟨frame', hflat', hl', hrest⟩ := hleaves
  have hfinish : row.finish .scoped scope' m' = (.ok (), m') := by
    cases row with
    | block | main => rfl
    | body => exact hl'.untraced _
  exact .step hfinish (.pure ⟨⟨frame', hflat', hl', hrest⟩, hresult⟩)

theorem callsAgree_succ (heval : ExpressionsAgree c fuel)
    (hexec : Executes c (Script.exec .scoped fuel) (exec c.functions c.host fuel)) :
    CallsAgree c (fuel + 1) := by
  intro places scope m w f args ds hl hflat hds
  have hblock := latches_runBlock hexec.latches
  rw [call]
  cases hbuiltin : Builtin.ofName? (.text f.text) with
  | some builtin =>
    rw [call_builtin hbuiltin]
    exact agree_builtin (heval hflat) hl scope hds builtin
  | none =>
    rw [call_own hbuiltin, enterCall, findCalled]
    simp only [bind_assoc]
    refine .step rfl (.bind (agree_arguments (heval hflat) hl hds 0) (fun values => ?_) ?_)
    · split <;> simp [hblock]
    rintro values vs m1 w1 ⟨rs, hpass⟩
    have hlength : values.length = vs.length := by
      rw [hpass.data, List.length_map, hpass.nodes.length_eq]
    have hfunctions : functions m1 = (.ok c.loaded, m1) := by rw [functions, hpass.linked.functions]
    obtain ⟨found, hfound, hrel⟩ := findCallee_apply f.text vs.length c.holds_functions
    rw [← hlength] at hfound
    -- Both sides look for the callee once the arguments have been evaluated.
    cases hcallee : c.functions.find? fun g =>
        g.name.text == f.text && g.formals.length == vs.length with
    | none =>
      rw [hcallee] at hrel
      cases hrel
      rw [← hlength]
      refine .congr ?_ rfl (agree_report hpass.linked .name _)
      rw [bind_apply, chooseCalled, bind_of_ok hfunctions, bind_of_ok (hfound hpass.linked.base)]
      rfl
    | some g =>
      rw [hcallee] at hrel
      cases hrel with
      | @some fd _ hfd =>
        have harity : g.formals.length = rs.length := by
          have hfits := List.find?_some hcallee
          simp only [Bool.and_eq_true, beq_iff_eq] at hfits
          rw [hfits.2, hpass.nodes.length_eq]
        obtain ⟨formals, hformals, hd1⟩ := hfd.list_field "args" rfl
        obtain ⟨body, hbody, hd2⟩ := hfd.list_field "statements" rfl
        have hcount : g.formals.length = values.length := by
          rw [harity, hpass.data, List.length_map]
        have hinner := bindFormals_apply hpass.linked.base hformals hcount scope
        have hflat' := hflat.push.putAll (g.formals.map (·.name.text)) rs
        rw [← hpass.data] at hflat'
        have henter : enterBody scope (.text f.text) fd true values m1 =
            (.ok (.body scope f.text, body,
              Assoc.putAll scope ((g.formals.map (·.name.text)).zip values)), m1) := by
          have hitems : Run.items (.list formals) m1 = (.ok formals, m1) := rfl
          have htitle : nameText (.text f.text) m1 = (.ok f.text, m1) := rfl
          rw [enterBody, bind_of_ok (hd1 hpass.linked.base), bind_of_ok hitems,
            bind_of_ok hinner, if_pos rfl, bind_of_ok htitle, bind_of_ok (hd2 hpass.linked.base)]
          rfl
        have hchoose : chooseCalled .scoped scope (.text f.text) values m1 =
            (.ok (fd, values, true), m1) := by
          rw [chooseCalled, bind_of_ok hfunctions, bind_of_ok (hfound hpass.linked.base)]
          rfl
        refine .step hchoose (.step henter ?_)
        -- Each argument is in a node of its own, which is a place of the new frame from now on.
        have hlinked := hpass.linked.push.bindAll (g.formals.map (·.name.text)) hpass.nodes
          hpass.nodup fun r hr => ⟨Nat.le_trans hl.base.size (hpass.range r hr).1,
            (hpass.range r hr).2, fun hm => Nat.not_le_of_lt (hl.lt_size r hm) (hpass.range r hr).1⟩
        refine Agree.map_left (h := fun p => p.2)
          (agree_inFrame (executes_row hexec (.body scope f.text)) hlinked hflat' hpass.grows
            (fun r hr => ?_) hbody) fun _ _ _ _ h => h
        rcases frameRefs_putAll_subset hr with hm | hm
        · cases hm
        · exact (hpass.range r hm).1

theorem agree_all (c : Setting) (fuel : Nat) :
    ExpressionsAgree c fuel ∧ Executes c (Script.exec .scoped fuel) (exec c.functions c.host fuel) ∧
      CallsAgree c fuel := by
  induction fuel with
  | zero =>
    obtain ⟨heval, hexec, _⟩ := latches_all c.functions c.host 0
    refine ⟨fun _ => ⟨fun hl _ => ?_, heval⟩, ⟨fun hl _ _ => ?_, hexec⟩, fun hl _ _ => ?_⟩
    all_goals exact .throw _ hl.console
  | succ fuel ih =>
    obtain ⟨heval, hexec, hcall⟩ := ih
    exact ⟨expressionsAgree_succ heval hcall, executes_succ heval hcall hexec,
      callsAgree_succ heval hexec⟩

end LangKit.Script.Stacked
