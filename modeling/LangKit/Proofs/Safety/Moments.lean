import LangKit.Proofs.Ast.Texts
import LangKit.Proofs.Safety.Evaluators
import LangKit.Proofs.Scoping.Programs

/-!
# Every moment of a scoped run

What an activity finds when it begins: the code it has to carry out, an intact state and live scopes
whose names share no nodes (`Proper`). An activity that starts another one in such a state passes
all of this on (`Starts.proper`), and the statements of the main function find it too, so it holds
of everything that is under way at any moment of a run: `Running.proper`.
-/

namespace LangKit.Script

open Run Store
open Stacked (Setting Value Held)

variable {d' branch d program : Datum} {kind text : String} {ts : List (String × Tree)}
  {b body : Ast.Block} {statements values inputs ds : List Datum}
  {e condition : Ast.Expr} {scope : Scope} {m m' : Machine} {a : Activity}

variable {c : Setting} {outer : List Scope}

/-! ## Activities -/

inductive IsCode (c : Setting) : Job → Prop
  | eval {scope : Scope} {d : Datum} (code : IsExpr c d) : IsCode c (.eval false scope d)
  | exec {scope : Scope} {d : Datum} (code : IsStmt c d) : IsCode c (.exec scope d)
  | call {scope : Scope} {f : String} {ds : List Datum} (code : ∀ d ∈ ds, IsExpr c d) :
      IsCode c (.call scope (.text f) (.list ds))

/-- An activity that begins as it should, inside of the scopes around it. -/
structure Proper (c : Setting) (outer : List Scope) (a : Activity) : Prop where
  code : IsCode c a.job
  intact : Intact c a.machine
  scopes : Unshared c a.machine.store (a.scope :: outer)

theorem Proper.outcome {a : Activity} (h : Proper c outer a) :
    Halted c (a.outcome .scoped).2 ∧ Later a.machine (a.outcome .scoped).2 ∧
      Unshared c (a.outcome .scoped).2.store ((a.outcome .scoped).1 :: outer) := by
  obtain ⟨fuel, job, m⟩ := a
  obtain ⟨hcode, hm, hs⟩ := h
  obtain ⟨heval, hexec, hcall⟩ := meets_all c fuel
  cases hcode with
  | @eval scope d code =>
    have hs' : Unshared c m.store (scope :: outer) := hs
    have hmeets := heval hm hs' code
    exact ⟨hmeets.ends, hmeets.later, hs'.mono hmeets.later.size⟩
  | @call scope f ds code =>
    have hs' : Unshared c m.store (scope :: outer) := hs
    have hmeets := hcall (f := f) hm hs' code
    exact ⟨hmeets.ends, hmeets.later, hs'.mono hmeets.later.size⟩
  | @exec scope d code =>
    -- Only a statement may leave another scope than it has found.
    have hs' : Unshared c m.store (scope :: outer) := hs
    have hmeets := hexec hm hs' code
    have hends := hmeets.ends
    have hlater := hmeets.later
    unfold Activity.outcome
    dsimp only
    rcases hrun : exec .scoped fuel d scope m with ⟨e | ⟨scope', r⟩, m'⟩
    · rw [hrun] at hends hlater
      exact ⟨hends, hlater, hs'.mono hlater.size⟩
    · rw [hrun] at hends hlater
      obtain ⟨-, -, hs1, -⟩ := hmeets.of_run hrun
      exact ⟨hends, hlater, hs1⟩

/-! ## Reading code -/

theorem code_of_field {name : String} (hd : c.Code d (.node kind ts)) (hm : Intact c m)
    (hname : Assoc.get? name ts = some t) (h : field d name m = (.ok d', m)) : c.Code d' t := by
  obtain ⟨d'', hd'', hcode⟩ := hd.field hm.base name hname
  rw [h] at hd''
  obtain rfl := (ok_inj hd'').1
  exact hcode

theorem eq_of_kindOf (hd : c.Code d (.node kind ts)) (hm : Intact c m)
    (h : kindOf d m = (.ok kind', m)) : kind' = kind := by
  rw [hd.kindOf hm.base] at h
  exact (ok_inj h).1.symm

theorem isStmt_of_items (hd : c.Code d (.list b.trees)) (h : items d m = (.ok statements, m)) :
    ∀ s ∈ statements, IsStmt c s := by
  obtain ⟨ds, hds, hstmts⟩ := items_of_block (m := m) hd
  rw [h] at hds
  obtain rfl := (ok_inj hds).1
  exact hstmts

/-- The code of an expression of a form. -/
inductive FormedExpr (c : Setting) (d : Datum) : ExprForm → Prop
  | literal (v : Value) (short : ∀ k, v = .int k → ∃ s, Text.Decimal.write? k = some s)
      (code : c.Code d v.tree) : FormedExpr c d .literal
  | «variable» : FormedExpr c d .variable
  | unary {op : UnaryOp} (e : Ast.Expr) (code : c.Code d (Ast.Expr.unary op e).tree) :
      FormedExpr c d (.unary op)
  | binary {op : BinaryOp} (left right : Ast.Expr)
      (code : c.Code d (Ast.Expr.binary op left right).tree) : FormedExpr c d (.binary op)
  | call (f : Ast.Name) (args : Ast.Args)
      (code : c.Code d (Ast.Expr.call f args).tree) : FormedExpr c d .call
  | unknown : FormedExpr c d .unknown

/-- The code of a statement of a form. -/
inductive FormedStmt (c : Setting) (d : Datum) : StatementForm → Prop
  | assign (x : Ast.Place) (e : Ast.Expr)
      (code : c.Code d (Ast.Stmt.assign x e).tree) : FormedStmt c d .assign
  | choice (condition : Ast.Expr) (body : Ast.Block) (other : Option Ast.Block)
      (code : c.Code d (Ast.choiceTree condition body other)) : FormedStmt c d .choice
  | loop (condition : Ast.Expr) (body : Ast.Block)
      (code : c.Code d (Ast.Stmt.loop condition body).tree) :
      FormedStmt c d .loop
  | result (value : Option Ast.Expr)
      (code : c.Code d (.node "return" [("expression", (value.map Ast.Expr.tree).getD .null)])) :
      FormedStmt c d .return
  | call (f : Ast.Name) (args : Ast.Args)
      (code : c.Code d (Ast.Expr.call f args).tree) : FormedStmt c d .call
  | other : FormedStmt c d .other

theorem IsExpression.code (h : IsExpression .scoped m d form) (hm : Intact c m)
    (hd : IsExpr c d) : FormedExpr c d form := by
  obtain ⟨e, hd⟩ := hd
  obtain ⟨kind, hkind, rfl⟩ := h
  have hcode {kind' : String} {ts : List (String × Tree)} (hd : c.Code d (.node kind' ts))
      (h : FormedExpr c d (Dialect.scoped.exprForm kind')) :
      FormedExpr c d (Dialect.scoped.exprForm kind) :=
    eq_of_kindOf hd hm hkind ▸ h
  cases e with
  | int n =>
    refine hcode hd (.literal (.int n.value) (fun k hk => ?_) hd)
    cases hk
    exact n.exists_write
  | bool b => exact hcode hd (.literal (.bool b) nofun hd)
  | nil => exact hcode hd (.literal .nil nofun hd)
  | string s => exact hcode hd (.literal (.string _) nofun hd)
  | var x => exact hcode hd .variable
  | unary op e => exact hcode hd (Stacked.exprForm_unary op ▸ .unary e hd)
  | binary op left right => exact hcode hd (Stacked.exprForm_binary op ▸ .binary left right hd)
  | call f args => exact hcode hd (.call f args hd)
  | object | method | lambda => exact hcode hd .unknown

theorem IsStatement.code (h : IsStatement m d form) (hm : Intact c m) (hd : IsStmt c d) :
    FormedStmt c d form := by
  obtain ⟨s, hd⟩ := hd
  obtain ⟨kind, hkind, rfl⟩ := h
  have hcode {kind' : String} {ts : List (String × Tree)} (hd : c.Code d (.node kind' ts))
      (h : FormedStmt c d (statementForm kind')) : FormedStmt c d (statementForm kind) :=
    eq_of_kindOf hd hm hkind ▸ h
  cases s with
  | assign x e => exact hcode hd (.assign x e hd)
  | choice condition body => exact hcode hd (.choice condition body none hd)
  | choiceElse condition body other => exact hcode hd (.choice condition body (some other) hd)
  | loop condition body => exact hcode hd (.loop condition body hd)
  | result e => exact hcode hd (.result (some e) hd)
  | noResult => exact hcode hd (.result none hd)
  | expr e =>
    cases e with
    | call f args => exact hcode hd (.call f args hd)
    | unary op e => exact hcode hd (Stacked.statementForm_unary op ▸ .other)
    | binary op left right => exact hcode hd (Stacked.statementForm_binary op ▸ .other)
    | _ => exact hcode hd .other

theorem isCode_of_call {f : Ast.Name} {args : Ast.Args} {name list : Datum} (hm : Intact c m)
    (hd : c.Code d (Ast.Expr.call f args).tree)
    (hname : field d "name" m = (.ok name, m)) (hlist : field d "args" m = (.ok list, m)) :
    IsCode c (.call scope name list) := by
  obtain rfl := (code_of_field hd hm rfl hname).eq_text
  obtain ⟨ds, rfl, hds⟩ := (code_of_field hd hm rfl hlist).eq_list
  exact .call (isExpr_of_args hds)

theorem isStmt_of_branch {other : Option Ast.Block} {go : Bool} (hm : Intact c m)
    (hd : c.Code d (Ast.choiceTree condition body other))
    (chosen : field d (if go then "statements" else "else_statements") m = (.ok branch, m))
    (row : items branch m = (.ok statements, m)) : ∀ s ∈ statements, IsStmt c s := by
  cases go with
  | true => exact isStmt_of_items (code_of_field hd hm rfl chosen) row
  | false =>
    cases other with
    | some b => exact isStmt_of_items (code_of_field hd hm rfl chosen) row
    | none =>
      have hnull : c.Code branch .null := code_of_field hd hm rfl chosen
      cases hnull
      cases row

/-! ## Starts -/

section

variable {fuel : Nat}

theorem intact_of_line {line line' : String} (hm : Intact c m)
    (hs : Unshared c m.store (scope :: outer)) (hds : ∀ d ∈ ds, IsExpr c d)
    (h : outputLine (eval .scoped fuel false scope) ds line m = (.ok line', m')) :
    Intact c m' ∧ Later m m' := by
  have hline : Meets c m (outputLine (eval .scoped fuel false scope) ds line) (fun _ _ => True)
      fun _ => True := by
    refine meets_line hm (fun d m1 hpiece hm1 hl => ?_) (fun _ _ _ _ _ _ _ => trivial)
      fun _ _ _ _ _ _ _ _ _ => trivial
    obtain ⟨front, back, _, rfl, -⟩ := hpiece
    have hd : IsExpr c d := hds d (by simp)
    exact ((meets_all c fuel).1 hm1 (hs.mono hl.size) hd).blame fun _ _ => trivial
  obtain ⟨hm', hl, -⟩ := hline.of_run h
  exact ⟨hm', hl⟩

theorem intact_of_arguments (hm : Intact c m) (hs : Unshared c m.store (scope :: outer))
    (hds : ∀ d ∈ ds, IsExpr c d)
    (h : argValues .scoped (argument .scoped fuel scope) none 0 ds m = (.ok values, m')) :
    Intact c m' ∧ Later m m' := by
  have hvalues : Meets c m (argValues .scoped (argument .scoped fuel scope) none 0 ds)
      (fun values m' => NewNodes m.store m'.store values ∧
        values.length = ds.length) fun _ => True := by
    refine meets_arguments hm fun d m1 hpassed hm1 hl => ?_
    obtain ⟨front, back, _, rfl, -⟩ := hpassed
    have hd : IsExpr c d := hds d (by simp)
    exact ((meets_all c fuel).1 hm1 (hs.mono hl.size) hd).blame fun _ _ => trivial
  obtain ⟨hm', hl, -⟩ := hvalues.of_run h
  exact ⟨hm', hl⟩

end

theorem Rounds.intact
    (h : Rounds (loopTest .scoped fuel scope d) (loopBody .scoped fuel scope d) n m m')
    (hd : c.Code d (Ast.Stmt.loop condition body).tree)
    (hm : Intact c m) (hs : Unshared c m.store (scope :: outer)) : Intact c m' ∧ Later m m' := by
  obtain ⟨heval, hexec, -⟩ := meets_all c fuel
  induction h with
  | first => exact ⟨hm, .refl _⟩
  | next go round _ ih =>
    have htest := meets_loopTest (E := fun _ => True) hd heval hm hs fun _ _ _ _ => trivial
    obtain ⟨hm1, hl1, -⟩ := htest.of_run go
    have hs1 := hs.mono hl1.size
    have hbody := meets_loopBody (E := fun _ => True) hd hexec hm1 hs1
      fun _ _ _ _ _ _ _ _ _ _ => trivial
    obtain ⟨hm2, hl2, -⟩ := hbody.of_run round
    obtain ⟨hm', hl'⟩ := ih hm2 (hs1.mono hl2.size)
    exact ⟨hm', (hl1.trans hl2).trans hl'⟩

theorem Starts.proper {b : Activity} (h : Starts .scoped a b) (ha : Proper c outer a) :
    Proper c (a.scope :: outer) b ∧ Later a.machine b.machine := by
  obtain ⟨hcode, hm, hs⟩ := ha
  cases h with
  | left form operand =>
    cases hcode with
    | eval code =>
      have .binary e1 e2 hd := form.code hm code
      exact ⟨⟨.eval ⟨e1, code_of_field hd hm rfl operand⟩, hm, hs.push⟩, .refl _⟩
  | @right m node op d1 fuel scope m1 a d2 byRef form first left operand =>
    cases hcode with
    | eval code =>
      have .binary e1 e2 hd := form.code hm code
      -- The left operand may have run any code, but the nodes of the program are still the same.
      have hfirst : IsExpr c d1 := ⟨e1, code_of_field hd hm rfl first⟩
      obtain ⟨hm1, hl, -⟩ := ((meets_all c fuel).1 hm hs hfirst).of_run left
      exact ⟨⟨.eval ⟨e2, code_of_field hd hm1 rfl operand⟩, hm1, hs.push.mono hl.size⟩, hl⟩
  | operand form operand =>
    cases hcode with
    | eval code =>
      have .unary e hd := form.code hm code
      exact ⟨⟨.eval ⟨e, code_of_field hd hm rfl operand⟩, hm, hs.push⟩, .refl _⟩
  | invoke form called given =>
    cases hcode with
    | eval code =>
      have .call f args hd := form.code hm code
      exact ⟨⟨isCode_of_call hm hd called given, hm, hs.push⟩, .refl _⟩
  | invokeMember form =>
    cases hcode with
    | eval code =>
      -- No expression has this form in the scoped dialect.
      cases form.code hm code
  | assigned form called spelled right =>
    cases hcode with
    | exec code =>
      have .assign x e hd := form.code hm code
      exact ⟨⟨.eval ⟨e, code_of_field hd hm rfl right⟩, hm, hs.push⟩, .refl _⟩
  | condition form asked =>
    cases hcode with
    | exec code =>
      have .choice e b other hd := form.code hm code
      exact ⟨⟨.eval ⟨e, code_of_field hd hm rfl asked⟩, hm, hs.push⟩, .refl _⟩
  | @branch m node d fuel scope m1 value m2 go block statements s scope' m3 form asked answer truth
      chosen row reached =>
    cases hcode with
    | exec code =>
      obtain ⟨heval, hexec, -⟩ := meets_all c fuel
      have .choice e b other hd := form.code hm code
      have hcondition : IsExpr c d := ⟨e, code_of_field hd hm rfl asked⟩
      obtain ⟨hm1, hl, hnew⟩ := (heval hm hs hcondition).of_run answer
      obtain ⟨v, hv⟩ := hnew.held hm1 hm.base.size
      obtain ⟨-, -, rfl⟩ := (meets_condition (E := fun _ => True) hv hm1 "if").of_run truth
      have hrow := isStmt_of_branch hm1 hd chosen row
      rw [← Row.step_block] at reached
      obtain ⟨hm3, hs3, hl3, hstmt⟩ := reached.intact hexec hm1 (hs.push.mono hl.size) hrow
      exact ⟨⟨.exec hstmt, hm3, hs3⟩, hl.trans hl3⟩
  | @test m node fuel scope m1 d form rounds asked =>
    cases hcode with
    | exec code =>
      have .loop e b hd := form.code hm code
      obtain ⟨hm1, hl⟩ := rounds.intact hd hm hs
      exact ⟨⟨.eval ⟨e, code_of_field hd hm1 rfl asked⟩, hm1, hs.push.mono hl.size⟩, hl⟩
  | @round m node fuel scope m1 m2 block statements s scope' m3 form rounds go repeated
      row reached =>
    cases hcode with
    | exec code =>
      obtain ⟨heval, hexec, -⟩ := meets_all c fuel
      have .loop e b hd := form.code hm code
      obtain ⟨hm1, hl1⟩ := rounds.intact hd hm hs
      have htest := meets_loopTest (E := fun _ => True) hd heval hm1 (hs.mono hl1.size)
        fun _ _ _ _ => trivial
      obtain ⟨hm2, hl2, -⟩ := htest.of_run go
      have hrow := isStmt_of_items (code_of_field hd hm2 rfl repeated) row
      rw [← Row.step_block] at reached
      have hl := hl1.trans hl2
      obtain ⟨hm3, hs3, hl3, hstmt⟩ := reached.intact hexec hm2 (hs.push.mono hl.size) hrow
      exact ⟨⟨.exec hstmt, hm3, hs3⟩, hl.trans hl3⟩
  | result form right given =>
    cases hcode with
    | exec code =>
      have .result value hd := form.code hm code
      have hright := code_of_field hd hm rfl right
      cases value with
      | some e => exact ⟨⟨.eval ⟨e, hright⟩, hm, hs.push⟩, .refl _⟩
      | none =>
        -- Without a value nothing is started.
        cases hright
        exact absurd rfl given
  | perform form called given =>
    cases hcode with
    | exec code =>
      have .call f args hd := form.code hm code
      exact ⟨⟨isCode_of_call hm hd called given, hm, hs.push⟩, .refl _⟩
  | prompt known reads row =>
    cases hcode with
    | call code =>
      obtain ⟨hds, -⟩ := pure_eq_ok.1 row
      subst hds
      exact ⟨⟨.eval (code _ List.mem_cons_self), hm, hs.push⟩, .refl _⟩
  | @piece name scope args m m1 before arg after fuel m2 line known header row earlier =>
    cases hcode with
    | call code =>
      obtain ⟨hm1, hl1, -⟩ := (meets_printHeader (E := fun _ => True) hm scope _).of_run header
      obtain ⟨rfl⟩ := (ok_inj row).1
      obtain ⟨hm2, hl2⟩ := intact_of_line hm1 (hs.mono hl1.size)
        (fun d hd => code d (by simp [hd])) earlier
      have hl := hl1.trans hl2
      exact ⟨⟨.eval (code arg (by simp)), hm2, hs.push.mono hl.size⟩, hl⟩
  | @argument name args m before arg after fuel scope m1 values own row earlier =>
    cases hcode with
    | call code =>
      obtain ⟨rfl⟩ := (ok_inj row).1
      obtain ⟨hm1, hl⟩ := intact_of_arguments hm hs (fun d hd => code d (by simp [hd])) earlier
      exact ⟨⟨.eval (code arg (by simp)), hm1, hs.push.mono hl.size⟩, hl⟩
  | pass own closures => cases closures
  | @body name fuel scope args m m1 row statements inner s scope' m2 m3 own entered
      reached announced =>
    cases hcode with
    | call code =>
      obtain ⟨heval, hexec, -⟩ := meets_all c fuel
      -- The body has a scope of its own, inside of that of the caller.
      obtain ⟨hm1, hl1, hstmts, hinner⟩ := (meets_enterCall heval hm hs code own).of_run entered
      obtain ⟨hm2, hs2, hl2, hstmt⟩ := reached.intact hexec hm1 hinner hstmts
      rw [announce_scoped] at announced
      obtain ⟨-, rfl⟩ := Prod.mk.inj announced
      exact ⟨⟨.exec hstmt, hm2, hs2⟩, hl1.trans hl2⟩

/-! ## The main function -/

/-- Finds the statements of the main function of a program without parsing its text. -/
def enterTree (p : Ast.Program) : Run (List Datum) := do
  let program ← (fun m => (.ok (m.store.load p.tree).1,
    { m with store := (m.store.load p.tree).2, reader := m.reader.after p.text }) : Run Datum)
  let functions ← items (← field program "functions")
  modify fun ⟨store, console, _, _, contexts, reader⟩ => ⟨store, console, functions, [],
    contexts, reader⟩
  enterLoaded functions

theorem enterMain_text (p : Ast.Program) : enterMain p.text = enterTree p := by
  have hload : loadProgram p.text = (fun m => (.ok (m.store.load p.tree).1,
      { m with store := (m.store.load p.tree).2, reader := m.reader.after p.text })) := by
    funext m
    rw [loadProgram_apply (Ast.parseProgram_of_text p), String.append_empty]
  rw [enterMain, hload]
  rfl

theorem meets_enterLoaded {E : Fault → Prop} (hm : Intact c m) :
    Meets c m (enterLoaded c.loaded) (fun statements _ => ∀ s ∈ statements, IsStmt c s) E := by
  obtain ⟨main, hmain, hcase⟩ := Stacked.findMain_apply hm.base c.holds_functions
  refine .step hmain ((meets_traced hm).bind fun _ m1 _ hm1 _ _ => ?_)
  generalize c.functions.find? (fun f => f.name.text == "main") = found at hcase
  cases hcase with
  | none => exact meets_report hm1 .name _
  | some body statements => exact .step (statements hm1.base) (.pure hm1 (isStmt_of_block body))

/-- The state in which the statements of a program's main function are looked for. -/
structure Loaded (text : String) (m : Machine) (c : Setting) (m' : Machine) : Prop where
  intact : Intact c m'
  later : Later m m'
  globals : m'.globals = []
  enter : enterMain text m = enterLoaded c.loaded m'

theorem exists_loaded_program (p : Ast.Program) {printed : String}
    (hparse : parseProgram text = (.ok p.tree, printed)) (hsep : m.store.Separate)
    (hinputs : ∀ d ∈ inputs, ∃ t, Holds m.store m.store.size d t) :
    ∃ c m', Loaded text m c m' ∧ c.functions = p.functions ∧ c.inputs = inputs ∧
      m'.console.inputs = m.console.inputs ∧ c.base = (m.store.load p.tree).2 ∧
      ∃ ref < c.base.size, (m.store.load p.tree).1 = .node ref ∧
        c.base.field? ref "functions" = some (.list c.loaded) := by
  have hload := loadProgram_apply hparse m
  obtain ⟨hextends, hcode⟩ := holds_load p.tree hsep
  obtain ⟨c, hp, -, hbase, hin, ref, hnode, hfunctions⟩ := Stacked.exists_setting p hsep hinputs
  rw [hnode, ← hbase] at hcode
  rw [← hbase] at hextends
  rw [← hbase] at hload
  refine ⟨c, { m with
    store := c.base
    console := { m.console with printed := m.console.printed ++ printed }
    functions := c.loaded
    globals := []
    reader := m.reader.after text }, ⟨⟨.refl hextends.separate, rfl, ?_⟩, ?_, rfl, ?_⟩, hp, hin,
      rfl, hbase, ref, ?_, hnode, hfunctions⟩
  · -- At this point there are no nodes but those of the program and the inputs.
    intro r hlow hhigh
    dsimp only at hhigh
    omega
  · exact ⟨hextends.size, fun h => h.congr rfl rfl rfl, fun h => h.congr rfl rfl rfl⟩
  · rw [enterMain, bind_of_ok hload, hnode, bind_of_ok (field_apply hfunctions)]
    rfl
  · cases hcode with
    | node lt => exact lt

theorem exists_loaded {loaded : Machine} (h : loadProgram text m = (.ok program, loaded))
    (hsep : m.store.Separate) :
    ∃ c m', Loaded text m c m' ∧ c.base = loaded.store ∧
      ∃ ref < c.base.size, program = .node ref ∧
        c.base.field? ref "functions" = some (.list c.loaded) := by
  obtain ⟨t, printed, hparse, hprogram, hloaded⟩ := eq_of_loadProgram h
  obtain ⟨p, rfl⟩ := Ast.exists_program_of_parse hparse
  have hnone : ∀ d ∈ ([] : List Datum), ∃ t, Holds m.store m.store.size d t := nofun
  obtain ⟨c, m', hl, -, -, -, hbase, ref, hlt, hnode, hfunctions⟩ :=
    exists_loaded_program p hparse hsep hnone
  exact ⟨c, m', hl, by rw [hloaded, hbase], ref, hlt, hprogram.trans hnode, hfunctions⟩

variable {m0 : Machine}

theorem MainStarts.proper (h : MainStarts .scoped limit text m a) (hl : Loaded text m c m0) :
    Proper c [] a ∧ Later m a.machine := by
  cases h with
  | @statement m1 statements s scope m2 m3 entered reached announced =>
    rw [hl.enter] at entered
    obtain ⟨hm1, hl1, hstmts⟩ := (meets_enterLoaded (E := fun _ => True) hl.intact).of_run entered
    obtain ⟨hm2, hs2, hl2, hstmt⟩ :=
      reached.intact (meets_all c limit).2.1 hm1 (unshared_nil c m1.store) hstmts
    rw [announce_scoped] at announced
    obtain ⟨-, rfl⟩ := Prod.mk.inj announced
    exact ⟨⟨.exec hstmt, hm2, hs2⟩, (hl.later.trans hl1).trans hl2⟩

/-- Everything that is under way in a run has begun as it should. -/
theorem Running.proper {a : Activity} (h : Running .scoped limit text m (a :: rest))
    (hl : Loaded text m c m0) : Proper c (rest.map Activity.scope) a ∧ Later m a.machine := by
  generalize hrow : a :: rest = row at h
  induction h generalizing a rest with
  | main starts =>
    cases hrow
    exact starts.proper hl
  | inner outer starts ih =>
    cases hrow
    obtain ⟨hproper, hlater⟩ := ih rfl
    obtain ⟨hproper', hlater'⟩ := starts.proper hproper
    exact ⟨hproper', hlater.trans hlater'⟩

/-- At every moment of a run the program is as it was loaded, all other nodes are well typed, and
the names of the live scopes share no nodes. -/
theorem Moment.halted {scopes : List Scope}
    {m' : Machine} (h : Moment .scoped limit text m scopes m') (hl : Loaded text m c m0) :
    Halted c m' ∧ Unshared c m'.store scopes := by
  cases h with
  | begins running =>
    obtain ⟨hproper, -⟩ := running.proper hl
    exact ⟨hproper.intact.halted, hproper.scopes⟩
  | ends running =>
    obtain ⟨hproper, -⟩ := running.proper hl
    obtain ⟨hhalted, -, hscopes⟩ := hproper.outcome
    exact ⟨hhalted, hscopes⟩

theorem Blames.exists_mishap (h : Blames a f)
    (ha : Running .scoped limit text m (a :: rest)) :
    ∃ b rest', Running .scoped limit text m (b :: rest') ∧ Mishap b f := by
  induction h generalizing rest with
  | here mishap => exact ⟨_, rest, ha, mishap⟩
  | inner starts _ ih => exact ih (.inner ha starts)

end LangKit.Script
