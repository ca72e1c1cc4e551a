import LangKit.Proofs.Extension.Programs

/-!
# The scoped dialect extends the straight-line dialect

A program is straight if its main function only assigns and prints, and only numbers, texts,
variables, sums, differences and the input of numbers occur there. If the run of such a program ends
well in the straight-line dialect, it does so in the scoped dialect, with the same output, the same
inputs used, and the same values of the same variables (`runProgram_scoped_of_straightLine`).

The first run binds a name anew whenever it is assigned; the second one changes the node of a bound
name. So the nodes of a variable do not go together for long. What stays is that the nodes that do
hold the same number or the same text, and that the second run has a node of its own for each name
(`Beside`).
-/

namespace LangKit.Script.Ast

mutual

/-- Is an expression made of numbers, texts, variables, sums, differences and the input of
numbers? -/
def Expr.isStraight : Expr → Bool
  | .int _ | .string _ | .var _ => true
  | .binary .add left right | .binary .subtract left right => left.isStraight && right.isStraight
  | .call f args => f.text == "inputi" && args.isStraight
  | _ => false

def Args.isStraight : Args → Bool
  | .nil => true
  | .cons e rest => e.isStraight && rest.isStraight

end

def Stmt.isStraight : Stmt → Bool
  | .assign _ e => e.isStraight
  | .expr (.call f args) => f.text == "print" && args.isStraight
  | _ => false

def Block.isStraight : Block → Bool
  | .last s => s.isStraight
  | .cons s rest => s.isStraight && rest.isStraight

def Program.isStraight (p : Program) : Bool :=
  (p.functions.find? fun f => f.name.text == "main").all fun f => f.body.isStraight

end LangKit.Script.Ast

namespace LangKit.Script.Extension

open Run Store
open Stacked (Setting Value Held)

variable {v : Value} {x line text : String} {r r' : Nat} {P : Value → Prop} {d a b a' b' z : Datum}
  {op : BinaryOp} {scope scope' : Scope} {statements ds : List Datum} {c : Setting}

/-! ## States -/

/-- The values of the straight-line dialect. -/
inductive IsPlain : Value → Prop
  | int (k : Int) : IsPlain (.int k)
  | string (s : String) : IsPlain (.string s)

theorem IsPlain.exists_contents (h : IsPlain v) : ∃ z, v.contents? = some z := by
  cases h <;> exact ⟨_, rfl⟩

/-- Two nodes hold the same number or the same text. -/
def SameValue (s s' : Store) (d d' : Datum) : Prop :=
  ∃ v, IsPlain v ∧ Held s d v ∧ Held s' d' v

/-- The states of the two runs. The second one has its variables in a scope, each in a node of its
own. -/
structure Beside (c : Setting) (R : Pairs) (scope : Scope) (m n : Machine) : Prop where
  link : Linked IsPlain c R m n
  scopes : SameScope R m.globals scope
  nodup : (scope.map (·.2)).Nodup

/-- Only assignments change the variables of the straight-line dialect. -/
instance (globals : Scope) : Inherits (Preserves fun m => m.globals = globals) :=
  inherits_preserves fun _ _ _ hm => hm

section

variable {R R1 : Pairs} {m n m1 n1 : Machine}

theorem SameScope.later {α : Type} {x : Run α}
    [∀ globals, Has (Preserves fun m => m.globals = globals) x] {r : Except Stop α}
    (h : SameScope R m.globals scope) (hR : R ≤ R1) (hx : x m = (r, m1)) :
    SameScope R1 m1.globals scope := by
  have hglobals : m1.globals = m.globals :=
    Has.preserved (I := fun m' => m'.globals = m.globals) rfl hx
  rw [hglobals]
  exact h.mono hR

theorem Follows.prints_after {α β : Type} {x : Run α} {y : Run β} {t : Run Unit}
    {Q : Pairs → α → β → Prop} [Has OnlyPrints t] (h : Follows P c R m n x y Q) :
    Follows P c R m n (do let a ← x; t; return a) y Q := by
  have hboth : Follows P c R m n (do let a ← x; t; return a) (y >>= Pure.pure) Q :=
    h.bind fun a b m1 n1 R1 _ _ ho hq => .prints_left fun printed =>
      .pure (ho.link.printed_left printed) hq
  rwa [bind_pure] at hboth

/-! ## Expressions -/

theorem follows_variable (hl : Linked IsPlain c R m n) (hs : SameScope R m.globals scope)
    (hd : c.Code d (.node "var" [("name", .text x)])) :
    Follows IsPlain c R m n (StraightLine.variableValue d) (variableValue .scoped false scope d)
      (NewPair m.store.size) := by
  refine .step (hd.text_field? hl.left.base "name" rfl) (hd.text_field? hl.right.base "name" rfl) ?_
  dsimp only [Option.getD_some, Scope.value?]
  have hglobals : StraightLine.globals m = (.ok m.globals, m) := rfl
  have hrel := hs.get? x
  generalize hget : Assoc.get? x m.globals = v, Assoc.get? x scope = v' at hrel
  cases hrel with
  | none =>
    refine forward_report (?_ : _ = report .name ("Variable " ++ x ++ " has not been defined") m)
    rw [bind_of_ok hglobals, hget]
    rfl
  | some hpair =>
    obtain ⟨u, hu, hheld, hheld'⟩ := hl.held hpair
    cases hpair with
    | node pair =>
      refine (forward_copy hl hu hheld hheld').congr ?_ rfl
      rw [bind_of_ok hglobals, hget]

theorem exists_ints (ha : Held m.store a va) (hb : Held m.store b vb) (hva : IsPlain va)
    (hvb : IsPlain vb) (h : StraightLine.refuseTexts op a b m = (.ok (), m1)) :
    m1 = m ∧ ∃ x y, va = .int x ∧ vb = .int y := by
  rw [StraightLine.refuseTexts, bind_of_ok ha.kindOf] at h
  cases hva with
  | string s => cases h
  | int x =>
    change (do if (← kindOf b) == "string" then misfit op.title : Run Unit) m = _ at h
    rw [bind_of_ok hb.kindOf] at h
    cases hvb with
    | string s => cases h
    | int y =>
      obtain ⟨-, rfl⟩ := pure_eq_ok.1 h
      exact ⟨rfl, x, y, rfl, rfl⟩

theorem follows_arithmetic (hl : Linked IsPlain c R m n) {f : Datum → Datum → Except Fault Datum}
    {g : Int → Int → Int} (hf : ∀ x y, f (.int x) (.int y) = .ok (.int (g x y)))
    (hop : ∀ {a b : Datum} {x y : Int}, Held n.store a (.int x) → Held n.store b (.int y) →
      applyBinary .scoped op a b n = amend f a b n) (ha : Paired R a a') (hb : Paired R b b') :
    Follows IsPlain c R m n (do StraightLine.refuseTexts op a b; amend f a b)
      (applyBinary .scoped op a' b') (NewPair m.store.size) := by
  obtain ⟨va, hva, ha, ha'⟩ := hl.held ha
  obtain ⟨vb, hvb, hb, hb'⟩ := hl.held hb
  intro r m1 hr
  obtain ⟨_, m2, hrefuse, hamend⟩ := bind_eq_ok.1 hr
  obtain ⟨rfl, x, y, rfl, rfl⟩ := exists_ints ha hb hva hvb hrefuse
  have hnew : Follows IsPlain c R m2 n (amend f a b) (applyBinary .scoped op a' b')
      (NewPair m2.store.size) := by
    refine (forward_make hl (.int (g x y))).congr ?_ ?_
    · exact Stacked.amend_apply ha hb hl.left.base.separate rfl rfl (hf x y) rfl
    · rw [hop ha' hb']
      exact Stacked.amend_apply (v := .int (g x y)) ha' hb' hl.right.base.separate rfl
        rfl (hf x y) rfl
  exact hnew r m1 hamend

theorem follows_add (hl : Linked IsPlain c R m n) (ha : Paired R a a') (hb : Paired R b b') :
    Follows IsPlain c R m n (StraightLine.add a b) (applyBinary .scoped .add a' b')
      (NewPair m.store.size) := by
  -- The variables are shown before the sum is made and after that.
  have hadd : StraightLine.add a b = (do
      StraightLine.trace "add - "
      let r ← (do StraightLine.refuseTexts .add a b; amend Datum.add a b)
      StraightLine.trace "add end - "
      return r) := by
    simp only [StraightLine.add, bind_assoc]
  rw [hadd]
  refine .prints_left fun printed => .prints_after ?_
  refine follows_arithmetic (hl.printed_left printed) (g := (· + ·))
    (fun _ _ => rfl) (fun hx hy => ?_) ha hb
  rw [applyBinary, bind_of_ok (Stacked.bothTexts_apply hx hy)]
  exact bind_of_ok (Stacked.require2_apply hx hy _ _)

theorem follows_subtract (hl : Linked IsPlain c R m n) (ha : Paired R a a') (hb : Paired R b b') :
    Follows IsPlain c R m n (StraightLine.subtract a b) (applyBinary .scoped .subtract a' b')
      (NewPair m.store.size) := by
  refine follows_arithmetic hl (g := (· - ·)) (fun _ _ => rfl) (fun hx hy => ?_) ha hb
  exact bind_of_ok (Stacked.require2_apply hx hy _ _)

/-- The expressions of the straight-line dialect have the same value in both runs. -/
def EvalFollows (c : Setting) (scope : Scope) (fuel : Nat) : Prop :=
  ∀ {R : Pairs} {m n : Machine} {d : Datum} {e : Ast.Expr}, Linked IsPlain c R m n →
    SameScope R m.globals scope → c.Code d e.tree → e.isStraight = true →
    Follows IsPlain c R m n (StraightLine.eval fuel d) (eval .scoped fuel false scope d)
      (NewPair m.store.size)

variable {fuel : Nat}

theorem follows_operands {f : Datum → Datum → Run Datum}
    {left right : Ast.Expr} (hev : EvalFollows c scope fuel)
    (hf : ∀ {R : Pairs} {m n : Machine} {a b a' b' : Datum}, Linked IsPlain c R m n →
      Paired R a a' →
      Paired R b b' → Follows IsPlain c R m n (f a b) (applyBinary .scoped op a' b')
        (NewPair m.store.size))
    (hl : Linked IsPlain c R m n) (hs : SameScope R m.globals scope)
    (hd : c.Code d (Ast.Expr.binary op left right).tree) (hleft : left.isStraight = true)
    (hright : right.isStraight = true) :
    Follows IsPlain c R m n
      (do
        let a ← StraightLine.eval fuel (← field d "op1")
        let b ← StraightLine.eval fuel (← field d "op2")
        f a b)
      (do
        let a ← eval .scoped fuel false scope (← field d "op1")
        let b ← eval .scoped fuel false scope (← field d "op2")
        applyBinary .scoped op a b) (NewPair m.store.size) := by
  obtain ⟨d1, hd1, hd1', hcode1⟩ := hl.field hd "op1" rfl
  refine .step hd1 hd1' ((hev hl hs hcode1 hleft).bind fun a a' m1 n1 R1 ha _ ho haa => ?_)
  obtain ⟨d2, hd2, hd2', hcode2⟩ := ho.link.field hd "op2" rfl
  have hs1 := hs.later ho.pairs ha
  refine .step hd2 hd2' ((hev ho.link hs1 hcode2 hright).bind fun b b' m2 n2 R2 _ _ ho2 hbb => ?_)
  exact (hf ho2.link (haa.paired.mono ho2.pairs) hbb.paired).mono
    fun _ _ _ h => h.mono (ho.trans ho2).size

theorem follows_inputi (hev : EvalFollows c scope fuel) (hl : Linked IsPlain c R m n)
    (hs : SameScope R m.globals scope)
    (hds : ∀ d ∈ ds, ∃ e : Ast.Expr, c.Code d e.tree ∧ e.isStraight = true) :
    Follows IsPlain c R m n (StraightLine.call (fuel + 1) (.text "inputi") (.list ds))
      (call .scoped (fuel + 1) scope (.text "inputi") (.list ds)) (NewPair m.store.size) := by
  have hprompt := forward_prompt hl "inputi" fun arg (harg : ds = [arg]) => by
    obtain ⟨e, hd, he⟩ := hds arg (by simp [harg])
    exact hev hl hs hd he
  refine (hprompt.bind fun _ _ m1 n1 R1 _ _ ho _ => ?_).congr rfl rfl
  exact (forward_readInt ho.link .int).mono fun _ _ _ h => h.mono ho.size

theorem follows_literal (hl : Linked IsPlain c R m n) (hv : IsPlain v) (hd : c.Code d v.tree) :
    Follows IsPlain c R m n (StraightLine.eval (fuel + 1) d) (eval .scoped (fuel + 1) false scope d)
      (NewPair m.store.size) := by
  have hcopy := forward_copy hl hv (hd.literal hl.left.base) (hd.literal hl.right.base)
  rw [StraightLine.eval, eval]
  cases hv <;> exact .step (hd.kindOf hl.left.base) (hd.kindOf hl.right.base) hcopy

theorem follows_eval (c : Setting) (scope : Scope) (fuel : Nat) : EvalFollows c scope fuel := by
  -- A call takes two levels, one as an expression and one of its own.
  induction fuel using Nat.strongRecOn with
  | ind fuel ih =>
    intro R m n d e hl hs hd he
    cases fuel with
    | zero => exact .of_error rfl
    | succ fuel =>
      cases e with
      | int k => exact follows_literal hl (.int k.value) hd
      | string s => exact follows_literal hl (.string s.text) hd
      | var x =>
        exact (follows_variable hl hs hd).congr (bind_of_ok (hd.kindOf hl.left.base))
          (eval_variable ⟨_, hd.kindOf hl.right.base, rfl⟩)
      | binary op left right =>
        have hev : EvalFollows c scope fuel := ih fuel (Nat.lt_succ_self fuel)
        cases op with
        | add =>
          simp only [Ast.Expr.isStraight, Bool.and_eq_true] at he
          exact (follows_operands hev (fun hl => follows_add hl) hl hs hd he.1 he.2).congr
            (bind_of_ok (hd.kindOf hl.left.base)) (eval_binary ⟨_, hd.kindOf hl.right.base, rfl⟩)
        | subtract =>
          simp only [Ast.Expr.isStraight, Bool.and_eq_true] at he
          exact (follows_operands hev (fun hl => follows_subtract hl) hl hs hd he.1 he.2).congr
            (bind_of_ok (hd.kindOf hl.left.base)) (eval_binary ⟨_, hd.kindOf hl.right.base, rfl⟩)
        | _ => cases he
      | call f args =>
        simp only [Ast.Expr.isStraight, Bool.and_eq_true, beq_iff_eq] at he
        obtain ⟨d1, hd1, hd1', hcode1⟩ := hl.field hd "name" rfl
        obtain ⟨d2, hd2, hd2', hcode2⟩ := hl.field hd "args" rfl
        obtain rfl := hcode1.eq_text
        obtain ⟨ds, rfl, hds⟩ := hcode2.eq_list
        refine .congr ?_ (bind_of_ok (hd.kindOf hl.left.base))
          (eval_call ⟨_, hd.kindOf hl.right.base, rfl⟩)
        refine .step hd1 hd1' (.step hd2 hd2' ?_)
        rw [he.1]
        cases fuel with
        | zero => exact .of_error rfl
        | succ fuel =>
          have hread := follows_inputi (ih fuel (by omega)) hl hs
            (code_of_args (fun _ _ => rfl) hds he.2)
          -- The number is in a node, so it is the value of the call.
          intro a m1 ha
          obtain ⟨b, n1, R1, hb, ho, hab⟩ := hread a m1 ha
          cases hab with
          | node pair new => exact ⟨_, n1, R1, bind_of_ok hb, ho, .node pair new⟩
      | _ => cases he

/-! ## Statements -/

theorem follows_header (hl : Linked IsPlain c R m n) (hs : SameScope R m.globals scope)
    (args : Datum) :
    Follows IsPlain c R m n (StraightLine.printHeader args) (printHeader scope args)
      fun _ _ _ => True := by
  refine forward_traced hl ?_
  obtain ⟨s, hshow⟩ := SameScope.exists_show hs
  cases hargs : args.display with
  | error f => exact .of_error rfl
  | ok text =>
    exact .step (a := text) (b := text) rfl rfl (.step_right (hshow n) (forward_print hl _ _))

theorem outputPiece_of_plain (hv : IsPlain v) (h : Held m.store (.node r) v)
    (hz : v.contents? = some z) :
    outputPiece (.node r) m = textOf z m := by
  change (do
    let s ← textOf (← contents (.node r))
    if (← kindOf (.node r)) == "bool" then return (Text.lower s) else return s : Run String) m = _
  rw [bind_of_ok (h.contents hz), bind_apply]
  rcases hs : textOf z m with ⟨e | s, m1⟩
  · rfl
  · obtain rfl := Has.eq hs
    have hplain : (v.kind == "bool") = false := by cases hv <;> rfl
    change (do
      if (← kindOf (.node r)) == "bool" then return (Text.lower s) else return s : Run String) m = _
    rw [bind_of_ok h.kindOf, hplain]
    rfl

section

variable (hl : Linked IsPlain c R m n) (hs : SameScope R m.globals scope)
  (hds : ∀ d ∈ ds, ∃ e : Ast.Expr, c.Code d e.tree ∧ e.isStraight = true)

include hl hs hds

theorem follows_line :
    Follows IsPlain c R m n (StraightLine.outputLine (StraightLine.eval fuel) ds line)
      (outputLine (eval .scoped fuel false scope) ds line) fun _ s s' => s = s' := by
  induction ds generalizing m n R line with
  | nil => exact .pure hl rfl
  | cons arg rest ih =>
    obtain ⟨⟨e, hd, he⟩, hrest⟩ := List.forall_mem_cons.1 hds
    refine (follows_eval c scope fuel hl hs hd he).bind fun a b m1 n1 R1 ha _ ho hab => ?_
    have hs1 := hs.later ho.pairs ha
    have hpiece := (forward_piece ho.link hab.paired).bind
        fun s s' m2 n2 R2 hpiece _ ho2 (heq : s = s') => by
      subst heq
      exact @ih (line ++ s) _ _ _ ho2.link (hs1.later ho2.pairs hpiece) hrest
    refine hpiece.congr ?_ rfl
    obtain ⟨v, hv, hheld, -⟩ := ho.link.held hab.paired
    obtain ⟨z, hz⟩ := hv.exists_contents
    cases hab with
    | node =>
      rw [bind_apply, outputPiece_of_plain hv hheld hz, ← bind_apply]
      exact bind_of_ok (hheld.contents hz)

theorem follows_printCall :
    Follows IsPlain c R m n (StraightLine.call fuel (.text "print") (.list ds))
      (call .scoped fuel scope (.text "print") (.list ds)) fun _ _ b => b = .null := by
  cases fuel with
  | zero => exact .of_error rfl
  | succ fuel =>
    have hcall : call .scoped (fuel + 1) scope (.text "print") (.list ds) =
        callBuiltin (eval .scoped fuel false scope) scope (.list ds) .print := rfl
    rw [hcall, callBuiltin]
    refine (follows_header hl hs (.list ds)).bind fun _ _ m1 n1 R1 hheader _ ho _ => ?_
    refine .step rfl rfl (Follows.bind (follows_line ho.link (hs.later ho.pairs hheader) hds) ?_)
    rintro line _ m2 n2 R2 - - ho2 rfl
    exact (forward_putLine ho2.link line).mono fun _ _ _ h => h.2

end

/-- A variable is bound anew in one scope, and the node it is bound to in the other one is
changed. -/
theorem ScopesAlike.put_left {P Q : Datum → Datum → Prop} (h : ScopesAlike P scope scope')
    (hnodup : (scope'.map (·.2)).Nodup) (hx : Assoc.get? x scope' = some d') (hd : Q d d')
    (hQ : ∀ {e e'}, P e e' → e' ≠ d' → Q e e') : ScopesAlike Q (Assoc.put x d scope) scope' := by
  induction h with
  | nil => cases hx
  | @cons e e' rest rest' he hrest ih =>
    obtain ⟨y, d1⟩ := e
    obtain ⟨y', d1'⟩ := e'
    obtain ⟨rfl, hd1⟩ := he
    obtain ⟨hnew, hnodup⟩ := List.nodup_cons.1 hnodup
    rw [Assoc.get?] at hx
    rw [Assoc.put]
    split at hx
    · rename_i hyx
      obtain rfl := Option.some.inj hx
      rw [if_pos hyx]
      -- No other name has the node that is changed.
      obtain ⟨hlength, hzip⟩ := List.forall₂_iff_zip.1 hrest
      refine .cons ⟨rfl, hd⟩ (List.forall₂_iff_zip.2 ⟨hlength, fun hmem => ?_⟩)
      refine ⟨(hzip hmem).1, hQ (hzip hmem).2 fun he => hnew ?_⟩
      exact List.mem_map.2 ⟨_, (List.of_mem_zip hmem).2, he⟩
    · rename_i hyx
      rw [if_neg hyx]
      refine .cons ⟨rfl, hQ hd1 ?_⟩ (ih hnodup hx)
      rintro rfl
      exact hnew (List.mem_map.2 ⟨_, Assoc.mem_of_get? hx, rfl⟩)

theorem SameScope.exists_pair (h : SameScope R scope scope') (he : e ∈ scope') :
    ∃ q q', e.2 = .node q' ∧ R q q' := by
  induction h with
  | nil => cases he
  | @cons d d' _ _ hd _ ih =>
    rcases List.mem_cons.1 he with rfl | he
    · obtain ⟨-, hd⟩ := hd
      generalize d.2 = a, e.2 = b at hd
      cases hd with
      | node pair => exact ⟨_, _, rfl, pair⟩
    · exact ih he

theorem Linked.setGlobals (hl : Linked P c R m n) (globals : Scope) :
    Linked P c R { m with globals } n :=
  ⟨⟨hl.left.base, hl.left.functions, hl.left.values⟩, hl.right, hl.inputs, hl.console, hl.low,
    hl.high, hl.unique, hl.node⟩

/-- The second run sets a node that goes with none. -/
theorem Linked.overwrite_right (hl : Linked P c R m n) (hlow : c.base.size ≤ r')
    (hhigh : r' < n.store.size) (hfree : ∀ q, ¬ R q r') (hz : v.contents? = some z) :
    Linked P c R m { n with store := (n.store.setKind r' v.kind).setField r' "val" z } := by
  obtain ⟨old, hold⟩ := hl.right.values r' hlow hhigh
  have hnode := Stacked.node_overwrite hl.right.base.separate hhigh hold hz
  refine ⟨hl.left, hl.right.overwrite hlow hhigh hz, hl.inputs, hl.console, hl.low,
    fun h => ?_, hl.unique, fun {q q'} h => ?_⟩
  · simpa using hl.high h
  · have hne : q' ≠ r' := by
      rintro rfl
      exact hfree q h
    rw [hnode, if_neg hne]
    exact hl.node h

section

variable (h : Beside c R scope m n)
include h

/-- The first run binds a name anew, which is not bound yet in the second one. -/
theorem Beside.declare (ho : Onward IsPlain c R m R1 m1 n1)
    (hs : SameScope R1 m1.globals scope) (hab : NewPair m.store.size R1 a b)
    (hx : Assoc.get? x scope = none) :
    Beside c R1 (Assoc.put x b scope) { m1 with globals := Assoc.put x a m1.globals } n1 where
  link := ho.link.setGlobals _
  scopes := ScopesAlike.put hs x hab.paired
  nodup := by
    rw [Assoc.put_of_get?_eq_none hx, List.map_append, List.nodup_append]
    refine ⟨h.nodup, List.pairwise_singleton _ _, fun d hmem d' hd' heq => ?_⟩
    obtain ⟨e, he, rfl⟩ := List.mem_map.1 hmem
    obtain ⟨q, q', hq', hpair⟩ := SameScope.exists_pair h.scopes he
    cases hab with
    | node pair new =>
      -- The node is new, while those of the scope go with nodes from before.
      cases hq'.symm.trans (heq.trans (List.mem_singleton.1 hd'))
      have hold := (h.link.high hpair).1
      have hsame := (ho.link.unique (ho.pairs _ _ hpair) pair).2 rfl
      omega

/-- The first run binds a name anew, and the node of the name changes in the second one. -/
theorem Beside.overwrite (ho : Onward IsPlain c R m R1 m1 n1)
    (hs : SameScope R m1.globals scope) (hpair : R1 r r') (hnew : m.store.size ≤ r) (hv : IsPlain v)
    (hnode : m1.store.node r = v.node) (hz : v.contents? = some z)
    (hx : Assoc.get? x scope = some (.node q')) :
    ∃ R2, Beside c R2 scope { m1 with globals := Assoc.put x (.node r) m1.globals }
      { n1 with store := (n1.store.setKind q' v.kind).setField q' "val" z } := by
  obtain ⟨q, _, hq', hq⟩ := SameScope.exists_pair h.scopes (Assoc.mem_of_get? hx)
  cases hq'
  have hlow := (h.link.low hq).2
  have hhigh := (ho.link.high (ho.pairs _ _ hq)).2
  obtain ⟨old, hold⟩ := ho.link.right.values q' hlow hhigh
  have hset := Stacked.node_overwrite ho.link.right.base.separate hhigh hold hz
  -- The node of the name goes with the new node from now on, and with no other.
  have hlink : Linked IsPlain c (fun p p' => p' ≠ q' ∧ R1 p p') m1 n1 :=
    ho.link.of_le fun _ _ hp => hp.2
  refine ⟨_, ((hlink.overwrite_right hlow hhigh (fun _ hp => hp.1 rfl) hz).set (r := r) ?_ ?_
    (fun _ hp => hp.1 rfl) ⟨v, hv, hnode, ?_⟩).setGlobals _, ?_, h.nodup⟩
  · exact ⟨(ho.link.low hpair).1, hlow⟩
  · exact ⟨(ho.link.high hpair).1, by simpa using hhigh⟩
  · rw [hset, if_pos rfl]
  · refine ScopesAlike.put_left hs h.nodup hx (.node (Pairs.set_self _ _ _)) fun hp hne => ?_
    cases hp with
    | @node p p' hp =>
      have hother : p ≠ r := Nat.ne_of_lt (Nat.lt_of_lt_of_le (h.link.high hp).1 hnew)
      exact .node ((Pairs.set_of_ne hother).2 ⟨fun he => hne (by rw [he]), ho.pairs _ _ hp⟩)

theorem exists_assign {value value' : Run Datum}
    [∀ globals, Has (Preserves fun m => m.globals = globals) value]
    (hvalue : Follows IsPlain c R m n value value' (NewPair m.store.size))
    (hrun : (do StraightLine.assign x (← value)) m = (.ok (), m1)) :
    ∃ R1 scope' n1, assign .scoped scope x value' n = (.ok scope', n1) ∧
      Beside c R1 scope' m1 n1 := by
  obtain ⟨a, m2, ha, hrun⟩ := bind_eq_ok.1 hrun
  obtain ⟨-, rfl⟩ := Prod.mk.inj hrun
  obtain ⟨b, n2, R2, hb, ho, hab⟩ := hvalue a m2 ha
  cases hx : Assoc.get? x scope with
  | none =>
    have hunbound : isBound .scoped scope x = false := by
      simp [isBound, Assoc.has, hx, Dialect.hasObjects]
    refine ⟨R2, _, n2, ?_, h.declare ho (h.scopes.later ho.pairs ha) hab hx⟩
    rw [assign_of_unbound rfl hunbound, bind_of_ok hb]
    rfl
  | some d =>
    have hbound : isBound .scoped scope x = true := by simp [isBound, Assoc.has, hx]
    obtain ⟨q, q', hq', hq⟩ := SameScope.exists_pair h.scopes (Assoc.mem_of_get? hx)
    cases hq'
    cases hab with
    | @node r r' pair new =>
      obtain ⟨v, hv, hnode, hnode'⟩ := ho.link.node pair
      obtain ⟨z, hz⟩ := hv.exists_contents
      have hoverwrite := Stacked.overwrite_apply .scoped hx (ho.link.high (ho.pairs _ _ hq)).2
        hnode' hz
      obtain ⟨R3, h3⟩ := h.overwrite ho (h.scopes.later (le_refl R) ha) pair new hv hnode hz hx
      refine ⟨R3, scope, _, ?_, h3⟩
      have hshown : shown .scoped value' n = (.ok (.node r'), n2) := by
        rw [shown, bind_of_ok hb]
        rfl
      rw [assign_of_bound rfl hbound, bind_of_ok hshown, bind_of_ok hoverwrite]
      rfl

theorem exists_exec {s : Ast.Stmt} (hd : c.Code d s.tree) (hs : s.isStraight = true)
    (hrun : StraightLine.exec fuel d m = (.ok (), m1)) :
    ∃ R1 scope' n1, exec .scoped fuel d scope n = (.ok (scope', .null), n1) ∧
      Beside c R1 scope' m1 n1 := by
  cases fuel with
  | zero => cases hrun
  | succ fuel =>
    rw [StraightLine.exec] at hrun
    obtain ⟨kind, m2, hkind, hrun⟩ := bind_eq_ok.1 hrun
    obtain ⟨_, m3, hperform, htrace⟩ := bind_eq_ok.1 hrun
    obtain ⟨rfl⟩ := (observes_kindOf _).eq hkind
    -- The variables are shown in the first run only.
    suffices hexec : ∃ R1 scope' n1, exec .scoped (fuel + 1) d scope n = (.ok (scope', .null), n1) ∧
        Beside c R1 scope' m3 n1 by
      obtain ⟨R1, scope', n1, hn, h1⟩ := hexec
      obtain ⟨printed, hprinted⟩ := (Has.holds : OnlyPrints (StraightLine.trace "")) m3
      rw [htrace] at hprinted
      dsimp only at hprinted
      subst hprinted
      exact ⟨R1, scope', n1, hn, h1.link.printed_left printed, h1.scopes, h1.nodup⟩
    cases s with
    | assign x e =>
      obtain ⟨d1, hd1, hd1', hcode1⟩ := h.link.field hd "name" rfl
      obtain ⟨d2, hd2, hd2', hcode2⟩ := h.link.field hd "expression" rfl
      obtain rfl := hcode1.eq_text
      obtain rfl := (ok_inj (hkind.symm.trans (hd.kindOf h.link.left.base))).1
      have hassign : (do StraightLine.assign x.text (← StraightLine.eval fuel d2) : Run Unit) m =
          (.ok (), m3) := by
        rw [← hperform]
        exact ((bind_of_ok hd1).trans (bind_of_ok hd2)).symm
      obtain ⟨R1, scope', n1, hn, h1⟩ :=
        exists_assign h (follows_eval c scope fuel h.link h.scopes hcode2 hs) hassign
      refine ⟨R1, scope', n1, ?_, h1⟩
      have hname : nameText (.text x.text) n = (.ok x.text, n) := rfl
      rw [exec_assign ⟨_, hd.kindOf h.link.right.base, rfl⟩, bind_of_ok hd1', bind_of_ok hname,
        bind_of_ok hd2', bind_of_ok hn]
      rfl
    | expr e =>
      cases e with
      | call f args =>
        simp only [Ast.Stmt.isStraight, Bool.and_eq_true, beq_iff_eq] at hs
        obtain ⟨d1, hd1, hd1', hcode1⟩ := h.link.field hd "name" rfl
        obtain ⟨d2, hd2, hd2', hcode2⟩ := h.link.field hd "args" rfl
        obtain rfl := hcode1.eq_text
        obtain ⟨ds, rfl, hds⟩ := hcode2.eq_list
        obtain rfl := (ok_inj (hkind.symm.trans (hd.kindOf h.link.left.base))).1
        have hcalled : (do let _ ← StraightLine.call fuel (.text f.text) (.list ds) : Run Unit) m =
            (.ok (), m3) := by
          rw [← hperform]
          exact ((bind_of_ok hd1).trans (bind_of_ok hd2)).symm
        obtain ⟨a, m4, ha, hdone⟩ := bind_eq_ok.1 hcalled
        obtain ⟨-, rfl⟩ := pure_eq_ok.1 hdone
        rw [hs.1] at ha hd1'
        obtain ⟨_, n1, R1, hn, ho, rfl⟩ :=
          follows_printCall h.link h.scopes (code_of_args (fun _ _ => rfl) hds hs.2) a m4 ha
        refine ⟨R1, scope, n1, ?_, ho.link, h.scopes.later ho.pairs ha, h.nodup⟩
        rw [exec_call ⟨_, hd.kindOf h.link.right.base, rfl⟩, bind_of_ok hd1', bind_of_ok hd2',
          bind_of_ok hn]
        rfl
      | _ => cases hs
    | _ => cases hs

end

theorem exists_row (hcode : ∀ d ∈ statements, ∃ s : Ast.Stmt, c.Code d s.tree ∧ s.isStraight = true)
    (h : Beside c R scope m n) (hrun : StraightLine.execAll fuel statements m = (.ok (), m1)) :
    ∃ R1 scope' n1, block (Row.main.step .scoped fuel) statements scope n =
      (.ok (scope', .null), n1) ∧
      Beside c R1 scope' m1 n1 := by
  induction statements generalizing R scope m n with
  | nil =>
    obtain ⟨-, rfl⟩ := pure_eq_ok.1 hrun
    exact ⟨R, scope, n, rfl, h⟩
  | cons d rest ih =>
    obtain ⟨⟨s, hd, hs⟩, hrest⟩ := List.forall_mem_cons.1 hcode
    obtain ⟨_, m2, hfirst, hrun⟩ := bind_eq_ok.1 hrun
    obtain ⟨R1, scope1, n1, hexec, h1⟩ := exists_exec h hd hs hfirst
    have hstep : Row.main.step .scoped fuel d scope n = (.ok (scope1, .null), n1) := by
      rw [Row.step, Row.stepWith, bind_of_ok (announce_scoped _ _ _), bind_of_ok hexec]
      rfl
    rw [block_cons_of_null hstep]
    exact ih hrest h1 hrun

end

/-! ## Programs -/

theorem beside_enter {start m0 m1 : Machine} (hl : Loaded text start c m0)
    (hi : m0.console.inputs = c.inputs) (entered : enterMain text start = (.ok statements, m1)) :
    Beside c (fun _ _ => False) [] m1 m1 := by
  obtain ⟨-, printed, rfl⟩ := enterLoaded_ok hl.intact (hl.enter.symm.trans entered)
  refine ⟨link_self (hl.intact.setConsole _) hi, ?_, .nil⟩
  rw [hl.globals]
  exact .nil

/-- A straight program is run in the straight-line dialect, with any inputs. If the run ends well,
then so does the run in the scoped dialect. It puts out the same, it has used the same inputs, and
at its end the scope of the main function has the same variables, each with a value of the same type
that is the same. -/
theorem runProgram_scoped_of_straightLine {limit : Nat} {text typed : String} {echo trace : Bool}
    {inputs : List Tree} {m : Machine} (straight : Ast.TextHas Ast.Program.isStraight text)
    (run : runProgram limit .straightLine text (Machine.start echo trace inputs typed) =
      (.ok (), m)) :
    ∃ statements m1 scope n, enterMain text (Machine.start echo trace inputs typed) =
      (.ok statements, m1) ∧
      block (Row.main.step .scoped limit) statements [] m1 = (.ok (scope, .null), n) ∧
      runProgram limit (.scoped .scoped) text (Machine.start echo trace inputs typed) =
        (.ok (), n) ∧
      n.console.log = m.console.log ∧ n.console.cursor = m.console.cursor ∧
      n.console.typed = m.console.typed ∧
        ScopesAlike (SameValue m.store n.store) m.globals scope := by
  rw [runProgram_straightLine_eq] at run
  obtain ⟨statements, m1, entered, run⟩ := bind_eq_ok.1 run
  obtain ⟨p, c, m0, hp, hl, hfunctions, hi⟩ := exists_loaded_of_enterMain straight entered
  obtain ⟨⟨f, hfind, hbody⟩, -⟩ := enterLoaded_ok hl.intact (hl.enter.symm.trans entered)
  have hstraight : f.body.isStraight = true := by
    rw [Ast.Program.isStraight, ← hfunctions, hfind] at hp
    exact hp
  obtain ⟨R, scope, n, hblock, h⟩ :=
    exists_row (code_of_block (fun _ => rfl) (fun _ _ => rfl) hbody hstraight)
      (beside_enter hl hi entered) run
  obtain ⟨printed, hconsole⟩ := h.link.console
  refine ⟨statements, m1, scope, n, entered, hblock, ?_, ?_, ?_, ?_,
    List.Forall₂.imp (fun _ _ he => ⟨he.1, h.link.held he.2⟩) h.scopes⟩
  · rw [runProgram_eq_enter, bind_of_ok entered, bind_of_ok hblock]
    rfl
  all_goals rw [hconsole]

/-- A number is read, kept under a second name, and then changed under the first one. -/
def keeping : Ast.Program where
  first := ⟨.of "main", [],
    .cons (.assign (.plain (.of "a")) (.call (.of "inputi") (.cons (.string (.of "n? ")) .nil)))
      (.cons (.assign (.plain (.of "b")) (.variable "a"))
        (.cons (.assign (.plain (.of "a"))
            (.binary .subtract (.binary .add (.variable "a") (.variable "b")) (.int (.of 3))))
          (.last (.expr (.call (.of "print") (.cons (.variable "a")
            (.cons (.string (.of " from ")) (.cons (.variable "b") .nil))))))))⟩
  rest := []

theorem keeping_run :
    (runProgram 1000 .straightLine keeping.text
      (Machine.start false false [.text "7"] "")).1.toOption = some () ∧
    (runProgram 1000 .straightLine keeping.text
      (Machine.start false false [.text "7"] "")).2.console.log.toList.map
        (Datum.same (.text "11 from 7")) = [false, true] ∧
    (runProgram 1000 .straightLine keeping.text
      (Machine.start false false [.text "7"] "")).2.console.cursor = 1 ∧
    (runProgram 1000 .straightLine keeping.text
      (Machine.start false false [.text "7"] "")).2.globals.map (·.1) = ["a", "b"] := by
  rw [runProgram_straightLine_eq, enterMain_text]
  decide +kernel

/-- Both dialects keep the number under its second name. -/
theorem runProgram_scoped_of_straightLine_keeping :
    Ast.TextHas Ast.Program.isStraight keeping.text ∧
    ∃ m statements m1 scope n,
      runProgram 1000 .straightLine keeping.text (Machine.start false false [.text "7"] "") =
        (.ok (), m) ∧
      enterMain keeping.text (Machine.start false false [.text "7"] "") = (.ok statements, m1) ∧
      block (Row.main.step .scoped 1000) statements [] m1 = (.ok (scope, .null), n) ∧
      runProgram 1000 (.scoped .scoped) keeping.text (Machine.start false false [.text "7"] "") =
        (.ok (), n) ∧
      n.console.log.toList.map (Datum.same (.text "11 from 7")) = [false, true] ∧
        n.console.cursor = 1 ∧
      m.globals.map (·.1) = ["a", "b"] ∧
        ScopesAlike (SameValue m.store n.store) m.globals scope := by
  have straight : Ast.TextHas Ast.Program.isStraight keeping.text := Ast.textHas_text (by decide)
  obtain ⟨hrun, hlog⟩ := keeping_run
  obtain ⟨m, run⟩ := exists_of_toOption hrun
  obtain ⟨statements, m1, scope, n, entered, hblock, hn, hlog', hcursor, -, hvalues⟩ :=
    runProgram_scoped_of_straightLine straight run
  rw [run] at hlog
  rw [← hlog', ← hcursor] at hlog
  exact ⟨straight, m, statements, m1, scope, n, run, entered, hblock, hn, hlog.1, hlog.2.1,
    hlog.2.2, hvalues⟩

end LangKit.Script.Extension
