import LangKit.Proofs.Parser.Soundness
import LangKit.Proofs.Parser.Spelling

/-!
# Parsed trees are programs

What the parser returns is the plain tree of a typed program: `exists_program_of_parse`. Each symbol
of the grammar stands for a class of trees (`Means`), a token for the values that a scanner gives it
and a phrase for the trees of a syntax type, and every rule makes a tree of its head's class from
trees of its parts' classes (`means_of_rule`).
-/

namespace LangKit.Script

variable {ts : List Tree}

namespace Ast

open Meaning

def Block.snoc : Block → Stmt → Block
  | .last s, new => .cons s (.last new)
  | .cons s rest, new => .cons s (rest.snoc new)

def Args.snoc : Args → Expr → Args
  | .nil, new => .cons new .nil
  | .cons e rest, new => .cons e (rest.snoc new)

@[simp] theorem Block.trees_snoc :
    ∀ (b : Block) (new : Stmt), (b.snoc new).trees = b.trees ++ [new.tree]
  | .last _, _ => rfl
  | .cons s rest, new => congrArg (s.tree :: ·) (rest.trees_snoc new)

@[simp] theorem Args.trees_snoc : ∀ (args : Args) (new : Expr),
    (args.snoc new).trees = args.trees ++ [new.tree]
  | .nil, _ => rfl
  | .cons e rest, new => congrArg (e.tree :: ·) (rest.trees_snoc new)

def Means : Symbol → Tree → Prop
  | .token .name, t => ∃ x : Name, t = .text x.text
  | .token .number, t => ∃ n : Numeral, t = .int n.value
  | .token .string, t => ∃ s : Quotable, t = .text s.text
  | .token kind, t => t = .text kind.text
  | .phrase .start, t => ∃ p : Program, t = p.tree
  | .phrase .program, t => ∃ p : Program, t = p.tree
  | .phrase .functions, t =>
    ∃ (f : Function) (fs : List Function), t = .list ((f :: fs).map Function.tree)
  | .phrase .function, t => ∃ f : Function, t = f.tree
  | .phrase .lambda, t => ∃ e : Expr, t = e.tree
  | .phrase .formals, t => ∃ fs : List Formal, t = .list (fs.map Formal.tree)
  | .phrase .formal, t => ∃ f : Formal, t = f.tree
  | .phrase .statements, t => ∃ b : Block, t = .list b.trees
  | .phrase .statement, t => ∃ s : Stmt, t = s.tree
  | .phrase .variable, t => ∃ x : Place, t = .text x.text
  | .phrase .expression, t => ∃ e : Expr, t = e.tree
  | .phrase .arguments, t => ∃ args : Args, t = .list args.trees
  | .endMark, _ => False
  | .errorMark, _ => False

inductive MeansAll : List Symbol → List Tree → Prop
  | nil : MeansAll [] []
  | cons {x : Symbol} {xs : List Symbol} {t : Tree} {ts : List Tree} (first : Means x t)
      (rest : MeansAll xs ts) : MeansAll (x :: xs) (t :: ts)

theorem MeansAll.part {ts : List Tree} (h : MeansAll xs ts) (i : Nat)
    (hx : xs[i - 1]? = some x) : Means x (part ts i) := by
  unfold Meaning.part
  generalize i - 1 = j at hx
  induction h generalizing j with
  | nil => simp at hx
  | cons first rest ih =>
    cases j with
    | zero =>
      obtain rfl : _ = x := Option.some.inj hx
      exact first
    | succ j => exact ih j hx

theorem Means.operator {op : BinaryOp} {t : Tree} (h : Means (.token op.token) t) :
    t = .text op.nodeKind := by
  rw [← op.text_token]
  cases op with
  | order o => cases o <;> exact h
  | _ => exact h

theorem means_binary (op : BinaryOp) (h : MeansAll (binaryRule op.token).body ts) :
    Means (.phrase .expression) ((binaryRule op.token).meaning ts) := by
  obtain ⟨left, hleft⟩ := h.part 1 rfl
  obtain ⟨right, hright⟩ := h.part 3 rfl
  have hop := (h.part 2 rfl).operator
  exact ⟨.binary op left right, by simp [binaryRule, Expr.tree, operation, hleft, hright, hop]⟩

/-- Each rule makes a tree of its head's class from trees of its parts' classes. -/
theorem means_of_rule {n : Nat} {r : Rule} (hr : rules[n]? = some r) (h : MeansAll r.body ts) :
    Means (.phrase r.head) (r.meaning ts) := by
  have hmem : r ∈ rules.toList := Array.mem_toList_iff.mpr (Array.mem_of_getElem? hr)
  clear hr
  revert ts
  revert r
  simp only [rules, List.forall_mem_cons]
  refine ⟨?_, ?_, ?_, ?_, ?_, ?_, ?_, ?_, ?_, ?_, ?_, ?_, ?_, ?_, ?_, ?_, ?_, ?_, ?_, ?_,
    ?_, ?_, ?_, ?_, ?_, ?_, ?_, ?_, ?_, ?_, ?_, ?_, ?_, ?_, ?_, ?_, ?_, ?_, ?_, ?_, ?_, ?_, ?_, ?_,
    ?_, ?_, ?_, ?_, ?_, ?_, ?_, ?_, List.forall_mem_nil _⟩ <;> intro ts h
  -- programs and functions
  · obtain ⟨p, hp⟩ := h.part 1 rfl
    exact ⟨p, hp⟩
  · obtain ⟨f, fs, hfs⟩ := h.part 1 rfl
    exact ⟨⟨f, fs⟩, by simp [Program.tree, Program.functions, hfs]⟩
  · obtain ⟨f, fs, hfs⟩ := h.part 1 rfl
    obtain ⟨new, hnew⟩ := h.part 2 rfl
    exact ⟨f, fs ++ [new], by simp [append, hfs, hnew]⟩
  · obtain ⟨f, hf⟩ := h.part 1 rfl
    exact ⟨f, [], by simp [hf]⟩
  · obtain ⟨f, hf⟩ := h.part 2 rfl
    obtain ⟨formals, hformals⟩ := h.part 4 rfl
    obtain ⟨body, hbody⟩ := h.part 7 rfl
    exact ⟨⟨f, formals, body⟩, by simp [Function.tree, hf, hformals, hbody]⟩
  · obtain ⟨f, hf⟩ := h.part 2 rfl
    obtain ⟨body, hbody⟩ := h.part 6 rfl
    exact ⟨⟨f, [], body⟩, by simp [Function.tree, hf, hbody]⟩
  · obtain ⟨formals, hformals⟩ := h.part 3 rfl
    obtain ⟨body, hbody⟩ := h.part 6 rfl
    exact ⟨.lambda formals body, by simp [Expr.tree, hformals, hbody]⟩
  · obtain ⟨body, hbody⟩ := h.part 5 rfl
    exact ⟨.lambda [] body, by simp [Expr.tree, hbody]⟩
  -- formal parameters
  · obtain ⟨fs, hfs⟩ := h.part 1 rfl
    obtain ⟨new, hnew⟩ := h.part 3 rfl
    exact ⟨fs ++ [new], by simp [append, hfs, hnew]⟩
  · obtain ⟨f, hf⟩ := h.part 1 rfl
    exact ⟨[f], by simp [hf]⟩
  · obtain ⟨x, hx⟩ := h.part 1 rfl
    exact ⟨⟨x, false⟩, by simp [Formal.tree, hx]⟩
  · obtain ⟨x, hx⟩ := h.part 2 rfl
    exact ⟨⟨x, true⟩, by simp [Formal.tree, hx]⟩
  -- statements
  · obtain ⟨b, hb⟩ := h.part 1 rfl
    obtain ⟨new, hnew⟩ := h.part 2 rfl
    exact ⟨b.snoc new, by simp [append, hb, hnew]⟩
  · obtain ⟨s, hs⟩ := h.part 1 rfl
    exact ⟨.last s, by simp [Block.trees, hs]⟩
  · obtain ⟨x, hx⟩ := h.part 1 rfl
    obtain ⟨e, he⟩ := h.part 3 rfl
    exact ⟨.assign x e, by simp [Stmt.tree, hx, he]⟩
  · obtain ⟨x, hx⟩ := h.part 1 rfl
    obtain ⟨y, hy⟩ := h.part 3 rfl
    exact ⟨.member x y, by simp [Place.text, dotted, hx, hy]⟩
  · obtain ⟨x, hx⟩ := h.part 1 rfl
    exact ⟨.plain x, hx⟩
  · obtain ⟨e, he⟩ := h.part 3 rfl
    obtain ⟨body, hbody⟩ := h.part 6 rfl
    exact ⟨.choice e body, by simp [Stmt.tree, he, hbody]⟩
  · obtain ⟨e, he⟩ := h.part 3 rfl
    obtain ⟨body, hbody⟩ := h.part 6 rfl
    obtain ⟨other, hother⟩ := h.part 10 rfl
    exact ⟨.choiceElse e body other, by simp [Stmt.tree, he, hbody, hother]⟩
  · obtain ⟨e, he⟩ := h.part 3 rfl
    obtain ⟨body, hbody⟩ := h.part 6 rfl
    exact ⟨.loop e body, by simp [Stmt.tree, he, hbody]⟩
  · obtain ⟨e, he⟩ := h.part 1 rfl
    exact ⟨.expr e, by simp [Stmt.tree, he]⟩
  · obtain ⟨e, he⟩ := h.part 2 rfl
    exact ⟨.result e, by simp [Stmt.tree, he]⟩
  · exact ⟨.noResult, by simp [Stmt.tree]⟩
  -- operators
  · obtain ⟨e, he⟩ := h.part 2 rfl
    exact ⟨.unary .not e, by simp [Expr.tree, UnaryOp.nodeKind, he]⟩
  · obtain ⟨e, he⟩ := h.part 2 rfl
    exact ⟨.unary .negate e, by simp [Expr.tree, UnaryOp.nodeKind, he]⟩
  · exact means_binary .equal h
  · exact means_binary (.order .greater) h
  · exact means_binary (.order .less) h
  · exact means_binary .notEqual h
  · exact means_binary (.order .greaterEqual) h
  · exact means_binary (.order .lessEqual) h
  · exact means_binary .add h
  · exact means_binary .subtract h
  · exact means_binary .multiply h
  · exact means_binary .divide h
  · exact h.part 2 rfl
  · exact means_binary .or h
  · exact means_binary .and h
  -- values
  · obtain ⟨n, hn⟩ := h.part 1 rfl
    exact ⟨.int n, by simp [Expr.tree, hn]⟩
  · obtain ⟨e, he⟩ := h.part 1 rfl
    exact ⟨e, he⟩
  · have htrue : part ts 1 = .text "true" := h.part 1 rfl
    exact ⟨.bool true, by simp [Expr.tree, truth, htrue]⟩
  · have hfalse : part ts 1 = .text "false" := h.part 1 rfl
    exact ⟨.bool false, by simp [Expr.tree, truth, hfalse]⟩
  · exact ⟨.nil, by simp [Expr.tree]⟩
  · exact ⟨.object, by simp [Expr.tree]⟩
  · obtain ⟨s, hs⟩ := h.part 1 rfl
    exact ⟨.string s, by simp [Expr.tree, hs]⟩
  -- variables and calls
  · obtain ⟨x, hx⟩ := h.part 1 rfl
    exact ⟨.var x, by simp [Expr.tree, hx]⟩
  · obtain ⟨f, hf⟩ := h.part 1 rfl
    obtain ⟨args, hargs⟩ := h.part 3 rfl
    exact ⟨.call f args, by simp [Expr.tree, hf, hargs]⟩
  · obtain ⟨f, hf⟩ := h.part 1 rfl
    exact ⟨.call f .nil, by simp [Expr.tree, Args.trees, hf]⟩
  · obtain ⟨x, hx⟩ := h.part 1 rfl
    obtain ⟨f, hf⟩ := h.part 3 rfl
    obtain ⟨args, hargs⟩ := h.part 5 rfl
    exact ⟨.method x f args, by simp [Expr.tree, hx, hf, hargs]⟩
  · obtain ⟨x, hx⟩ := h.part 1 rfl
    obtain ⟨f, hf⟩ := h.part 3 rfl
    exact ⟨.method x f .nil, by simp [Expr.tree, Args.trees, hx, hf]⟩
  · obtain ⟨args, hargs⟩ := h.part 1 rfl
    obtain ⟨e, he⟩ := h.part 3 rfl
    exact ⟨args.snoc e, by simp [append, hargs, he]⟩
  · obtain ⟨e, he⟩ := h.part 1 rfl
    exact ⟨.cons e .nil, by simp [Args.trees, he]⟩

theorem means_of_sound (h : Sound w) : Means (.token w.kind) w.value.tree := by
  cases h with
  | name x => exact ⟨x, rfl⟩
  | number n => exact ⟨n, rfl⟩
  | string s => exact ⟨s, rfl⟩
  | @reserved s kind mem =>
    have hall : ∀ e ∈ TokenKind.reserved, Means (.token e.2) (.text e.1) := by
      simp only [TokenKind.reserved, List.forall_mem_cons]
      exact ⟨rfl, rfl, rfl, rfl, rfl, rfl, rfl, rfl, rfl, rfl, List.forall_mem_nil _⟩
    exact hall _ mem
  | @sign s kind mem =>
    have hall : ∀ e ∈ TokenKind.signs, Means (.token e.2) (.text e.1) := by
      simp only [TokenKind.signs, List.forall_mem_cons]
      exact ⟨rfl, rfl, rfl, rfl, rfl, rfl, rfl, rfl, rfl, rfl, rfl, rfl, rfl, rfl, rfl,
        rfl, rfl, rfl, rfl, rfl, rfl, rfl, List.forall_mem_nil _⟩
    exact hall _ mem

theorem quote_notMem_body {n : Nat} {r : Rule} (hr : rules[n]? = some r) :
    .token .quote ∉ r.body := by
  have hall : rules.all (fun r => !r.body.contains (.token .quote)) = true := by decide +kernel
  have := Array.all_eq_true_iff_forall_mem.mp hall r (Array.mem_of_getElem? hr)
  simpa using this

mutual

theorem means_of_derives {x : Symbol} {t : Tree} (hx : x ≠ .token .quote)
    (hws : ∀ w ∈ ws, w.kind ≠ .quote → Sound w) (h : Derives x ws t) : Means x t := by
  match h with
  | .word w =>
    refine means_of_sound (hws w (List.mem_singleton_self w) ?_)
    exact fun hkind => hx (hkind ▸ rfl)
  | .rule rule parts =>
    exact means_of_rule rule (meansAll_of_derives (quote_notMem_body rule) hws parts)

theorem meansAll_of_derives {ts : List Tree}
    (hxs : .token .quote ∉ xs) (hws : ∀ w ∈ ws, w.kind ≠ .quote → Sound w)
    (h : DerivesAll xs ws ts) :
    MeansAll xs ts := by
  match h with
  | .nil => exact .nil
  | .cons first rest =>
    obtain ⟨hx, hxs⟩ := not_or.mp (mt List.mem_cons.mpr hxs)
    obtain ⟨hfirst, hrest⟩ := List.forall_mem_append.mp hws
    exact .cons (means_of_derives (Ne.symm hx) hfirst first) (meansAll_of_derives hxs hrest rest)

end

theorem exists_program_of_parse {text printed : String}
    (h : parseProgram text = (.ok t, printed)) : ∃ p : Program, t = p.tree := by
  have hparse : (parse false false text).outcome = .ok (some t) := by
    unfold parseProgram Parsed.program at h
    split at h
    · next u hu =>
      cases h
      exact hu
    · cases h
    · cases h
  obtain ⟨n, hout⟩ := outcome_of_parse hparse
  obtain ⟨ws, hsuffix, hderives, _⟩ := hout.sound .nil .nil
  have hsound : ∀ w ∈ ws, w.kind ≠ .quote → Sound w := fun w hw => sound_of_scanned (hsuffix.mem hw)
  have hprogram : Symbol.phrase .program ≠ .token .quote := nofun
  exact means_of_derives hprogram hsound hderives

end Ast

end LangKit.Script
