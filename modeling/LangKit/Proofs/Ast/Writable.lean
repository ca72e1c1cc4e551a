import LangKit.Proofs.Ast.Basic
import LangKit.Proofs.Store.Trees

/-!
# Programs that can be shown

The text of a value fails on an integer with too many digits. The numbers of a program are never
that long, so every expression of a program has a text: `Expr.exists_text`.
-/

namespace LangKit

open Store

mutual

/-- A tree of nodes, plain values and lists of nodes in which every integer can be written. -/
inductive Tree.Writable : Tree → Prop
  | null : Writable .null
  | bool (b : Bool) : Writable (.bool b)
  | int {n : Int} {s : String} (short : Text.Decimal.write? n = some s) : Writable (.int n)
  | text (s : String) : Writable (.text s)
  | node {kind : String} {ts : List (String × Tree)} (fields : FieldsWritable ts) :
      Writable (.node kind ts)

inductive Tree.FieldsWritable : List (String × Tree) → Prop
  | nil : FieldsWritable []
  | plain (first : Writable t) (later : FieldsWritable rest) : FieldsWritable ((name, t) :: rest)
  | list (first : AllWritable ts) (later : FieldsWritable rest) :
      FieldsWritable ((name, .list ts) :: rest)

inductive Tree.AllWritable : List Tree → Prop
  | nil : AllWritable []
  | cons {t : Tree} {rest : List Tree} (first : Writable t) (later : AllWritable rest) :
      AllWritable (t :: rest)

end

section

variable {s : Store}

mutual

theorem Tree.Writable.exists_textWith (h : t.Writable)
    (hd : Holds s b d t) (hn : b ≤ n) : ∃ text, d.textWith (s.nodeText n) = .ok text := by
  match h, hd with
  | .null, .null => exact ⟨_, rfl⟩
  | .bool b, .bool _ => exact ⟨_, rfl⟩
  | .text x, .text _ => exact ⟨x, rfl⟩
  | .int (s := shown) short, .int _ =>
    refine ⟨shown, ?_⟩
    simp only [Datum.textWith, Datum.display, Datum.outline, Datum.outlineWith,
      Tree.display?, short]
  | .node fields, .node lt _ held =>
    obtain ⟨n, rfl⟩ : ∃ m, n = m + 1 := ⟨n - 1, by omega⟩
    obtain ⟨texts, htexts⟩ := fields.exists_textsWith held (n := n) (by omega)
    simp only [Datum.textWith, nodeText, htexts]
    exact ⟨_, rfl⟩

theorem Tree.FieldsWritable.exists_textsWith
    (h : FieldsWritable ts) (hfs : HoldsFields s b fs ts) (hn : b ≤ n) :
    ∃ texts, Datum.fieldTextsWith (s.nodeText n) fs = .ok texts := by
  match h, hfs with
  | .nil, .nil => exact ⟨[], rfl⟩
  | .plain first later, .cons (d := d) held rest =>
    obtain ⟨text, htext⟩ := first.exists_textWith held hn
    obtain ⟨texts, htexts⟩ := later.exists_textsWith rest hn
    have hfield : ∃ shown, d.fieldTextWith (s.nodeText n) = .ok shown := by
      cases held with
      | node =>
        simp only [Datum.textWith] at htext
        simp only [Datum.fieldTextWith, htext]
        exact ⟨_, rfl⟩
      | list | tuple | mapping => cases first
      | _ => exact ⟨text, htext⟩
    obtain ⟨shown, hshown⟩ := hfield
    simp only [Datum.fieldTextsWith, hshown, htexts]
    exact ⟨_, rfl⟩
  | .list first later, .cons (.list held) rest =>
    obtain ⟨texts, htexts⟩ := first.exists_textsWith held hn
    obtain ⟨others, hothers⟩ := later.exists_textsWith rest hn
    simp only [Datum.fieldTextsWith, Datum.fieldTextWith, htexts, hothers]
    exact ⟨_, rfl⟩

theorem Tree.AllWritable.exists_textsWith
    (h : AllWritable ts) (hds : HoldsAll s b ds ts) (hn : b ≤ n) :
    ∃ texts, Datum.textsWith (s.nodeText n) ds = .ok texts := by
  match h, hds with
  | .nil, .nil => exact ⟨[], rfl⟩
  | .cons first later, .cons held rest =>
    obtain ⟨text, htext⟩ := first.exists_textWith held hn
    obtain ⟨texts, htexts⟩ := later.exists_textsWith rest hn
    simp only [Datum.textsWith, htext, htexts]
    exact ⟨_, rfl⟩

end

end

namespace Script.Ast

open LangKit.Tree

theorem Numeral.exists_write (n : Numeral) : ∃ s, Text.Decimal.write? n.value = some s := by
  have hshort : ¬ Text.Decimal.digitLimit < (toString (n.value : Int).natAbs).length := by
    have hvalid := n.valid
    rw [Text.Decimal.digits, String.length_toList] at hvalid
    simpa using hvalid
  rw [Text.Decimal.write?, if_neg hshort]
  exact ⟨_, rfl⟩

theorem formals_writable (formals : List Formal) : AllWritable (formals.map Formal.tree) := by
  induction formals with
  | nil => exact .nil
  | cons f rest ih => exact .cons (.node (.plain (.text _) .nil)) ih

mutual

theorem Expr.writable (e : Expr) : e.tree.Writable := by
  match e with
  | .int n =>
    obtain ⟨s, hs⟩ := n.exists_write
    exact .node (.plain (.int hs) .nil)
  | .bool b => exact .node (.plain (.bool b) .nil)
  | .nil => exact .node .nil
  | .object => exact .node .nil
  | .string s => exact .node (.plain (.text _) .nil)
  | .var x => exact .node (.plain (.text _) .nil)
  | .unary op e => exact .node (.plain e.writable .nil)
  | .binary op left right => exact .node (.plain left.writable (.plain right.writable .nil))
  | .call f args => exact .node (.plain (.text _) (.list args.writable .nil))
  | .method object method args =>
    exact .node (.plain (.text _) (.plain (.text _) (.list args.writable .nil)))
  | .lambda formals body =>
    exact .node (.list (formals_writable formals) (.list body.writable .nil))

theorem Args.writable (args : Args) : AllWritable args.trees := by
  match args with
  | .nil => exact .nil
  | .cons e rest => exact .cons e.writable rest.writable

theorem Stmt.writable (s : Stmt) : s.tree.Writable := by
  match s with
  | .assign x e => exact .node (.plain (.text _) (.plain e.writable .nil))
  | .choice condition body =>
    exact .node (.plain condition.writable (.list body.writable (.plain .null .nil)))
  | .choiceElse condition body other =>
    exact .node (.plain condition.writable (.list body.writable (.list other.writable .nil)))
  | .loop condition body => exact .node (.plain condition.writable (.list body.writable .nil))
  | .result e => exact .node (.plain e.writable .nil)
  | .noResult => exact .node (.plain .null .nil)
  | .expr e => exact e.writable

theorem Block.writable (b : Block) : AllWritable b.trees := by
  match b with
  | .last s => exact .cons s.writable .nil
  | .cons s rest => exact .cons s.writable rest.writable

end

theorem Expr.exists_text (e : Expr) : ∃ s, e.tree.textOf = .ok s :=
  e.writable.exists_textWith (holds_load e.tree separate_empty).2 (Nat.le_succ _)

end Script.Ast

end LangKit
