import LangKit.Proofs.Execution.Growth
import LangKit.Proofs.Parallel.Primitives

/-!
# Operators of two runs

Operators look at the kinds and the contents of their operands, which are the same in both runs, and
make new values of them. They fail alike, and never for want of a field that is read of code.
-/

namespace LangKit.Script.Parallel

open Run Store
open Closures (valueKinds madeKinds Suits)

variable {f : Datum → Datum → Except Fault Datum}

variable {g : Region} {b : Bridge g} {B : Blame} {m m' : Machine} {u u' w w' : Datum}
  {dialect : Dialect}

theorem matches_misfit {α β : Type} {Q : α → β → Machine → Prop} (h : Joined b m m')
    (title : String) :
    Matches b B m m' (misfit title) (misfit title) Q :=
  matches_report h _ _

/-! ## Operands that fit -/

theorem matches_require1 (h : Joined b m m') (title : String) (kinds : List String)
    (hu : Pair b m.store u u') :
    Matches b B m m' (require1 title kinds u) (require1 title kinds u') (fun _ _ _ => True) := by
  refine .kindOf h hu fun kind _ => matches_ite (fun _ => matches_misfit h title) fun _ => ?_
  exact .pure h trivial

theorem matches_require2 (h : Joined b m m') (title : String) (kinds : List String)
    (hu : Pair b m.store u u') (hw : Pair b m.store w w') :
    Matches b B m m' (require2 title kinds u w) (require2 title kinds u' w')
      (fun _ _ _ => True) := by
  have hright := matches_require1 (B := B) h title kinds hw
  refine .kindOf h hu fun kind _ => matches_ite (fun _ => ?_) fun _ => hright
  exact .stop (matches_misfit h title)

def AreTexts (s : Store) (u w : Datum) : Prop :=
  ∀ r q, u = .node r → w = .node q → s.kind r = "string" ∧ s.kind q = "string"

theorem matches_bothTexts (h : Joined b m m') (hu : Pair b m.store u u')
    (hw : Pair b m.store w w') :
    Matches b B m m' (bothTexts u w) (bothTexts u' w')
      (fun z z' m1 => z' = z ∧ m1 = m ∧ (z = true → AreTexts m.store u w)) := by
  refine .kindOf h hu fun kind hkind => matches_ite (fun htext => ?_) fun _ => .pure h
    ⟨rfl, rfl, nofun⟩
  refine .kindOf h hw fun kind' hkind' => .pure h ⟨rfl, rfl, fun hz r q hr hq => ?_⟩
  subst hr hq
  exact ⟨(ok_inj hkind).1.trans (eq_of_beq htext),
    (ok_inj hkind').1.trans (eq_of_beq hz)⟩

theorem suits_of_areTexts (h : Furnished g m.store) (hclosures : g.closures = true)
    (htables : m.store.OwnTables) (hr : g.Own m.store r) (hq : g.Own m.store q)
    (htexts : AreTexts m.store (.node r) (.node q)) (hx : contents (.node r) m = (.ok x, m))
    (hy : contents (.node q) m = (.ok y, m)) (hz : x.add y = .ok z) :
    Suits (m.store.kind r) [("val", z)] := by
  obtain ⟨hkind, hkind'⟩ := htexts r q rfl rfl
  obtain ⟨x', rfl⟩ := (h.typed hclosures htables r hr).string hkind x (val_of_contents hx)
  obtain ⟨y', rfl⟩ := (h.typed hclosures htables q hq).string hkind' y (val_of_contents hy)
  obtain rfl := Except.ok.inj hz
  rw [hkind]
  exact Closures.suits_text _

/-! ## Arithmetic -/

/-- A copy of the left operand with new contents. The left operand has contents, so that it is no
lambda, and neither is its copy. With closures this is how texts are joined. -/
theorem matches_amend (hf : Sober f) (h : Joined b m m') (hu : Values b m.store u u')
    (hw : Values b m.store w w')
    (htexts : g.closures = true → f = Datum.add ∧ AreTexts m.store u w) :
    Matches b B m m' (amend f u w) (amend f u' w') (After (Values b)) := by
  refine .next (matches_copy h hu) ?_
  rintro c c' m1 m1' hcopy hj ho ⟨hc, hkind⟩
  refine .contents hj (hu.later ho) fun x hx hcontents => ?_
  refine .contents hj (hw.later ho) fun y hy hcontents' => .lift hj (hf.plain x y) fun z hz => ?_
  obtain ⟨r, -, rfl, -, -, hr, -⟩ := hu.exists_node
  obtain ⟨r2, -, rfl, -, -, hr2, -⟩ := hw.exists_node
  have hne := ne_lambda_of_contents hj (hr.mono ho.later.size) hcontents
  have hlambda : ∀ q, c = .node q → m1.store.kind q ≠ "lambda" := by
    intro q hq
    rw [hkind r q rfl hq]
    exact hne
  have hsuits : g.closures = true → m1.store.OwnTables → ∀ q, c = .node q →
      Suits (m1.store.kind q) [("val", z)] := by
    intro hclosures htables q hq
    obtain ⟨rfl, hboth⟩ := htexts hclosures
    have hgrown : Grown m.store m1.store := by
      have := (Has.growth h.sane.furnished.formed : Growth m (copy (.node r) m).2).grown
      rwa [hcopy] at this
    rw [hkind r q rfl hq]
    refine suits_of_areTexts hj.sane.furnished hclosures htables (hr.mono ho.later.size)
      (hr2.mono ho.later.size) (fun _ _ hr' hq' => ?_) hcontents hcontents' hz
    cases hr'
    cases hq'
    rw [hgrown.kind_eq hr.2, hgrown.kind_eq hr2.2]
    exact hboth r r2 rfl rfl
  refine .next (matches_setVal hj hc hlambda (hf.atom hx hy hz) hsuits)
    fun _ _ m2 m2' _ hj2 ho2 _ => ?_
  exact .pure hj2 (hc.later ho2)

theorem matches_arithmetic (hg : g.closures = dialect.hasClosures) (hf : Sober f) (op : BinaryOp)
    (h : Joined b m m') (hu : Values b m.store u u') (hw : Values b m.store w w') :
    Matches b B m m' (arithmetic dialect op f u w) (arithmetic dialect op f u' w')
      (After (Values b)) := by
  refine .next (matches_require2 h _ _ hu.pair hw.pair) fun _ _ m1 m1' _ hj ho _ => ?_
  refine matches_ite (fun _ => ?_) fun hne =>
    matches_amend hf hj (hu.later ho) (hw.later ho) fun hclosures => absurd (hg ▸ hclosures) hne
  refine .contents hj (hu.later ho) fun x _ _ => .lift hj (plain_toInteger x) fun n _ => ?_
  refine .contents hj (hw.later ho) fun y _ _ => .lift hj (plain_toInteger y) fun k _ => ?_
  refine .lift hj (hf.plain _ _) fun z hz => ?_
  refine matches_makeWith hj (by decide) (hf.atom rfl rfl hz) fun _ => ?_
  obtain ⟨i, rfl⟩ := hf.int hz
  exact Closures.suits_int i

/-! ## Equality and connectives -/

theorem matches_compared (test : Datum → Datum → Bool) (h : Joined b m m')
    (hu : Values b m.store u u') (hw : Values b m.store w w') :
    Matches b B m m' (do return test (← contents u) (← contents w))
      (do return test (← contents u') (← contents w')) (fun z z' _ => z' = z) :=
  .contents h hu fun _ _ _ => .contents h hw fun _ _ _ => .pure h rfl

theorem Values.same_eq (hu : Values b s u u') (hw : Values b s w w') :
    u'.same w' = u.same w := by
  obtain ⟨r, r', rfl, rfl, hr, -, -⟩ := hu.exists_node
  obtain ⟨q, q', rfl, rfl, hq, -, -⟩ := hw.exists_node
  rw [Datum.same, Datum.same, Bool.eq_iff_iff, beq_iff_eq, beq_iff_eq]
  exact (b.same hr hq).symm

theorem matches_equality (h : Joined b m m') (hu : Values b m.store u u')
    (hw : Values b m.store w w') :
    Matches b B m m' (equality dialect u w) (equality dialect u' w') (fun z z' _ => z' = z) := by
  refine .kindOf h hu.pair fun ka _ => .kindOf h hw.pair fun kb _ => ?_
  refine matches_ite (fun _ => .pure h rfl) fun _ => matches_ite (fun _ => ?_) fun _ => ?_
  · exact .pure h (hu.same_eq hw)
  refine matches_ite (fun _ => .pure h rfl) fun _ => matches_ite (fun _ => ?_) fun _ => ?_
  · exact matches_compared (fun x y => x.same (.bool y.truth)) h hu hw
  refine matches_ite (fun _ => ?_) fun _ => matches_ite (fun _ => .pure h rfl) fun _ => ?_
  · exact matches_compared (fun x y => Datum.same (.bool x.truth) y) h hu hw
  · exact matches_compared Datum.same h hu hw

theorem matches_connective (hg : g.closures = dialect.hasClosures) (op : BinaryOp) (decides : Bool)
    (h : Joined b m m') (hu : Values b m.store u u') (hw : Values b m.store w w') :
    Matches b B m m' (connective dialect op decides u w) (connective dialect op decides u' w')
      (After (Values b)) := by
  have hmake : ∀ {m m' : Machine}, Joined b m m' → ∀ result : Datum, result.isAtom = true →
      Matches b B m m'
        (if dialect.hasClosures then makeBool result.truth else make "bool" [("val", result)])
        (if dialect.hasClosures then makeBool result.truth else make "bool" [("val", result)])
        (After (Values b)) := fun h result hatom =>
    matches_ite (fun _ => matches_makeBool h _) fun hne =>
      matches_makeWith h (by decide) hatom fun hclosures => absurd (hg ▸ hclosures) hne
  refine .next (matches_require2 h _ _ hu.pair hw.pair) fun _ _ m1 m1' _ hj ho _ => ?_
  refine .contents hj (hu.later ho) fun x hx _ => matches_ite (fun _ => ?_) fun _ => ?_
  · exact .bind_pure (hmake hj x hx)
  · exact .contents hj (hw.later ho) fun y hy _ => hmake hj y hy

/-! ## All operators -/

theorem matches_applyBinary (hg : g.closures = dialect.hasClosures) (op : BinaryOp)
    (h : Joined b m m') (hu : Values b m.store u u') (hw : Values b m.store w w') :
    Matches b B m m' (applyBinary dialect op u w) (applyBinary dialect op u' w')
      (After (Values b)) := by
  cases op with
  | add =>
    refine .next (matches_bothTexts h hu.pair hw.pair) ?_
    rintro z _ m1 m1' - hj - ⟨rfl, rfl, htexts⟩
    exact matches_ite (fun hz => matches_amend sober_add hj hu hw fun _ => ⟨rfl, htexts hz⟩)
      fun _ =>
      matches_arithmetic hg sober_add _ hj hu hw
  | subtract => exact matches_arithmetic hg sober_subtract _ h hu hw
  | multiply => exact matches_arithmetic hg sober_multiply _ h hu hw
  | divide => exact matches_arithmetic hg sober_divide _ h hu hw
  | equal =>
    refine .next (matches_equality h hu hw) ?_
    rintro _ z m1 m1' - hj - rfl
    exact matches_makeBool hj z
  | notEqual =>
    refine .next (matches_equality h hu hw) ?_
    rintro _ z m1 m1' - hj - rfl
    exact matches_makeBool hj !z
  | order o =>
    refine .next (matches_require2 h _ _ hu.pair hw.pair) fun _ _ m1 m1' _ hj ho _ => ?_
    refine .contents hj (hu.later ho) fun x hx _ => .contents hj (hw.later ho) fun y hy _ => ?_
    exact .lift hj (plain_compare hx) fun z _ => matches_makeBool hj z
  | and => exact matches_connective hg _ _ h hu hw
  | or => exact matches_connective hg _ _ h hu hw

theorem matches_applyUnary (op : UnaryOp) (h : Joined b m m') (hu : Values b m.store u u') :
    Matches b B m m' (applyUnary dialect op u) (applyUnary dialect op u')
      (After (Values b)) := by
  cases op with
  | negate =>
    refine .next (matches_require1 h _ _ hu.pair) fun _ _ m1 m1' _ hj ho _ => ?_
    refine .contents hj (hu.later ho) fun x _ _ => .lift hj (plain_negate x) fun z hz => ?_
    obtain ⟨i, rfl⟩ : ∃ i, z = .int i := by
      unfold Datum.negate at hz
      split at hz
      · exact ⟨_, (Except.ok.inj hz).symm⟩
      · cases hz
    exact matches_makeInt hj i
  | not =>
    refine .next (matches_require1 h _ _ hu.pair) fun _ _ m1 m1' _ hj ho _ => ?_
    exact .contents hj (hu.later ho) fun x _ _ => matches_makeBool hj _

theorem matches_conditionTruth (title : String) (h : Joined b m m') (hu : Values b m.store u u') :
    Matches b B m m' (conditionTruth dialect title u) (conditionTruth dialect title u')
      (fun z z' _ => z' = z) := by
  have htruth : Matches b B m m' (do return (← contents u).truth) (do return (← contents u').truth)
      (fun z z' _ => z' = z) := .contents h hu fun x _ _ => .pure h rfl
  refine .kindOf h hu.pair fun kind _ => matches_ite (fun _ => ?_) fun _ => htruth
  exact .stop (matches_report h _ _)

end LangKit.Script.Parallel
