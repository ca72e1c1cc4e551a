import LangKit.Proofs.Extension.Pairs

/-!
# Operators, variables and assignments side by side

On operands that the scoped dialect accepts, an operator of the dialect with closures makes the same
value, unless a number is compared with a truth value (`Mixed`). An assignment to a bound name is
printed in the dialect with closures, so it can only be followed if the value has a text.
-/

namespace LangKit.Script.Extension

open Run Store
open Stacked (Setting Value Held)

variable {c : Setting} {R : Pairs} {m n m1 : Machine} {x y : Run Datum}
  {title : String} {d a b : Datum} {v : Value} {op : BinaryOp}

inductive Mixed : Value → Value → Prop
  | intBool (n : Int) (b : Bool) : Mixed (.int n) (.bool b)
  | boolInt (b : Bool) (n : Int) : Mixed (.bool b) (.int n)

/-! ## Operators -/

/-- Two steps make nodes with the same value. -/
def MakeAlike (m n : Machine) (x y : Run Datum) : Prop :=
  ∃ v : Value, x m = make v.node.1 v.node.2 m ∧ y n = make v.node.1 v.node.2 n

theorem MakeAlike.forward (h : MakeAlike m n x y) (hl : Link c R m n) :
    Forward c R m n x y (NewPair m.store.size) := by
  obtain ⟨v, hx, hy⟩ := h
  exact (forward_make hl trivial).congr hx hy

/-- An operator that ends well in the scoped dialect is followed if closures make what the values
alone give. -/
theorem MakeAlike.of_outcome {zero : Prop} (h : Stacked.Outcome title zero m x p)
    (hx : x m = (.ok d, m1)) (hy : ∀ v, p = pure v → y n = make v.node.1 v.node.2 n) :
    MakeAlike m n x y := by
  cases h with
  | makes v run plain => exact ⟨v, run, hy v plain⟩
  | refuses run => cases (Prod.mk.inj (run.symm.trans hx)).1
  | divides _ _ run => cases (Prod.mk.inj (run.symm.trans hx)).1

theorem misfit_ne_pure : (Stacked.misfit title : Stacked.Act Value) ≠ pure v :=
  fun h => by cases (Prod.mk.inj (congrFun h (.start default))).1

theorem eq_of_pure (h : (pure u : Stacked.Act Value) = pure v) : v = u :=
  (ok_inj (congrFun h (.start default))).1.symm

section

variable {a' b' : Datum} {va vb : Value} (ha : Held m.store a va) (hb : Held m.store b vb)
  (ha' : Held n.store a' va) (hb' : Held n.store b' vb)

include ha' hb'

theorem arithmetic_of_numbers {x y z : Int} (hx : va = .int x)
    (hy : vb = .int y) (hf : f (.int x) (.int y) = .ok (.int z)) :
    arithmetic .closures op f a' b' n = make "int" [("val", .int z)] n := by
  subst hx hy
  have hdef : arithmetic .closures op f a' b' = (do
      require2 op.title ["int", "bool"] a' b'
      let x ← lift (← contents a').toInteger
      let y ← lift (← contents b').toInteger
      make "int" [("val", ← lift (f (.int x) (.int y)))]) := rfl
  have hreq : require2 op.title ["int", "bool"] a' b' n = (.ok (), n) :=
    Stacked.require2_apply ha' hb' op.title ["int", "bool"]
  have hread : ∀ k : Int, lift (Datum.int k).toInteger n = (.ok k, n) := fun _ => rfl
  rw [hdef, bind_of_ok hreq, bind_of_ok (ha'.contents rfl), bind_of_ok (hread x),
    bind_of_ok (hb'.contents rfl), bind_of_ok (hread y), hf]
  rfl

theorem equality_of_not_mixed (h : ¬ Mixed va vb) :
    equality .closures a' b' n = (.ok (va == vb), n) := by
  refine Stacked.equality_apply ha' hb' fun _ x y => ⟨?_, ?_⟩
  · rintro ⟨rfl, rfl⟩
    exact h (.intBool x y)
  · rintro ⟨rfl, rfl⟩
    exact h (.boolInt y x)

theorem binary_of_plain (hs : n.store.Separate) (hop : op = .equal ∨ op = .notEqual → ¬ Mixed va vb)
    (h : Stacked.applyBinary op va vb = pure v) :
    applyBinary .closures op a' b' n = make v.node.1 v.node.2 n := by
  cases op with
  | add =>
    rw [applyBinary, bind_of_ok (Stacked.bothTexts_apply ha' hb')]
    cases va <;> cases vb <;> try exact absurd h misfit_ne_pure
    · obtain rfl := eq_of_pure h
      exact arithmetic_of_numbers ha' hb' rfl rfl rfl
    · obtain rfl := eq_of_pure h
      exact Stacked.amend_apply ha' hb' hs (f := Datum.add) rfl rfl rfl rfl
  | subtract | multiply =>
    cases va <;> cases vb <;> try exact absurd h misfit_ne_pure
    obtain rfl := eq_of_pure h
    exact arithmetic_of_numbers ha' hb' rfl rfl rfl
  | divide =>
    cases va <;> cases vb <;> try exact absurd h misfit_ne_pure
    rw [Stacked.applyBinary] at h
    split at h
    · cases (Prod.mk.inj (congrFun h (.start default))).1
    · next hzero =>
      obtain rfl := eq_of_pure h
      exact arithmetic_of_numbers ha' hb' rfl rfl (by rw [Stacked.divide_ints, if_neg hzero]; rfl)
  | equal =>
    obtain rfl := eq_of_pure h
    exact bind_of_ok (equality_of_not_mixed ha' hb' (hop (.inl rfl)))
  | notEqual =>
    obtain rfl := eq_of_pure h
    exact bind_of_ok (equality_of_not_mixed ha' hb' (hop (.inr rfl)))
  | order o =>
    cases va <;> cases vb <;> try exact absurd h misfit_ne_pure
    obtain rfl := eq_of_pure h
    exact Stacked.order_of_ints .closures ha' hb' o
  | and | or =>
    cases va <;> cases vb <;> try exact absurd h misfit_ne_pure
    obtain rfl := eq_of_pure h
    refine (Stacked.connective_of_truths .closures ha' hb' _ _).trans ?_
    rename_i x y
    cases x <;> rfl

omit hb' in
theorem unary_of_plain {op : UnaryOp} (h : Stacked.applyUnary op va = pure v) :
    applyUnary .closures op a' n = make v.node.1 v.node.2 n := by
  cases op with
  | negate =>
    have hreq := Stacked.require1_apply ha' UnaryOp.negate.title ["int"]
    cases va <;> try exact absurd h misfit_ne_pure
    obtain rfl := eq_of_pure h
    rw [applyUnary, bind_of_ok hreq, bind_of_ok (ha'.contents rfl)]
    rfl
  | not =>
    have hreq := Stacked.require1_apply ha' UnaryOp.not.title ["int", "bool"]
    cases va <;> try exact absurd h misfit_ne_pure
    obtain rfl := eq_of_pure h
    exact (bind_of_ok hreq).trans (bind_of_ok (ha'.contents rfl))

include ha hb

/-- A binary operator that ends well in the scoped dialect makes the same value with closures. -/
theorem makeAlike_binary (hs : m.store.Separate) (hs' : n.store.Separate)
    (hop : op = .equal ∨ op = .notEqual → ¬ Mixed va vb)
    (h : applyBinary .scoped op a b m = (.ok d, m1)) :
    MakeAlike m n (applyBinary .scoped op a b) (applyBinary .closures op a' b') :=
  .of_outcome (Stacked.binary_outcome ha hb hs op) h fun _ => binary_of_plain ha' hb' hs' hop

omit hb hb'

theorem makeAlike_unary {op : UnaryOp} (h : applyUnary .scoped op a m = (.ok d, m1)) :
    MakeAlike m n (applyUnary .scoped op a) (applyUnary .closures op a') :=
  .of_outcome (Stacked.unary_outcome ha op) h fun _ => unary_of_plain ha'

theorem forward_condition (hl : Link c R m n) (title : String) :
    Forward c R m n (conditionTruth .scoped title a) (conditionTruth .closures title a')
      fun _ go go' => go = go' := by
  by_cases hk : va.kind = "bool"
  · obtain ⟨x, rfl⟩ := eq_bool_of_kind hk
    exact .of_ok (Stacked.condition_of_truth .scoped ha title)
      (Stacked.condition_of_truth .closures ha' title) ⟨hl, le_refl R, Nat.le_refl _⟩ rfl
  · exact forward_report (Stacked.condition_of_other ha hk title)

end

/-! ## Variables -/

section

variable {scope scope' : Scope} {x : String}

/-- A bound name gives a copy of its value; in the scoped dialect no other name gives anything. -/
theorem forward_variable (hl : Link c R m n) (hs : SameScope R scope scope')
    (hd : c.Code d (.node "var" [("name", .text x)])) :
    Forward c R m n (variableValue .scoped false scope d) (variableValue .closures false scope' d)
      (NewPair m.store.size) := by
  refine .step (hd.text_field? hl.left.base "name" rfl) (hd.text_field? hl.right.base "name" rfl) ?_
  dsimp only [Option.getD_some, Scope.value?]
  have hrel := hs.get? x
  generalize Assoc.get? x scope = v, Assoc.get? x scope' = v' at hrel
  cases hrel with
  | none =>
    refine forward_report (?_ : _ = report .name ("Variable " ++ x ++ " has not been defined") m)
    rfl
  | @some v v' hpair =>
    obtain ⟨u, -, hu, hu'⟩ := hl.held hpair
    -- No variable holds a function, so this one is copied with closures too.
    have hcopied : deliver .closures false v' n = copy v' n := by
      have hdef : deliver .closures false v' = (do
          if Dialect.closures.sharedKinds.contains (← kindOf v') then return v' else copy v') := rfl
      rw [hdef, bind_of_ok hu'.kindOf]
      cases u <;> rfl
    exact (forward_copy hl trivial hu hu').congr rfl hcopied

/-! ## Assignments -/

theorem exists_textOf (hd : Held m.store d v)
    (hshort : ∀ k, v = .int k → Text.Decimal.write? k ≠ none) :
    ∃ s, textOf d m = (.ok s, m) := by
  obtain ⟨ref, rfl, -, hnode⟩ := hd
  have hfields : m.store.fields ref = v.node.2 := congrArg Prod.snd hnode
  have hkind : m.store.kind ref = v.kind := congrArg Prod.fst hnode
  have htext : ∃ s, m.store.textOf (.node ref) = .ok s := by
    rw [Store.textOf, Datum.textWith, Store.nodeText, hfields, hkind]
    cases v with
    | int k =>
      obtain ⟨s, hs⟩ := Option.ne_none_iff_exists'.1 (hshort k rfl)
      refine ⟨"int" ++ ": " ++ ", ".intercalate ["val" ++ ": " ++ s], ?_⟩
      simp only [Value.node, Value.contents?, Value.kind, Option.map_some, Option.toList_some,
        Datum.fieldTextsWith, Datum.fieldTextWith, Datum.textWith, Datum.display, Datum.outline,
        Datum.outlineWith, Tree.display?, hs]
      rfl
    | bool b => exact ⟨_, rfl⟩
    | string s => exact ⟨_, rfl⟩
    | nil => exact ⟨_, rfl⟩
  obtain ⟨s, hs⟩ := htext
  exact ⟨s, by rw [Run.textOf, hs]⟩

theorem textOf_of_long (hd : Held m.store d (.int k)) (hlong : Text.Decimal.write? k = none) :
    textOf d m = (.error (.fault .unprintableInteger), m) := by
  obtain ⟨ref, rfl, -, hnode⟩ := hd
  have hfields : m.store.fields ref = [("val", .int k)] := congrArg Prod.snd hnode
  have htext : m.store.textOf (.node ref) = .error .unprintableInteger := by
    rw [Store.textOf, Datum.textWith, Store.nodeText, hfields]
    simp only [Datum.fieldTextsWith, Datum.fieldTextWith, Datum.textWith, Datum.display,
      Datum.outline, Datum.outlineWith, Tree.display?, hlong]
    rfl
  rw [Run.textOf, htext]

theorem forward_overwrite {start : Nat} (hl : Link c R m n) (hs : SameScope R scope scope')
    (hx : Assoc.has x scope = true) (hab : NewPair start R a b) :
    Forward c R m n (overwrite .scoped (bound scope x) a) (overwrite .closures (bound scope' x) b)
      fun _ _ _ => True := by
  have hrel := hs.get? x
  obtain ⟨d1, hget⟩ := Option.isSome_iff_exists.1 hx
  rw [hget] at hrel
  generalize hget' : Assoc.get? x scope' = d1' at hrel
  cases hrel with
  | some hpair =>
    cases hpair with
    | @node q q' hq =>
      cases hab with
      | @node r r' hr new =>
        obtain ⟨v, -, hv, hv'⟩ := hl.node hr
        cases hz : v.contents? with
        | some z =>
          have hwrite := Stacked.overwrite_apply .scoped hget (hl.high hq).1 hv hz
          have hwrite' := Stacked.overwrite_apply .closures hget' (hl.high hq).2 hv' hz
          exact .of_ok hwrite hwrite' ⟨hl.overwrite hq hz, le_refl R, by simp⟩ trivial
        | none =>
          obtain rfl := eq_nil_of_contents hz
          exact .of_error (overwrite_nil hget (hl.high hq).1 hv)

/-- An assignment sets the node of a bound name, or binds a new name to the new node. -/
theorem forward_assign {value value' : Run Datum} (hs : SameScope R scope scope')
    (hvalue : Forward c R m n value value' (NewPair m.store.size))
    (hshort : ∀ a m1 k, Assoc.has x scope = true → value m = (.ok a, m1) →
      Held m1.store a (.int k) →
      Text.Decimal.write? k ≠ none) :
    Forward c R m n (assign .scoped scope x value) (assign .closures scope' x value')
      SameScope := by
  rw [assign, assign, isBound_eq_has rfl, isBound_eq_has rfl, hs.has]
  cases hx : Assoc.has x scope with
  | true =>
    refine hvalue.bind fun a b m1 n1 R1 ha _ ho hab => ?_
    obtain ⟨v, -, hv, hv'⟩ := ho.link.held hab.paired
    obtain ⟨text, htext⟩ := exists_textOf hv' fun k hk => hshort a m1 k hx ha (hk ▸ hv)
    have hs1 := hs.mono ho.pairs
    refine .step_right htext (.step_right rfl ?_)
    exact (forward_overwrite (ho.link.printed _) hs1 hx hab).map fun ho' _ => hs1.mono ho'.pairs
  | false => exact hvalue.map fun ho hab => (hs.mono ho.pairs).put x hab.paired

end

end LangKit.Script.Extension
