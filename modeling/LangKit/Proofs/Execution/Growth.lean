import LangKit.Proofs.Execution.Composition

/-!
# Steps that only add nodes

Most steps of a run change nothing that is in the store: they look, they print, or they add nodes,
as every operator and every variable does (`Grows`). So an expression without calls leaves all
values as they are: `growth_eval_of_callFree`.
-/

namespace LangKit.Script

open Run Store

variable {m1 m m' : Machine} {d node : Datum} {dialect : Dialect}

/-- From one state to the other, nodes are added to the store. -/
structure Growth (m m' : Machine) : Prop where
  formed : m'.store.Formed
  grown : Grown m.store m'.store
  functions : m'.functions = m.functions

theorem Growth.refl {m : Machine} (h : m.store.Formed) : Growth m m :=
  ⟨h, .refl _, rfl⟩

theorem Growth.trans {m1 m2 m3 : Machine} (h : Growth m1 m2) (h' : Growth m2 m3) : Growth m1 m3 :=
  ⟨h'.formed, h.grown.trans h'.grown, h'.functions.trans h.functions⟩

section

variable {α β : Type} {x : Run α} {f : α → Run β}

/-- A step only adds nodes to the store. -/
def Grows (x : Run α) : Prop :=
  ∀ m, m.store.Formed → Growth m (x m).2

theorem Has.growth [h : Has Grows x] (hm : m.store.Formed) : Growth m (x m).2 :=
  h.holds m hm

theorem Growth.bind (h : Growth m m1) (hx : m1.store.Formed → Growth m1 (x m1).2)
    (hf : ∀ a m2, x m1 = (.ok a, m2) → Growth m m2 → Growth m (f a m2).2) :
    Growth m ((x >>= f) m1).2 :=
  bind_machine (h.trans (hx h.formed)) hf

instance : Composes Grows where
  look hx m hm := by
    rw [hx m]
    exact .refl hm
  bind hx hf m hm := (Growth.refl hm).bind (hx m) fun a m2 _ h => h.trans (hf a m2 h.formed)

theorem Growth.step [Has Grows x] (h : Growth m m1)
    (hf : ∀ a m2, x m1 = (.ok a, m2) → Growth m m2 → Growth m (f a m2).2) :
    Growth m ((x >>= f) m1).2 :=
  h.bind Has.growth hf

theorem grows_onConsole (f : Store → Console → α × Console) : Grows (onConsole f) :=
  fun _ hm => ⟨hm, .refl _, rfl⟩

end

/-! ## Adding nodes -/

instance (d : Datum) : Has Grows (copy d) :=
  ⟨fun _ hm => ⟨hm.copy.1, hm.copy.2, rfl⟩⟩

theorem eq_of_copy (h : copy (.node ref) m = (.ok d, m')) : d = .node m.store.size := by
  have hcopy : (copy (.node ref) m).1 = .ok (m.store.copy (.node ref)).1 := rfl
  rw [h, fst_copy_node] at hcopy
  exact Except.ok.inj hcopy

theorem Growth.setField {m m' : Machine} {name : String} {value : Datum} (h : Growth m m')
    (hr : m.store.size ≤ ref) :
    Growth m (setField (.node ref) name value m').2 :=
  ⟨h.formed.setField, h.grown.setField hr, h.functions⟩

theorem grows_amend (f : Datum → Datum → Except Fault Datum) (a b : Datum) :
    Grows (amend f a b) := by
  intro m hm
  refine (Growth.refl hm).step fun r m1 hcopy h1 => h1.step fun x m2 hx h2 => ?_
  refine h2.step fun y m3 _ h3 => h3.step fun z m4 _ h4 => ?_
  obtain ⟨ref, rfl, -⟩ := exists_node_of_field hx
  obtain rfl := eq_of_copy hcopy
  exact h4.setField (Nat.le_refl _)

theorem grows_lambdaValue (dialect : Dialect) (scope : Scope) (node : Datum) :
    Grows (lambdaValue dialect scope node) := by
  intro m hm
  have hcopies : Has Grows (onStore fun s => s.copyFields scope) :=
    ⟨fun m hm => ⟨hm.copyFields.1, hm.copyFields.2, rfl⟩⟩
  refine (Growth.refl hm).step fun d m1 hargs h1 => h1.step fun ds m2 _ h2 =>
    h2.step fun formals m3 _ h3 => ?_
  refine h3.step fun copies m4 _ h4 => h4.step fun free m5 _ h5 =>
    h5.step fun result m6 hcopy h6 => ?_
  obtain ⟨ref, rfl, -⟩ := exists_node_of_field hargs
  obtain rfl := eq_of_copy hcopy
  exact h6.setField h5.grown.size

instance : InheritsQuietly Grows where
  report _ _ := ⟨fun _ hm => ⟨hm, .refl _, rfl⟩⟩
  make _ _ := ⟨fun _ hm => ⟨hm.alloc, grown_alloc, rfl⟩⟩
  copy _ := inferInstance
  amend f a b := ⟨grows_amend f a b⟩
  lambdaValue dialect scope node := ⟨grows_lambdaValue dialect scope node⟩

/-! ## Expressions without calls -/

inductive CallFree (dialect : Dialect) (s : Store) : Datum → Prop
  | leaf (lt : ref < s.size) (kind : dialect.exprForm (s.kind ref) = form)
      (plain : form ∈ [.literal, .variable, .lambda, .object, .unknown]) :
      CallFree dialect s (.node ref)
  | binary (lt : ref < s.size) (kind : dialect.exprForm (s.kind ref) = .binary op)
      (first : s.field? ref "op1" = some d1) (second : s.field? ref "op2" = some d2)
      (left : CallFree dialect s d1) (right : CallFree dialect s d2) :
      CallFree dialect s (.node ref)
  | unary {d : Datum} (lt : ref < s.size) (kind : dialect.exprForm (s.kind ref) = .unary op)
      (first : s.field? ref "op1" = some d) (operand : CallFree dialect s d) :
      CallFree dialect s (.node ref)

theorem CallFree.grown (h : CallFree dialect s d) (hs : s.Formed) (hg : Grown s s') :
    CallFree dialect s' d := by
  induction h with
  | leaf lt kind plain =>
    exact .leaf (Nat.lt_of_lt_of_le lt hg.size) (by rw [hg.kind_eq lt]; exact kind) plain
  | binary lt kind first second _ _ left right =>
    refine .binary (Nat.lt_of_lt_of_le lt hg.size)
      (by rw [hg.kind_eq lt]; exact kind) ?_ ?_ left right
    · rw [hg.field?_eq hs lt, first]
    · rw [hg.field?_eq hs lt, second]
  | unary lt kind first _ operand =>
    refine .unary (Nat.lt_of_lt_of_le lt hg.size) (by rw [hg.kind_eq lt]; exact kind) ?_ operand
    rw [hg.field?_eq hs lt, first]

/-- An expression without calls adds nodes to the store and changes none. -/
theorem growth_eval_of_callFree {scope : Scope} (fuel : Nat) (hm : m.store.Formed)
    (h : CallFree dialect m.store node) : Growth m (eval dialect fuel byRef scope node m).2 := by
  induction fuel generalizing byRef node m with
  | zero => exact .refl hm
  | succ fuel ih =>
    cases h with
    | @leaf ref form lt kind plain =>
      rw [eval_of_form ⟨_, rfl, kind⟩]
      cases form with
      | literal | «variable» | lambda | object | unknown =>
        rw [Handling.evalForm]
        exact Has.growth hm
      | _ => simp at plain
    | @binary ref op d1 d2 lt kind first second left right =>
      rw [eval_binary ⟨_, rfl, kind⟩, bind_of_ok (field_apply first)]
      refine (Growth.refl hm).bind (fun _ => ih hm left) fun a m1 _ h1 => ?_
      -- The right operand is still the same, and still without calls.
      have second' : m1.store.field? ref "op2" = some d2 := by rw [h1.grown.field?_eq hm lt, second]
      rw [bind_of_ok (field_apply second')]
      refine h1.bind (fun hm1 => ih hm1 (right.grown hm h1.grown)) fun b m2 _ h2 => ?_
      exact h2.trans (Has.growth h2.formed)
    | @unary ref op d lt kind first operand =>
      rw [eval_unary ⟨_, rfl, kind⟩, bind_of_ok (field_apply first)]
      refine (Growth.refl hm).bind (fun _ => ih hm operand) fun a m1 _ h1 => ?_
      exact h1.trans (Has.growth h1.formed)

end LangKit.Script
