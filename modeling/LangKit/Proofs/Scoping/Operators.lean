import LangKit.Proofs.Scoping.Latching

/-!
# Values and operators

An expression gives its value in a new node (`Gives`). The operators of the scoped dialect look at
the kinds and contents of their operands' nodes, and what they make of them is what the plain
semantics makes of the values: `binary_outcome`, `unary_outcome`.
-/

namespace LangKit.Script.Stacked

open Ast Store

variable {α : Type} {s s' : Store} {d x y : Datum} {v : Value}
  {f : Datum → Datum → Except Fault Datum} {title : String} {zero : Prop} {m : Machine}
  {c : Setting} {places : Places}

/-! ## Nodes that hold values -/

def Held (s : Store) (d : Datum) (v : Value) : Prop :=
  ∃ ref, d = .node ref ∧ ref < s.size ∧ s.node ref = v.node

theorem Fresh.held (h : Fresh s s' d v) : Held s' d v := by
  obtain ⟨ref, hd, _, hlt, hnode⟩ := h
  exact ⟨ref, hd, hlt, hnode⟩

theorem Held.extend (h : Held s d v) (he : Extends s s') : Held s' d v := by
  obtain ⟨ref, hd, hlt, hnode⟩ := h
  exact ⟨ref, hd, Nat.lt_of_lt_of_le hlt he.size, (he.node ref hlt).trans hnode⟩

theorem Held.kindOf (h : Held m.store d v) : Run.kindOf d m = (.ok v.kind, m) := by
  obtain ⟨ref, rfl, _, hnode⟩ := h
  have hkind : m.store.kind ref = v.kind := congrArg Prod.fst hnode
  rw [← hkind]
  rfl

theorem Held.contents (h : Held m.store d v) {x : Datum} (hx : v.contents? = some x) :
    Script.contents d m = (.ok x, m) := by
  obtain ⟨ref, rfl, _, hnode⟩ := h
  have hfields : m.store.fields ref = [("val", x)] := by
    have := congrArg Prod.snd hnode
    rwa [Value.node, hx] at this
  exact field_apply (by rw [field?, hfields]; rfl)

theorem Held.contents_nil (h : Held m.store d .nil) :
    Script.contents d m = (.error (.fault (Fault.missingField "val")), m) := by
  obtain ⟨ref, rfl, _, hnode⟩ := h
  have hfields : m.store.fields ref = [] := congrArg Prod.snd hnode
  have hfield : m.store.field? ref "val" = none := by rw [field?, hfields]; rfl
  simp only [Script.contents, Run.field, bind_apply, field?_apply, hfield]
  rfl

/-! ## New nodes -/

/-- A step that does nothing but make a node with a value. -/
def Makes (m : Machine) (x : Run Datum) (v : Value) : Prop :=
  ∃ d s', x m = (.ok d, { m with store := s' }) ∧ Extends m.store s' ∧ Fresh m.store s' d v

theorem fresh_alloc (h : s.Separate) (v : Value) :
    Fresh s (s.alloc v.node.1 v.node.2).2 (.node s.size) v :=
  ⟨s.size, rfl, Nat.le_refl _, by simp, (node_alloc h).trans (if_pos rfl)⟩

theorem makes_make (h : m.store.Separate) (v : Value) : Makes m (Run.make v.node.1 v.node.2) v :=
  ⟨_, _, rfl, h.extends_alloc, fresh_alloc h v⟩

theorem isAtom_of_contents (h : v.contents? = some x) : x.isAtom = true := by
  cases v <;> cases h <;> rfl

theorem copy_apply (hd : Held m.store d v) : Run.copy d m = Run.make v.node.1 v.node.2 m := by
  obtain ⟨ref, rfl, _, hnode⟩ := hd
  have hkind : m.store.kind ref = v.node.1 := congrArg Prod.fst hnode
  have hfields : m.store.fields ref = v.node.2 := congrArg Prod.snd hnode
  have hatoms : ∀ e ∈ m.store.fields ref, e.2.isAtom = true := by
    rw [hfields]
    intro e he
    obtain ⟨x, hx, rfl⟩ : ∃ x, v.contents? = some x ∧ ("val", x) = e := by
      simpa [Value.node] using he
    exact isAtom_of_contents hx
  simp only [Run.copy, Run.make, Run.onStore, copy_flat hatoms, hkind, hfields]
  rfl

theorem makes_copy (h : m.store.Separate) (hd : Held m.store d v) : Makes m (Run.copy d) v := by
  obtain ⟨d', s', hmake, hrest⟩ := makes_make h v
  exact ⟨d', s', (copy_apply hd).trans hmake, hrest⟩

/-- An expression has given a value: the state is linked as before, and the value is in a new
node. -/
structure Gives (c : Setting) (places : Places) (s : Store) (d : Datum) (v : Value) (m : Machine)
    (w : World) : Prop where
  linked : Linked c places m w
  grows : Grows places s m.store
  fresh : Fresh s m.store d v

section

variable {w : World}

theorem Makes.agree {x : Run Datum} (h : Makes m x v) (hl : Linked c places m w) :
    Agree m w x (pure v) (Gives c places m.store) := by
  obtain ⟨d, s', hx, hext, hfresh⟩ := h
  intro _
  rw [hx]
  exact .ok ⟨hl.extend hext, .of_extends hext, hfresh⟩

theorem agree_report {β : Type} {Q : α → β → Machine → World → Prop} (hl : Linked c places m w)
    (kind : ErrorKind) (text : String) : Agree m w (Run.report kind text) (report kind text) Q := by
  intro _
  refine .error _ ?_
  simp only [hl.console]

theorem agree_lift (hl : Linked c places m w) (r : Except Fault α) :
    Agree m w (Run.lift r) (lift r) fun a b m' w' => a = b ∧ m' = m ∧ w' = w := by
  cases r with
  | ok a => exact .pure ⟨rfl, rfl, rfl⟩
  | error f => exact .throw _ hl.console

end

/-! ## Operators -/

section

variable {w : World} {a b : Datum} {va vb : Value} (hl : Linked c places m w)
  (ha : Held m.store a va) (hb : Held m.store b vb)

include ha in
theorem require1_apply (title : String) (kinds : List String) :
    require1 title kinds a m =
      if kinds.contains va.kind then (.ok (), m) else (Script.misfit title : Run Unit) m := by
  simp only [require1, bind_apply, ha.kindOf]
  cases kinds.contains va.kind <;> rfl

include ha hb in
theorem require2_apply (title : String) (kinds : List String) :
    require2 title kinds a b m =
      if kinds.contains va.kind && kinds.contains vb.kind then (.ok (), m)
      else (Script.misfit title : Run Unit) m := by
  simp only [require2, bind_apply, ha.kindOf]
  cases kinds.contains va.kind with
  | false => rfl
  | true =>
    simp only [Bool.not_true, Bool.false_eq_true, if_false, bind_apply, hb.kindOf, Bool.true_and]
    cases kinds.contains vb.kind <;> rfl

include ha hb in
theorem amend_apply (h : m.store.Separate) (hx : va.contents? = some x) (hy : vb.contents? = some y)
    (hf : f x y = .ok z) (hv : v.node = (va.kind, [("val", z)])) :
    amend f a b m = Run.make v.node.1 v.node.2 m := by
  have hnode : va.node = (va.kind, [("val", x)]) := by rw [Value.node, hx]; rfl
  have hext : Extends m.store (m.store.alloc va.node.1 va.node.2).2 := h.extends_alloc
  generalize hs' : (m.store.alloc va.node.1 va.node.2).2 = s' at hext
  have hcopy : Run.copy a m = (.ok (.node m.store.size), { m with store := s' }) := by
    rw [copy_apply ha, ← hs']
    rfl
  have ha' : Held ({ m with store := s' } : Machine).store a va := ha.extend hext
  have hb' : Held ({ m with store := s' } : Machine).store b vb := hb.extend hext
  have hset : Run.setField (.node m.store.size) "val" z { m with store := s' } =
      (.ok (), { m with store := (m.store.alloc v.node.1 v.node.2).2 }) := by
    have hstore : s'.setField m.store.size "val" z = (m.store.alloc v.node.1 v.node.2).2 := by
      rw [← hs', setField_alloc, hv, hnode]
      rfl
    rw [← hstore]
    rfl
  simp only [amend, bind_apply, hcopy, ha'.contents hx, hb'.contents hy, hf, Run.lift,
    pure_apply, hset]
  rfl

include ha hb in
/-- If the new contents cannot be had, the copy has been made all the same. -/
theorem amend_error (h : m.store.Separate) (hx : va.contents? = some x) (hy : vb.contents? = some y)
    (hf : f x y = .error e) :
    amend f a b m = (.error (.fault e), (Run.make va.node.1 va.node.2 m).2) := by
  have hext : Extends m.store (m.store.alloc va.node.1 va.node.2).2 := h.extends_alloc
  have ha' : Held (Run.make va.node.1 va.node.2 m).2.store a va := ha.extend hext
  have hb' : Held (Run.make va.node.1 va.node.2 m).2.store b vb := hb.extend hext
  have hcopy : Run.copy a m = (.ok (.node m.store.size), (Run.make va.node.1 va.node.2 m).2) :=
    copy_apply ha
  simp only [amend, bind_apply, hcopy, ha'.contents hx, hb'.contents hy, hf, Run.lift]
  rfl

/-- What an operator does with its operands, in a run and on the values alone: it makes a new node,
it refuses them, or it divides by zero, which the values must allow. -/
inductive Outcome (title : String) (zero : Prop) (m : Machine) (x : Run Datum) (y : Act Value) :
    Prop
  | makes (v : Value) (run : x m = Run.make v.node.1 v.node.2 m) (plain : y = pure v)
  | refuses (run : x m = (Script.misfit title : Run Datum) m) (plain : y = misfit title)
  | divides (divisor : zero) (v : Value)
      (run : x m = (.error (.fault .divisionByZero), (Run.make v.node.1 v.node.2 m).2))
      (plain : y = fail .divisionByZero)

theorem Outcome.agree {title : String} {zero : Prop} {x : Run Datum} {y : Act Value}
    (h : Outcome title zero m x y) (hl : Linked c places m w) :
    Agree m w x y (Gives c places m.store) := by
  cases h with
  | makes v run plain =>
    obtain ⟨d, s', hmake, hrest⟩ := makes_make hl.base.separate v
    rw [plain]
    exact Makes.agree ⟨d, s', run.trans hmake, hrest⟩ hl
  | refuses run plain =>
    rw [plain]
    intro hnil
    rw [run]
    exact agree_report hl .type ("Incompatible types for " ++ title ++ " operation") hnil
  | divides divisor v run plain =>
    rw [plain]
    intro _
    rw [run]
    exact .error _ hl.console

theorem Outcome.congr {x x' : Run Datum} {y : Act Value} (h : Outcome title zero m x y)
    (hx : x' m = x m) :
    Outcome title zero m x' y := by
  cases h with
  | makes v run plain => exact .makes v (hx.trans run) plain
  | refuses run plain => exact .refuses (hx.trans run) plain
  | divides divisor v run plain => exact .divides divisor v (hx.trans run) plain

theorem misfit_of_eq {x : Run Unit} (hx : x m = (Script.misfit title : Run Unit) m) :
    (x >>= g) m = (Script.misfit title : Run α) m := by
  rw [bind_apply, hx]
  rfl

include ha hb in
/-- An arithmetic operation on two integers; it can fail only by dividing by zero. -/
theorem outcome_arithmetic (hs : m.store.Separate) (op : BinaryOp) (zero : Prop)
    {g : Int → Int → Except Fault Int} (hf : ∀ x y, f (.int x) (.int y) = (g x y).map .int)
    (hg : ∀ x y e, vb = .int y → g x y = .error e → zero ∧ e = .divisionByZero) :
    Outcome op.title zero m (arithmetic .scoped op f a b)
      (match va, vb with
        | .int x, .int y => do return .int (← lift (g x y))
        | _, _ => misfit op.title) := by
  have hreq := require2_apply ha hb op.title ["int"]
  have harith : arithmetic .scoped op f a b = (do require2 op.title ["int"] a b; amend f a b) := rfl
  rw [harith]
  cases va <;> cases vb <;> try exact .refuses (misfit_of_eq hreq) rfl
  rename_i x y
  have hrun := bind_of_ok (f := fun _ => amend f a b) hreq
  dsimp only
  cases hz : g x y with
  | ok z =>
    have hfz : f (.int x) (.int y) = .ok (.int z) := by rw [hf, hz]; rfl
    exact .makes (.int z) (hrun.trans (amend_apply ha hb hs rfl rfl hfz rfl)) rfl
  | error e =>
    have hfe : f (.int x) (.int y) = .error e := by rw [hf, hz]; rfl
    obtain ⟨hzero, rfl⟩ := hg x y e rfl hz
    exact .divides hzero (.int x) (hrun.trans (amend_error ha hb hs rfl rfl hfe)) rfl

theorem same_contents (hx : v.contents? = some x) (hy : v'.contents? = some y)
    (hkind : v.kind = v'.kind) : x.same y = (v == v') := by
  cases v <;> cases v' <;> cases hx <;> cases hy <;> try simp [Value.kind] at hkind
  · simp [Datum.same, Datum.number?, eq_comm]
  · rename_i p q
    cases p <;> cases q <;> rfl
  · simp [Datum.same]

include ha hb in
theorem equality_apply (hkinds : dialect.hasClosures = true → ∀ x y,
      ¬ (va = .int x ∧ vb = .bool y) ∧ ¬ (va = .bool y ∧ vb = .int x)) :
    equality dialect a b m = (.ok (va == vb), m) := by
  have hcontents : ∀ {x y : Datum}, va.contents? = some x → vb.contents? = some y →
    va.kind = vb.kind →
      (do
        let x ← Script.contents a
        let y ← Script.contents b
        return x.same y : Run Bool) m = (.ok (va == vb), m) := by
    intro x y hx hy hkind
    simp only [bind_apply, ha.contents hx, hb.contents hy, pure_apply, same_contents hx hy hkind]
  rw [equality, bind_of_ok ha.kindOf, bind_of_ok hb.kindOf]
  cases hc : dialect.hasClosures <;> cases va <;> cases vb <;>
    first | rfl | exact hcontents rfl rfl rfl | skip
  · exact absurd ⟨rfl, rfl⟩ (hkinds hc _ _).1
  · exact absurd ⟨rfl, rfl⟩ (hkinds hc _ _).2

include ha hb in
theorem bothTexts_apply :
    bothTexts a b m = (.ok (va.kind == "string" && vb.kind == "string"), m) := by
  simp only [bothTexts, bind_apply, ha.kindOf]
  cases va.kind == "string" with
  | false => rfl
  | true =>
    simp only [if_true, bind_apply, hb.kindOf, Bool.true_and]
    rfl

theorem connective_of_truths (dialect : Dialect) (ha : Held m.store a (.bool p))
    (hb : Held m.store b (.bool q)) (op : BinaryOp) (decides : Bool) :
    connective dialect op decides a b m =
      Run.make "bool" [("val", .bool (if p == decides then p else q))] m := by
  have hreq : require2 op.title dialect.conditions a b m = (.ok (), m) := by
    rw [require2_apply ha hb]
    cases dialect <;> rfl
  rw [connective, bind_of_ok hreq, bind_of_ok (ha.contents rfl)]
  cases dialect <;> cases p <;> cases decides <;> first | rfl | exact bind_of_ok (hb.contents rfl)

include ha hb in
theorem outcome_connective (op : BinaryOp) (decides : Bool) (zero : Prop) {g : Bool → Bool → Bool}
    (hg : ∀ x y, (if x == decides then x else y) = g x y) :
    Outcome op.title zero m (connective .scoped op decides a b)
      (match va, vb with
        | .bool x, .bool y => return .bool (g x y)
        | _, _ => misfit op.title) := by
  have hreq := require2_apply ha hb op.title ["bool"]
  cases va <;> cases vb <;> try exact .refuses (misfit_of_eq hreq) rfl
  rename_i x y
  exact .makes (.bool (g x y)) (hg x y ▸ connective_of_truths .scoped ha hb op decides) rfl

theorem order_of_ints (dialect : Dialect) (ha : Held m.store a (.int j))
    (hb : Held m.store b (.int k)) (o : Order) :
    Script.applyBinary dialect (.order o) a b m = makeBool (o.holds (compare j k)) m := by
  have hreq := require2_apply ha hb (BinaryOp.order o).title ["int"]
  refine (bind_of_ok hreq).trans ?_
  rw [bind_of_ok (ha.contents rfl), bind_of_ok (hb.contents rfl)]
  rfl

include ha hb in
theorem outcome_order (o : Order) (zero : Prop) :
    Outcome (BinaryOp.order o).title zero m (Script.applyBinary .scoped (.order o) a b)
      (applyBinary (.order o) va vb) := by
  have hreq := require2_apply ha hb (BinaryOp.order o).title ["int"]
  cases va <;> cases vb <;> try exact .refuses (misfit_of_eq hreq) rfl
  rename_i x y
  exact .makes (.bool (o.holds (compare x y))) (order_of_ints .scoped ha hb o) rfl

include ha hb in
theorem outcome_add (hs : m.store.Separate) (zero : Prop) :
    Outcome BinaryOp.add.title zero m (Script.applyBinary .scoped .add a b)
      (applyBinary .add va vb) := by
  have harith := outcome_arithmetic ha hb hs .add zero (f := Datum.add)
    (g := fun x y => .ok (x + y)) (fun _ _ => rfl) nofun
  have hadd : Script.applyBinary .scoped .add a b m =
      (if va.kind == "string" && vb.kind == "string" then amend Datum.add a b
        else arithmetic .scoped .add Datum.add a b) m := by
    rw [Script.applyBinary, bind_of_ok (bothTexts_apply ha hb)]
  cases va <;> cases vb <;> try exact harith.congr hadd
  rename_i s t
  exact .makes (.string (s ++ t))
    (hadd.trans (amend_apply ha hb hs (f := Datum.add) rfl rfl rfl rfl)) rfl

theorem divide_ints (x y : Int) : Datum.divide (.int x) (.int y) =
    (if y = 0 then .error .divisionByZero else .ok (x.fdiv y) : Except Fault Int).map .int := by
  simp only [Datum.divide, Datum.number?, beq_iff_eq]
  split <;> rfl

include ha hb in
theorem outcome_divide (hs : m.store.Separate) (hz : vb = .int 0 → zero) :
    Outcome BinaryOp.divide.title zero m (Script.applyBinary .scoped .divide a b)
      (applyBinary .divide va vb) := by
  have harith := outcome_arithmetic ha hb hs .divide zero divide_ints fun x y e hy he => by
    split at he
    · next hzero => exact ⟨hz (hzero ▸ hy), (Except.error.inj he).symm⟩
    · cases he
  cases va with
  | int x =>
    cases vb with
    | int y =>
      dsimp only at harith
      by_cases hy : y = 0
      · simp only [if_pos hy] at harith
        rw [applyBinary, if_pos hy]
        exact harith
      · simp only [if_neg hy] at harith
        rw [applyBinary, if_neg hy]
        exact harith
    | _ => exact harith
  | _ => exact harith

include ha hb in
theorem binary_outcome (hs : m.store.Separate) (op : BinaryOp) :
    Outcome op.title (op = .divide ∧ vb = .int 0) m (Script.applyBinary .scoped op a b)
      (applyBinary op va vb) := by
  cases op with
  | add => exact outcome_add ha hb hs _
  | subtract =>
    have harith := outcome_arithmetic ha hb hs .subtract (BinaryOp.subtract = .divide ∧ vb = .int 0)
      (f := Datum.subtract) (g := fun x y => .ok (x - y)) (fun _ _ => rfl) nofun
    cases va <;> cases vb <;> exact harith
  | multiply =>
    have harith := outcome_arithmetic ha hb hs .multiply (BinaryOp.multiply = .divide ∧ vb = .int 0)
      (f := Datum.multiply) (g := fun x y => .ok (x * y)) (fun _ _ => rfl) nofun
    cases va <;> cases vb <;> exact harith
  | divide => exact outcome_divide ha hb hs fun h => ⟨rfl, h⟩
  | equal => exact .makes (.bool (va == vb)) (bind_of_ok (equality_apply ha hb nofun)) rfl
  | notEqual => exact .makes (.bool !(va == vb)) (bind_of_ok (equality_apply ha hb nofun)) rfl
  | order o => exact outcome_order ha hb o _
  | and =>
    have hand := outcome_connective ha hb .and false (BinaryOp.and = .divide ∧ vb = .int 0)
      (g := and) (by decide)
    cases va <;> cases vb <;> exact hand
  | or =>
    have hor := outcome_connective ha hb .or true (BinaryOp.or = .divide ∧ vb = .int 0)
      (g := or) (by decide)
    cases va <;> cases vb <;> exact hor

include ha in
theorem unary_outcome (op : UnaryOp) :
    Outcome op.title False m (Script.applyUnary .scoped op a) (applyUnary op va) := by
  cases op with
  | negate =>
    have hreq := require1_apply ha UnaryOp.negate.title ["int"]
    match va with
    | .int x =>
      refine .makes (.int (-x)) ?_ rfl
      rw [Script.applyUnary, bind_of_ok hreq, bind_of_ok (ha.contents rfl)]
      rfl
    | .bool _ | .string _ | .nil => exact .refuses (misfit_of_eq hreq) rfl
  | not =>
    have hreq := require1_apply ha UnaryOp.not.title ["bool"]
    match va with
    | .bool x =>
      exact .makes (.bool !x) ((bind_of_ok hreq).trans (bind_of_ok (ha.contents rfl))) rfl
    | .int _ | .string _ | .nil => exact .refuses (misfit_of_eq hreq) rfl

theorem condition_of_truth (dialect : Dialect) (ha : Held m.store a (.bool p)) (title : String) :
    Script.conditionTruth dialect title a m = (.ok p, m) := by
  have htruth : (!dialect.conditions.contains "bool") = false := by cases dialect <;> rfl
  refine (bind_of_ok ha.kindOf).trans ?_
  rw [Value.kind, htruth]
  exact bind_of_ok (ha.contents rfl)

theorem condition_of_other (ha : Held m.store a va) (hk : va.kind ≠ "bool") (title : String) :
    Script.conditionTruth .scoped title a m =
      Run.report .type ("Incompatible type for " ++ title ++ " condition") m := by
  have hother : (!Dialect.scoped.conditions.contains va.kind) = true := by
    simpa [Dialect.conditions, Dialect.hasClosures] using hk
  refine (bind_of_ok ha.kindOf).trans ?_
  rw [if_pos hother]
  rfl

include hl ha in
theorem agree_condition (title : String) :
    Agree m w (Script.conditionTruth .scoped title a) (conditionTruth title va)
      (fun x y m' w' => x = y ∧ m' = m ∧ w' = w) := by
  match va with
  | .bool x =>
    have htruth : _ = (pure x : Run Bool) m := condition_of_truth .scoped ha title
    exact .congr htruth rfl (.pure ⟨rfl, rfl, rfl⟩)
  | .int _ | .string _ | .nil =>
    exact .congr (condition_of_other ha (by simp [Value.kind]) title) rfl (agree_report hl .type _)

end

end LangKit.Script.Stacked
