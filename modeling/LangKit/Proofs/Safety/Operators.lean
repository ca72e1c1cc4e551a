import LangKit.Proofs.Safety.Invariant

/-!
# Operators, variables and the console

What the single steps of a scoped run do in an intact state. An operator makes a node with a new
value, refuses its operands, or divides by zero (`meets_binary`); an assignment to a bound name sets
the node of the name, and can only fail if the value is nil; what is put out or read in is on the
console alone.
-/

namespace LangKit.Script

open Run Store
open Stacked (Setting Value Held)

variable {v : Value} {title x : String} {d : Datum} {scope : Scope} {outer : List Scope}

variable {c : Setting} {m : Machine} {E : Fault → Prop}

/-! ## Operators -/

section

variable {a b : Datum} {va vb : Value}

theorem eq_bool_of_kind (h : v.kind = "bool") : ∃ x, v = .bool x := by
  cases v with
  | bool x => exact ⟨x, rfl⟩
  | int | string | nil => simp [Value.kind] at h

theorem eq_nil_of_contents (h : v.contents? = none) : v = .nil := by
  cases v with
  | nil => rfl
  | int | bool | string => cases h

theorem meets_of_outcome {zero : Prop} {x : Run Datum}
    (h : Stacked.Outcome title zero m x y) (hm : Intact c m) (hzero : zero → E .divisionByZero) :
    Meets c m x (fun d m' => IsNew m.store m'.store d) E := by
  cases h with
  | makes v run => exact ((meets_make hm v).weaken fun _ _ h => h.1).congr run
  | refuses run => exact (meets_report hm .type _).congr run
  | divides divisor v run =>
    obtain ⟨hm', -⟩ := (meets_make (E := E) hm v).ok rfl
    have hl := (meets_make (E := E) hm v).later
    exact .of_fault run hm'.halted hl fun _ => .inr (hzero divisor)

section

variable (ha : Held m.store a va) (hb : Held m.store b vb)

include ha hb in
/-- A binary operator gives a new node; it fails with a report, or by dividing by zero. -/
theorem meets_binary (hm : Intact c m) (op : BinaryOp)
    (hzero : op = .divide → vb = .int 0 → E .divisionByZero) :
    Meets c m (applyBinary .scoped op a b) (fun d m' => IsNew m.store m'.store d) E :=
  meets_of_outcome (Stacked.binary_outcome ha hb hm.base.separate op) hm fun h => hzero h.1 h.2

include ha in
theorem meets_unary (hm : Intact c m) (op : UnaryOp) :
    Meets c m (applyUnary .scoped op a) (fun d m' => IsNew m.store m'.store d) E :=
  meets_of_outcome (Stacked.unary_outcome ha op) hm False.elim

include ha in
theorem meets_condition (hm : Intact c m) (title : String) :
    Meets c m (conditionTruth .scoped title a) (fun _ m' => m = m') E := by
  by_cases hk : va.kind = "bool"
  · obtain ⟨x, rfl⟩ := eq_bool_of_kind hk
    exact .of_ok (Stacked.condition_of_truth .scoped ha title) hm (.refl m) rfl
  · exact (meets_report hm .type _).congr (Stacked.condition_of_other ha hk title)

end

end

/-! ## Variables -/

theorem meets_copy (hm : Intact c m) (hd : Held m.store d v) :
    Meets c m (copy d) (fun d m' => IsNew m.store m'.store d) E :=
  ((meets_make hm v).weaken fun _ _ h => h.1).congr (Stacked.copy_apply hd)

theorem Unshared.held (h : Unshared c m.store (scope :: outer)) (hm : Intact c m)
    (hx : Assoc.get? x scope = some d) : ∃ v, Held m.store d v := by
  obtain ⟨r, rfl, hlow, hhigh⟩ := h.node scope List.mem_cons_self x d hx
  obtain ⟨v, hv⟩ := hm.values r hlow hhigh
  exact ⟨v, r, rfl, hhigh, hv⟩

theorem meets_variable (hm : Intact c m) (hs : Unshared c m.store (scope :: outer))
    (hd : c.Code d (.node "var" [("name", .text x)])) :
    Meets c m (variableValue .scoped false scope d) (fun d m' => IsNew m.store m'.store d) E := by
  refine .step (hd.text_field? hm.base "name" rfl) ?_
  dsimp only [Option.getD_some, Scope.value?]
  cases hx : Assoc.get? x scope with
  | some d =>
    obtain ⟨v, hv⟩ := hs.held hm hx
    exact meets_copy hm hv
  | none => exact meets_report hm .name ("Variable " ++ x ++ " has not been defined")

/-- Nil cannot be taken over: the kind is set before it turns out that there are no contents. -/
theorem overwrite_nil (hget : Assoc.get? x scope = some (.node r)) (hr : r < m.store.size)
    (hd : m.store.node ref = Value.nil.node) :
    overwrite .scoped (bound scope x) (.node ref) m =
      (.error (.fault (Fault.missingField "val")), { m with store := m.store.setKind r "nil" }) :=
        by
  have hkind : m.store.kind ref = "nil" := congrArg Prod.fst hd
  have hfields : m.store.fields ref = [] := congrArg Prod.snd hd
  have hfield : m.store.field? ref "val" = none := by rw [Store.field?, hfields, Assoc.get?]
  rw [bound_eq hget, overwrite_empty hr rfl hfield, hkind]

/-- A bound name is set to a value. The value is in a node of its own; only nil cannot be taken
over. -/
theorem meets_overwrite (hm : Intact c m) (hs : Unshared c s (scope :: outer))
    (hx : Assoc.has x scope = true) (hd : IsNew s m.store d)
    (hnil : Held m.store d .nil → E (Fault.missingField "val")) :
    Meets c m (overwrite .scoped (bound scope x) d)
      (fun _ m' => m.store.size ≤ m'.store.size) E := by
  obtain ⟨d', hget⟩ := Option.isSome_iff_exists.1 hx
  obtain ⟨r, rfl, hlow, hr⟩ := hs.node scope List.mem_cons_self x d' hget
  obtain ⟨ref, rfl, hnew, hlt⟩ := hd
  have hsize : s.size ≤ m.store.size := by omega
  have hr' : r < m.store.size := by omega
  obtain ⟨v, hv⟩ := hm.values ref (by omega) hlt
  cases hz : v.contents? with
  | some z =>
    have hwrite := Stacked.overwrite_apply .scoped hget hr' hv hz
    have hkept : ((m.store.setKind r v.kind).setField r "val" z).size = m.store.size := by simp
    exact .of_ok hwrite (hm.overwrite hlow hr' hz) ⟨Nat.le_of_eq hkept.symm, Iff.rfl⟩
      (Nat.le_of_eq hkept.symm)
  | none =>
    obtain rfl := eq_nil_of_contents hz
    have hheld : Held m.store (.node ref) .nil := ⟨ref, rfl, hlt, hv⟩
    have hwrite := overwrite_nil hget hr' hv
    refine .of_fault hwrite (hm.halted_setKind hlow hr') ⟨?_, Iff.rfl⟩ fun _ => .inr (hnil hheld)
    simp

/-- An assignment sets the node of a bound name, or binds a new name to the new node. -/
theorem meets_assign {value : Run Datum} (hm : Intact c m)
    (hs : Unshared c m.store (scope :: outer))
    (hvalue : Meets c m value (fun d m' => IsNew m.store m'.store d) E)
    (hnil : ∀ d m', Assoc.has x scope = true → value m = (.ok d, m') → Held m'.store d .nil →
      E (Fault.missingField "val")) :
    Meets c m (assign .scoped scope x value)
      (fun scope' m' => Unshared c m'.store (scope' :: outer)) E := by
  rw [assign, isBound_eq_has rfl]
  cases hx : Assoc.has x scope with
  | true =>
    refine hvalue.bind fun d m1 hd hm1 hl hnew => ?_
    refine (meets_overwrite hm1 hs hx hnew (hnil d m1 hx hd)).map ?_
    intro _ m2 _ _ hsize
    exact hs.mono (Nat.le_trans hl.size hsize)
  | false => exact hvalue.map fun d m1 _ hl hnew => hs.bind hm.base.size hnew x

/-! ## The console -/

/-- Putting out contents. A quiet console never fails to do so. -/
theorem meets_output (hm : Intact c m) (d : Datum) :
    Meets c m (output d) (fun _ m' => m'.store = m.store) E := by
  obtain ⟨hecho, htrace, hinputs⟩ := Stacked.output_keeps m.console m.store d
  have hlater := later_setConsole hecho htrace hinputs
  have hrun := output_apply d m
  cases hr : (m.console.output m.store d).1 with
  | ok _ =>
    rw [hr] at hrun
    exact .of_ok hrun (hm.setConsole _) hlater rfl
  | error f =>
    rw [hr] at hrun
    refine .of_fault hrun (hm.setConsole _).halted hlater fun h => ?_
    rw [Console.output, if_neg (by rw [h.echo]; exact Bool.false_ne_true)] at hr
    cases hr

theorem meets_input (hm : Intact c m)
    (hend : ∀ m', input m = (.error (.fault .endOfInput), m') → E .endOfInput) :
    Meets c m input (fun d m' => m'.store = m.store ∧
      (Quiet m.console → (∃ s, d = .text s) ∨ d = .null)) E := by
  obtain ⟨hecho, htrace, hinputs⟩ := Stacked.input_keeps m.console
  have hlater := later_setConsole hecho htrace hinputs
  have hrun := input_apply m
  rcases Stacked.input_cases m.console with ⟨s, hr⟩ | ⟨d, hmem, hr⟩ | hr | hr
  · rw [hr] at hrun
    exact .of_ok hrun (hm.setConsole _) hlater ⟨rfl, fun _ => .inl ⟨s, rfl⟩⟩
  · rw [hr] at hrun
    exact .of_ok hrun (hm.setConsole _) hlater ⟨rfl, fun h => .inl (h.inputs d hmem)⟩
  · rw [hr] at hrun
    exact .of_ok hrun (hm.setConsole _) hlater ⟨rfl, fun _ => .inr rfl⟩
  · rw [hr] at hrun
    exact .of_fault hrun (hm.setConsole _).halted hlater fun _ => .inr (hend _ hrun)

theorem meets_contents (hm : Intact c m) (hd : Held m.store d v)
    (hnil : v = .nil → E (Fault.missingField "val")) :
    Meets c m (contents d) (fun x m' => m = m' ∧ v.contents? = some x) E := by
  cases hv : v.contents? with
  | some x => exact .of_ok (hd.contents hv) hm (.refl m) ⟨rfl, rfl⟩
  | none =>
    obtain rfl := eq_nil_of_contents hv
    exact .of_fault hd.contents_nil hm.halted (.refl m) fun _ => .inr (hnil rfl)

theorem meets_textOf {x : Datum} (hm : Intact c m) (hx : v.contents? = some x)
    (hlong : ∀ n, v = .int n → Text.Decimal.write? n = none → E .unprintableInteger) :
    Meets c m (Run.textOf x) (fun _ m' => m = m') E := by
  cases v with
  | int n =>
    cases hx
    cases hw : Text.Decimal.write? n with
    | some s =>
      refine .of_ok (a := s) ?_ hm (.refl m) rfl
      simp only [Run.textOf, Store.textOf, Datum.textWith, Datum.display, Datum.outline,
        Datum.outlineWith, Tree.display?, hw]
    | none =>
      refine .of_fault (f := .unprintableInteger) ?_ hm.halted (.refl m)
        fun _ => .inr (hlong n rfl hw)
      simp only [Run.textOf, Store.textOf, Datum.textWith, Datum.display, Datum.outline,
        Datum.outlineWith, Tree.display?, hw]
  | bool b =>
    cases hx
    exact .of_ok (a := Tree.boolText b) rfl hm (.refl m) rfl
  | string s =>
    cases hx
    exact .of_ok (a := s) rfl hm (.refl m) rfl
  | nil => cases hx

theorem meets_piece (hm : Intact c m) (hd : Held m.store d v)
    (hnil : v = .nil → E (Fault.missingField "val"))
    (hlong : ∀ n, v = .int n → Text.Decimal.write? n = none → E .unprintableInteger) :
    Meets c m (outputPiece d) (fun _ m' => m = m') E := by
  obtain ⟨ref, rfl, -, -⟩ := id hd
  refine (meets_contents hm hd hnil).bind ?_
  rintro x _ - hm' - ⟨rfl, hx⟩
  refine (meets_textOf hm hx hlong).bind ?_
  rintro s _ - - - rfl
  refine .step hd.kindOf ?_
  split <;> exact .pure hm' rfl

end LangKit.Script
