import Mathlib.Data.String.Basic
import LangKit.Proofs.Closures.Moments
import LangKit.Proofs.Execution.Congruence

/-!
# What objects change

The dialect with objects differs from the one with closures in a few places: which expressions there
are, which values are passed on without a copy, and what names with a dot in them mean. As long as a
program says nothing about objects these differences do not show, with one exception. A name that is
not bound is taken apart at its dots before a function of that name is looked for, and a name
without dots has no second part: `variableValue_unbound`.
-/

namespace LangKit.Script.Objects

open Run Store Closures Parallel

variable {kind : String} {scope rest : Scope} {m' m : Machine} {name v s : Datum}

/-! ## Names -/

theorem splitOnAux_dot (before part after : List Char) (done : List String) :
    String.splitOnAux (String.ofList (before ++ part ++ after)) "." ⟨String.utf8Len before⟩
        ⟨String.utf8Len (before ++ part)⟩ 0 done =
      done.reverse ++ (List.splitOnPPrepend (· == '.') after part.reverse).map String.ofList := by
  have hextract := String.extract_of_valid before part after
  rw [← String.utf8Len_append] at hextract
  induction after generalizing before part done with
  | nil =>
    have hend := (String.atEnd_of_valid (before ++ part) []).2 rfl
    rw [String.splitOnAux, if_pos hend, hextract]
    simp
  | cons c after ih =>
    have hmore : ¬ String.Pos.Raw.atEnd (String.ofList (before ++ part ++ c :: after))
        ⟨String.utf8Len (before ++ part)⟩ := by
      rw [String.atEnd_of_valid]
      exact List.cons_ne_nil c after
    have hnext : (⟨String.utf8Len (before ++ part)⟩ : String.Pos.Raw).next
        (String.ofList (before ++ part ++ c :: after)) =
          ⟨String.utf8Len (before ++ part ++ [c])⟩ := by
      rw [String.next_of_valid, String.utf8Len_append (_ ++ _), String.utf8Len_cons,
        String.utf8Len_nil, Nat.zero_add]
    have hrow : before ++ part ++ c :: after = before ++ part ++ [c] ++ after := by simp
    have hlater : ∀ b p done, b ++ p = before ++ part ++ [c] →
        String.splitOnAux (String.ofList (before ++ part ++ c :: after)) "." ⟨String.utf8Len b⟩
          ⟨String.utf8Len (before ++ part ++ [c])⟩ 0 done =
        done.reverse ++ (List.splitOnPPrepend (· == '.') after p.reverse).map String.ofList := by
      intro b p done hb
      rw [hrow, ← hb]
      exact ih b p done (by rw [String.utf8Len_append, String.extract_of_valid])
    rw [String.splitOnAux, if_neg hmore, String.get_of_valid, List.headD_cons,
      List.splitOnPPrepend_cons_eq_if]
    by_cases hc : c = '.'
    · -- A dot ends the part, and another one begins behind it.
      subst hc
      have hback : (⟨String.utf8Len (before ++ part ++ ['.'])⟩ : String.Pos.Raw).unoffsetBy
          (String.Pos.Raw.next "." 0) = ⟨String.utf8Len (before ++ part)⟩ := by
        rw [String.utf8Len_append (before ++ part)]
        exact congrArg String.Pos.Raw.mk (Nat.add_sub_cancel ..)
      have hstep := hlater (before ++ part ++ ['.']) [] (String.ofList part :: done)
        (List.append_nil _)
      rw [if_pos (by rfl), hnext]
      dsimp only
      rw [hback, hextract, if_pos (by rfl), hstep]
      simp
    · have hne : (c == String.Pos.Raw.get "." 0) = false := beq_false_of_ne hc
      have hstep := hlater before (part ++ [c]) done (List.append_assoc ..).symm
      rw [hne, if_neg Bool.false_ne_true, beq_false_of_ne hc, if_neg Bool.false_ne_true]
      refine Eq.trans ?_ (hstep.trans (by simp))
      exact congrArg (fun p => String.splitOnAux _ _ _ p _ _) hnext

theorem nameParts_eq (x : String) : nameParts x = (x.toList.splitOn '.').map String.ofList := by
  have hsplit := splitOnAux_dot [] [] x.toList []
  rw [List.nil_append, List.nil_append, String.ofList_toList] at hsplit
  rw [List.splitOn_eq_splitOnP, List.splitOnP_eq_splitOnPPrepend]
  exact hsplit

theorem isDotted_eq_false_iff : isDotted x = false ↔ '.' ∉ x.toList := by
  rw [isDotted, ← Bool.not_eq_true, List.contains_iff_mem]

theorem nameParts_of_plain (h : isDotted x = false) : nameParts x = [x] := by
  rw [nameParts_eq, List.splitOn_eq_singleton (isDotted_eq_false_iff.1 h), List.map_singleton,
    String.ofList_toList]

theorem nameParts_append (ho : isDotted o = false) (hf : isDotted f = false) :
    nameParts (o ++ "." ++ f) = [o, f] := by
  have hrow : (o ++ "." ++ f).toList = o.toList ++ '.' :: f.toList := by simp
  rw [nameParts_eq, hrow, List.splitOn_append_cons_self_of_not_mem (isDotted_eq_false_iff.1 ho),
    List.splitOn_eq_singleton (isDotted_eq_false_iff.1 hf)]
  simp

theorem nameParts_of_dotted (h : isDotted x = true) :
    ∃ object member rest, nameParts x = object :: member :: rest := by
  obtain ⟨before, after, hrow, hbefore⟩ := List.eq_append_cons_of_mem (List.contains_iff_mem.1 h)
  obtain ⟨part, parts, hparts⟩ := List.exists_cons_of_ne_nil (List.splitOn_ne_nil '.' after)
  rw [nameParts_eq, hrow, List.splitOn_append_cons_self_of_not_mem hbefore, hparts]
  exact ⟨_, _, _, rfl⟩

theorem isBound_of_plain (h : isDotted x = false) :
    isBound .objects scope x = isBound .closures scope x := by
  simp [isBound, h]

theorem assign_of_plain (h : isDotted x = false) :
    assign .objects scope x = assign .closures scope x := by
  funext value
  simp only [assign, isBound_of_plain h, h, Bool.and_false, Bool.false_eq_true, if_false]
  rfl

theorem assignValue_eq (h : isDotted x = false) :
    assignValue .closures scope x = assignValue .objects scope x := by
  funext v
  rw [assignValue, assignValue, assign_of_plain h]

theorem allowed_of_plain {x : String} (h : isDotted x = false) (dialect : Dialect) :
    (isBound dialect scope x || !(dialect.hasObjects && isDotted x)) = true := by
  rw [h, Bool.and_false, Bool.not_false, Bool.or_true]

/-! ## Kinds -/

section

variable (h : kind ∉ objectKinds)

include h

theorem exprForm_of_plain : Dialect.objects.exprForm kind = Dialect.closures.exprForm kind := by
  have hat : (kind == "@") = false := by
    rw [beq_eq_false_iff_ne]
    rintro rfl
    exact h (by decide)
  have hmethod : (kind == "mcall") = false := by
    rw [beq_eq_false_iff_ne]
    rintro rfl
    exact h (by decide)
  simp only [Dialect.exprForm, hat, hmethod, Bool.false_and]
  rfl

theorem sharedKinds_of_plain :
    Dialect.objects.sharedKinds.contains kind = Dialect.closures.sharedKinds.contains kind := by
  have hne : (kind == "obj") = false := by
    rw [beq_eq_false_iff_ne]
    rintro rfl
    exact h (by decide)
  simp only [Dialect.sharedKinds, List.contains_cons, hne, Bool.false_or]

end

theorem exprForm_closures_variable (h : Dialect.closures.exprForm kind = .variable) :
    kind = "var" := by
  unfold Dialect.exprForm at h
  split at h
  · cases h
  split at h
  · rename_i hk
    exact eq_of_beq hk
  · repeat' split at h
    all_goals cases h

section

variable {g : Region} {d node : Datum} (ht : g.objects = false)

include ht

theorem plain_name (h : g.names x) : isDotted x = false := by
  cases hx : isDotted x with
  | false => rfl
  | true =>
    rw [h hx] at ht
    cases ht

theorem plain_kind (h : Sane g m) (hd : Known g m.store d) (hk : kindOf d m = (.ok kind, m')) :
    kind ∉ objectKinds := by
  intro hmem
  obtain ⟨ref, rfl, rfl⟩ := exists_node_of_kindOf hk
  rw [(h.furnished.fit ref (known_node.1 hd)).allowed hmem] at ht
  cases ht

theorem isExpression_iff (h : Sane g m) (hnode : Known g m.store node) :
    IsExpression .objects m node form ↔ IsExpression .closures m node form := by
  constructor
  · rintro ⟨kind, hkind, hform⟩
    exact ⟨kind, hkind, by rw [← exprForm_of_plain (plain_kind ht h hnode hkind), hform]⟩
  · rintro ⟨kind, hkind, hform⟩
    exact ⟨kind, hkind, by rw [exprForm_of_plain (plain_kind ht h hnode hkind), hform]⟩

theorem field_name (h : Sane g m) (hnode : Known g m.store node)
    (hname : field node "name" m = (.ok name, m)) :
    ∃ x, name = .text x ∧ isDotted x = false := by
  obtain ⟨x, rfl, hx⟩ := name_of_field h hnode hname
  exact ⟨x, rfl, plain_name ht hx⟩

omit ht in
theorem exists_variableName (h : Sane g m) (hnode : Known g m.store node)
    (form : IsExpression .closures m node .variable) :
    ∃ name, field node "name" m = (.ok name, m) := by
  obtain ⟨kind, hkind, hform⟩ := form
  obtain ⟨ref, rfl, rfl⟩ := exists_node_of_kindOf hkind
  have hfit := h.furnished.fit ref (known_node.1 hnode)
  rw [exprForm_closures_variable hform] at hfit
  obtain ⟨name, hname⟩ := Option.isSome_iff_exists.1 (hfit.required "name" (by decide))
  exact ⟨name, field_apply hname⟩

/-! ## Values -/

theorem deliver_eq (h : Sane g m) (hd : Known g m.store d) (byRef : Bool) :
    deliver .closures byRef d m = deliver .objects byRef d m := by
  cases byRef with
  | true => rfl
  | false =>
    refine bind_congr_at rfl fun kind m1 hkind => ?_
    rw [sharedKinds_of_plain (plain_kind ht h hd hkind)]

theorem captured_eq (h : Sane g m) (formals : List Datum)
    (scope : Scope) (hrest : Bound g m.store rest) :
    captured .closures formals scope rest m = captured .objects formals scope rest m := by
  induction rest with
  | nil => rfl
  | cons e rest ih =>
    obtain ⟨hfirst, hmore⟩ := List.forall_mem_cons.1 hrest
    obtain ⟨name, d⟩ := e
    refine bind_congr_at rfl fun kind m1 hkind => ?_
    obtain rfl := Has.eq hkind
    rw [sharedKinds_of_plain (plain_kind ht h hfirst.known hkind)]
    have hkept : ∀ kept : Datum, (do
        return (Datum.text name, kept) :: (← captured .closures formals scope rest)) m = (do
        return (Datum.text name, kept) :: (← captured .objects formals scope rest) : Run _) m :=
      fun kept => bind_congr_at (ih hmore) fun _ _ _ => rfl
    split
    · exact hkept .null
    · split
      · exact hkept _
      · exact hkept d

theorem lambdaValue_eq (h : Sane g m) (hscope : Bound g m.store scope) :
    lambdaValue .closures scope node m = lambdaValue .objects scope node m := by
  refine bind_congr_at rfl fun args m1 hargs => bind_congr_at rfl fun fs m2 hfs => ?_
  obtain rfl := Has.eq hargs
  obtain rfl := Has.eq hfs
  refine bind_congr_at rfl fun formals m1 hformals => bind_congr_at rfl fun copies m2 hcopies => ?_
  obtain rfl := Has.eq hformals
  obtain ⟨hgoes, copies', hbound⟩ :=
    Matches.goes (matches_copyFields (B := .none) (joined_of_sane h) hscope.scopes) hcopies
  exact bind_congr_at (captured_eq ht hgoes.sane formals scope hbound.values) fun _ _ _ => rfl

/-! ## Variables -/

theorem variableValue_bound (h : Sane g m) (hscope : Bound g m.store scope)
    (hname : field node "name" m = (.ok (.text x), m)) (hv : Assoc.get? x scope = some v)
    (byRef : Bool) :
    variableValue .closures byRef scope node m = variableValue .objects byRef scope node m := by
  have hfield := field?_of_field hname
  rw [variableValue, variableValue, bind_of_ok hfield, bind_of_ok hfield, Option.getD_some,
    Scope.value?, hv]
  exact deliver_eq ht h (hscope.value hv).known byRef

omit ht in
/-- A name without dots that is not bound has no second part to look for. -/
theorem variableValue_unbound (hx : isDotted x = false)
    (hname : field node "name" m = (.ok (.text x), m)) (hnone : Assoc.get? x scope = none)
    (byRef : Bool) :
    variableValue .objects byRef scope node m = (.error (.fault Fault.listIndex), m) := by
  have hmember : memberValue byRef scope (.text x) m = (.error (.fault Fault.listIndex), m) := by
    rw [memberValue, nameParts_of_plain hx]
    rfl
  rw [variableValue, bind_of_ok (field?_of_field hname), Option.getD_some, Scope.value?, hnone]
  exact bind_of_error hmember

end

/-! ## Operators -/

theorem applyBinary_eq (op : BinaryOp) : applyBinary .closures op = applyBinary .objects op := by
  funext a b
  cases op <;> rfl

theorem applyUnary_eq (op : UnaryOp) : applyUnary .closures op = applyUnary .objects op := by
  funext a
  cases op <;> rfl

theorem conditionTruth_eq : conditionTruth .closures = conditionTruth .objects := rfl

theorem chooseCalled_eq : chooseCalled .closures = chooseCalled .objects := rfl

/-! ## Rows -/

theorem announce_eq (row : Row) (scope : Scope) :
    row.announce .closures scope = row.announce .objects scope := by
  cases row <;> rfl

theorem finish_eq (row : Row) (scope : Scope) :
    row.finish .closures scope = row.finish .objects scope := by
  cases row <;> rfl

theorem follows_step {P : Stop → Machine → Prop} {row : Row}
    (h : ∀ m1, row.announce .closures scope m = (.ok (), m1) →
      row.announce .objects scope m = (.ok (), m1) →
      Follows P m1 (exec .closures fuel s scope) (exec .objects fuel s scope)) :
    Follows P m (row.step .closures fuel s scope) (row.step .objects fuel s scope) := by
  simp only [announce_eq] at h
  simp only [Row.step, Row.stepWith, finish_eq, announce_eq]
  exact .after fun _ m1 announced => (h m1 announced announced).before

end LangKit.Script.Objects
