import Mathlib.Logic.Relation
import LangKit.Proofs.Objects.Pieces

/-!
# Where the dialect with objects parts from the one with closures

For a program that says nothing about objects, an activity goes the same way in both dialects unless
it comes, in both, to a variable that is not bound; then the dialect with objects stops there
(`Ready.tracks`). What an activity starts in the dialect with objects it also starts in the other
one (`startsBoth_of_objects`), and the converse holds until the dialects part
(`startsBoth_or_parts`).

The proof looks at one activity at a time. If whatever it starts in both dialects goes the same way,
or stops as it may (`Alike`), then so does the activity itself.
-/

namespace LangKit.Script.Objects

open Run Store Closures Parallel

variable {d body node name args : Datum} {byRef : Bool}
  {statements before after values : List Datum} {m1 m2 m : Machine} {builtin : Builtin}
  {inner scope : Scope} {P : Stop → Machine → Prop} {fuel : Nat}

inductive EvaluatesUnbound : Activity → Prop
  | lookup {fuel : Nat} {byRef : Bool} {scope : Scope} {node : Datum} {x : String} {m : Machine}
      (form : IsExpression .closures m node .variable)
      (called : field node "name" m = (.ok (.text x), m)) (unbound : Assoc.get? x scope = none) :
      EvaluatesUnbound ⟨fuel + 1, .eval byRef scope node, m⟩

def StartsBoth (a b : Activity) : Prop :=
  Starts .closures a b ∧ Starts .objects a b

/-- In both dialects an activity comes to the evaluation of a variable that is not bound. -/
def Parts (a u : Activity) : Prop :=
  Relation.ReflTransGen StartsBoth a u ∧ EvaluatesUnbound u

/-- How the dialect with objects may stop in an activity where the other one goes on: at a variable
that is not bound. -/
def Parted (a : Activity) (e : Stop) (m : Machine) : Prop :=
  e = .fault Fault.listIndex ∧ ∃ u, Parts a u ∧ u.machine = m

/-- An activity goes the same way in both dialects, unless it stops as it may. -/
def Tracks (P : Stop → Machine → Prop) (a : Activity) : Prop :=
  Follows P a.machine (a.run .closures) (a.run .objects)

/-- Whatever an activity starts in both dialects goes the same way, unless it stops as it may. -/
def Alike (P : Stop → Machine → Prop) (a : Activity) : Prop :=
  ∀ b, StartsBoth a b → Tracks P b

theorem tracks_eval :
    Tracks P ⟨fuel, .eval byRef scope node, m⟩ ↔
      Follows P m (eval .closures fuel byRef scope node) (eval .objects fuel byRef scope node) :=
  ⟨Follows.unwrap fun _ _ h => (Prod.mk.inj h).2, Follows.before⟩

theorem tracks_exec :
    Tracks P ⟨fuel, .exec scope node, m⟩ ↔
      Follows P m (exec .closures fuel node scope) (exec .objects fuel node scope) := Iff.rfl

theorem tracks_call :
    Tracks P ⟨fuel, .call scope name args, m⟩ ↔
      Follows P m (call .closures fuel scope name args) (call .objects fuel scope name args) :=
  ⟨Follows.unwrap fun _ _ h => (Prod.mk.inj h).2, Follows.before⟩

variable {g : Region} (ht : g.objects = false)

/-! ## Expressions -/

section

variable (hA : Alike P ⟨fuel + 1, .eval byRef scope node, m⟩)

include hA

theorem follows_left (form : IsExpression .closures m node (.binary op))
    (form' : IsExpression .objects m node (.binary op)) (hd : field node "op1" m = (.ok d, m)) :
    Follows P m (eval .closures fuel false scope d) (eval .objects fuel false scope d) :=
  tracks_eval.1 (hA _ ⟨.left form hd, .left form' hd⟩)

include ht

theorem follows_eval (hr : Ready g ⟨fuel + 1, .eval byRef scope node, m⟩)
    (hb : ¬ EvaluatesUnbound ⟨fuel + 1, .eval byRef scope node, m⟩) :
    Follows P m (eval .closures (fuel + 1) byRef scope node)
      (eval .objects (fuel + 1) byRef scope node) := by
  obtain ⟨hfit, hscope, hnode, -⟩ := hr
  rcases hk : kindOf node m with ⟨e | kind, m'⟩
  · left
    rw [eval_of_kindOf_error hk, eval_of_kindOf_error hk]
  obtain rfl := Has.eq hk
  have form : IsExpression .closures m node (Dialect.closures.exprForm kind) := ⟨kind, hk, rfl⟩
  generalize hf : Dialect.closures.exprForm kind = f at form
  have form' : IsExpression .objects m node f := (isExpression_iff ht hfit hnode).2 form
  unfold Follows
  cases f with
  | literal =>
    left
    rw [eval_literal form, eval_literal form']
  | «variable» =>
    left
    rw [eval_variable form, eval_variable form']
    obtain ⟨name, hname⟩ := exists_variableName hfit hnode form
    obtain ⟨x, rfl, -⟩ := field_name ht hfit hnode hname
    cases hget : Assoc.get? x scope with
    | none => exact absurd (.lookup form hname hget) hb
    | some v => exact variableValue_bound ht hfit hscope hname hget byRef
  | lambda =>
    left
    rw [eval_lambda form, eval_lambda form']
    exact lambdaValue_eq ht hfit hscope
  | binary op =>
    rw [eval_binary form, eval_binary form']
    refine Follows.look fun d1 hd1 => ?_
    refine (follows_left hA form form' hd1).bind fun a m1 ha ha' => ?_
    refine .look fun d2 hd2 => ?_
    have hright := hA _ ⟨.right form hd1 ha hd2, .right form' hd1 ha' hd2⟩
    rw [applyBinary_eq]
    exact (tracks_eval.1 hright).before
  | unary op =>
    rw [eval_unary form, eval_unary form', applyUnary_eq]
    refine Follows.look fun d hd => ?_
    exact (tracks_eval.1 (hA _ ⟨.operand form hd, .operand form' hd⟩)).before
  | call =>
    rw [eval_call form, eval_call form']
    refine Follows.look fun name hname => ?_
    refine .look fun args hargs => ?_
    exact (tracks_call.1 (hA _ ⟨.invoke form hname hargs, .invoke form' hname hargs⟩)).before
  | object => exact absurd hf exprForm_closures_ne_object.1
  | methodCall => exact absurd hf exprForm_closures_ne_object.2
  | unknown =>
    left
    rw [eval_unknown form, eval_unknown form']

end

/-! ## Statements -/

section

variable (hA : Alike P ⟨fuel + 1, .exec scope node, m⟩)

include hA

theorem follows_condition (form : IsStatement m node .choice)
    (asked : field node "condition" m = (.ok d, m)) :
    Follows P m (eval .closures fuel false scope d) (eval .objects fuel false scope d) :=
  tracks_eval.1 (hA _ ⟨.condition form asked, .condition form asked⟩)

theorem branch_follows {value : Datum} (form : IsStatement m node .choice)
    (asked : field node "condition" m = (.ok d, m))
    (answer : eval .closures fuel false scope d m = (.ok value, m1))
    (answer' : eval .objects fuel false scope d m = (.ok value, m1))
    (truth : conditionTruth .closures "if" value m1 = (.ok go, m2))
    (chosen : field node (if go then "statements" else "else_statements") m2 = (.ok body, m2))
    (row : items body m2 = (.ok statements, m2)) :
    RowFollows P (exec .closures fuel) (exec .objects fuel) statements scope m2 := by
  intro s scope' m' hr hr'
  exact hA _ ⟨.branch form asked answer truth chosen row hr, .branch form asked answer' truth
    chosen row hr'⟩

theorem rounds_follow (form : IsStatement m node .loop) :
    RoundsFollow P (loopTest .closures fuel scope node) (loopTest .objects fuel scope node)
      (loopBody .closures fuel scope node) (loopBody .objects fuel scope node) fuel m := by
  constructor
  · intro m1 hr hr'
    refine .look fun d asked => ?_
    exact (tracks_eval.1 (hA _ ⟨.test form hr asked, .test form hr' asked⟩)).before
  · intro m1 m2 hr hr' go go'
    refine .look fun body repeated => ?_
    refine .look fun statements row => Follows.before ?_
    refine RowFollows.block fun s scope' m' reached reached' => ?_
    exact hA _ ⟨.round form hr go repeated row reached, .round form hr' go' repeated row reached'⟩

theorem round_follows (form : IsStatement m node .loop)
    (rounds : Rounds (loopTest .closures fuel scope node) (loopBody .closures fuel scope node) fuel
    m m1) (rounds' : Rounds (loopTest .objects fuel scope node)
    (loopBody .objects fuel scope node) fuel m m1) (go :
    loopTest .closures fuel scope node m1 = (.ok true, m2)) (go' :
    loopTest .objects fuel scope node m1 = (.ok true, m2)) (repeated :
    field node "statements" m2 = (.ok body, m2)) (row : items body m2 = (.ok statements, m2)) :
    RowFollows P (exec .closures fuel) (exec .objects fuel) statements scope m2 := by
  intro s scope' m' reached reached'
  exact hA _ ⟨.round form rounds go repeated row reached, .round form rounds' go'
    repeated row reached'⟩

include ht

theorem follows_exec (hr : Ready g ⟨fuel + 1, .exec scope node, m⟩) :
    Follows P m (exec .closures (fuel + 1) node scope) (exec .objects (fuel + 1) node scope) := by
  obtain ⟨hfit, hscope, hnode, -⟩ := hr
  rcases hk : kindOf node m with ⟨e | kind, m'⟩
  · left
    rw [exec_of_kindOf_error hk, exec_of_kindOf_error hk]
  obtain rfl := Has.eq hk
  have form : IsStatement m node (statementForm kind) := ⟨kind, hk, rfl⟩
  generalize statementForm kind = f at form
  unfold Follows
  cases f with
  | assign =>
    rw [exec_assign form, exec_assign form]
    refine Follows.look fun name called => ?_
    obtain ⟨x, rfl, hx⟩ := field_name ht hfit hnode called
    refine .look fun y spelled => ?_
    obtain ⟨rfl, -⟩ := pure_eq_ok.1 spelled
    refine .look fun right given => ?_
    have hvalue := hA _ ⟨.assigned form called spelled given (allowed_of_plain hx _),
      .assigned form called spelled given (allowed_of_plain hx _)⟩
    rw [assign_of_allowed (allowed_of_plain hx _), assign_of_allowed (allowed_of_plain hx _),
      assignValue_eq hx]
    exact (tracks_eval.1 hvalue).before.before
  | choice =>
    rw [exec_choice form, exec_choice form]
    refine Follows.look fun d asked => ?_
    refine (follows_condition hA form asked).bind fun value m1 answer answer' => ?_
    rw [← conditionTruth_eq]
    refine .after fun go m2 truth => ?_
    have hrow : ∀ body, field node (if go then "statements" else "else_statements") m2 =
      (.ok body, m2) →
        Follows P m2 (carryOut .closures fuel scope body) (carryOut .objects fuel scope body) := by
      intro body chosen
      refine .look fun statements row => Follows.before ?_
      exact (branch_follows hA form asked answer answer' truth chosen row).block
    cases go with
    | true => exact .look hrow
    | false =>
      refine .look fun body chosen => ?_
      cases body with
      | null => exact .refl _
      | _ => exact hrow _ chosen
  | loop =>
    rw [exec_loop form, exec_loop form]
    exact (rounds_follow hA form).repeatWhile.before
  | «return» =>
    rw [exec_return form, exec_return form]
    refine Follows.look fun right given => Follows.before ?_
    by_cases hright : right = .null
    · rw [hright]
      exact .refl _
    · rw [resultValue_of_ne hright, resultValue_of_ne hright]
      exact (tracks_eval.1 (hA _ ⟨.result form given hright, .result form given hright⟩)).before
  | call =>
    rw [exec_call form, exec_call form]
    refine Follows.look fun name called => ?_
    refine .look fun args given => ?_
    exact (tracks_call.1 (hA _ ⟨.perform form called given, .perform form called given⟩)).before
  | other =>
    left
    rw [exec_other form, exec_other form]

end

/-! ## Calls -/

section

variable (hA : Alike P ⟨fuel + 1, .call scope name args, m⟩)

include hA

theorem follows_line (known : Builtin.ofName? name = some .print)
    (header : printHeader scope args m = (.ok (), m1))
    (row : items args m1 = (.ok (before ++ after), m1)) :
    Follows P m1 (outputLine (eval .closures fuel false scope) before "")
      (outputLine (eval .objects fuel false scope) before "") := by
  refine follows_outputLine fun first arg rest line m2 hbefore earlier earlier' => ?_
  rw [hbefore, List.append_assoc, List.cons_append] at row
  exact tracks_eval.1 (hA _ ⟨.piece known header row earlier, .piece known header row earlier'⟩)

theorem follows_prompt (known : Builtin.ofName? name = some builtin) (reads : builtin ≠ .print)
    (title : String) :
    Follows P m (promptWith title (eval .closures fuel false scope) args)
      (promptWith title (eval .objects fuel false scope) args) := by
  refine .look fun n hn => ?_
  by_cases hone : n == 1
  · rw [if_pos hone, if_pos hone]
    refine .look fun ds row => ?_
    rw [size_of_items row] at hn
    obtain rfl : ds.length = n := (ok_inj hn).1
    obtain ⟨arg, rfl⟩ := List.length_eq_one_iff.1 (eq_of_beq hone)
    exact (tracks_eval.1 (hA _ ⟨.prompt known reads row, .prompt known reads row⟩)).before
  · rw [if_neg hone, if_neg hone]
    exact .refl _

theorem follows_builtin (known : Builtin.ofName? name = some builtin) :
    Follows P m (callBuiltin (eval .closures fuel false scope) scope args builtin)
      (callBuiltin (eval .objects fuel false scope) scope args builtin) := by
  cases builtin with
  | readInt => exact (follows_prompt hA known nofun _).before
  | readText => exact (follows_prompt hA known nofun _).before
  | print =>
    rw [callBuiltin, callBuiltin]
    refine .after fun _ m1 header => .look fun ds row => Follows.before ?_
    exact follows_line hA known header ((List.append_nil ds).symm ▸ row)

section

variable (own : Builtin.ofName? name = none)

include own

theorem follows_arguments (row : items args m = (.ok (before ++ after), m)) :
    Follows P m (argValues .closures (argument .closures fuel scope) none 0 before)
      (argValues .objects (argument .objects fuel scope) none 0 before) := by
  refine follows_argValues fun first arg rest values m1 hbefore earlier earlier' => ?_
  rw [hbefore, List.append_assoc, List.cons_append] at row
  exact (tracks_eval.1 (hA _ ⟨.argument own row earlier, .argument own row earlier'⟩)).before

theorem follows_findCalled :
    Follows P m (findCalled .closures fuel scope name args)
      (findCalled .objects fuel scope name args) := by
  rw [findCalled, findCalled, chooseCalled_eq]
  refine .look fun ds row => Follows.before ?_
  exact follows_arguments hA own ((List.append_nil ds).symm ▸ row)

theorem follows_passed {f list : Datum} {formals : List Datum}
    (found : findCalled .closures fuel scope name args m = (.ok (f, values, named), m1))
    (found' : findCalled .objects fuel scope name args m = (.ok (f, values, named), m1))
    (declared : field f "args" m1 = (.ok list, m1)) (parameters : items list m1 = (.ok formals, m1))
    (row : items args m1 = (.ok (before ++ after), m1)) :
    Follows P m1 (argValues .closures (argument .closures fuel scope) (some formals) 0 before)
      (argValues .objects (argument .objects fuel scope) (some formals) 0 before) := by
  refine follows_argValues fun first arg rest values' m2 hbefore earlier earlier' => ?_
  rw [hbefore, List.append_assoc, List.cons_append] at row
  rw [argValue, argValue, Nat.zero_add]
  cases meant : formals[first.length]? with
  | none => exact .refl _
  | some formal =>
    refine Follows.look fun kind mode => ?_
    have hpass := hA _ ⟨.pass own rfl found declared parameters row earlier meant mode,
      .pass own rfl found' declared parameters row earlier' meant mode⟩
    exact (tracks_eval.1 hpass).before

theorem follows_enterCall :
    Follows P m (enterCall .closures fuel scope name args)
      (enterCall .objects fuel scope name args) := by
  rw [enterCall, enterCall]
  refine (follows_findCalled hA own).bind fun r m1 found found' => ?_
  obtain ⟨f, values, named⟩ := r
  refine Follows.look fun list declared => ?_
  refine .look fun formals parameters => ?_
  refine .look fun ds row => Follows.before ?_
  exact follows_passed hA own found found' declared parameters ((List.append_nil ds).symm ▸ row)

theorem body_follows {row : Row}
    (entered : enterCall .closures fuel scope name args m = (.ok (row, statements, inner), m1))
    (entered' : enterCall .objects fuel scope name args m = (.ok (row, statements, inner), m1)) :
    RowFollows P (row.step .closures fuel) (row.step .objects fuel) statements inner m1 := by
  intro s scope' m' hr hr'
  refine follows_step fun m2 announced announced' => ?_
  exact hA _ ⟨.body own entered hr announced, .body own entered' hr' announced'⟩

end

theorem follows_call :
    Follows P m (call .closures (fuel + 1) scope name args)
      (call .objects (fuel + 1) scope name args) := by
  cases hname : Builtin.ofName? name with
  | some builtin =>
    rw [call_builtin hname, call_builtin hname]
    exact follows_builtin hA hname
  | none =>
    rw [call_own hname, call_own hname]
    refine (follows_enterCall hA hname).bind fun r m1 entered entered' => ?_
    exact (body_follows hA hname entered entered').block.before

end

end LangKit.Script.Objects
