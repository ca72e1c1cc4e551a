import LangKit.Proofs.Execution.Continuation

/-!
# How often the arguments of a call are evaluated

Before the body of a function is entered, the arguments of the call are evaluated from left to
right, to find the function by their number. Without closures that is all: the values are bound to
the formals, and each argument has been evaluated once. With closures these values are dropped. When
the function is known, the arguments are evaluated a second time, now each in the mode of its
formal, so that whatever an argument reads, prints or calls happens twice
(`call_evaluates_arguments`).
-/

namespace LangKit.Script

open Run

variable {fs values' : List Datum} {m1 : Machine} {first second activities : List Activity}

/-- Is an argument passed by reference? By value if it is only evaluated to be counted. -/
def passMode : Option Datum → Run Bool
  | none => pure false
  | some formal => do return (← kindOf formal) == "refarg"

def passedValue (dialect : Dialect) (byRef : Bool) (value : Datum) : Run Datum :=
  if dialect.hasClosures && !byRef then copy value else pure value

def paired (formals : Option (List Datum)) : Nat → List Datum → List (Option Datum × Datum)
  | _, [] => []
  | i, arg :: rest => (formals.bind (·[i]?), arg) :: paired formals (i + 1) rest

/-- Arguments are evaluated one after the other. The activities are their evaluations, and each
begins with what the one before has left, but for the copy that is passed. -/
inductive Evaluations (dialect : Dialect) (fuel : Nat) (scope : Scope) :
    List (Option Datum × Datum) → Machine → List Activity → List Datum → Machine → Prop
  | nil : Evaluations dialect fuel scope [] m [] [] m
  | cons {activities : List Activity} {m1 : Machine} (mode : passMode formal m = (.ok byRef, m))
      (run : eval dialect fuel byRef scope arg m = (.ok v, m1))
      (pass : passedValue dialect byRef v m1 = (.ok passed, m2))
      (later : Evaluations dialect fuel scope rest m2 activities values m') :
      Evaluations dialect fuel scope ((formal, arg) :: rest) m (⟨fuel, .eval byRef scope arg, m⟩ ::
        activities) (passed :: values) m'

variable {dialect : Dialect} {fuel : Nat} {scope inner : Scope} {name args arg f : Datum}
  {named : Bool} {formals : Option (List Datum)} {actuals statements values : List Datum}
  {row : Row} {i : Nat} {m m' : Machine}

theorem Evaluations.length
    (h : Evaluations dialect fuel scope (paired formals i actuals) m activities values m') :
    activities.length = actuals.length ∧ values.length = actuals.length := by
  induction actuals generalizing i m activities values with
  | nil =>
    cases h
    exact ⟨rfl, rfl⟩
  | cons arg rest ih =>
    cases h with
    | cons _ _ _ later =>
      obtain ⟨hactivities, hvalues⟩ := ih later
      simp only [List.length_cons, hactivities, hvalues, and_self]

/-! ## One pass over the arguments -/

section

variable (hformals : formals = none ∨ dialect.hasClosures = true)

include hformals

theorem argValue_eq_ok
    (h : argValue dialect ev formals i arg m = (.ok passed, m')) :
    ∃ byRef v m1, passMode (formals.bind (·[i]?)) m = (.ok byRef, m) ∧
      ev byRef arg m = (.ok v, m1) ∧
      passedValue dialect byRef v m1 = (.ok passed, m') := by
  cases formals with
  | none =>
    obtain ⟨v, m1, hv, h⟩ := bind_eq_ok.1 h
    refine ⟨false, v, m1, rfl, hv, ?_⟩
    rw [passedValue, Bool.not_false, Bool.and_true]
    exact h
  | some fs =>
    have hc : dialect.hasClosures = true := hformals.resolve_left (by simp)
    rw [argValue] at h
    rw [Option.bind_some]
    cases hformal : fs[i]? with
    | none =>
      rw [hformal] at h
      cases h
    | some formal =>
      rw [hformal] at h
      obtain ⟨kind, hkind, h⟩ := look_eq_ok h
      obtain ⟨v, m1, hv, h⟩ := bind_eq_ok.1 h
      refine ⟨kind == "refarg", v, m1, bind_of_ok hkind, hv, ?_⟩
      rw [passedValue, hc, Bool.true_and]
      cases hmode : kind == "refarg" with
      | false =>
        rw [hmode] at h
        exact h
      | true =>
        rw [hmode] at h
        exact h

theorem exists_evaluations
    (h : argValues dialect (argument dialect fuel scope) formals i actuals m = (.ok values, m')) :
    ∃ activities, Evaluations dialect fuel scope (paired formals i actuals) m activities
      values m' := by
  induction actuals generalizing i m values with
  | nil =>
    obtain ⟨rfl, rfl⟩ := pure_eq_ok.1 h
    exact ⟨[], .nil⟩
  | cons arg rest ih =>
    rw [argValues_cons] at h
    obtain ⟨passed, m1, hpassed, h⟩ := bind_eq_ok.1 h
    obtain ⟨values', m2, hrest, h⟩ := bind_eq_ok.1 h
    obtain ⟨rfl, rfl⟩ := pure_eq_ok.1 h
    obtain ⟨byRef, v, m3, hmode, hrun, hpass⟩ := argValue_eq_ok hformals hpassed
    obtain ⟨activities, hlater⟩ := ih hrest
    exact ⟨_, .cons hmode hrun hpass hlater⟩

theorem Evaluations.mem {before after earlier : List Datum}
    (h : Evaluations dialect fuel scope (paired formals i (before ++ arg :: after)) m
    activities values m') (hearlier :
    argValues dialect (argument dialect fuel scope) formals i before m = (.ok earlier, m1)) (hmode :
    passMode (formals.bind (·[i + before.length]?)) m1 = (.ok byRef, m1)) :
    ⟨fuel, .eval byRef scope arg, m1⟩ ∈ activities := by
  induction before generalizing i m earlier activities values with
  | nil =>
    obtain ⟨-, rfl⟩ := pure_eq_ok.1 hearlier
    cases h with
    | cons mode =>
      obtain rfl := (ok_inj (hmode.symm.trans mode)).1
      exact List.mem_cons_self
  | cons first before ih =>
    rw [argValues_cons] at hearlier
    obtain ⟨passed, m2, hpassed, hearlier⟩ := bind_eq_ok.1 hearlier
    obtain ⟨earlier', m3, hbefore, hearlier⟩ := bind_eq_ok.1 hearlier
    obtain ⟨rfl, rfl⟩ := pure_eq_ok.1 hearlier
    obtain ⟨byRef', v, m4, hmode', hrun', hpass'⟩ := argValue_eq_ok hformals hpassed
    cases h with
    | cons mode run pass later =>
      obtain rfl := (ok_inj (hmode'.symm.trans mode)).1
      obtain ⟨rfl, rfl⟩ := ok_inj (hrun'.symm.trans run)
      obtain ⟨-, rfl⟩ := Prod.mk.inj (hpass'.symm.trans pass)
      refine List.mem_cons_of_mem _ (ih later hbefore ?_)
      rwa [List.length_cons, Nat.add_comm before.length 1, ← Nat.add_assoc] at hmode

end

/-! ## The function that is meant -/

theorem findCallee_eq_some (h : findCallee name arity fs m = (.ok (some f), m)) :
    ∃ list, field f "args" m = (.ok list, m) ∧ size list m = (.ok arity, m) := by
  induction fs with
  | nil => cases h
  | cons g rest ih =>
    obtain ⟨d, hd, h⟩ := look_eq_ok h
    split at h
    · obtain ⟨list, hlist, h⟩ := look_eq_ok h
      obtain ⟨n, hn, h⟩ := look_eq_ok h
      split at h
      · rename_i harity
        obtain rfl := Option.some.inj (pure_eq_ok.1 h).1
        exact ⟨list, hlist, eq_of_beq harity ▸ hn⟩
      · exact ih h
    · exact ih h

/-- The function that is chosen has as many formals as there are arguments; to choose it changes
nothing. -/
theorem chooseCalled_eq_ok
    (h : chooseCalled dialect scope name values m = (.ok (f, values', named), m')) :
    m' = m ∧ values' = values ∧
      ∃ list, field f "args" m = (.ok list, m) ∧ size list m = (.ok values.length, m) := by
  obtain ⟨fs, _, hfs, h⟩ := bind_eq_ok.1 h
  obtain ⟨-, rfl⟩ := Prod.mk.inj hfs
  obtain ⟨found, hfound, h⟩ := look_eq_ok h
  cases found with
  | some g =>
    obtain ⟨hr, rfl⟩ := pure_eq_ok.1 h
    obtain ⟨rfl, hrest⟩ := Prod.mk.inj hr
    exact ⟨rfl, (Prod.mk.inj hrest).1.symm, findCallee_eq_some hfound⟩
  | none =>
    dsimp only at h
    generalize (if dialect.hasClosures = true then scope.value? name else none) = held at h
    cases held with
    | some g =>
      obtain ⟨kind, hkind, h⟩ := look_eq_ok h
      split at h
      · obtain ⟨text, _, htext, h⟩ := bind_eq_ok.1 h
        cases h
      · obtain ⟨list, hlist, h⟩ := look_eq_ok h
        obtain ⟨n, hn, h⟩ := look_eq_ok h
        split at h
        · rename_i harity
          obtain ⟨hr, rfl⟩ := pure_eq_ok.1 h
          obtain ⟨rfl, hrest⟩ := Prod.mk.inj hr
          exact ⟨rfl, (Prod.mk.inj hrest).1.symm, list, hlist, eq_of_beq harity ▸ hn⟩
        · obtain ⟨text, _, htext, h⟩ := bind_eq_ok.1 h
          cases h
    | none =>
      obtain ⟨text, _, htext, h⟩ := bind_eq_ok.1 h
      cases h

/-! ## Calls -/

/-- What a call has done when it comes to the body of its function: one pass over the arguments, the
choice of the function, and with closures another pass. -/
theorem enterCall_eq_ok
    (h : enterCall dialect fuel scope name args m = (.ok (row, statements, inner), m')) :
    ∃ actuals values m1 f named bound, items args m = (.ok actuals, m) ∧
      argValues dialect (argument dialect fuel scope) none 0 actuals m = (.ok values, m1) ∧
      chooseCalled dialect scope name values m1 = (.ok (f, values, named), m1) ∧
      (if dialect.hasClosures then ∃ list formals, field f "args" m1 = (.ok list, m1) ∧
          items list m1 = (.ok formals, m1) ∧
          argValues dialect (argument dialect fuel scope) (some formals) 0 actuals m1 =
            (.ok bound, m')
        else bound = values ∧ m' = m1) ∧
      enterBody scope name f named bound m' = (.ok (row, statements, inner), m') := by
  rw [enterCall] at h
  obtain ⟨⟨f, values', named⟩, _, hfound, h⟩ := bind_eq_ok.1 h
  rw [findCalled] at hfound
  obtain ⟨actuals, hactuals, hfound⟩ := look_eq_ok hfound
  obtain ⟨values, m1, hvalues, hchosen⟩ := bind_eq_ok.1 hfound
  obtain ⟨rfl, rfl, -⟩ := chooseCalled_eq_ok hchosen
  unfold enterFound at h
  cases hc : dialect.hasClosures with
  | false =>
    simp only [hc, Bool.false_eq_true, if_false] at h
    obtain rfl := Has.eq h
    exact ⟨actuals, values', _, f, named, values', hactuals, hvalues, hchosen, by simp, h⟩
  | true =>
    simp only [hc, if_true] at h
    obtain ⟨list, hlist, h⟩ := look_eq_ok h
    obtain ⟨formals, hformals, h⟩ := look_eq_ok h
    rw [bind_of_ok (items_elsewhere hactuals _)] at h
    obtain ⟨bound, m2, hbound, h⟩ := bind_eq_ok.1 h
    obtain rfl := Has.eq h
    exact ⟨actuals, values', _, f, named, bound, hactuals, hvalues, hchosen,
      by simpa using ⟨list, hlist, formals, hformals, hbound⟩, h⟩

theorem mem_of_starts (bound : List Datum) (hown : Builtin.ofName? name = none)
    (h : enterCall dialect fuel scope name args m = (.ok (row, statements, inner), m'))
    (hactuals : items args m = (.ok actuals, m))
    (hfirst : Evaluations dialect fuel scope (paired none 0 actuals) m first values m1)
    (hfound : findCalled dialect fuel scope name args m = (.ok (f, values, named), m1))
    (hsecond : dialect.hasClosures = true → ∃ list formals, field f "args" m1 = (.ok list, m1) ∧
      items list m1 = (.ok formals, m1) ∧
      Evaluations dialect fuel scope (paired (some formals) 0 actuals) m1 second bound m')
    (hb : Starts dialect ⟨fuel + 1, .call scope name args, m⟩ b) :
    b ∈ first ++ second ∨
      ∃ s scope' m2 m3, Reached (row.step dialect fuel) statements inner m' s scope' m2 ∧
        row.announce dialect scope' m2 = (.ok (), m3) ∧ b = ⟨fuel, .exec scope' s, m3⟩ := by
  cases hb with
  | prompt known => cases hown.symm.trans known
  | piece known => cases hown.symm.trans known
  | argument own given earlier =>
    obtain rfl := (ok_inj (hactuals.symm.trans given)).1
    exact .inl (List.mem_append_left _ (hfirst.mem (.inl rfl) earlier rfl))
  | pass own closures found declared parameters given earlier meant mode =>
    obtain ⟨list, formals, hlist, hformals, hsecond⟩ := hsecond closures
    obtain ⟨hr, rfl⟩ := Prod.mk.inj (hfound.symm.trans found)
    obtain ⟨rfl, -⟩ := Prod.mk.inj (Except.ok.inj hr)
    obtain rfl := (ok_inj (hlist.symm.trans declared)).1
    obtain rfl := (ok_inj (hformals.symm.trans parameters)).1
    obtain rfl := (ok_inj ((items_elsewhere hactuals m1).symm.trans given)).1
    refine .inl (List.mem_append_right _ (hsecond.mem (.inr closures) earlier ?_))
    rw [Nat.zero_add, Option.bind_some, meant]
    exact bind_of_ok mode
  | body own entered reached announced =>
    obtain ⟨hentered, rfl⟩ := Prod.mk.inj (h.symm.trans entered)
    obtain ⟨rfl, hr⟩ := Prod.mk.inj (Except.ok.inj hentered)
    obtain ⟨rfl, rfl⟩ := Prod.mk.inj hr
    exact .inr ⟨_, _, _, _, reached, announced, rfl⟩

/-- **How often arguments are evaluated.** A call of a function of the program or of the value of a
variable comes to the body of the function. Then its arguments have been evaluated from left to
right, each exactly once, by value. Without closures these are the values that are bound to the
formals, and the body begins with what the last argument has left. With closures they only serve to
choose the function. All arguments have been evaluated a second time, from left to right, each in
the mode of its formal; the values of this second pass are bound, and the body begins with what it
has left. The call itself evaluates nothing else: any other activity that it starts is a statement
of the body. -/
theorem call_evaluates_arguments (hown : Builtin.ofName? name = none)
    (h : enterCall dialect fuel scope name args m = (.ok (row, statements, inner), m')) :
    ∃ actuals first values m1 f named second bound,
      items args m = (.ok actuals, m) ∧
      Evaluations dialect fuel scope (paired none 0 actuals) m first values m1 ∧
      chooseCalled dialect scope name values m1 = (.ok (f, values, named), m1) ∧
      (if dialect.hasClosures then ∃ list formals, field f "args" m1 = (.ok list, m1) ∧
          items list m1 = (.ok formals, m1) ∧ formals.length = actuals.length ∧
          Evaluations dialect fuel scope (paired (some formals) 0 actuals) m1 second bound m'
        else second = [] ∧ bound = values ∧ m' = m1) ∧
      (first ++ second).length = (if dialect.hasClosures then 2 else 1) * actuals.length ∧
      (∀ b, Starts dialect ⟨fuel + 1, .call scope name args, m⟩ b → b ∈ first ++ second ∨
        ∃ s scope' m2 m3, Reached (row.step dialect fuel) statements inner m' s scope' m2 ∧
          row.announce dialect scope' m2 = (.ok (), m3) ∧ b = ⟨fuel, .exec scope' s, m3⟩) ∧
      enterBody scope name f named bound m' = (.ok (row, statements, inner), m') ∧
      call dialect (fuel + 1) scope name args m = runBody dialect fuel
        (row, statements, inner) m' := by
  obtain ⟨actuals, values, m1, f, named, bound, hactuals, hvalues, hchosen, hbound, hbody⟩ :=
    enterCall_eq_ok h
  obtain ⟨first, hfirst⟩ := exists_evaluations (.inl rfl) hvalues
  have hcall : call dialect (fuel + 1) scope name args m = runBody dialect fuel
      (row, statements, inner) m' := by
    rw [call_own hown, bind_of_ok h]
  have hfound : findCalled dialect fuel scope name args m = (.ok (f, values, named), m1) := by
    rw [findCalled, bind_of_ok hactuals, bind_of_ok hvalues, hchosen]
  cases hc : dialect.hasClosures with
  | false =>
    simp only [hc, Bool.false_eq_true, if_false] at hbound
    obtain ⟨rfl, rfl⟩ := hbound
    have hnone : dialect.hasClosures ≠ true := by simp [hc]
    refine ⟨actuals, first, bound, m', f, named, [], bound, hactuals, hfirst, hchosen, by simp, ?_,
      fun b => mem_of_starts bound hown h hactuals hfirst hfound
      fun hclosures => absurd hclosures hnone, hbody, hcall⟩
    simp [hfirst.length.1]
  | true =>
    simp only [hc, if_true] at hbound
    obtain ⟨list, formals, hlist, hformals, hbound⟩ := hbound
    obtain ⟨second, hsecond⟩ := exists_evaluations (.inr hc) hbound
    obtain ⟨-, -, list', hlist', hsize⟩ := chooseCalled_eq_ok hchosen
    obtain rfl := (ok_inj (hlist.symm.trans hlist')).1
    have hlength : formals.length = actuals.length := by
      rw [size_of_items hformals, Prod.mk.injEq, Except.ok.injEq] at hsize
      rw [hsize.1, hfirst.length.2]
    refine ⟨actuals, first, values, m1, f, named, second, bound, hactuals, hfirst, hchosen,
      by simpa using ⟨list, hlist, formals, hformals, hlength, hsecond⟩, ?_,
      fun b => mem_of_starts bound hown h hactuals hfirst hfound fun _ =>
        ⟨list, formals, hlist, hformals, hsecond⟩, hbody, hcall⟩
    simp [hfirst.length.1, hsecond.length.1, Nat.two_mul]

/-- The argument of the only call of a function of the program reads a number. -/
def readForCall : String :=
  "func f(x) \x7b print(x); \x7d func main() \x7b f(inputi()); print(\"end\"); \x7d"

/-- With closures, the call of the program comes to the body of the function. Its one argument has
been evaluated twice, and two inputs are used up. -/
theorem call_evaluates_arguments_readForCall :
    ∃ name args m row statements inner m', Builtin.ofName? name = none ∧ m.console.cursor = 0 ∧
      enterCall .closures 3 [] name args m = (.ok (row, statements, inner), m') ∧
      m'.console.cursor = 2 ∧
      ∃ actuals first values m1 second, items args m = (.ok actuals, m) ∧
        Evaluations .closures 3 [] (paired none 0 actuals) m first values m1 ∧
        (first ++ second).length = 2 * actuals.length ∧
        call .closures 4 [] name args m = runBody .closures 3 (row, statements, inner) m' := by
  have hrun : ((do
      let s := (← enterMain readForCall).headD .null
      let before := (← get).console.cursor
      let name ← field s "name"
      let args ← field s "args"
      let _ ← enterCall .closures 3 [] name args
      return (before, (Builtin.ofName? name).isNone, (← get).console.cursor) :
        Run (Nat × Bool × Nat)) (Machine.start false false [.text "1", .text "2"] "")).1.toOption =
          some (0, true, 2) := by
    decide +kernel
  obtain ⟨m1, h⟩ := exists_of_toOption hrun
  obtain ⟨statements, m, -, h⟩ := bind_eq_ok.1 h
  obtain ⟨_, _, hget, h⟩ := bind_eq_ok.1 h
  obtain ⟨rfl, rfl⟩ := ok_inj hget
  obtain ⟨name, hname, h⟩ := look_eq_ok h
  obtain ⟨args, hargs, h⟩ := look_eq_ok h
  obtain ⟨⟨row, body, inner⟩, m', hentered, h⟩ := bind_eq_ok.1 h
  obtain ⟨_, _, hget, h⟩ := bind_eq_ok.1 h
  obtain ⟨rfl, rfl⟩ := ok_inj hget
  obtain ⟨hends, -⟩ := pure_eq_ok.1 h
  obtain ⟨hbefore, hends⟩ := Prod.mk.inj hends
  obtain ⟨hown, hafter⟩ := Prod.mk.inj hends
  rw [Option.isNone_iff_eq_none] at hown
  obtain ⟨actuals, first, values, m2, f, named, second, bound, hactuals, hfirst, -, -, hlength,
      -, -, hcall⟩ :=
    call_evaluates_arguments hown hentered
  exact ⟨name, args, m, row, body, inner, m', hown, hbefore, hentered, hafter, actuals,
    first, values, m2, second, hactuals, hfirst, hlength, hcall⟩

/-- With one number to read, the run ends well without closures and puts out two lines. With
closures the second evaluation of the argument finds nothing to read, and the body is never
entered. -/
theorem readForCall_reads_twice :
    [Dialect.scoped, .closures, .objects].map (fun dialect =>
      let r := runProgram 1000 (.scoped dialect) readForCall
        (Machine.start false false [.text "1"] "")
      (r.1.toOption, r.2.console.log.size)) = [(some (), 2), (none, 0), (none, 0)] := by
  decide +kernel

end LangKit.Script
