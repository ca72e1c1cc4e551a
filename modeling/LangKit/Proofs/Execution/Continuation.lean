import LangKit.Proofs.Execution.Whole

/-!
# How an activity goes on

An activity that starts another one ends as that one ends, except that it goes on if the other one
ends well: `Starts.outlasts`. So a fault that stops an activity stops everything around it and is
the fault of the whole run, in the very state that the activity has left
(`Running.runProgram_eq_error`). And since all steps only add to the log and to the printed text,
what they were when an activity ended is a part of what they are at the end of the run
(`Running.before`).
-/

namespace LangKit.Script

open Run

variable {statements after values : List Datum} {scope : Scope} {s arg right : Datum}
  {body value : Run Datum} {fuel i : Nat} {ev : Bool → Datum → Run Datum}
  {x text : String} {dialect : Dialect} {formals : Option (List Datum)}
  {a b : Activity} {m m' : Machine}

set_option synthInstance.maxSize 1000000

/-! ## The console grows -/

/-- What is in the log and in the printed text of one console comes first in those of the other. -/
structure Console.Before (c c' : Console) : Prop where
  log : ∃ new, c'.log = c.log ++ new
  printed : ∃ more, c'.printed = c.printed ++ more

theorem Console.Before.refl (c : Console) : c.Before c :=
  ⟨⟨#[], by simp⟩, ⟨"", by simp⟩⟩

theorem Console.Before.trans {c1 c2 c3 : Console} (h : c1.Before c2) (h' : c2.Before c3) :
    c1.Before c3 := by
  obtain ⟨⟨new, hnew⟩, ⟨more, hmore⟩⟩ := h
  obtain ⟨⟨new', hnew'⟩, ⟨more', hmore'⟩⟩ := h'
  refine ⟨⟨new ++ new', ?_⟩, ⟨more ++ more', ?_⟩⟩
  · rw [hnew', hnew, Array.append_assoc]
  · rw [hmore', hmore, String.append_assoc]

theorem Console.before_of_eq {c c' : Console} (hlog : c'.log = c.log)
    (hprinted : c'.printed = c.printed) :
    c.Before c' :=
  ⟨⟨#[], by simp [hlog]⟩, ⟨"", by simp [hprinted]⟩⟩

theorem Console.before_printed (c : Console) (text : String) :
    c.Before { c with printed := c.printed ++ text } :=
  ⟨⟨#[], by simp⟩, ⟨text, rfl⟩⟩

theorem Console.before_input (c : Console) : c.Before c.input.2 := by
  unfold Console.input
  split
  · split <;> exact before_of_eq rfl rfl
  · split <;> exact before_of_eq rfl rfl

theorem Console.before_output (c : Console) (s : Store) (d : Datum) :
    c.Before (c.output s d).2 := by
  have hpush : ∀ c' : Console, c'.Before { c' with log := c'.log.push d } := by
    intro c'
    exact ⟨⟨#[d], Array.push_eq_append⟩, ⟨"", by simp⟩⟩
  unfold Console.output
  split
  · split
    · rw [print_eq]
      exact (c.before_printed _).trans (hpush _)
    · exact .refl c
  · exact hpush c

/-- A step only adds to the console. -/
def Appends {α : Type} (x : Run α) : Prop :=
  ∀ m : Machine, m.console.Before (x m).2.console

instance : InheritsWhole Appends :=
  inherits_of_console .refl .trans Console.before_printed
    (fun _ _ _ _ => Console.before_of_eq rfl rfl) Console.before_input Console.before_output

/-! ## Steps that go on -/

/-- What one step ends with, seen from what another one ends with that is a part of it: if that one
fails then so does the whole, and otherwise the whole goes on. -/
structure Outlasts {α β : Type} (r : Except Stop α × Machine) (r' : Except Stop β × Machine) :
    Prop where
  error : ∀ e m', r' = (.error e, m') → r = (.error e, m')
  before : r'.2.console.Before r.2.console

section

variable {α β γ : Type} {x : Run α} {y : Run β} {f : α → Run γ} {r : Except Stop γ × Machine}
  {r' : Except Stop α × Machine} {r'' : Except Stop β × Machine}

theorem Outlasts.trans (h : Outlasts r r') (h' : Outlasts r' r'') : Outlasts r r'' :=
  ⟨fun e m' he => h.error e m' (h'.error e m' he), h'.before.trans h.before⟩

theorem Outlasts.bind [hf : ∀ a, Has Appends (f a)] : Outlasts ((x >>= f) m) (x m) := by
  refine ⟨fun e m' he => bind_eq_error.2 (.inl he), ?_⟩
  rw [bind_apply]
  rcases x m with ⟨e | a, m'⟩
  · exact .refl _
  · exact (hf a).holds m'

theorem Outlasts.within [∀ a, Has Appends (f a)] (h : Outlasts (x m) r'') :
    Outlasts ((x >>= f) m) r'' :=
  .trans .bind h

/-- It does not matter in what form the part gives its result. -/
theorem Outlasts.wrapped {w : β → α} (h : Outlasts r (y m)) :
    Outlasts r ((y >>= fun v => pure (w v)) m) := by
  have hsame : ((y >>= fun v => pure (w v)) m).2 = (y m).2 := by
    rw [bind_apply]
    rcases y m with ⟨e | v, m'⟩ <;> rfl
  refine ⟨fun e m' he => h.error e m' ?_, hsame ▸ h.before⟩
  rcases bind_eq_error.1 he with hy | ⟨v, m1, -, hpure⟩
  · exact hy
  · cases hpure

end

/-! ## What follows in a row, a loop or a list of arguments -/

section

variable {m1 : Machine}

def resume (step : Datum → Scope → Run (Scope × Datum)) (rest : List Datum) (r : Scope × Datum) :
    Run (Scope × Datum) :=
  match r.2 with
  | .null => block step rest r.1
  | _ => pure r

instance {P : ∀ {α : Type}, Run α → Prop} [Inherits P] (step : Datum → Scope → Run (Scope × Datum))
    [∀ s scope, Has P (step s scope)] (rest : List Datum) (r : Scope × Datum) :
    Has P (resume step rest r) := by
  unfold resume
  split <;> infer_instance

theorem Reached.block_eq {step : Datum → Scope → Run (Scope × Datum)}
    (h : Reached step statements scope m s scope' m1) :
    ∃ rest, block step statements scope m = (step s scope' >>= resume step rest) m1 := by
  obtain ⟨before, after, rfl, hbefore⟩ := h
  refine ⟨after, ?_⟩
  rw [block_append hbefore, block]
  rfl

theorem Reached.outlasts {step : Datum → Scope → Run (Scope × Datum)}
    [∀ s scope, Has Appends (step s scope)] (h : Reached step statements scope m s scope' m1) :
    Outlasts (block step statements scope m) (step s scope' m1) := by
  obtain ⟨rest, hblock⟩ := h.block_eq
  rw [hblock]
  exact .bind

theorem Rounds.repeatWhile_eq (h : Rounds test body fuel m m1) :
    ∃ n, repeatWhile test body fuel m = repeatWhile test body (n + 1) m1 := by
  induction h with
  | @first fuel m => exact ⟨fuel, rfl⟩
  | next go round _ ih =>
    obtain ⟨n, hn⟩ := ih
    refine ⟨n, ?_⟩
    rw [repeatWhile, bind_of_ok go, if_pos rfl, bind_of_ok round]
    exact hn

theorem outputLine_append {ev : Datum → Run Datum} {before : List Datum} {line line' : String}
    (h : outputLine ev before line m = (.ok line', m1)) :
    outputLine ev (before ++ after) line m = outputLine ev after line' m1 := by
  induction before generalizing line m with
  | nil =>
    obtain ⟨rfl, rfl⟩ := pure_eq_ok.1 h
    rfl
  | cons arg rest ih =>
    obtain ⟨v, m2, hv, h⟩ := bind_eq_ok.1 h
    obtain ⟨piece, m3, hpiece, h⟩ := bind_eq_ok.1 h
    rw [List.cons_append, outputLine, bind_of_ok hv, bind_of_ok hpiece]
    exact ih h

theorem argValues_append {before : List Datum}
    (h : argValues dialect ev formals i before m = (.ok values, m1)) :
    argValues dialect ev formals i (before ++ after) m =
      (argValues dialect ev formals (i + before.length) after >>= fun vs => pure (values ++ vs))
        m1 := by
  induction before generalizing i m values with
  | nil =>
    obtain ⟨rfl, rfl⟩ := pure_eq_ok.1 h
    simp
  | cons arg rest ih =>
    rw [argValues_cons] at h
    obtain ⟨v, m2, hv, h⟩ := bind_eq_ok.1 h
    obtain ⟨vs, m3, hvs, h⟩ := bind_eq_ok.1 h
    obtain ⟨rfl, rfl⟩ := pure_eq_ok.1 h
    rw [List.cons_append, argValues_cons, bind_of_ok hv, bind_apply, ih hvs]
    have hlength : i + 1 + rest.length = i + (arg :: rest).length := by
      rw [List.length_cons]
      omega
    rw [hlength, bind_apply, bind_apply]
    rcases argValues dialect ev formals (i + (arg :: rest).length) after m3 with ⟨e | ws, m4⟩
    · rfl
    · rfl

theorem argValues_outlasts [∀ byRef arg, Has Appends (ev byRef arg)] {before : List Datum}
    (h : argValues dialect ev formals i before m = (.ok values, m1)) :
    Outlasts (argValues dialect ev formals i (before ++ arg :: after) m)
      (argValue dialect ev formals (i + before.length) arg m1) := by
  rw [argValues_append h]
  refine .within ?_
  rw [argValues_cons]
  exact .bind

end

/-! ## Activities -/

def Activity.run (dialect : Dialect) (a : Activity) : Run (Scope × Datum) :=
  match a.job with
  | .eval byRef scope node => do return (scope, ← eval dialect a.fuel byRef scope node)
  | .exec scope node => exec dialect a.fuel node scope
  | .call scope name args => do return (scope, ← call dialect a.fuel scope name args)

def assignValue (dialect : Dialect) (scope : Scope) (x : String) (v : Datum) : Run Scope :=
  assign dialect scope x (pure v)

theorem assign_of_allowed (h : isBound dialect scope x || !(dialect.hasObjects && isDotted x)) :
    assign dialect scope x value = value >>= assignValue dialect scope x := by
  unfold assignValue assign
  cases hbound : isBound dialect scope x with
  | true => simp only [if_true, pure_bind]
  | false =>
    rw [hbound, Bool.false_or, Bool.not_eq_true'] at h
    simp only [h, Bool.false_eq_true, if_false, pure_bind]

instance {P : ∀ {α : Type}, Run α → Prop} [Inherits P] (scope : Scope) (x : String) (v : Datum) :
    Has P (assignValue dialect scope x v) := by
  unfold assignValue
  infer_instance

def afterTest (test : Run Bool) (body : Run Datum) (fuel : Nat) (go : Bool) : Run Datum :=
  if go then body >>= afterRound test body fuel else pure .null
where
  afterRound (test : Run Bool) (body : Run Datum) (fuel : Nat) (d : Datum) : Run Datum :=
    match d with
    | .null => repeatWhile test body fuel
    | result => pure result

theorem repeatWhile_succ (test : Run Bool) (body : Run Datum) (fuel : Nat) :
    repeatWhile test body (fuel + 1) = test >>= afterTest test body fuel := rfl

section

variable {P : ∀ {α : Type}, Run α → Prop} [Inherits P] (test : Run Bool) (body : Run Datum)
  [Has P test] [Has P body]

instance (d : Datum) : Has P (afterTest.afterRound test body fuel d) := by
  cases d <;> unfold afterTest.afterRound <;> infer_instance

instance (go : Bool) : Has P (afterTest test body fuel go) := by
  unfold afterTest
  infer_instance

end

theorem resultValue_of_ne (h : right ≠ .null) :
    resultValue dialect fuel scope right = (do
      let value ← eval dialect fuel false scope right
      if dialect.hasClosures then copy value else pure value) := by
  cases right with
  | null => exact absurd rfl h
  | _ => rfl

theorem Starts.outlasts (h : Starts dialect a b) :
    Outlasts (a.run dialect a.machine) (b.run dialect b.machine) := by
  cases h with dsimp only [Activity.run]
  | left form operand =>
    refine .within (.wrapped ?_)
    rw [eval_binary form, bind_of_ok operand]
    exact .bind
  | right form first left operand =>
    refine .within (.wrapped ?_)
    rw [eval_binary form, bind_of_ok first, bind_of_ok left, bind_of_ok operand]
    exact .bind
  | operand form operand =>
    refine .within (.wrapped ?_)
    rw [eval_unary form, bind_of_ok operand]
    exact .bind
  | invoke form called given =>
    refine .within (.wrapped ?_)
    rw [eval_call form, bind_of_ok called, bind_of_ok given]
    exact .bind
  | invokeMember form on called given =>
    refine .within (.wrapped ?_)
    rw [eval_methodCall form, bind_of_ok on, bind_of_ok called, bind_of_ok given]
    exact .bind
  | assigned form called spelled right allowed =>
    refine .wrapped ?_
    rw [exec_assign form, bind_of_ok called, bind_of_ok spelled, bind_of_ok right,
      assign_of_allowed allowed, bind_assoc]
    exact .bind
  | condition form asked =>
    refine .wrapped ?_
    rw [exec_choice form, bind_of_ok asked]
    exact .bind
  | @branch m node d fuel scope m1 value m2 go body statements s scope' m3 form asked answer truth
      chosen row reached =>
    have hcarry : Outlasts (carryOut dialect fuel scope body m2)
        (exec dialect fuel s scope' m3) := by
      rw [carryOut, bind_of_ok row]
      exact .within reached.outlasts
    rw [exec_choice form, bind_of_ok asked, bind_of_ok answer, bind_of_ok truth]
    cases go with
    | true =>
      rw [if_pos rfl] at chosen ⊢
      rwa [bind_of_ok chosen]
    | false =>
      rw [if_neg Bool.false_ne_true] at chosen ⊢
      rwa [bind_of_ok chosen, carryOutElse_of_items row]
  | test form rounds asked =>
    obtain ⟨n, hloop⟩ := rounds.repeatWhile_eq
    refine .wrapped ?_
    rw [exec_loop form]
    refine .within ?_
    rw [hloop, repeatWhile_succ, loopTest, bind_assoc, bind_of_ok asked, bind_assoc]
    exact .bind
  | round form rounds go repeated row reached =>
    obtain ⟨n, hloop⟩ := rounds.repeatWhile_eq
    rw [exec_loop form]
    refine .within ?_
    rw [hloop, repeatWhile_succ, bind_of_ok go, afterTest, if_pos rfl]
    refine .within ?_
    rw [loopBody, bind_of_ok repeated, bind_of_ok row]
    exact .within reached.outlasts
  | result form right given =>
    refine .wrapped ?_
    rw [exec_return form, bind_of_ok right, resultValue_of_ne given, bind_assoc]
    exact .bind
  | perform form called given =>
    refine .wrapped ?_
    rw [exec_call form, bind_of_ok called, bind_of_ok given]
    exact .bind
  | prompt known reads row =>
    obtain ⟨title, hreads⟩ := callBuiltin_reads reads
    refine .within (.wrapped ?_)
    rw [call_builtin known, hreads]
    refine .within ?_
    rw [promptWith_single _ row]
    exact .bind
  | piece known header row earlier =>
    refine .within (.wrapped ?_)
    rw [call_builtin known, callBuiltin, bind_of_ok header, bind_of_ok row]
    refine .within ?_
    rw [outputLine_append earlier, outputLine]
    exact .bind
  | argument own row earlier =>
    refine .within (.wrapped ?_)
    rw [call_own own, enterCall, findCalled]
    refine .within (.within ?_)
    rw [bind_of_ok row]
    refine .within (.trans (argValues_outlasts earlier) ?_)
    rw [argValue]
    exact .bind
  | pass own closures found declared parameters row earlier meant mode =>
    refine .within (.wrapped ?_)
    rw [call_own own, enterCall]
    refine .within ?_
    rw [bind_of_ok found, enterFound, if_pos closures, bind_of_ok declared, bind_of_ok parameters,
      bind_of_ok row]
    refine .within (.trans (argValues_outlasts earlier) ?_)
    rw [argValue, Nat.zero_add, meant]
    dsimp only
    rw [bind_of_ok mode]
    exact .bind
  | body own entered reached announced =>
    refine .within ?_
    rw [call_own own, bind_of_ok entered, runBody]
    refine .within (.trans reached.outlasts ?_)
    rw [Row.step, Row.stepWith, bind_of_ok announced]
    exact .bind

/-! ## Whole runs -/

section

variable {rest : List Activity}

theorem MainStarts.outlasts (h : MainStarts dialect limit text m a) :
    Outlasts (runProgram limit (.scoped dialect) text m) (a.run dialect a.machine) := by
  cases h with
  | statement entered reached announced =>
    rw [runProgram_eq_enter, bind_of_ok entered]
    refine .within (.trans reached.outlasts ?_)
    rw [Row.step, Row.stepWith, bind_of_ok announced]
    exact .bind

theorem Running.outlasts (h : Running dialect limit text m (a :: rest)) :
    Outlasts (runProgram limit (.scoped dialect) text m) (a.run dialect a.machine) := by
  generalize hrow : a :: rest = row at h
  induction h generalizing a rest with
  | main starts =>
    obtain ⟨rfl, -⟩ := List.cons.inj hrow
    exact starts.outlasts
  | inner _ starts ih =>
    obtain ⟨rfl, rfl⟩ := List.cons.inj hrow
    exact (ih rfl).trans starts.outlasts

theorem Running.runProgram_eq_error (h : Running dialect limit text m (a :: rest))
    (ha : a.run dialect a.machine = (.error e, m')) :
    runProgram limit (.scoped dialect) text m = (.error e, m') :=
  h.outlasts.error e m' ha

instance (a : Activity) : Has Appends (a.run dialect) := by
  obtain ⟨fuel, job, m⟩ := a
  cases job <;> unfold Activity.run <;> infer_instance

theorem Running.before (h : Running dialect limit text m (a :: rest)) :
    a.machine.console.Before (runProgram limit (.scoped dialect) text m).2.console :=
  ((Has.holds : Appends (a.run dialect)) a.machine).trans h.outlasts.before

end

end LangKit.Script
