import LangKit.Script.Eval
import LangKit.Proofs.Fallible

/-!
# Steps of a run

A step takes a state to a result and a state. These lemmas take steps apart: what it means that a
row of statements gives a result or none (`block_eq_null`, `block_eq_result`), and that a loop gives
a result (`repeatWhile_eq_result`). Steps that only look at the state leave it as it is
(`Observes`).
-/

namespace LangKit.Script

open Run

variable {m m' m1 : Machine} {d s' node : Datum} {ds rest statements : List Datum} {scope : Scope}

variable {α β : Type} {x : Run α} {f : α → Run β}

/-- What holds behind a step still holds at the end, if what follows leaves it. -/
theorem bind_machine {Q : Machine → Prop} (hx : Q (x m).2)
    (hf : ∀ a m1, x m = (.ok a, m1) → Q m1 → Q (f a m1).2) :
    Q ((x >>= f) m).2 := by
  rw [bind_apply]
  rcases h : x m with ⟨e | a, m1⟩ <;> rw [h] at hx
  · exact hx
  · exact hf a m1 h hx

theorem exists_of_toOption (h : (x m).1.toOption = some a) : ∃ m', x m = (.ok a, m') := by
  rcases hx : x m with ⟨e | b, m'⟩
  · rw [hx] at h
    cases h
  · rw [hx] at h
    obtain rfl : b = a := Option.some.inj h
    exact ⟨m', rfl⟩

def faultOf {α : Type} : Except Stop α → Option Fault
  | .error (.fault f) => some f
  | _ => none

theorem exists_of_faultOf {α : Type} {y : Run α} {f : Fault} (h : faultOf (y m).1 = some f) :
    ∃ m', y m = (.error (.fault f), m') := by
  rcases hy : y m with ⟨(g | _) | a, m'⟩ <;> rw [hy] at h
  · obtain rfl := Option.some.inj h
    exact ⟨m', rfl⟩
  · cases h
  · cases h

theorem eq_text_of_same {x : String} (h : d.same (.text x) = true) : d = .text x := by
  cases d with
  | text y => rw [eq_of_beq h]
  | _ => cases h

/-! ## Steps that only look at the state -/

def Observes (x : Run α) : Prop :=
  ∀ m, (x m).2 = m

theorem Observes.eq (h : Observes x) (hx : x m = (r, m')) : m = m' := by
  rw [← h m, hx]

theorem Observes.of_toOption (h : Observes x) (hx : (x m).1.toOption = some a) :
    x m = (.ok a, m) := by
  obtain ⟨m', hm⟩ := exists_of_toOption hx
  rw [hm, h.eq hm]

theorem observes_pure (a : α) : Observes (pure a : Run α) :=
  fun _ => rfl

theorem lift_apply (r : Except Fault α) (m : Machine) : lift r m = (r.mapError .fault, m) := by
  cases r <;> rfl

theorem observes_lift (r : Except Fault α) : Observes (lift r) :=
  fun m => congrArg Prod.snd (lift_apply r m)

theorem input_apply (m : Machine) :
    input m = (m.console.input.1.mapError .fault, { m with console := m.console.input.2 }) := by
  rw [input, bind_of_ok (show onConsole _ m = (.ok _, _) from rfl), lift_apply]

theorem output_apply (d : Datum) (m : Machine) :
    output d m = ((m.console.output m.store d).1.mapError .fault,
      { m with console := (m.console.output m.store d).2 }) := by
  rw [output, bind_of_ok (show onConsole _ m = (.ok _, _) from rfl), lift_apply]

theorem observes_kindOf (d : Datum) : Observes (kindOf d) := by
  intro m
  cases d <;> rfl

theorem observes_textOf (d : Datum) : Observes (textOf d) := by
  intro m
  rw [textOf]
  split <;> rfl

theorem observes_field? (d : Datum) (name : String) : Observes (field? d name) := by
  intro m
  cases d <;> rfl

theorem Observes.bind (hx : Observes x) (hf : ∀ a, Observes (f a)) : Observes (x >>= f) :=
  fun m => bind_machine (hx m) fun a m1 _ h1 => (hf a m1).trans h1

theorem observes_field (d : Datum) (name : String) : Observes (field d name) := by
  refine (observes_field? d name).bind fun v => ?_
  cases v with
  | none => exact fun _ => rfl
  | some v => exact observes_pure v

theorem field?_apply (ref : Nat) (name : String) (m : Machine) :
    field? (.node ref) name m = (.ok (m.store.field? ref name), m) := rfl

theorem field_node (ref : Nat) (name : String) (m : Machine) :
    field (.node ref) name m =
      ((m.store.field? ref name).elim (.error (.fault (Fault.missingField name))) .ok, m) := by
  rw [field, bind_of_ok (field?_apply ref name m)]
  cases m.store.field? ref name <;> rfl

theorem field_apply {name : String} (h : m.store.field? ref name = some d) :
    field (.node ref) name m = (.ok d, m) := by
  rw [field_node, h]
  rfl

theorem exists_node_of_kindOf {kind : String} (h : kindOf d m = (.ok kind, m')) :
    ∃ r, d = .node r ∧ m.store.kind r = kind := by
  cases d with
  | node r => exact ⟨r, rfl, (ok_inj h).1⟩
  | _ => cases h

theorem exists_node_of_field? {name : String} (h : field? d name m = (.ok v, m')) :
    ∃ r, d = .node r ∧ m.store.field? r name = v := by
  cases d with
  | node r => exact ⟨r, rfl, (ok_inj h).1⟩
  | _ => cases h

section

variable {v : Datum} {name : String} (h : field d name m = (.ok v, m'))

include h

theorem field?_of_field : field? d name m = (.ok (some v), m) := by
  obtain ⟨w, m1, hw, h⟩ := bind_eq_ok.1 h
  obtain rfl := (observes_field? d name).eq hw
  cases w with
  | none => cases h
  | some w => rw [hw, (pure_eq_ok.1 h).1]

theorem exists_node_of_field : ∃ r, d = .node r ∧ m.store.field? r name = some v :=
  exists_node_of_field? (field?_of_field h)

end

theorem observes_items (d : Datum) : Observes (items d) := by
  intro m
  cases d <;> rfl

theorem observes_size (d : Datum) : Observes (size d) := by
  intro m
  cases d <;> rfl

theorem observes_nameText (d : Datum) : Observes (nameText d) := by
  cases d with
  | text s => exact observes_pure s
  | _ => exact observes_textOf _

theorem exists_display_of_nodes (h : ∀ d ∈ ds, ∃ r, d = .node r) :
    ∃ t, (Datum.list ds).display = .ok t := by
  have hall : ∃ ts, Tree.displayAll? Tree.nodeMark (Datum.outlineAll (fun _ => .node "" []) ds) =
      some ts := by
    induction ds with
    | nil => exact ⟨[], rfl⟩
    | cons d rest ih =>
      obtain ⟨⟨r, rfl⟩, hrest⟩ := List.forall_mem_cons.1 h
      obtain ⟨ts, hts⟩ := ih hrest
      refine ⟨Tree.nodeMark :: ts, ?_⟩
      simp only [Datum.outlineAll, Datum.outlineWith, Tree.displayAll?, Tree.display?, hts,
        Option.bind_some, Option.map_some]
  obtain ⟨ts, hts⟩ := hall
  refine ⟨"[" ++ ", ".intercalate ts ++ "]", ?_⟩
  simp only [Datum.display, Datum.outline, Datum.outlineWith, Tree.display?, hts, Option.map_some]

theorem exists_showScope_of_nodes (h : ∀ e ∈ scope, ∃ r, e.2 = .node r) :
    ∃ t, ∀ m, showScope scope m = (.ok t, m) := by
  have hentries : ∃ ts, Tree.displayEntries? Tree.nodeMark
      (Datum.outlineEntries (fun _ => .node "" []) (scope.map fun e => (.text e.1, e.2))) =
        some ts := by
    induction scope with
    | nil => exact ⟨[], rfl⟩
    | cons e rest ih =>
      obtain ⟨name, d⟩ := e
      obtain ⟨⟨r, hr⟩, hrest⟩ := List.forall_mem_cons.1 h
      obtain rfl : d = .node r := hr
      obtain ⟨ts, hts⟩ := ih hrest
      refine ⟨(Text.quoted name ++ ": " ++ Tree.nodeMark) :: ts, ?_⟩
      simp only [List.map_cons, Datum.outlineEntries, Datum.outlineWith, Tree.displayEntries?,
        Tree.display?, hts, Option.bind_some, Option.map_some]
  obtain ⟨ts, hts⟩ := hentries
  refine ⟨"\x7b" ++ ", ".intercalate ts ++ "\x7d", fun m => ?_⟩
  simp only [showScope, Datum.display, Datum.outline, Datum.outlineWith, Tree.display?, hts,
    Option.map_some]
  rfl

/-! ## Rows of statements -/

/-- A statement in a row is reached, in a scope and a state: those before it have given no
result. -/
def Reached (step : Datum → Scope → Run (Scope × Datum)) (statements : List Datum) (scope : Scope)
    (m : Machine) (s : Datum) (scope' : Scope) (m' : Machine) : Prop :=
  ∃ before after, statements = before ++ s :: after ∧
    block step before scope m = (.ok (scope', .null), m')

/-- The statements of a row are carried out one after the other and none gives a result. -/
inductive CarriedOut (step : Datum → Scope → Run (Scope × Datum)) :
    List Datum → Scope → Machine → Scope → Machine → Prop
  | nil {scope : Scope} {m : Machine} : CarriedOut step [] scope m scope m
  | cons {s : Datum} {rest : List Datum} {scope scope1 scope' : Scope} {m m1 m' : Machine}
      (first : step s scope m = (.ok (scope1, .null), m1))
      (later : CarriedOut step rest scope1 m1 scope' m') :
      CarriedOut step (s :: rest) scope m scope' m'

section

variable {step : Datum → Scope → Run (Scope × Datum)} {scope1 scope' : Scope} {s : Datum}

/-- A row goes on behind a statement without a result. -/
theorem block_cons_of_null (h : step s scope m = (.ok (scope1, .null), m1)) :
    block step (s :: rest) scope m = block step rest scope1 m1 := by
  rw [block, bind_of_ok h]

theorem block_cons_of_ne (h : step s scope m = (.ok (scope1, d), m1)) (hd : d ≠ .null) :
    block step (s :: rest) scope m = (.ok (scope1, d), m1) := by
  rw [block, bind_of_ok h]
  cases d with
  | null => exact absurd rfl hd
  | _ => rfl

theorem block_append {before after : List Datum}
    (h : block step before scope m = (.ok (scope1, .null), m1)) :
    block step (before ++ after) scope m = block step after scope1 m1 := by
  induction before generalizing scope m with
  | nil =>
    rw [block, pure_eq_ok] at h
    obtain ⟨hpair, rfl⟩ := h
    obtain ⟨rfl, -⟩ := Prod.mk.inj hpair
    rfl
  | cons s before ih =>
    rw [block, bind_eq_ok] at h
    obtain ⟨⟨scope2, r⟩, m2, hs, hrest⟩ := h
    cases r with
    | null =>
      rw [List.cons_append, block_cons_of_null hs]
      exact ih hrest
    | _ =>
      -- A result before the end would have been the result of the whole row.
      have hnull := (pure_eq_ok.1 hrest).1
      simp at hnull

/-- What is reached behind a statement without a result is reached in the whole row. -/
theorem Reached.cons (h : Reached step rest scope1 m1 s' scope' m')
    (hs : step s scope m = (.ok (scope1, .null), m1)) :
    Reached step (s :: rest) scope m s' scope' m' := by
  obtain ⟨before, after, rfl, hbefore⟩ := h
  refine ⟨s :: before, after, rfl, ?_⟩
  rw [block_cons_of_null hs, hbefore]

theorem block_eq_null :
    block step statements scope m = (.ok (scope', .null), m') ↔
      CarriedOut step statements scope m scope' m' := by
  constructor
  · intro h
    induction statements generalizing scope m with
    | nil =>
      rw [block, pure_eq_ok] at h
      obtain ⟨hpair, rfl⟩ := h
      obtain ⟨rfl, -⟩ := Prod.mk.inj hpair
      exact .nil
    | cons s rest ih =>
      rw [block, bind_eq_ok] at h
      obtain ⟨⟨scope2, r⟩, m2, hs, hrest⟩ := h
      cases r with
      | null => exact .cons hs (ih hrest)
      | _ =>
        have hnull := (pure_eq_ok.1 hrest).1
        simp at hnull
  · intro h
    induction h with
    | nil => rfl
    | cons first _ ih => rw [block_cons_of_null first, ih]

theorem block_eq_result (hd : d ≠ .null) :
    block step statements scope m = (.ok (scope', d), m') ↔
      ∃ s scope1 m1, Reached step statements scope m s scope1 m1 ∧
        step s scope1 m1 = (.ok (scope', d), m') := by
  constructor
  · intro h
    induction statements generalizing scope m with
    | nil =>
      have hpair := (pure_eq_ok.1 h).1
      exact absurd (Prod.mk.inj hpair).2.symm hd
    | cons s rest ih =>
      have hrow := h
      rw [block, bind_eq_ok] at hrow
      obtain ⟨⟨scope2, r⟩, m2, hs, -⟩ := hrow
      by_cases hr : r = .null
      · subst hr
        rw [block_cons_of_null hs] at h
        obtain ⟨t, scope3, m3, hreached, ht⟩ := ih h
        exact ⟨t, scope3, m3, hreached.cons hs, ht⟩
      · rw [block_cons_of_ne hs hr] at h
        exact ⟨s, scope, m, ⟨[], rest, rfl, rfl⟩, hs.trans h⟩
  · rintro ⟨s, scope1, m1, ⟨before, after, rfl, hbefore⟩, hs⟩
    rw [block_append hbefore, block_cons_of_ne hs hd]

end

/-! ## Loops -/

/-- A loop comes to its condition in a state, after some rounds without a result. -/
inductive Rounds (test : Run Bool) (body : Run Datum) : Nat → Machine → Machine → Prop
  | first {fuel : Nat} {m : Machine} : Rounds test body (fuel + 1) m m
  | next {fuel : Nat} {m m1 m2 m' : Machine} (go : test m = (.ok true, m1))
      (round : body m1 = (.ok .null, m2)) (later : Rounds test body fuel m2 m') :
      Rounds test body (fuel + 1) m m'

theorem repeatWhile_eq_result {body : Run Datum} (hd : d ≠ .null) :
    repeatWhile test body fuel m = (.ok d, m') ↔
      ∃ m1 m2, Rounds test body fuel m m1 ∧ test m1 = (.ok true, m2) ∧ body m2 = (.ok d, m') := by
  constructor
  · intro h
    induction fuel generalizing m with
    | zero => cases h
    | succ fuel ih =>
      rw [repeatWhile, bind_eq_ok] at h
      obtain ⟨go, m1, htest, h⟩ := h
      cases go with
      | false => exact absurd (pure_eq_ok.1 h).1.symm hd
      | true =>
        simp only [if_true] at h
        rw [bind_eq_ok] at h
        obtain ⟨r, m2, hbody, h⟩ := h
        cases r with
        | null =>
          obtain ⟨m3, m4, hrounds, hgo, hround⟩ := ih h
          exact ⟨m3, m4, .next htest hbody hrounds, hgo, hround⟩
        | _ =>
          obtain ⟨rfl, rfl⟩ := pure_eq_ok.1 h
          exact ⟨m, m1, .first, htest, hbody⟩
  · rintro ⟨m1, m2, hrounds, hgo, hround⟩
    induction hrounds with
    | first =>
      rw [repeatWhile, bind_of_ok hgo, if_pos rfl, bind_of_ok hround]
      cases d with
      | null => exact absurd rfl hd
      | _ => rfl
    | next go round _ ih =>
      rw [repeatWhile, bind_of_ok go, if_pos rfl, bind_of_ok round]
      exact ih hgo

/-! ## Scopes that are given back -/

section

variable {dialect : Dialect} {fuel : Nat} {e : Stop} {byRef : Bool}

@[simp] theorem Handling.scope_value (scope : Scope) :
    Handling.value.scope scope = pure scope := rfl

@[simp] theorem Handling.fork_value (scope : Scope) : Handling.value.fork scope = pure scope := rfl

theorem isBound_eq_has (hplain : dialect.hasObjects = false) (scope : Scope) (x : String) :
    isBound dialect scope x = Assoc.has x scope := by
  rw [isBound, hplain, Bool.false_and, Bool.false_and, Bool.or_false]

def assign (dialect : Dialect) (scope : Scope) (name : String) (value : Run Datum) : Run Scope := do
  if isBound dialect scope name then
    let v ← value
    if dialect.hasClosures then print (← textOf v)
    if dialect.hasObjects && isDotted name then overwrite dialect (boundMember scope name) v
    else overwrite dialect (bound scope name) v
    return scope
  else if dialect.hasObjects && isDotted name then
    report .name ("Unknown object " ++ name)
  else
    return Assoc.put name (← value) scope

def bindFormals (scope : Scope) (formals values : List Datum) : Run Scope :=
  Handling.value.bindFormals scope formals values

theorem bindFormals_cons (formal value : Datum) (formals values : List Datum) :
    bindFormals scope (formal :: formals) (value :: values) = (do
      let name ← nameText (← field formal "name")
      bindFormals (Assoc.put name value scope) formals values) :=
  rfl

def bindCaptured (scope : Scope) (entries : List (Datum × Datum)) : Run Scope :=
  Handling.value.bindCaptured scope entries

theorem eval_succ : eval dialect (fuel + 1) byRef scope node = (do
    Handling.value.evalForm dialect (eval dialect fuel) (call dialect fuel) scope node byRef
      (dialect.exprForm (← kindOf node))) :=
  rfl

theorem exec_succ : exec dialect (fuel + 1) node scope = (do
    Handling.value.execForm dialect (eval dialect fuel) (exec dialect fuel)
      (call dialect fuel) scope node fuel (statementForm (← kindOf node))) :=
  rfl

theorem eval_of_kindOf_error (h : kindOf node m = (.error e, m')) :
    eval dialect (fuel + 1) byRef scope node m = (.error e, m') := by
  rw [eval_succ, bind_apply, h]

theorem exec_of_kindOf_error (h : kindOf node m = (.error e, m')) :
    exec dialect (fuel + 1) node scope m = (.error e, m') := by
  rw [exec_succ, bind_apply, h]

end

end LangKit.Script
