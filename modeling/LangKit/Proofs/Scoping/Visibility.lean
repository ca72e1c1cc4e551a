import LangKit.Proofs.Execution.Assignment

/-!
# What a statement does to its context

The reference of a context is handed down to blocks, called functions and the bodies of lambdas, and
all of them may bind names. Yet the context that a statement is carried out in stays as it is,
whether the statement comes to its end or fails, unless the statement itself assigns to a name that
is not bound there: then this name is the new last one. No other context changes, be it the one of a
caller or of an enclosing block (`statement_keeps_scope`).

The invariant is that the contexts of a base, which are those of some moment before, are as they
were then (`Extends`). A copy of a context is not in the base, so what is bound there is free to
change, and evaluators only bind names in copies, or in the context of a statement that is new there
(`Confined`).
-/

namespace LangKit.Script

open Run

/-- A statement assigns to a name that is not bound in a scope. With objects, a name with a dot is
the name of a member, which no scope binds. -/
structure Declares (dialect : Dialect) (m : Machine) (node : Datum) (scope : Scope) (x : String) :
    Prop where
  assigns : ∃ e, Assigns m node x e
  unbound : Assoc.get? x scope = none
  plain : dialect.hasObjects = true → isDotted x = false

variable {α β : Type} {base : Array Scope} {m m' : Machine} {c inner fuel : Nat} {dialect : Dialect}
  {scope : Scope} {x : String} {node : Datum}

set_option synthInstance.maxSize 1000000

/-! ## Contexts that stay -/

/-- The contexts of a base are as they were. There may be others besides. -/
def Extends (base : Array Scope) (m : Machine) : Prop :=
  ∀ i < base.size, m.contexts[i]? = base[i]?

theorem Extends.size_le (h : Extends base m) : base.size ≤ m.contexts.size := by
  by_contra hlt
  have hlast := h m.contexts.size (by omega)
  rw [Array.getElem?_eq_none (Nat.le_refl _), Array.getElem?_eq_getElem (by omega)] at hlast
  cases hlast

abbrev Spares (base : Array Scope) : ∀ {α : Type}, Run α → Prop :=
  Preserves (Extends base)

instance : Inherits (Spares base) :=
  inherits_preserves fun _ _ _ hm => hm

/-- From a state on, a step changes no context of the base, and `ok` holds of what it gives. -/
structure Confined (base : Array Scope) (ok : α → Prop) (y : Run α) (m : Machine) : Prop where
  keeps : Extends base (y m).2
  gives : ∀ a m', y m = (.ok a, m') → ok a

section

variable {y : Run α} {f : α → Run β} {ok : α → Prop} {ok' : β → Prop}

theorem Confined.bind (hy : Confined base ok y m)
    (hf : ∀ a m', y m = (.ok a, m') → ok a → Extends base m' → Confined base ok' (f a) m') :
    Confined base ok' (y >>= f) m := by
  refine ⟨bind_machine hy.keeps fun a m1 h hm1 => (hf a m1 h (hy.gives a m1 h) hm1).keeps,
    fun b m2 hb => ?_⟩
  obtain ⟨a, m1, ha, hb⟩ := bind_eq_ok.1 hb
  have hkeeps := hy.keeps
  rw [ha] at hkeeps
  exact (hf a m1 ha (hy.gives a m1 ha) hkeeps).gives b m2 hb

theorem Confined.of_has [h : Has (Spares base) y] (hm : Extends base m) :
    Confined base (fun _ => True) y m :=
  ⟨h.holds m hm, fun _ _ _ => trivial⟩

theorem Confined.after [Has (Spares base) y] (hm : Extends base m)
    (hf : ∀ a m', Extends base m' → Confined base ok' (f a) m') : Confined base ok' (y >>= f) m :=
  .bind (.of_has hm) fun a m' _ _ => hf a m'

theorem Confined.look [Has Observes y] (hm : Extends base m)
    (hf : ∀ a, y m = (.ok a, m) → Confined base ok' (f a) m) : Confined base ok' (y >>= f) m := by
  refine .bind (.of_has hm) fun a m' ha _ _ => ?_
  obtain rfl := Has.eq ha
  exact hf a ha

theorem Confined.pure (hm : Extends base m) (h : ok a) : Confined base ok (pure a) m :=
  ⟨hm, fun _ _ heq => (pure_eq_ok.1 heq).1 ▸ h⟩

theorem Confined.fail (e : Fault) (hm : Extends base m) : Confined base ok (fail e) m :=
  ⟨hm, fun _ _ heq => by cases heq⟩

theorem Confined.has {P : α → Prop} (h : ∀ m, Extends base m → Confined base P y m) :
    Has (Spares base) y :=
  ⟨fun m hm => (h m hm).keeps⟩

end

instance : Has Observes (Handling.reference.scope c) :=
  ⟨fun _ => rfl⟩

theorem confined_fork (c : Nat) (hm : Extends base m) :
    Confined base (base.size ≤ ·) (Handling.reference.fork c) m := by
  refine ⟨fun i hi => ?_, fun a m' h => ?_⟩
  · have hlt := Nat.lt_of_lt_of_le hi hm.size_le
    exact (Array.getElem?_push_lt hlt).trans ((Array.getElem?_eq_getElem hlt).symm.trans (hm i hi))
  · rw [← (ok_inj h).1]
    exact hm.size_le

instance : Has (Spares base) (Handling.reference.fork c) :=
  Confined.has fun _ => confined_fork c

theorem confined_bindIn (hc : base.size ≤ c) (name : String) (v : Datum) (hm : Extends base m) :
    Confined base (· = c) (bindIn c name v) m := by
  refine ⟨fun i hi => ?_, fun a m' h => (ok_inj h).1.symm⟩
  have hne : c ≠ i := by omega
  exact (Array.getElem?_modify.trans (if_neg hne)).trans (hm i hi)

/-! ## Entering functions -/

theorem confined_bindFormals (hc : base.size ≤ c) (formals values : List Datum)
    (hm : Extends base m) :
    Confined base (· = c) (Handling.reference.bindFormals c formals values) m := by
  induction formals generalizing values m with
  | nil => exact .pure hm rfl
  | cons formal formals ih =>
    cases values with
    | nil => exact .fail _ hm
    | cons value values =>
      refine .after hm fun d m hm => .after hm
        fun name m hm => .bind (confined_bindIn hc name value hm) ?_
      rintro _ m - rfl hm
      exact ih values hm

theorem confined_bindCaptured (hc : base.size ≤ c) (entries : List (Datum × Datum))
    (hm : Extends base m) :
    Confined base (· = c) (Handling.reference.bindCaptured c entries) m := by
  induction entries generalizing m with
  | nil => exact .pure hm rfl
  | cons e rest ih =>
    obtain ⟨name, value⟩ := e
    cases value with
    | null => exact ih hm
    | _ =>
      refine .after hm fun name m hm => .bind (confined_bindIn hc name _ hm) ?_
      rintro _ m - rfl hm
      exact ih hm

theorem confined_enterBody (hinner : base.size ≤ inner)
    (name f : Datum) (named : Bool) (values : List Datum) (hm : Extends base m) :
    Confined base (fun r => Has (Spares base) r.1 ∧ r.2.2 = inner)
      (Handling.reference.enterBody c inner name f named values) m := by
  refine .after hm fun d m hm => .after hm
    fun formals m hm => .bind (confined_bindFormals hinner formals values hm) ?_
  rintro _ m - rfl hm
  split
  · refine .after hm fun title m hm => .after hm fun d m hm => .after hm fun statements m hm => ?_
    exact .pure hm ⟨inferInstance, rfl⟩
  · refine .after hm fun kind m hm => ?_
    dsimp only
    split
    · refine .after hm fun d m hm => .after hm fun entries m hm =>
        .bind (confined_bindCaptured hinner entries hm) ?_
      rintro _ m - rfl hm
      exact .after hm fun d m hm => .after hm fun statements m hm => .pure hm ⟨inferInstance, rfl⟩
    · rw [pure_bind]
      exact .after hm fun d m hm => .after hm fun statements m hm => .pure hm ⟨inferInstance, rfl⟩

/-! ## Rows of statements -/

section

variable {ex : Datum → Nat → Run (Nat × Datum)}
  (hex : ∀ {m : Machine} s, Extends base m → Confined base (·.1 = c) (ex s c) m)

include hex

theorem confined_block (statements : List Datum) (hm : Extends base m) :
    Confined base (·.1 = c) (block ex statements c) m := by
  induction statements generalizing m with
  | nil => exact .pure hm rfl
  | cons s rest ih =>
    refine .bind (hex s hm) ?_
    rintro ⟨_, d⟩ m - rfl hm
    cases d with
    | null => exact ih hm
    | _ => exact .pure hm rfl

theorem confined_step (row : Run Row) [Has (Spares base) row] (s : Datum) (hm : Extends base m) :
    Confined base (·.1 = c) (Handling.reference.step dialect row ex s c) m := by
  refine .after hm fun row m hm => .after hm fun scope m hm => .after hm
    fun _ m hm => .bind (hex s hm) ?_
  rintro ⟨_, d⟩ m - rfl hm
  exact .after hm fun row m hm => .after hm fun scope m hm => .after hm fun _ m hm => .pure hm rfl

end

/-! ## Assignments -/

theorem isBound_eq_false_iff :
    (isBound dialect scope x || (dialect.hasObjects && isDotted x)) = false ↔
      Assoc.get? x scope = none ∧ (dialect.hasObjects = true → isDotted x = false) := by
  unfold isBound Assoc.has
  cases Assoc.get? x scope <;> cases dialect.hasObjects <;> cases isDotted x <;> simp

instance (find : Scope → Run Datum) [∀ scope, Finds (find scope)] :
    Finds (Handling.reference.scope c >>= find) :=
  ⟨fun m ref kind => (inferInstance : Finds (find (m.contexts.getD c []))).stable m ref kind⟩

theorem confined_assign {value : Run Datum} [Has (Spares base) value]
    (hnew : ∀ scope, base[c]? = some scope →
      ¬ (Assoc.get? x scope = none ∧ (dialect.hasObjects = true → isDotted x = false)))
    (hm : Extends base m) :
      Confined base (· = c) (Handling.reference.assign dialect c x value) m := by
  unfold Handling.assign
  refine .look hm fun scope hscope => ?_
  have hold : (isBound dialect scope x || (dialect.hasObjects && isDotted x)) = true ∨
      base.size ≤ c := by
    by_contra hno
    rw [not_or, Bool.not_eq_true] at hno
    have hlt : c < base.size := by omega
    have hc : base[c]? = some scope := by
      rw [← hm c hlt, ← (ok_inj hscope).1, Array.getD_eq_getD_getElem?, hm c hlt,
        Array.getElem?_eq_getElem hlt]
      rfl
    exact hnew scope hc (isBound_eq_false_iff.1 hno.1)
  split
  · refine .after hm fun v m hm => ?_
    by_cases hclosures : dialect.hasClosures = true
    · simp only [if_pos hclosures]
      refine .after hm fun t m hm => .after hm fun _ m hm => ?_
      split <;> exact .after hm fun _ m hm => .pure hm rfl
    · simp only [if_neg hclosures]
      split <;> exact .after hm fun _ m hm => .pure hm rfl
  · rename_i hbound
    split
    · exact ⟨hm, fun _ _ heq => by cases heq⟩
    · rename_i hplain
      refine .after hm fun v m hm => confined_bindIn (hold.resolve_left fun h => ?_) x v hm
      rcases Bool.or_eq_true_iff.1 h with h | h
      · exact hbound h
      · exact hplain h

/-! ## The evaluators -/

/-- The evaluators change no context of a base, unless a statement that is carried out in one of
them binds a name there. -/
structure Confining (dialect : Dialect) (fuel : Nat) : Prop where
  eval : ∀ base byRef c node, Has (Spares base) (Handling.reference.eval dialect fuel byRef c node)
  exec : ∀ {base m c node}, Extends base m →
    (∀ scope x, base[c]? = some scope → ¬ Declares dialect m node scope x) →
    Confined base (·.1 = c) (Handling.reference.exec dialect fuel node c) m
  call : ∀ base c name args, Has (Spares base) (Handling.reference.call dialect fuel c name args)

section

variable (h : Confining dialect fuel)

include h

theorem Confining.exec_copy (hinner : base.size ≤ inner) (s : Datum) (hm : Extends base m) :
    Confined base (·.1 = inner) (Handling.reference.exec dialect fuel s inner) m := by
  refine h.exec hm fun scope x hscope => ?_
  rw [Array.getElem?_eq_none hinner] at hscope
  cases hscope

theorem Confining.exec_succ (hm : Extends base m)
    (hnew : ∀ scope x, base[c]? = some scope → ¬ Declares dialect m node scope x) :
    Confined base (·.1 = c) (Handling.reference.exec dialect (fuel + 1) node c) m := by
  have heval := h.eval base
  have hcall := h.call base
  have hblock {inner : Nat} {m : Machine} (hinner : base.size ≤ inner)
    (body : Datum) (hm : Extends base m) :
      Confined base (·.1 = c) (Handling.carryOut (Handling.reference.exec dialect fuel) c
        inner body) m :=
    .after hm fun statements m hm => .bind (confined_block (h.exec_copy hinner) statements hm)
      fun _ m _ _ hm =>
      .pure hm rfl
  rw [Handling.exec]
  refine .look hm fun kind hkind => ?_
  have form : IsStatement m node (statementForm kind) := ⟨kind, hkind, rfl⟩
  generalize statementForm kind = f at form ⊢
  cases f with
  | assign =>
    refine .look hm fun d hd => .look hm fun x hx => .look hm fun right hright => ?_
    have hassigns : Assigns m node x right := ⟨form, ⟨d, hd, hx⟩, hright⟩
    refine .bind (confined_assign (fun scope hscope hfree => ?_) hm) ?_
    · exact hnew scope x hscope ⟨⟨right, hassigns⟩, hfree.1, hfree.2⟩
    · rintro _ m - rfl hm
      exact .pure hm rfl
  | choice =>
    refine .after hm fun d m hm => .after hm fun v m hm => .after hm fun truth m hm =>
      .bind (confined_fork c hm) fun inner m _ hinner hm => ?_
    split
    · exact .after hm fun body m hm => hblock hinner body hm
    · refine .after hm fun body m hm => ?_
      cases body with
      | null => exact .pure hm rfl
      | _ => exact hblock hinner _ hm
  | loop =>
    have hbody : Has (Spares base)
        (Handling.reference.loopBody (Handling.reference.exec dialect fuel) c node) :=
      Confined.has (P := fun _ => True) fun m hm => .bind (confined_fork c hm)
        fun inner m _ hinner hm =>
        .after hm fun body m hm => .after hm fun statements m hm =>
          .bind (confined_block (h.exec_copy hinner) statements hm)
            fun _ m _ _ hm => .pure hm trivial
    exact .after hm fun d m hm => .pure hm rfl
  | «return» => exact .after hm fun _ m hm => .after hm fun d m hm => .pure hm rfl
  | call =>
    exact .after hm fun _ m hm => .after hm fun _ m hm => .after hm fun d m hm => .pure hm rfl
  | other => exact .pure hm rfl

theorem Confining.call_succ (c : Nat) (name args : Datum) :
    Has (Spares base) (Handling.reference.call dialect (fuel + 1) c name args) := by
  have heval := h.eval base
  rw [Handling.call]
  cases Builtin.ofName? name with
  | some builtin => infer_instance
  | none =>
    refine Confined.has (P := fun _ => True) fun m hm => ?_
    refine .after hm fun ds m hm => .after hm fun values m hm => .after hm
      fun scope m hm => .after hm ?_
    rintro ⟨f, values, named⟩ m hm
    refine .bind (confined_fork c hm) fun inner m _ hinner hm => ?_
    have hbody (values : List Datum) {m : Machine} (hm : Extends base m) :
        Confined base (fun _ => True) (Handling.reference.enterBody c inner name f named values >>=
          Handling.reference.runBody dialect (Handling.reference.exec dialect fuel)) m := by
      refine .bind (confined_enterBody hinner name f named values hm) ?_
      rintro ⟨row, statements, _⟩ m - ⟨hrow, rfl⟩ hm
      refine .bind (confined_block (fun s hm => confined_step (h.exec_copy hinner) row s hm)
        statements hm) ?_
      exact fun r m _ _ hm => .pure hm trivial
    dsimp only
    split
    · exact .after hm fun d m hm => .after hm fun formals m hm => .after hm fun ds m hm =>
        .after hm fun values m hm => hbody values hm
    · exact .after hm fun values m hm => hbody values hm

end

theorem confining (dialect : Dialect) (fuel : Nat) : Confining dialect fuel := by
  induction fuel with
  | zero =>
    have hstop {α : Type} {base : Array Scope} :
      Has (Spares base) (throw .outOfFuel : Run α) := inferInstance
    exact ⟨fun _ _ _ _ => hstop, fun hm _ => ⟨hm, fun _ _ h => by cases h⟩, fun _ _ _ _ => hstop⟩
  | succ fuel ih =>
    refine ⟨fun base byRef c node => ?_, ih.exec_succ, fun base => ih.call_succ⟩
    have heval := ih.eval base
    have hcall := ih.call base
    rw [Handling.eval]
    infer_instance

theorem exec_declares (hc : m.contexts[c]? = some scope) (he : Assigns m node x e)
    (hfree : Assoc.get? x scope = none ∧ (dialect.hasObjects = true → isDotted x = false)) :
    Handling.reference.exec dialect (fuel + 1) node c m = (do
      let v ← Handling.reference.eval dialect fuel false c e
      let c ← bindIn c x v
      return (c, Datum.null)) m := by
  obtain ⟨⟨kind, hkind, hform⟩, ⟨d, hd, hx⟩, hright⟩ := he
  have hscope : Handling.reference.scope c m = (.ok scope, m) := by
    change (Except.ok (m.contexts.getD c []), m) = _
    rw [Array.getD_eq_getD_getElem?, hc]
    rfl
  obtain ⟨hbound, hplain⟩ := Bool.or_eq_false_iff.1 (isBound_eq_false_iff.2 hfree)
  have hassign (value : Run Datum) :
      Handling.reference.assign dialect c x value m = (value >>= fun v => bindIn c x v) m := by
    rw [Handling.assign, bind_of_ok hscope, hbound, hplain]
    rfl
  rw [Handling.exec, bind_of_ok hkind, hform, Handling.execForm, bind_of_ok hd, bind_of_ok hx,
    bind_of_ok hright, bind_apply, hassign, ← bind_apply, bind_assoc]

/-- **Scopes do not leak.** Whatever the statement is and however it ends, its context has the same
names in the same order, bound to the same values, except that a statement that comes to its end and
assigns to a name not bound there binds this name, as the last one. Every other context is as it
was. -/
theorem statement_keeps_scope (dialect : Dialect) (fuel : Nat) (node : Datum) {m : Machine}
    {c : Nat} {scope : Scope} (hc : m.contexts[c]? = some scope) :
    let r := Handling.reference.exec dialect fuel node c m
    (∀ i < m.contexts.size, i ≠ c → r.2.contexts[i]? = m.contexts[i]?) ∧
    ((∃ x v, Declares dialect m node scope x ∧ r.1 = .ok (c, .null) ∧
        r.2.contexts[c]? = some (scope ++ [(x, v)])) ∨
      (r.2.contexts[c]? = some scope ∧ ∀ x, Declares dialect m node scope x →
        ∃ e, r.1 = .error e)) := by
  intro r
  have hlt : c < m.contexts.size := (Array.getElem?_eq_some_iff.1 hc).1
  have hfails {e : Stop} (hr : r.1 = .error e) (hkept : Extends m.contexts r.2) :
      r.2.contexts[c]? = some scope ∧ ∀ x, Declares dialect m node scope x → ∃ e, r.1 = .error e :=
    ⟨(hkept c hlt).trans hc, fun _ _ => ⟨e, hr⟩⟩
  by_cases hnone : ∀ x, ¬ Declares dialect m node scope x
  · have hkept : Extends m.contexts r.2 := by
      refine ((confining dialect fuel).exec (fun _ _ => rfl) fun s x hs => ?_).keeps
      obtain rfl := Option.some.inj (hs.symm.trans hc)
      exact hnone x
    exact ⟨fun i hi _ => hkept i hi, .inr ⟨(hkept c hlt).trans hc, fun x hx => absurd hx (hnone x)⟩⟩
  · obtain ⟨x, hx⟩ := not_forall_not.1 hnone
    obtain ⟨e, he⟩ := hx.assigns
    cases fuel with
    | zero => exact ⟨fun _ _ _ => rfl, .inr (hfails rfl fun _ _ => rfl)⟩
    | succ fuel =>
      have hr : r = _ := exec_declares hc he ⟨hx.unbound, hx.plain⟩
      have heval := (confining dialect fuel).eval m.contexts
      rcases hv : Handling.reference.eval dialect fuel false c e m with ⟨err | v, m1⟩
      · have hkept : Extends m.contexts m1 := Has.preserved (fun _ _ => rfl) hv
        have hr : r = (.error err, m1) := by rw [hr, bind_apply, hv]
        rw [hr] at hfails ⊢
        exact ⟨fun i hi _ => hkept i hi, .inr (hfails rfl hkept)⟩
      · have hkept : Extends m.contexts m1 := Has.preserved (fun _ _ => rfl) hv
        have hr : r = (.ok (c, .null),
            { m1 with contexts := m1.contexts.modify c (Assoc.put x v) }) := by
          rw [hr, bind_apply, hv]
          rfl
        rw [hr]
        refine ⟨fun i hi hne => ?_, .inl ⟨x, v, hx, rfl, ?_⟩⟩
        · rw [Array.getElem?_modify, if_neg (Ne.symm hne)]
          exact hkept i hi
        · rw [Array.getElem?_modify, if_pos rfl, hkept c hlt, hc]
          exact congrArg some (Assoc.put_of_get?_eq_none hx.unbound v)

/-- An `if` in the context of `x`, whose block assigns to `y` and then fails. -/
def branching : Machine where
  store := ⟨#[⟨"if", 0⟩, ⟨"bool", 1⟩, ⟨"=", 2⟩, ⟨"int", 3⟩, ⟨"fcall", 4⟩],
    #[[("condition", .node 1), ("statements", .list [.node 2, .node 4]),
      ("else_statements", .null)], [("val", .bool true)],
      [("name", .text "y"), ("expression", .node 3)], [("val", .int 5)],
        [("name", .text "f"), ("args", .list [])]]⟩
  console := Console.start false false [] ""
  functions := []
  globals := []
  contexts := #[[("x", .node 3)]]
  reader := .new

theorem statement_keeps_scope_branching :
    let r := Handling.reference.exec .objects 3 (.node 0) 0 branching
    branching.contexts[0]? = some [("x", .node 3)] ∧
      (r.2.contexts[1]?.any fun scope => decide (Assoc.keys scope = ["x", "y"])) = true ∧
      r.2.contexts[0]? = some [("x", .node 3)] := by
  intro r
  have hinner : (r.2.contexts[1]?.any fun scope => decide (Assoc.keys scope = ["x", "y"])) =
    true := by decide +kernel
  refine ⟨rfl, hinner, ?_⟩
  rcases (statement_keeps_scope .objects 3 (.node 0) (m := branching) (c := 0) rfl).2 with
    ⟨x, v, ⟨⟨e, hassigns⟩, -, -⟩, -⟩ | ⟨hkept, -⟩
  · obtain ⟨kind, hkind, hform⟩ := hassigns.form
    obtain rfl : "if" = kind := (ok_inj hkind).1
    cases hform
  · exact hkept

end LangKit.Script
