import LangKit.Proofs.Execution.Formedness
import LangKit.Proofs.Execution.Paths
import Mathlib.Data.List.Basic

/-!
# What an assignment changes

In the dialect with closures a variable that holds a function or a lambda shares its node, or the
node's field table, with whatever else holds it. An assignment to a bound name changes the name's
node in place, so it is seen through every other value that leads to this node or to its table, and
through no other: `exec_assign_frame`. The functions of the program are such values too.
-/

namespace LangKit.Script

open Run Store

variable {scope scope' : Scope} {e v : Datum} {x kind y : String} {dialect : Dialect}
  {ref : Nat} {m : Machine} {s s' : Store}

structure Assigns (m : Machine) (node : Datum) (x : String) (e : Datum) : Prop where
  form : IsStatement m node .assign
  name : ∃ d, field node "name" m = (.ok d, m) ∧ nameText d m = (.ok x, m)
  right : field node "expression" m = (.ok e, m)

/-- The scope and the node of an assignment, its name and its expression. -/
def Activity.assigns? (a : Activity) : Option (Scope × Datum × String × Datum) :=
  match a.job with
  | .exec scope node =>
    match statement? a.machine "=" "expression" node with
    | some (.text x, e) => some (scope, node, x, e)
    | _ => none
  | _ => none

theorem Activity.assigns_of_assigns? {a : Activity} {node : Datum}
    (h : a.assigns? = some (scope, node, x, e)) :
    a.job = .exec scope node ∧ Assigns a.machine node x e := by
  unfold Activity.assigns? at h
  split at h
  · rename_i hjob
    split at h
    · rename_i hs
      cases h
      obtain ⟨hkind, hname, hright⟩ := fields_of_statement? hs
      exact ⟨hjob, ⟨_, hkind, rfl⟩, ⟨_, hname, rfl⟩, hright⟩
    · cases h
  · cases h

theorem Assigns.exec_eq {node : Datum} (h : Assigns m node x e) :
    exec dialect (fuel + 1) node scope m = (do
      let scope' ← assign dialect scope x (eval dialect fuel false scope e)
      return (scope', Datum.null)) m := by
  obtain ⟨d, hname, hx⟩ := h.name
  rw [exec_assign h.form, bind_of_ok hname, bind_of_ok hx, bind_of_ok h.right]

theorem callFree_of_kind (h : kindOf e m = (.ok kind, m)) (hkind : kind ≠ "")
    (plain : dialect.exprForm kind ∈ [.literal, .variable, .lambda, .object, .unknown]) :
    CallFree dialect m.store e := by
  obtain ⟨ref, rfl, href⟩ := exists_node_of_kindOf h
  exact .leaf (lt_size_of_kind href hkind) rfl (href ▸ plain)

/-! ## The node of a bound name -/

section

variable {r t : Nat}

theorem Overwritten.cell (h : Overwritten s r s') (hne : ref ≠ r) : s'.cell ref = s.cell ref := by
  cases h with
  | kind => rw [cell_setKind_of_ne hne]
  | table => rw [cell_shareTable_of_ne hne, cell_setKind_of_ne hne]
  | contents => rw [cell_setField, cell_setKind_of_ne hne]

theorem Overwritten.table_cases (h : Overwritten s r s') :
    s'.tables[t]? = s.tables[t]? ∨
      t = (s.cell r).table ∧ ∃ v, s'.tables[t]? = s.tables[t]?.map (Assoc.put "val" v) := by
  cases h with
  | kind | table => exact .inl rfl
  | contents kind v =>
    by_cases ht : t = (s.cell r).table
    · refine .inr ⟨ht, v, ?_⟩
      have htable : ((s.setKind r kind).cell r).table = t := by rw [table_setKind, ht]
      simp only [Store.setField, htable, Array.getElem?_modify, if_true]
      rfl
    · left
      rw [table_setField_of_ne (by rwa [table_setKind])]
      rfl

theorem fields_eq (s : Store) (ref : Nat) :
    s.fields ref = s.tables[(s.cell ref).table]?.getD [] := by
  rw [fields, Array.getD_eq_getD_getElem?]

theorem Overwritten.node (h : Overwritten s r s') (hne : ref ≠ r)
    (ht : (s.cell ref).table ≠ (s.cell r).table) : s'.node ref = s.node ref := by
  rcases h.table_cases (t := (s.cell ref).table) with heq | ⟨htable, -⟩
  · simp only [Store.node, Store.kind, fields_eq, h.cell hne, heq]
  · exact absurd htable ht

/-- Another node with the same table keeps its kind and all fields but its contents. -/
theorem Overwritten.field? (h : Overwritten s r s') (hne : ref ≠ r) {name : String}
    (hname : name ≠ "val") : s'.field? ref name = s.field? ref name := by
  rw [Store.field?, fields_eq, h.cell hne, Store.field?, fields_eq]
  rcases h.table_cases (t := (s.cell ref).table) with heq | ⟨-, v, heq⟩
  · rw [heq]
  · rw [heq]
    cases s.tables[(s.cell ref).table]? with
    | none => rfl
    | some fs => exact Assoc.get?_put_of_ne hname v fs

end

/-! ## Values that an assignment cannot reach -/

/-- A value leads to a node, itself or through fields. -/
inductive Reaches (s : Store) : Datum → Nat → Prop
  | node {ref : Nat} : Reaches s (.node ref) ref
  | field {ref : Nat} (held : (name, d) ∈ s.fields ref) (inner : Reaches s d r) :
      Reaches s (.node ref) r
  | list (mem : d ∈ ds) (inner : Reaches s d r) : Reaches s (.list ds) r
  | tuple (mem : d ∈ ds) (inner : Reaches s d r) : Reaches s (.tuple ds) r
  | key {v : Datum} (mem : (k, v) ∈ entries) (inner : Reaches s k r) :
      Reaches s (.mapping entries) r
  | value {v : Datum} (mem : (k, v) ∈ entries) (inner : Reaches s v r) :
      Reaches s (.mapping entries) r

/-- A value is the same in two stores: every node to which it leads has the same kind and fields. -/
def SameValue (s s' : Store) (v : Datum) : Prop :=
  ∀ ref < s.size, Reaches s v ref → s'.node ref = s.node ref

/-- A node is the node of a bound name or has its table. -/
def SharesWith (s : Store) (scope : Scope) (x : String) (ref : Nat) : Prop :=
  ∃ r, Assoc.get? x scope = some (.node r) ∧ (ref = r ∨ (s.cell ref).table = (s.cell r).table)

section

variable {m' : Machine}

/-- What has happened to the store after nodes were added to it and the node of a bound name was
then changed. -/
inductive Assigned (scope : Scope) (x : String) (s : Store) : Store → Prop
  | grown {s' : Store} (grown : Grown s s') : Assigned scope x s s'
  | changed {s1 s' : Store} {r : Nat} (grown : Grown s s1)
      (target : Assoc.get? x scope = some (.node r)) (changed : Overwritten s1 r s') :
      Assigned scope x s s'

theorem Assigned.node {s s' : Store} {ref : Nat} (h : Assigned scope x s s') (hs : s.Formed)
    (hr : ref < s.size) (hshares : ¬ SharesWith s scope x ref) : s'.node ref = s.node ref := by
  cases h with
  | grown grown => exact grown.node hs hr
  | @changed s1 _ r grown target changed =>
    have hne : ref ≠ r := fun h => hshares ⟨r, target, .inl h⟩
    have htable : (s1.cell ref).table ≠ (s1.cell r).table := by
      rw [grown.cell ref hr]
      by_cases hlt : r < s.size
      · rw [grown.cell r hlt]
        exact fun h => hshares ⟨r, target, .inr h⟩
      · -- Past the old nodes there are only new tables.
        have hfresh := grown.fresh r (Nat.le_of_not_lt hlt)
        have hold := hs ref hr
        omega
    rw [changed.node hne htable, grown.node hs hr]

theorem Assigned.keeps (h : Assigned scope x s s') (hs : s.Formed) (hr : ref < s.size)
    (hne : Assoc.get? x scope ≠ some (.node ref)) :
    s'.kind ref = s.kind ref ∧ ∀ name, name ≠ "val" → s'.field? ref name = s.field? ref name := by
  cases h with
  | grown grown => exact ⟨grown.kind_eq hr, fun name _ => grown.field?_eq hs hr name⟩
  | @changed s1 _ r grown target changed =>
    have hne' : ref ≠ r := by
      rintro rfl
      exact hne target
    refine ⟨?_, fun name hname => ?_⟩
    · rw [Store.kind, changed.cell hne', ← grown.kind_eq hr, Store.kind]
    · rw [changed.field? hne' hname, grown.field?_eq hs hr]

section

variable {value : Run Datum}

theorem eq_of_bound (h : (bound scope x m).1 = .ok (.node ref)) :
    Assoc.get? x scope = some (.node ref) := by
  cases hget : Assoc.get? x scope with
  | none =>
    rw [bound, hget] at h
    cases h
  | some v' =>
    rw [bound, hget] at h
    exact congrArg some (Except.ok.inj h)

/-- The value that is assigned to a bound name. In some dialects it is printed. -/
def shown (dialect : Dialect) (value : Run Datum) : Run Datum := do
  let v ← value
  if dialect.hasClosures then print (← textOf v)
  return v

theorem assign_of_bound (hplain : dialect.hasObjects = false)
    (hx : isBound dialect scope x = true) :
    assign dialect scope x value = (do
      overwrite dialect (bound scope x) (← shown dialect value)
      return scope) := by
  rw [assign, if_pos hx]
  cases hc : dialect.hasClosures <;> simp [shown, hc, hplain]

theorem assign_of_unbound (hplain : dialect.hasObjects = false)
    (hx : isBound dialect scope x = false) :
    assign dialect scope x value = (do return Assoc.put x (← value) scope) := by
  rw [assign, hx, hplain]
  rfl

theorem growth_shown (dialect : Dialect) (hm : m.store.Formed) (h : Growth m (value m).2) :
    Growth m (shown dialect value m).2 := by
  refine (Growth.refl hm).bind (fun _ => h) fun v m1 _ h1 => ?_
  split
  · refine h1.step fun s m2 _ h2 => h2.bind (grows_onConsole _ _) fun _ m3 _ h3 => h3
  · exact h1

/-- A step behind which a value is put in its place leaves the same state. -/
theorem snd_bind_pure {α β : Type} (y : Run α) (g : α → β) :
    ((do return g (← y)) m).2 = (y m).2 := by
  rw [bind_apply]
  rcases y m with ⟨e | a, m1⟩ <;> rfl

/-- An assignment of a value that only adds nodes changes the node of the name, if it is bound, and
nothing else. -/
theorem assigned_of_assign (scope : Scope) (x : String) (hplain : dialect.hasObjects = false)
    (hm : m.store.Formed) (hvalue : Growth m (value m).2) :
    Assigned scope x m.store (assign dialect scope x value m).2.store ∧
      (assign dialect scope x value m).2.functions = m.functions := by
  cases hx : isBound dialect scope x with
  | false =>
    rw [assign_of_unbound hplain hx, snd_bind_pure value fun v => Assoc.put x v scope]
    exact ⟨.grown hvalue.grown, hvalue.functions⟩
  | true =>
    have hshown := growth_shown dialect hm hvalue
    rw [assign_of_bound hplain hx, bind_apply]
    rcases hv : shown dialect value m with ⟨e | v, m1⟩
    · rw [hv] at hshown
      exact ⟨.grown hshown.grown, hshown.functions⟩
    · rw [hv] at hshown
      dsimp only
      rw [snd_bind_pure (overwrite dialect (bound scope x) v) fun _ => scope]
      rcases overwrite_cases dialect (bound scope x) v m1 with hcase | ⟨r, s', htarget, hs', hcase⟩
      · rw [hcase]
        exact ⟨.grown hshown.grown, hshown.functions⟩
      · rw [hcase]
        exact ⟨.changed hshown.grown (eq_of_bound htarget) hs', hshown.functions⟩

theorem get?_of_assign (hplain : dialect.hasObjects = false)
    (h : assign dialect scope x value m = (.ok scope', m')) (hy : y ≠ x) :
    Assoc.get? y scope' = Assoc.get? y scope := by
  cases hx : isBound dialect scope x with
  | false =>
    rw [assign_of_unbound hplain hx] at h
    obtain ⟨v, m1, -, h⟩ := bind_eq_ok.1 h
    obtain ⟨rfl, -⟩ := pure_eq_ok.1 h
    exact Assoc.get?_put_of_ne hy v scope
  | true =>
    rw [assign_of_bound hplain hx] at h
    obtain ⟨v, m1, -, h⟩ := bind_eq_ok.1 h
    obtain ⟨_, m2, -, h⟩ := bind_eq_ok.1 h
    obtain ⟨rfl, -⟩ := pure_eq_ok.1 h
    rfl

theorem Assigns.outcome {node e : Datum} (h : Assigns m node x e) (scope : Scope) (fuel : Nat)
    (hplain : dialect.hasObjects = false) (hm : m.store.Formed)
    (free : CallFree dialect m.store e) :
    Assigned scope x m.store (Activity.outcome dialect ⟨fuel, .exec scope node, m⟩).2.store ∧
      ∀ y, y ≠ x →
        Assoc.get? y (Activity.outcome dialect ⟨fuel, .exec scope node, m⟩).1 =
          Assoc.get? y scope := by
  cases fuel with
  | zero => exact ⟨.grown (.refl _), fun _ _ => rfl⟩
  | succ fuel =>
    have hgrowth : Growth m (eval dialect fuel false scope e m).2 :=
      growth_eval_of_callFree fuel hm free
    obtain ⟨hassigned, -⟩ := assigned_of_assign scope x hplain hm hgrowth
    simp only [Activity.outcome, h.exec_eq, bind_apply]
    rcases hrun : assign dialect scope x (eval dialect fuel false scope e) m with ⟨f | scope', m'⟩
    · rw [hrun] at hassigned
      exact ⟨hassigned, fun _ _ => rfl⟩
    · rw [hrun] at hassigned
      exact ⟨hassigned, fun y hy => get?_of_assign hplain hrun hy⟩

end

end

/-- An assignment without calls that ends well, at any time in a run of the dialect with closures:
every other name stays bound to the value it had; a value that does not lead to the node of the name
or to another node with its table is the same as before; and every node but that of the name keeps
its kind and its fields, apart from contents that are set through a shared table. The functions of
the program are the same nodes. -/
theorem exec_assign_frame {limit : Nat} {text typed : String} {echo trace : Bool}
    {inputs : List Tree} {fuel : Nat} {scope scope' : Scope} {node e d : Datum} {x : String}
    {m m' : Machine} {outer : List Activity}
      (running : Running .closures limit text (Machine.start echo trace inputs typed)
        (⟨fuel, .exec scope node, m⟩ :: outer))
    (assigns : Assigns m node x e) (free : CallFree .closures m.store e)
    (done : exec .closures fuel node scope m = (.ok (scope', d), m')) :
    (∀ y, y ≠ x → Assoc.get? y scope' = Assoc.get? y scope) ∧
    (∀ v, (∀ ref, Reaches m.store v ref → ¬ SharesWith m.store scope x ref) →
      SameValue m.store m'.store v) ∧
    (∀ ref < m.store.size, Assoc.get? x scope ≠ some (.node ref) →
      m'.store.kind ref = m.store.kind ref ∧
        ∀ name, name ≠ "val" → m'.store.field? ref name = m.store.field? ref name) ∧
    m'.functions = m.functions := by
  have hm : m.store.Formed :=
    running.formed (separate_start echo trace inputs typed) _ List.mem_cons_self
  cases fuel with
  | zero => cases done
  | succ fuel =>
    rw [assigns.exec_eq] at done
    obtain ⟨scope1, m1, hassign, hpure⟩ := bind_eq_ok.1 done
    obtain ⟨hpair, rfl⟩ := pure_eq_ok.1 hpure
    obtain ⟨rfl, -⟩ := Prod.mk.inj hpair
    have hplain : Dialect.closures.hasObjects = false := rfl
    have hgrowth : Growth m (eval .closures fuel false scope e m).2 :=
      growth_eval_of_callFree fuel hm free
    obtain ⟨hassigned, hfunctions⟩ := assigned_of_assign scope x hplain hm hgrowth
    rw [hassign] at hassigned hfunctions
    refine ⟨fun y hy => get?_of_assign hplain hassign hy,
      fun v hv ref hr hreach => ?_, fun ref hr hne => ?_, hfunctions⟩
    · exact hassigned.node hm hr (hv ref hreach)
    · exact hassigned.keeps hm hr hne

/-- The first name holds a function and is then set to a number. -/
def rebound : String :=
  "func f() \x7b return 1; \x7d func main() \x7b a = f; b = 2; a = 5; \x7d"

/-- The last assignment of the program changes the node of the function. -/
theorem exec_assign_frame_rebound :
    ∃ scope scope' node e d m m',
      Running .closures 1000 rebound (Machine.start false false [] "")
        [⟨1000, .exec scope node, m⟩] ∧
      Assigns m node "a" e ∧ CallFree .closures m.store e ∧
      exec .closures 1000 node scope m = (.ok (scope', d), m') ∧
      (∀ y, y ≠ "a" → Assoc.get? y scope' = Assoc.get? y scope) ∧
      (∀ v, (∀ ref, Reaches m.store v ref → ¬ SharesWith m.store scope "a" ref) →
        SameValue m.store m'.store v) ∧
      (∀ ref < m.store.size, Assoc.get? "a" scope ≠ some (.node ref) →
        m'.store.kind ref = m.store.kind ref ∧
          ∀ name, name ≠ "val" → m'.store.field? ref name = m.store.field? ref name) ∧
      m'.functions = m.functions := by
  have hrun : (path? .closures 1000 (enterMain rebound) (Machine.start false false [] "") 2 []).any
    fun r =>
      decide (r.2.length = 0 ∧ r.1.fuel = 1000) && r.1.assigns?.any fun p =>
        decide (p.2.2.1 = "a" ∧ (kindOf p.2.2.2 r.1.machine).1.toOption = some "int") &&
          (exec .closures 1000 p.2.1 p.1 r.1.machine).1.toOption.isSome := by decide +kernel
  simp only [Option.any_eq_true, Bool.and_eq_true, decide_eq_true_eq,
    Option.isSome_iff_exists] at hrun
  obtain ⟨⟨⟨_, job, m⟩, rest⟩, hpath, ⟨hrest, rfl⟩, ⟨scope, node, _, e⟩, hassigns,
    ⟨rfl, hkind⟩, ⟨scope', d⟩, hends⟩ := hrun
  obtain ⟨m', done⟩ := exists_of_toOption hends
  obtain rfl := List.length_eq_zero_iff.1 hrest
  obtain ⟨rfl, assigns⟩ := Activity.assigns_of_assigns? hassigns
  have running := running_of_path? hpath
  have free : CallFree .closures m.store e :=
    callFree_of_kind ((observes_kindOf e).of_toOption hkind) (by decide) (by decide)
  exact ⟨scope, scope', node, e, d, m, m', running, assigns, free, done,
    exec_assign_frame running assigns free done⟩

/-- Two names that have held the same function share a table: a number that is then assigned to the
second name is printed for the first one. -/
theorem runProgram_prints_other_name :
    (runProgram 1000 (.scoped .closures)
      "func f() \x7b return 1; \x7d func main() \x7b a = 1; b = 2; a = f; b = f; a = 5; b = 7; print(a); \x7d"
      (Machine.start false false [] "")).2.console.log.toList.map (Datum.same (.text "7")) =
        [true] := by
  decide +kernel

end LangKit.Script
