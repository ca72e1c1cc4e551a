import LangKit.Proofs.Execution.Whole
import LangKit.Proofs.Scoping.Calls

/-!
# States of a scoped run

In the scoped dialect every node that a run makes holds a number, a truth value, a text or nil, and
the nodes of the program stay as they were loaded: `Intact`. A name is bound to a node that the run
has made, and no two names to the same one, in whichever of the live scopes they are: `Unshared`.

`Meets c m x Q E` says what a step does from an intact state. If it ends well, the state is intact
again and `Q` holds; if it stops, then with nodes that are still well typed (`Halted`) and, unless
the console makes the run print more than the program asks for (`Quiet`), with an error that the
program reports or a fault of `E`.
-/

namespace LangKit.Script

open Run Store
open Stacked (Setting Value Held)

variable {s s' : Store} {r : Nat} {v : Value} {console : Console} {m : Machine} {z d : Datum}
  {scopes outer : List Scope} {c : Setting}

/-! ## Nodes and consoles -/

/-- A node is a number, a truth value, a text or nil, and has contents of its kind unless it is
nil. -/
inductive Typed (s : Store) (ref : Nat) : Prop
  | int (n : Int) (kind : s.kind ref = "int") (contents : s.field? ref "val" = some (.int n))
  | bool (b : Bool) (kind : s.kind ref = "bool") (contents : s.field? ref "val" = some (.bool b))
  | string (x : String) (kind : s.kind ref = "string")
      (contents : s.field? ref "val" = some (.text x))
  | nil (kind : s.kind ref = "nil")

theorem typed_of_node (h : s.node ref = v.node) : Typed s ref := by
  have hkind : s.kind ref = v.kind := congrArg Prod.fst h
  have hfields : s.fields ref = v.node.2 := congrArg Prod.snd h
  cases v with
  | int n => exact .int n hkind (by rw [Store.field?, hfields]; rfl)
  | bool b => exact .bool b hkind (by rw [Store.field?, hfields]; rfl)
  | string x => exact .string x hkind (by rw [Store.field?, hfields]; rfl)
  | nil => exact .nil hkind

/-- A console that neither prints what is put out nor traces the run, with texts as its inputs. -/
structure Quiet (console : Console) : Prop where
  echo : console.echo = false
  trace : console.trace = false
  inputs : ∀ d ∈ console.inputs, ∃ s, d = .text s

theorem Quiet.congr (h : Quiet console) (he : console'.echo = console.echo)
    (ht : console'.trace = console.trace) (hi : console'.inputs = console.inputs) :
    Quiet console' :=
  ⟨he.trans h.echo, ht.trans h.trace, hi ▸ h.inputs⟩

/-- A later state: no nodes are gone, and the console is as quiet as it was. -/
structure Later (m m' : Machine) : Prop where
  size : m.store.size ≤ m'.store.size
  quiet : Quiet m.console ↔ Quiet m'.console

theorem Later.refl (m : Machine) : Later m m :=
  ⟨Nat.le_refl _, Iff.rfl⟩

theorem Later.trans (h : Later m1 m2) (h' : Later m2 m3) : Later m1 m3 :=
  ⟨Nat.le_trans h.size h'.size, h.quiet.trans h'.quiet⟩

theorem later_setConsole (he : console.echo = m.console.echo) (ht : console.trace = m.console.trace)
    (hi : console.inputs = m.console.inputs) : Later m { m with console } :=
  ⟨Nat.le_refl _, fun h => h.congr he ht hi, fun h => h.congr he.symm ht.symm hi.symm⟩

/-! ## States -/

/-- A state in which a run may stop: the program's nodes are as they were loaded, and all others are
well typed. -/
structure Halted (c : Setting) (m : Machine) : Prop where
  base : Extends c.base m.store
  functions : m.functions = c.loaded
  typed : ∀ r, c.base.size ≤ r → r < m.store.size → Typed m.store r

/-- A state in which a run can go on: all nodes but those of the program hold values. -/
structure Intact (c : Setting) (m : Machine) : Prop where
  base : Extends c.base m.store
  functions : m.functions = c.loaded
  values : ∀ r, c.base.size ≤ r → r < m.store.size → ∃ v : Value, m.store.node r = v.node

theorem Intact.halted (h : Intact c m) : Halted c m where
  base := h.base
  functions := h.functions
  typed r hlow hhigh := by
    obtain ⟨v, hv⟩ := h.values r hlow hhigh
    exact typed_of_node hv

theorem Intact.setConsole (h : Intact c m) (console : Console) : Intact c { m with console } :=
  ⟨h.base, h.functions, h.values⟩

theorem Intact.alloc (h : Intact c m) (v : Value) :
    Intact c { m with store := (m.store.alloc v.node.1 v.node.2).2 } where
  base := h.base.trans h.base.separate.extends_alloc
  functions := h.functions
  values r hlow hhigh := by
    rw [node_alloc h.base.separate]
    by_cases hr : r = m.store.size
    · exact ⟨v, if_pos hr⟩
    · rw [if_neg hr]
      rw [size_alloc] at hhigh
      exact h.values r hlow (by omega)

/-- The store after the node of a variable has got the kind of a value, which leaves older nodes
alone. -/
theorem extends_setKind (h : Extends s s') (hlow : s.size ≤ r) (hr : r < s'.size) (kind : String) :
    Extends s (s'.setKind r kind) where
  separate := h.separate.setKind hr
  size := by
    rw [size_setKind]
    exact h.size
  node r' hr' := by
    rw [node_setKind hr, if_neg (by omega)]
    exact h.node r' hr'

theorem extends_overwrite (h : Extends s s') (hlow : s.size ≤ r) (hr : r < s'.size) {old : Value}
    (hold : s'.node r = old.node) (hz : v.contents? = some z) :
    Extends s ((s'.setKind r v.kind).setField r "val" z) := by
  have hkind := extends_setKind h hlow hr v.kind
  refine ⟨hkind.separate.setField, hkind.size, fun r' hr' => ?_⟩
  rw [Stacked.node_overwrite h.separate hr hold hz, if_neg (by omega)]
  exact h.node r' hr'

/-- A variable that has been set to another value leaves the state intact. -/
theorem Intact.overwrite (h : Intact c m) (hlow : c.base.size ≤ r) (hr : r < m.store.size)
    (hz : v.contents? = some z) :
    Intact c { m with store := (m.store.setKind r v.kind).setField r "val" z } := by
  obtain ⟨old, hold⟩ := h.values r hlow hr
  have hnode := Stacked.node_overwrite h.base.separate hr hold hz
  refine ⟨extends_overwrite h.base hlow hr hold hz, h.functions, fun r' hlow' hhigh' => ?_⟩
  rw [hnode]
  by_cases hne : r' = r
  · exact ⟨v, if_pos hne⟩
  · rw [if_neg hne]
    exact h.values r' hlow' (by simpa using hhigh')

theorem Intact.halted_setKind (h : Intact c m) (hlow : c.base.size ≤ r) (hr : r < m.store.size) :
    Halted c { m with store := m.store.setKind r "nil" } where
  base := extends_setKind h.base hlow hr "nil"
  functions := h.functions
  typed r' hlow' hhigh' := by
    have hnode : (m.store.setKind r "nil").node r' = _ := node_setKind hr
    by_cases hne : r' = r
    · rw [if_pos hne] at hnode
      exact .nil (congrArg Prod.fst hnode)
    · rw [if_neg hne] at hnode
      obtain ⟨v, hv⟩ := h.values r' hlow' (by simpa using hhigh')
      exact typed_of_node (hnode.trans hv)

/-! ## Values and names -/

def IsNew (s s' : Store) (d : Datum) : Prop :=
  ∃ r, d = .node r ∧ s.size ≤ r ∧ r < s'.size

/-- The result of a statement or a call: none, or a new node. -/
def IsResult (s s' : Store) (d : Datum) : Prop :=
  d = .null ∨ IsNew s s' d

/-- The names of the live scopes are bound to nodes that the run has made, and never two names to
one node. -/
structure Unshared (c : Setting) (s : Store) (scopes : List Scope) : Prop where
  node : ∀ scope ∈ scopes, ∀ x d, Assoc.get? x scope = some d →
    ∃ r, d = .node r ∧ c.base.size ≤ r ∧ r < s.size
  name : ∀ scope ∈ scopes, ∀ scope' ∈ scopes, ∀ x y d, Assoc.get? x scope = some d →
    Assoc.get? y scope' = some d → x = y

section

variable {s'' : Store} {scope : Scope}

theorem IsNew.mono (h : IsNew s' s'' d) (hs : s.size ≤ s'.size) : IsNew s s'' d := by
  obtain ⟨r, hd, hlow, hhigh⟩ := h
  exact ⟨r, hd, Nat.le_trans hs hlow, hhigh⟩

theorem IsResult.mono (h : IsResult s' s'' d) (hs : s.size ≤ s'.size) : IsResult s s'' d :=
  h.imp id fun h => h.mono hs

theorem IsNew.later (h : IsNew s s' d) (hs : s'.size ≤ s''.size) : IsNew s s'' d := by
  obtain ⟨r, hd, hlow, hhigh⟩ := h
  exact ⟨r, hd, hlow, Nat.lt_of_lt_of_le hhigh hs⟩

theorem IsNew.held (h : IsNew s m.store d) (hm : Intact c m) (hs : c.base.size ≤ s.size) :
    ∃ v, Held m.store d v := by
  obtain ⟨r, rfl, hlow, hhigh⟩ := h
  obtain ⟨v, hv⟩ := hm.values r (Nat.le_trans hs hlow) hhigh
  exact ⟨v, r, rfl, hhigh, hv⟩

theorem unshared_nil (c : Setting) (s : Store) : Unshared c s [[]] where
  node scope hmem x d hd := by
    obtain rfl := List.mem_singleton.1 hmem
    cases hd
  name scope hmem _ _ x y d hd := by
    obtain rfl := List.mem_singleton.1 hmem
    cases hd

theorem Unshared.mono (h : Unshared c s scopes) (hs : s.size ≤ s'.size) : Unshared c s' scopes where
  node scope hmem x d hd := by
    obtain ⟨r, hr, hlow, hhigh⟩ := h.node scope hmem x d hd
    exact ⟨r, hr, hlow, Nat.lt_of_lt_of_le hhigh hs⟩
  name := h.name

theorem Unshared.sublist (h : Unshared c s scopes) (hs : scopes' ⊆ scopes) :
    Unshared c s scopes' where
  node scope hmem := h.node scope (hs hmem)
  name scope hmem scope' hmem' := h.name scope (hs hmem) scope' (hs hmem')

theorem Unshared.push (h : Unshared c s (scope :: outer)) :
    Unshared c s (scope :: scope :: outer) :=
  h.sublist (by simp)

theorem Unshared.put (h : Unshared c s (scope :: outer)) {r : Nat} (hlow : c.base.size ≤ r)
    (hhigh : r < s.size) (hr : ∀ scope' ∈ scope :: outer, ∀ y, Assoc.get? y scope' ≠ some (.node r))
    (x : String) : Unshared c s (Assoc.put x (.node r) scope :: outer) := by
  -- A binding of the new scopes is the new one, or it was there before.
  have hcases : ∀ scope' ∈ Assoc.put x (.node r) scope :: outer, ∀ y d,
    Assoc.get? y scope' = some d →
      y = x ∧ d = .node r ∨ ∃ old ∈ scope :: outer, Assoc.get? y old = some d := by
    intro scope' hmem y d hd
    rcases List.mem_cons.1 hmem with rfl | hmem
    · by_cases hy : y = x
      · subst hy
        rw [Assoc.get?_put_self] at hd
        exact .inl ⟨rfl, (Option.some.inj hd).symm⟩
      · rw [Assoc.get?_put_of_ne hy] at hd
        exact .inr ⟨scope, List.mem_cons_self, hd⟩
    · exact .inr ⟨scope', List.mem_cons_of_mem _ hmem, hd⟩
  refine ⟨fun scope' hmem y d hd => ?_, fun scope1 hmem1 scope2 hmem2 y z d hy hz => ?_⟩
  · rcases hcases scope' hmem y d hd with ⟨-, rfl⟩ | ⟨old, hold, hd⟩
    · exact ⟨r, rfl, hlow, hhigh⟩
    · exact h.node old hold y d hd
  · rcases hcases scope1 hmem1 y d hy with ⟨rfl, rfl⟩ | ⟨old, hold, hy⟩ <;>
      rcases hcases scope2 hmem2 z _ hz with ⟨rfl, hd⟩ | ⟨old', hold', hz⟩
    · rfl
    · exact absurd hz (hr old' hold' z)
    · exact absurd (hd ▸ hy) (hr old hold y)
    · exact h.name old hold old' hold' y z d hy hz

theorem Unshared.range (h : Unshared c s scopes) (hmem : scope ∈ scopes)
    (hr : Assoc.get? x scope = some (.node r)) : c.base.size ≤ r ∧ r < s.size := by
  obtain ⟨r', hr', hrange⟩ := h.node scope hmem x _ hr
  obtain rfl := Datum.node.inj hr'
  exact hrange

theorem Unshared.ne_of_le (h : Unshared c s scopes) (hr : s.size ≤ r) :
    ∀ scope ∈ scopes, ∀ y, Assoc.get? y scope ≠ some (.node r) := by
  intro scope hmem y hd
  have hhigh := (h.range hmem hd).2
  omega

theorem Unshared.bind (h : Unshared c s (scope :: outer)) (hbase : c.base.size ≤ s.size)
    (hd : IsNew s s' d) (x : String) : Unshared c s' (Assoc.put x d scope :: outer) := by
  obtain ⟨r, rfl, hlow, hhigh⟩ := hd
  have hs : s.size ≤ s'.size := by omega
  exact (h.mono hs).put (by omega) hhigh (h.ne_of_le hlow) x

theorem Unshared.bindAll (h : Unshared c s' (scope :: outer)) {rs : List Nat} (hnodup : rs.Nodup)
    (hrange : ∀ r ∈ rs, c.base.size ≤ r ∧ r < s'.size)
    (hrs : ∀ r ∈ rs, ∀ scope' ∈ scope :: outer, ∀ y, Assoc.get? y scope' ≠ some (.node r))
    (names : List String) :
    Unshared c s' (Assoc.putAll scope (names.zip (rs.map .node)) :: outer) := by
  induction names generalizing rs scope with
  | nil => exact h
  | cons x names ih =>
    cases rs with
    | nil => exact h
    | cons r rs =>
      obtain ⟨⟨hlow, hhigh⟩, hrange'⟩ := List.forall_mem_cons.1 hrange
      obtain ⟨hr, hrs'⟩ := List.forall_mem_cons.1 hrs
      obtain ⟨hnot, hnodup'⟩ := List.nodup_cons.1 hnodup
      refine ih (h.put hlow hhigh hr x) hnodup' hrange' fun r' hr' scope' hmem y => ?_
      rcases List.mem_cons.1 hmem with rfl | hmem
      · -- The name just bound has another node, and all others were bound before.
        by_cases hy : y = x
        · subst hy
          rw [Assoc.get?_put_self]
          rintro ⟨⟩
          exact hnot hr'
        · rw [Assoc.get?_put_of_ne hy]
          exact hrs' r' hr' scope List.mem_cons_self y
      · exact hrs' r' hr' scope' (List.mem_cons_of_mem _ hmem) y

end

/-! ## Steps -/

def IsReport (f : Fault) : Prop :=
  ∃ kind text, f = .reported kind (some text) none

structure Meets {α : Type} (c : Setting) (m : Machine) (x : Run α) (Q : α → Machine → Prop)
    (E : Fault → Prop) : Prop where
  later : Later m (x m).2
  ok : ∀ {a m'}, x m = (.ok a, m') → Intact c m' ∧ Q a m'
  halted : ∀ {e m'}, x m = (.error e, m') → Halted c m'
  fault : ∀ {f m'}, x m = (.error (.fault f), m') → Quiet m.console → IsReport f ∨ E f

section

variable {α β : Type} {m' : Machine} {x y : Run α} {f : α → Run β} {Q Q' : α → Machine → Prop}
  {R : β → Machine → Prop} {E E' : Fault → Prop}

theorem Meets.of_ok (hx : x m = (.ok a, m')) (hm : Intact c m') (hl : Later m m') (hq : Q a m') :
    Meets c m x Q E where
  later := by
    rw [hx]
    exact hl
  ok h := by
    rw [hx] at h
    obtain ⟨rfl, rfl⟩ := ok_inj h
    exact ⟨hm, hq⟩
  halted h := by
    rw [hx] at h
    cases h
  fault h := by
    rw [hx] at h
    cases h

theorem Meets.of_error (hx : x m = (.error e, m')) (hm : Halted c m') (hl : Later m m')
    (hf : ∀ f, e = .fault f → Quiet m.console → IsReport f ∨ E f) : Meets c m x Q E where
  later := by
    rw [hx]
    exact hl
  ok h := by
    rw [hx] at h
    cases h
  halted h := by
    rw [hx] at h
    obtain ⟨-, rfl⟩ := Prod.mk.inj h
    exact hm
  fault h := by
    rw [hx] at h
    obtain ⟨he, rfl⟩ := Prod.mk.inj h
    exact hf _ (Except.error.inj he)

theorem Meets.of_fault {f : Fault} (hx : x m = (.error (.fault f), m')) (hm : Halted c m')
    (hl : Later m m') (hf : Quiet m.console → IsReport f ∨ E f) : Meets c m x Q E :=
  .of_error hx hm hl fun _ he => Stop.fault.inj he ▸ hf

theorem Meets.of_run (h : Meets c m x Q E) (hx : x m = (.ok a, m')) :
    Intact c m' ∧ Later m m' ∧ Q a m' := by
  obtain ⟨hm', hq⟩ := h.ok hx
  have hl := h.later
  rw [hx] at hl
  exact ⟨hm', hl, hq⟩

theorem Meets.ends (h : Meets c m x Q E) : Halted c (x m).2 := by
  rcases hx : x m with ⟨e | a, m'⟩
  · exact h.halted hx
  · exact (h.ok hx).1.halted

theorem meets_outOfFuel (hm : Intact c m) : Meets c m (throw .outOfFuel : Run α) Q E :=
  .of_error rfl hm.halted (.refl m) nofun

theorem Meets.pure (hm : Intact c m) (hq : Q a m) : Meets c m (pure a) Q E :=
  .of_ok rfl hm (.refl m) hq

theorem Meets.congr (h : Meets c m y Q E) (hxy : x m = y m) : Meets c m x Q E where
  later := hxy ▸ h.later
  ok hx := h.ok (hxy ▸ hx)
  halted hx := h.halted (hxy ▸ hx)
  fault hx := h.fault (hxy ▸ hx)

theorem Meets.weaken (h : Meets c m x Q E) (hq : ∀ a m', Q a m' → Q' a m') : Meets c m x Q' E where
  later := h.later
  ok hx := ⟨(h.ok hx).1, hq _ _ (h.ok hx).2⟩
  halted := h.halted
  fault := h.fault

theorem Meets.blame (h : Meets c m x Q E) (he : ∀ f, E f → E' f) : Meets c m x Q E' where
  later := h.later
  ok := h.ok
  halted := h.halted
  fault hx hquiet := (h.fault hx hquiet).imp id (he _)

/-- One step after another. The second one may use what the first one has done. -/
theorem Meets.bind (h : Meets c m x Q E)
    (hf : ∀ a m', x m = (.ok a, m') → Intact c m' → Later m m' → Q a m' → Meets c m' (f a) R E) :
    Meets c m (x >>= f) R E := by
  rcases hx : x m with ⟨e | a, m1⟩
  · have hl := h.later
    rw [hx] at hl
    refine .of_error (by rw [bind_apply, hx]) (h.halted hx) hl fun f he => ?_
    subst he
    exact h.fault hx
  · obtain ⟨hm1, hl, hq⟩ := h.of_run hx
    have hnext := hf a m1 hx hm1 hl hq
    have hbind : (x >>= f) m = f a m1 := bind_of_ok hx
    refine ⟨?_, fun h => ?_, fun h => ?_, fun h hquiet => ?_⟩
    · rw [hbind]
      exact hl.trans hnext.later
    · rw [hbind] at h
      exact hnext.ok h
    · rw [hbind] at h
      exact hnext.halted h
    · rw [hbind] at h
      exact hnext.fault h (hl.quiet.1 hquiet)

theorem Meets.step {a : α} (hx : x m = (.ok a, m)) (h : Meets c m (f a) R E) :
    Meets c m (x >>= f) R E :=
  h.congr (bind_of_ok hx)

/-- A step whose result is passed on in another form. -/
theorem Meets.map {g : α → β} (h : Meets c m x Q E)
    (hq : ∀ a m', Intact c m' → Later m m' → Q a m' → R (g a) m') :
    Meets c m (x >>= fun a => Pure.pure (g a)) R E :=
  h.bind fun a m' _ hm' hl ha => .pure hm' (hq a m' hm' hl ha)

theorem meets_report (hm : Intact c m) (kind : ErrorKind) (text : String) :
    Meets c m (report kind text : Run α) Q E :=
  .of_fault rfl (hm.setConsole _).halted (later_setConsole rfl rfl rfl)
    fun _ => .inl ⟨kind, text, rfl⟩

theorem meets_observes (hm : Intact c m) (hx : Observes x)
    (hf : ∀ f, x m = (.error (.fault f), m) → Quiet m.console → E f) :
    Meets c m x (fun a m' => m = m' ∧ x m = (.ok a, m)) E := by
  rcases h : x m with ⟨e | a, m'⟩
  · obtain rfl := hx.eq h
    refine .of_error h hm.halted (.refl m) fun f he hquiet => .inr (hf f ?_ hquiet)
    rw [h, he]
  · obtain rfl := hx.eq h
    exact .of_ok h hm (.refl m) ⟨rfl, rfl⟩

theorem meets_make (hm : Intact c m) (v : Value) :
    Meets c m (make v.node.1 v.node.2) (fun d m' => IsNew m.store m'.store d ∧
      Held m'.store d v) E := by
  have hlt : m.store.size < (m.store.alloc v.node.1 v.node.2).2.size := by
    rw [size_alloc]
    omega
  have hnode : (m.store.alloc v.node.1 v.node.2).2.node m.store.size = v.node := by
    rw [node_alloc hm.base.separate, if_pos rfl]
  refine .of_ok rfl (hm.alloc v) ⟨Nat.le_of_lt hlt, Iff.rfl⟩ ⟨?_, ?_⟩
  · exact ⟨m.store.size, rfl, Nat.le_refl _, hlt⟩
  · exact ⟨m.store.size, rfl, hlt, hnode⟩

/-! ## Traces -/

/-- A step that does nothing but print, whether it ends well or not. -/
def OnlyPrints (x : Run α) : Prop :=
  ∀ m, ∃ printed, (x m).2 = { m with console := { m.console with printed } }

instance : Prints OnlyPrints where
  look hx m := ⟨m.console.printed, hx m⟩
  bind hx hf m := by
    refine bind_machine (Q := fun m' => ∃ printed,
      m' = { m with console := { m.console with printed } }) (hx m) ?_
    rintro a _ - ⟨_, rfl⟩
    exact hf a _
  print _ := ⟨fun _ => ⟨_, rfl⟩⟩

theorem meets_traced [ht : Has OnlyPrints t] (hm : Intact c m) :
    Meets c m (do if ← tracing then t) (fun _ m' => m'.store = m.store) E := by
  have htracing : tracing m = (.ok m.console.trace, m) := rfl
  refine .step htracing ?_
  cases htrace : m.console.trace with
  | false => exact .pure hm rfl
  | true =>
    obtain ⟨printed, hprinted⟩ := ht.holds m
    have hnot : ¬ Quiet m.console := fun h => by
      rw [h.trace] at htrace
      cases htrace
    rcases h : t m with ⟨e | _, m'⟩
    · rw [h] at hprinted
      dsimp only at hprinted
      subst hprinted
      exact .of_error h (hm.setConsole _).halted (later_setConsole rfl rfl rfl)
        fun _ _ hquiet => absurd hquiet hnot
    · rw [h] at hprinted
      dsimp only at hprinted
      subst hprinted
      exact .of_ok h (hm.setConsole _) (later_setConsole rfl rfl rfl) rfl

end

end LangKit.Script
