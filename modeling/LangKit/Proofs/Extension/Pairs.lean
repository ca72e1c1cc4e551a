import LangKit.Proofs.Safety.Operators

/-!
# Runs side by side

The same program is run in the scoped dialect and in the dialect with closures. The two runs make
nodes at different times, so a node of one has another number than the node of the other that stands
for it: `Pairs` says which go together. `Linked` relates the states of the two runs. Nodes that go
together hold the same value, no node goes with two others, and the consoles differ in the printed
text at most.

`Follows P c R m n x y Q` says that the second run can follow: if the step `x` ends well from `m`,
then the step `y` does so from `n`, with results that `Q` relates and states that are linked again.
Pairs of nodes are never lost on the way. With closures they may hold any values (`Link`,
`Forward`).
-/

namespace LangKit.Script.Extension

open Run Store
open Stacked (Setting Value Held)

/-! ## Pairs of nodes -/

/-- Which node of the first run goes with which node of the second. -/
abbrev Pairs := Nat → Nat → Prop

/-- Gives a node another one to go with. -/
def Pairs.set (R : Pairs) (r r' : Nat) : Pairs :=
  fun q q' => if q = r then q' = r' else R q q'

variable {R R1 : Pairs} {r r' start : Nat} {P : Value → Prop} {c : Setting} {m m1 n1 n : Machine}
  {d d' : Datum}

theorem Pairs.set_self (R : Pairs) (r r' : Nat) : R.set r r' r r' := by
  rw [set, if_pos rfl]

theorem Pairs.set_of_ne (h : q ≠ r) : R.set r r' q q' ↔ R q q' := by
  rw [set, if_neg h]

/-- A node that goes with none so far can be given one. -/
theorem Pairs.le_set (h : R ≤ R1) (hr : ∀ q', ¬ R r q') (r' : Nat) : R ≤ R1.set r r' := by
  intro q q' hq
  have hne : q ≠ r := by
    rintro rfl
    exact hr q' hq
  exact (set_of_ne hne).2 (h q q' hq)

inductive Paired (R : Pairs) : Datum → Datum → Prop
  | node {r r' : Nat} (pair : R r r') : Paired R (.node r) (.node r')

/-- Two values are nodes that go together, and the first is past some point of its store. -/
inductive NewPair (start : Nat) (R : Pairs) : Datum → Datum → Prop
  | node {r r' : Nat} (pair : R r r') (new : start ≤ r) : NewPair start R (.node r) (.node r')

/-- The results of a statement or a call: none, or new nodes that go together. -/
inductive SameResult (start : Nat) (R : Pairs) : Datum → Datum → Prop
  | none : SameResult start R .null .null
  | some {d d' : Datum} (pair : NewPair start R d d') : SameResult start R d d'

/-- Two scopes have the same names in the same order, for values that are alike. -/
def ScopesAlike (P : Datum → Datum → Prop) : Scope → Scope → Prop :=
  List.Forall₂ fun e e' => e.1 = e'.1 ∧ P e.2 e'.2

/-- Two scopes have the same names in the same order, for nodes that go together. -/
abbrev SameScope (R : Pairs) : Scope → Scope → Prop :=
  ScopesAlike (Paired R)

section

variable {P : Datum → Datum → Prop} {start' : Nat} {scope scope' : Scope}

theorem Paired.mono (h : Paired R d d') (hR : R ≤ R1) : Paired R1 d d' := by
  cases h with
  | node pair => exact .node (hR _ _ pair)

theorem NewPair.paired (h : NewPair start R d d') : Paired R d d' := by
  cases h with
  | node pair => exact .node pair

theorem NewPair.mono (h : NewPair start' R d d') (hstart : start ≤ start') :
    NewPair start R d d' := by
  cases h with
  | node pair new => exact .node pair (Nat.le_trans hstart new)

theorem SameResult.mono (h : SameResult start' R d d') (hstart : start ≤ start') :
    SameResult start R d d' := by
  cases h with
  | none => exact .none
  | some pair => exact .some (pair.mono hstart)

theorem SameScope.mono (h : SameScope R scope scope') (hR : R ≤ R1) : SameScope R1 scope scope' :=
  List.Forall₂.imp (fun _ _ he => ⟨he.1, he.2.mono hR⟩) h

section

variable (h : ScopesAlike P scope scope')
include h

theorem ScopesAlike.get? (x : String) :
    Option.Rel P (Assoc.get? x scope) (Assoc.get? x scope') := by
  induction h with
  | nil => exact .none
  | @cons e e' rest rest' he _ ih =>
    obtain ⟨name, d⟩ := e
    obtain ⟨name', d'⟩ := e'
    obtain ⟨rfl, hd⟩ := he
    rw [Assoc.get?, Assoc.get?]
    split
    · exact .some hd
    · exact ih

theorem ScopesAlike.has (x : String) : Assoc.has x scope' = Assoc.has x scope := by
  have hrel := h.get? x
  rw [Assoc.has, Assoc.has]
  generalize Assoc.get? x scope = v, Assoc.get? x scope' = v' at hrel
  cases hrel <;> rfl

theorem ScopesAlike.put (x : String) (hd : P d d') :
    ScopesAlike P (Assoc.put x d scope) (Assoc.put x d' scope') := by
  induction h with
  | nil => exact .cons ⟨rfl, hd⟩ .nil
  | @cons e e' rest rest' he hrest ih =>
    obtain ⟨name, d1⟩ := e
    obtain ⟨name', d1'⟩ := e'
    obtain ⟨rfl, hd1⟩ := he
    rw [Assoc.put, Assoc.put]
    split
    · exact .cons ⟨rfl, hd⟩ hrest
    · exact .cons ⟨rfl, hd1⟩ ih

theorem ScopesAlike.putAll (names : List String) {values values' : List Datum}
    (hvalues : List.Forall₂ P values values') :
    ScopesAlike P (Assoc.putAll scope (names.zip values))
      (Assoc.putAll scope' (names.zip values')) := by
  induction names generalizing scope scope' values values' with
  | nil => exact h
  | cons x names ih =>
    cases hvalues with
    | nil => exact h
    | cons first rest => exact ih (h.put x first) rest

theorem ScopesAlike.exists_show (hP : ∀ {d d'}, P d d' → ∃ r, d' = .node r) :
    ∃ s, ∀ m, showScope scope' m = (.ok s, m) := by
  refine exists_showScope_of_nodes ?_
  induction h with
  | nil => exact List.forall_mem_nil _
  | cons he _ ih => exact List.forall_mem_cons.2 ⟨hP he.2, ih⟩

end

theorem SameScope.exists_show (h : SameScope R scope scope') :
    ∃ s, ∀ m, showScope scope' m = (.ok s, m) := by
  refine ScopesAlike.exists_show h fun hd => ?_
  cases hd with
  | node => exact ⟨_, rfl⟩

end

/-! ## States -/

/-- The states of the two runs. Nodes that go together hold values of `P`. -/
structure Linked (P : Value → Prop) (c : Setting) (R : Pairs) (m n : Machine) : Prop where
  left : Intact c m
  right : Intact c n
  inputs : m.console.inputs = c.inputs
  console : ∃ printed, n.console = { m.console with printed }
  low : ∀ {r r'}, R r r' → c.base.size ≤ r ∧ c.base.size ≤ r'
  high : ∀ {r r'}, R r r' → r < m.store.size ∧ r' < n.store.size
  unique : ∀ {r r' q q'}, R r r' → R q q' → (r = q ↔ r' = q')
  node : ∀ {r r'}, R r r' → ∃ v, P v ∧ m.store.node r = v.node ∧ n.store.node r' = v.node

/-- The states of two runs with any values. -/
abbrev Link := Linked fun _ => True

section

variable (hl : Linked P c R m n)
include hl

/-- Nodes that go together hold the same value. -/
theorem Linked.held (h : Paired R d d') : ∃ v, P v ∧ Held m.store d v ∧ Held n.store d' v := by
  cases h with
  | @node r r' pair =>
    obtain ⟨hhigh, hhigh'⟩ := hl.high pair
    obtain ⟨v, hP, hv, hv'⟩ := hl.node pair
    exact ⟨v, hP, ⟨r, rfl, hhigh, hv⟩, r', rfl, hhigh', hv'⟩

theorem Linked.extend (hm : Intact c m1) (hn : Intact c n1)
    (hem : Extends m.store m1.store) (hen : Extends n.store n1.store)
    (hi : m1.console.inputs = m.console.inputs)
    (hconsole : ∃ printed, n1.console = { m1.console with printed }) : Linked P c R m1 n1 where
  left := hm
  right := hn
  inputs := hi.trans hl.inputs
  console := hconsole
  low := hl.low
  high h := ⟨Nat.lt_of_lt_of_le (hl.high h).1 hem.size, Nat.lt_of_lt_of_le (hl.high h).2 hen.size⟩
  unique := hl.unique
  node h := by
    rw [hen.node _ (hl.high h).2, hem.node _ (hl.high h).1]
    exact hl.node h

theorem Linked.of_le (hR : R1 ≤ R) : Linked P c R1 m n :=
  ⟨hl.left, hl.right, hl.inputs, hl.console, fun h => hl.low (hR _ _ h),
    fun h => hl.high (hR _ _ h), fun h h' => hl.unique (hR _ _ h) (hR _ _ h'),
      fun h => hl.node (hR _ _ h)⟩

/-- A node is given another one to go with, which goes with none and holds the same value. -/
theorem Linked.set {r r' : Nat} (hlow : c.base.size ≤ r ∧ c.base.size ≤ r')
    (hhigh : r < m.store.size ∧ r' < n.store.size) (hfree : ∀ q, ¬ R q r')
    (hnode : ∃ v, P v ∧ m.store.node r = v.node ∧ n.store.node r' = v.node) :
    Linked P c (R.set r r') m n := by
  -- A pair is the new one, or it was there before and has neither of the new nodes.
  have hcases : ∀ {q q'}, R.set r r' q q' → q = r ∧ q' = r' ∨ q ≠ r ∧ q' ≠ r' ∧ R q q' := by
    intro q q' h
    by_cases hq : q = r
    · subst hq
      rw [Pairs.set, if_pos rfl] at h
      exact .inl ⟨rfl, h⟩
    · rw [Pairs.set_of_ne hq] at h
      refine .inr ⟨hq, ?_, h⟩
      rintro rfl
      exact hfree q h
  refine ⟨hl.left, hl.right, hl.inputs, hl.console,
    fun h => ?_, fun h => ?_, fun h h' => ?_, fun h => ?_⟩
  · rcases hcases h with ⟨rfl, rfl⟩ | ⟨-, -, h⟩
    · exact hlow
    · exact hl.low h
  · rcases hcases h with ⟨rfl, rfl⟩ | ⟨-, -, h⟩
    · exact hhigh
    · exact hl.high h
  · rcases hcases h with ⟨rfl, rfl⟩ | ⟨hq, hq', h⟩ <;>
      rcases hcases h' with ⟨rfl, rfl⟩ | ⟨hp, hp', h'⟩
    · exact ⟨fun _ => rfl, fun _ => rfl⟩
    · exact ⟨fun he => absurd he.symm hp, fun he => absurd he.symm hp'⟩
    · exact ⟨fun he => absurd he hq, fun he => absurd he hq'⟩
    · exact hl.unique h h'
  · rcases hcases h with ⟨rfl, rfl⟩ | ⟨-, -, h⟩
    · exact hnode
    · exact hl.node h

theorem Linked.printed (printed : String) :
    Linked P c R m { n with console := { n.console with printed } } := by
  obtain ⟨_, hconsole⟩ := hl.console
  refine hl.extend hl.left (hl.right.setConsole _) (.refl hl.left.base.separate)
    (.refl hl.right.base.separate) rfl ⟨printed, ?_⟩
  rw [hconsole]

theorem Linked.printed_left (printed : String) :
    Linked P c R { m with console := { m.console with printed } } n := by
  obtain ⟨printed', hconsole⟩ := hl.console
  exact hl.extend (hl.left.setConsole _) hl.right (.refl hl.left.base.separate)
    (.refl hl.right.base.separate) rfl ⟨printed', hconsole⟩

end

theorem Link.overwrite (hl : Link c R m n) {r r' : Nat} (h : R r r') {v : Value}
    (hz : v.contents? = some z) :
    Link c R { m with store := (m.store.setKind r v.kind).setField r "val" z }
      { n with store := (n.store.setKind r' v.kind).setField r' "val" z } := by
  obtain ⟨hlow, hlow'⟩ := hl.low h
  obtain ⟨hhigh, hhigh'⟩ := hl.high h
  obtain ⟨old, -, hold, hold'⟩ := hl.node h
  have hnode := Stacked.node_overwrite hl.left.base.separate hhigh hold hz
  have hnode' := Stacked.node_overwrite hl.right.base.separate hhigh' hold' hz
  refine ⟨hl.left.overwrite hlow hhigh hz, hl.right.overwrite hlow' hhigh' hz,
    hl.inputs, hl.console, hl.low, fun h => ?_, hl.unique, fun {q q'} hq => ?_⟩
  · simpa using hl.high h
  · -- The two nodes that are set go together, so no other pair has just one of them.
    have hiff := hl.unique hq h
    rw [hnode, hnode']
    by_cases he : q = r
    · rw [if_pos he, if_pos (hiff.1 he)]
      exact ⟨v, trivial, rfl, rfl⟩
    · rw [if_neg he, if_neg fun he' => he (hiff.2 he')]
      exact hl.node hq

/-! ## Steps that can be followed -/

/-- States and pairs that come after others. -/
structure Onward (P : Value → Prop) (c : Setting) (R : Pairs) (m : Machine) (R1 : Pairs)
    (m1 n1 : Machine) :
    Prop where
  link : Linked P c R1 m1 n1
  pairs : R ≤ R1
  size : m.store.size ≤ m1.store.size

theorem Onward.trans {R2 : Pairs} (h : Onward P c R m R1 m1 n1) (h' : Onward P c R1 m1 R2 m2 n2) :
    Onward P c R m R2 m2 n2 :=
  ⟨h'.link, le_trans h.pairs h'.pairs, Nat.le_trans h.size h'.size⟩

/-- If the first step ends well, the second one does, and what they leave is related. -/
def Follows {α β : Type} (P : Value → Prop) (c : Setting) (R : Pairs) (m n : Machine) (x : Run α)
    (y : Run β) (Q : Pairs → α → β → Prop) : Prop :=
  ∀ a m1, x m = (.ok a, m1) → ∃ b n1 R1, y n = (.ok b, n1) ∧ Onward P c R m R1 m1 n1 ∧ Q R1 a b

/-- The second step follows the first one, with any values. -/
abbrev Forward {α β : Type} := @Follows α β fun _ => True

section

variable {α β γ δ : Type} {x : Run α} {y : Run β} {f : α → Run γ} {g : β → Run δ}
  {Q Q' : Pairs → α → β → Prop} {T : Pairs → γ → δ → Prop}

theorem Follows.of_ok (hx : x m = (.ok a, m1)) (hy : y n = (.ok b, n1))
    (ho : Onward P c R m R1 m1 n1) (hq : Q R1 a b) : Follows P c R m n x y Q := by
  intro a' m' h
  rw [hx] at h
  obtain ⟨rfl, rfl⟩ := ok_inj h
  exact ⟨b, n1, R1, hy, ho, hq⟩

theorem Follows.of_error (hx : x m = (.error e, m1)) : Follows P c R m n x y Q := by
  intro a m' h
  rw [hx] at h
  cases (Prod.mk.inj h).1

theorem forward_report {kind : ErrorKind} {text : String} {x : Run α}
    (hx : x m = report kind text m) :
    Follows P c R m n x y Q :=
  .of_error (e := .fault (.reported kind (some text) none)) (hx.trans rfl)

theorem Follows.pure (hl : Linked P c R m n) (hq : Q R a b) :
    Follows P c R m n (pure a) (pure b) Q :=
  .of_ok rfl rfl ⟨hl, le_refl R, Nat.le_refl _⟩ hq

theorem Follows.congr (h : Follows P c R m n x' y' Q) (hx : x m = x' m)
    (hy : y n = y' n) : Follows P c R m n x y Q := by
  intro a m' ha
  rw [hx] at ha
  rw [hy]
  exact h a m' ha

theorem Follows.mono (h : Follows P c R m n x y Q) (hq : ∀ R1 a b, Q R1 a b → Q' R1 a b) :
    Follows P c R m n x y Q' := by
  intro a m' ha
  obtain ⟨b, n1, R1, hb, ho, hab⟩ := h a _ ha
  exact ⟨b, n1, R1, hb, ho, hq R1 a b hab⟩

theorem Follows.bind (h : Follows P c R m n x y Q)
    (hf : ∀ a b m1 n1 R1, x m = (.ok a, m1) → y n = (.ok b, n1) → Onward P c R m R1 m1 n1 →
      Q R1 a b →
      Follows P c R1 m1 n1 (f a) (g b) T) :
    Follows P c R m n (x >>= f) (y >>= g) T := by
  intro r m2 hr
  obtain ⟨a, m1, ha, hr⟩ := bind_eq_ok.1 hr
  obtain ⟨b, n1, R1, hb, ho, hab⟩ := h a _ ha
  obtain ⟨r', n2, R2, hr', ho', hrr⟩ := hf a b m1 n1 R1 ha hb ho hab r m2 hr
  exact ⟨r', n2, R2, bind_eq_ok.2 ⟨b, n1, hb, hr'⟩, ho.trans ho', hrr⟩

theorem Follows.map {φ : α → γ} {ψ : β → δ} (h : Follows P c R m n x y Q)
    (hq : ∀ {a b m1 n1 R1}, Onward P c R m R1 m1 n1 → Q R1 a b → T R1 (φ a) (ψ b)) :
    Follows P c R m n (x >>= fun a => Pure.pure (φ a)) (y >>= fun b => Pure.pure (ψ b)) T :=
  h.bind fun _ _ _ _ _ _ _ ho hab => .pure ho.link (hq ho hab)

theorem Follows.step {a : α} {b : β} (hx : x m = (.ok a, m)) (hy : y n = (.ok b, n))
    (h : Follows P c R m n (f a) (g b) T) : Follows P c R m n (x >>= f) (y >>= g) T :=
  h.congr (bind_of_ok hx) (bind_of_ok hy)

theorem Follows.step_left {y : Run δ}
    (hx : x m = (.ok a, m1)) (hsize : m.store.size ≤ m1.store.size)
    (h : Follows P c R m1 n (f a) y T) : Follows P c R m n (x >>= f) y T := by
  intro r m2 hr
  rw [bind_of_ok hx] at hr
  obtain ⟨r', n2, R2, hr', ho, hrr⟩ := h r m2 hr
  exact ⟨r', n2, R2, hr', ⟨ho.link, ho.pairs, Nat.le_trans hsize ho.size⟩, hrr⟩

theorem Follows.step_right {x : Run γ} (hy : y n = (.ok b, n1)) (h : Follows P c R m n1 x (g b) T) :
    Follows P c R m n x (y >>= g) T := by
  intro r m2 hr
  obtain ⟨r', n2, R2, hr', ho, hrr⟩ := h r m2 hr
  exact ⟨r', n2, R2, (bind_of_ok hy).trans hr', ho, hrr⟩

end

/-! ## New nodes -/

section

variable (hl : Linked P c R m n)

include hl

theorem Linked.free_left (hr : m.store.size ≤ r) : ∀ q', ¬ R r q' := by
  intro q' h
  have hhigh := (hl.high h).1
  omega

theorem Linked.free_right (hr : n.store.size ≤ r') : ∀ q, ¬ R q r' := by
  intro q h
  have hhigh := (hl.high h).2
  omega

theorem forward_make (hv : P v) :
    Follows P c R m n (make v.node.1 v.node.2) (make v.node.1 v.node.2) (NewPair m.store.size) := by
  have hem : Extends m.store (m.store.alloc v.node.1 v.node.2).2 :=
    hl.left.base.separate.extends_alloc
  have hen : Extends n.store (n.store.alloc v.node.1 v.node.2).2 :=
    hl.right.base.separate.extends_alloc
  have hlink := hl.extend (hl.left.alloc v) (hl.right.alloc v) hem hen rfl hl.console
  have honward : Onward P c R m (R.set m.store.size n.store.size)
      { m with store := (m.store.alloc v.node.1 v.node.2).2 }
      { n with store := (n.store.alloc v.node.1 v.node.2).2 } := by
    refine ⟨hlink.set ?_ ?_ ?_ ?_, ?_, hem.size⟩
    · exact ⟨hl.left.base.size, hl.right.base.size⟩
    · constructor
      · rw [size_alloc]
        omega
      · rw [size_alloc]
        omega
    · exact hl.free_right (Nat.le_refl _)
    · refine ⟨v, hv, ?_, ?_⟩
      · rw [node_alloc hl.left.base.separate, if_pos rfl]
      · rw [node_alloc hl.right.base.separate, if_pos rfl]
    · exact Pairs.le_set (le_refl R) (hl.free_left (Nat.le_refl _)) _
  exact .of_ok rfl rfl honward (.node (Pairs.set_self R _ _) (Nat.le_refl _))

theorem forward_copy (hv : P v) (hd : Held m.store d v) (hd' : Held n.store d' v) :
    Follows P c R m n (copy d) (copy d') (NewPair m.store.size) :=
  (forward_make hl hv).congr (Stacked.copy_apply hd) (Stacked.copy_apply hd')

/-- The second run copies its result, and goes on with the copy in place of the result. -/
theorem Follows.copied (hstart : m.store.size ≤ start)
    (h : Follows P c R m n x y (NewPair start)) :
    Follows P c R m n x (y >>= copy) (NewPair start) := by
  intro a m1 ha
  obtain ⟨b, n1, R1, hb, ho, hab⟩ := h a _ ha
  obtain ⟨v, hP, hleft, hv⟩ := ho.link.held hab.paired
  cases hab with
  | @node r r' pair new =>
    have hlink := ho.link
    have hen : Extends n1.store (n1.store.alloc v.node.1 v.node.2).2 :=
      hlink.right.base.separate.extends_alloc
    have hcopy : copy (.node r') n1 = (.ok (.node n1.store.size),
        { n1 with store := (n1.store.alloc v.node.1 v.node.2).2 }) := Stacked.copy_apply hv
    have hlink' := hlink.extend hlink.left (hlink.right.alloc v)
      (.refl hlink.left.base.separate) hen rfl hlink.console
    obtain ⟨r0, hr0, -, hnode⟩ := hleft
    obtain rfl := Datum.node.inj hr0
    refine ⟨_, _, R1.set r n1.store.size, (bind_of_ok hb).trans hcopy,
      ⟨hlink'.set ?_ ?_ ?_ ?_, ?_, ho.size⟩, .node (Pairs.set_self _ _ _) new⟩
    · exact ⟨(hlink.low pair).1, hlink.right.base.size⟩
    · refine ⟨(hlink.high pair).1, ?_⟩
      rw [size_alloc]
      omega
    · exact hlink.free_right (Nat.le_refl _)
    · exact ⟨v, hP, hnode, by rw [node_alloc hlink.right.base.separate, if_pos rfl]⟩
    · exact Pairs.le_set ho.pairs (hl.free_left (Nat.le_trans hstart new)) _

end

end LangKit.Script.Extension
