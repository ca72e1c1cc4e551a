import LangKit.Proofs.Store.Nodes
import LangKit.Store.Display
import Mathlib.Order.Basic

/-!
# Values that are alike

Two values are alike (`Datum.Like`) if they differ in the numbers of their nodes only, and these are
related one by one. Values that are alike look the same (`Like.display_eq`), and have texts that go
together if their nodes have (`Lasting.text`). A replacement of the nodes of a value that relates
each node to what replaces it (`Replaces`) gives a value that is alike.
-/

namespace LangKit

namespace Datum

mutual

def refs : Datum → List Nat
  | .null => []
  | .bool _ => []
  | .int _ => []
  | .text _ => []
  | .list items => refsAll items
  | .tuple items => refsAll items
  | .mapping entries => refsEntries entries
  | .node ref => [ref]

def refsAll : List Datum → List Nat
  | [] => []
  | d :: rest => refs d ++ refsAll rest

def refsEntries : List (Datum × Datum) → List Nat
  | [] => []
  | (k, v) :: rest => refs k ++ (refs v ++ refsEntries rest)

end

mutual

/-- Two values are alike but for their nodes, which are related one by one. -/
inductive Like (R : Nat → Nat → Prop) : Datum → Datum → Prop
  | null : Like R .null .null
  | bool (b : Bool) : Like R (.bool b) (.bool b)
  | int (n : Int) : Like R (.int n) (.int n)
  | text (t : String) : Like R (.text t) (.text t)
  | list {ds ds' : List Datum} (items : LikeAll R ds ds') : Like R (.list ds) (.list ds')
  | tuple {ds ds' : List Datum} (items : LikeAll R ds ds') : Like R (.tuple ds) (.tuple ds')
  | mapping {es es' : List (Datum × Datum)} (entries : LikeEntries R es es') :
      Like R (.mapping es) (.mapping es')
  | node {ref ref' : Nat} (related : R ref ref') : Like R (.node ref) (.node ref')

inductive LikeAll (R : Nat → Nat → Prop) : List Datum → List Datum → Prop
  | nil : LikeAll R [] []
  | cons {d d' : Datum} {ds ds' : List Datum} (first : Like R d d') (rest : LikeAll R ds ds') :
      LikeAll R (d :: ds) (d' :: ds')

inductive LikeEntries (R : Nat → Nat → Prop) : List (Datum × Datum) → List (Datum × Datum) → Prop
  | nil : LikeEntries R [] []
  | cons {k k' v v' : Datum} {es es' : List (Datum × Datum)} (key : Like R k k')
      (value : Like R v v') (rest : LikeEntries R es es') :
      LikeEntries R ((k, v) :: es) ((k', v') :: es')

end

/-- Two rows of fields have the same names and values that are alike. -/
inductive LikeFields (R : Nat → Nat → Prop) : Fields → Fields → Prop
  | nil : LikeFields R [] []
  | cons {name : String} {d d' : Datum} {fs fs' : Fields} (first : Like R d d')
      (rest : LikeFields R fs fs') : LikeFields R ((name, d) :: fs) ((name, d') :: fs')

section

variable {R R' : Nat → Nat → Prop}

mutual

theorem Like.mono (h : ∀ r r', R r r' → R' r r') (hd : Like R d d') : Like R' d d' := by
  match hd with
  | .null => exact .null
  | .bool b => exact .bool b
  | .int n => exact .int n
  | .text t => exact .text t
  | .list items => exact .list (items.mono h)
  | .tuple items => exact .tuple (items.mono h)
  | .mapping entries => exact .mapping (entries.mono h)
  | .node related => exact .node (h _ _ related)

theorem LikeAll.mono (h : ∀ r r', R r r' → R' r r') (hd : LikeAll R ds ds') :
    LikeAll R' ds ds' := by
  match hd with
  | .nil => exact .nil
  | .cons first rest => exact .cons (first.mono h) (rest.mono h)

theorem LikeEntries.mono (h : ∀ r r', R r r' → R' r r')
    (he : LikeEntries R es es') : LikeEntries R' es es' := by
  match he with
  | .nil => exact .nil
  | .cons key value rest => exact .cons (key.mono h) (value.mono h) (rest.mono h)

end

theorem LikeFields.mono (h : ∀ r r', R r r' → R' r r') (hf : LikeFields R fs fs') :
    LikeFields R' fs fs' := by
  induction hf with
  | nil => exact .nil
  | cons first _ ih => exact .cons (first.mono h) ih

mutual

theorem Like.refs (hd : Like R d d') : ∀ r' ∈ d'.refs, ∃ r ∈ d.refs, R r r' := by
  match hd with
  | .null | .bool _ | .int _ | .text _ => exact nofun
  | .list items => exact items.refs
  | .tuple items => exact items.refs
  | .mapping entries => exact entries.refs
  | .node related =>
    intro r' hr'
    obtain rfl := List.mem_singleton.1 hr'
    exact ⟨_, List.mem_singleton_self _, related⟩

theorem LikeAll.refs (hd : LikeAll R ds ds') :
    ∀ r' ∈ refsAll ds', ∃ r ∈ refsAll ds, R r r' := by
  match hd with
  | .nil => exact nofun
  | .cons first rest =>
    intro r' hr'
    rcases List.mem_append.1 hr' with hr' | hr'
    · obtain ⟨r, hr, hrel⟩ := first.refs r' hr'
      exact ⟨r, List.mem_append_left _ hr, hrel⟩
    · obtain ⟨r, hr, hrel⟩ := rest.refs r' hr'
      exact ⟨r, List.mem_append_right _ hr, hrel⟩

theorem LikeEntries.refs (he : LikeEntries R es es') :
    ∀ r' ∈ refsEntries es', ∃ r ∈ refsEntries es, R r r' := by
  match he with
  | .nil => exact nofun
  | .cons key value rest =>
    intro r' hr'
    rcases List.mem_append.1 hr' with hr' | hr'
    · obtain ⟨r, hr, hrel⟩ := key.refs r' hr'
      exact ⟨r, List.mem_append_left _ hr, hrel⟩
    · rcases List.mem_append.1 hr' with hr' | hr'
      · obtain ⟨r, hr, hrel⟩ := value.refs r' hr'
        exact ⟨r, List.mem_append_right _ (List.mem_append_left _ hr), hrel⟩
      · obtain ⟨r, hr, hrel⟩ := rest.refs r' hr'
        exact ⟨r, List.mem_append_right _ (List.mem_append_right _ hr), hrel⟩

end

theorem LikeFields.refs (hf : LikeFields R fs fs') :
    ∀ e' ∈ fs', ∀ r' ∈ e'.2.refs, ∃ e ∈ fs, ∃ r ∈ e.2.refs, R r r' := by
  induction hf with
  | nil => exact nofun
  | cons first _ ih =>
    intro e' he' r' hr'
    rcases List.mem_cons.1 he' with rfl | he'
    · obtain ⟨r, hr, hrel⟩ := first.refs r' hr'
      exact ⟨_, List.mem_cons_self, r, hr, hrel⟩
    · obtain ⟨e, he, r, hr, hrel⟩ := ih e' he' r' hr'
      exact ⟨e, List.mem_cons_of_mem _ he, r, hr, hrel⟩

theorem Like.eq_of_isAtom (hd : Like R d d') (h : d.isAtom = true) : d' = d := by
  cases hd with
  | bool | int | text => rfl
  | _ => cases h

theorem LikeFields.get? (hf : LikeFields R fs fs') (name : String) :
    (Assoc.get? name fs = none ∧ Assoc.get? name fs' = none) ∨
      ∃ d d', Assoc.get? name fs = some d ∧ Assoc.get? name fs' = some d' ∧ Like R d d' := by
  induction hf with
  | nil => exact .inl ⟨rfl, rfl⟩
  | @cons name' d d' _ _ first _ ih =>
    simp only [Assoc.get?]
    split
    · exact .inr ⟨d, d', rfl, rfl, first⟩
    · exact ih

mutual

theorem Like.outline_eq (h : Like R d d') : d'.outline = d.outline := by
  match h with
  | .null => rfl
  | .bool _ => rfl
  | .int _ => rfl
  | .text _ => rfl
  | .list items => exact congrArg Tree.list items.outline_eq
  | .tuple items => exact congrArg Tree.tuple items.outline_eq
  | .mapping entries => exact congrArg Tree.mapping entries.outline_eq
  | .node _ => rfl

theorem LikeAll.outline_eq (h : LikeAll R ds ds') :
    outlineAll (fun _ => .node "" []) ds' = outlineAll (fun _ => .node "" []) ds := by
  match h with
  | .nil => rfl
  | .cons first rest =>
    have hfirst := first.outline_eq
    have hrest := rest.outline_eq
    simp only [outline] at hfirst
    simp only [outlineAll, hfirst, hrest]

theorem LikeEntries.outline_eq (h : LikeEntries R es es') :
    outlineEntries (fun _ => .node "" []) es' = outlineEntries (fun _ => .node "" []) es := by
  match h with
  | .nil => rfl
  | .cons key value rest =>
    have hkey := key.outline_eq
    have hvalue := value.outline_eq
    have hrest := rest.outline_eq
    simp only [outline] at hkey hvalue
    simp only [outlineEntries, hkey, hvalue, hrest]

end

theorem Like.display_eq (h : Like R d d') : d'.display = d.display := by
  rw [display, h.outline_eq, display]

mutual

theorem Like.refl (d : Datum) : Like Eq d d := by
  match d with
  | .null => exact .null
  | .bool x => exact .bool x
  | .int n => exact .int n
  | .text t => exact .text t
  | .list ds => exact .list (LikeAll.refl ds)
  | .tuple ds => exact .tuple (LikeAll.refl ds)
  | .mapping es => exact .mapping (LikeEntries.refl es)
  | .node r => exact .node rfl

theorem LikeAll.refl (ds : List Datum) : LikeAll Eq ds ds := by
  match ds with
  | [] => exact .nil
  | d :: rest => exact .cons (Like.refl d) (LikeAll.refl rest)

theorem LikeEntries.refl (es : List (Datum × Datum)) : LikeEntries Eq es es := by
  match es with
  | [] => exact .nil
  | (k, v) :: rest => exact .cons (Like.refl k) (Like.refl v) (LikeEntries.refl rest)

end

theorem LikeFields.refl (fs : Fields) : LikeFields Eq fs fs := by
  induction fs with
  | nil => exact .nil
  | cons e rest ih => exact .cons (Like.refl e.2) ih

/-! ## Texts -/

/-- A relation of results that holds of displays and that goes on from step to step. -/
structure Lasting (T : (α : Type) → Except Fault α → Except Fault α → Prop) : Prop where
  ok : ∀ {α : Type} (a : α), T α (.ok a) (.ok a)
  bind : ∀ {α β : Type} {x y : Except Fault α} {f g : α → Except Fault β}, T α x y →
    (∀ a, T β (f a) (g a)) →
    T β (x >>= f) (y >>= g)
  display : ∀ d : Datum, T String d.display d.display

theorem lasting_eq : Lasting fun _ => Eq where
  ok _ := rfl
  bind := by
    rintro α β x _ f g rfl hf
    rw [funext hf]
  display _ := rfl

section

variable {T : (α : Type) → Except Fault α → Except Fault α → Prop} {p q : Nat → Except Fault String}
  {d d' : Datum} (hT : Lasting T)

include hT

theorem Lasting.map {α β : Type} {x y : Except Fault α} (h : T α x y) (f : α → β) :
    T β (x.map f) (y.map f) := by
  have hmap : ∀ x : Except Fault α, x.map f = x >>= fun a => .ok (f a) := by
    intro x
    cases x <;> rfl
  rw [hmap, hmap]
  exact hT.bind h fun a => hT.ok (f a)

theorem Lasting.shown (hd : Like R d d') : T String d.display d'.display :=
  hd.display_eq ▸ hT.display d

variable (h : ∀ r r', R r r' → T String (p r) (q r'))

include h

theorem Lasting.text (hd : Like R d d') : T String (d.textWith p) (d'.textWith q) := by
  cases hd with
  | text s => exact hT.ok s
  | node related => exact h _ _ related
  | null => exact hT.shown (R := R) .null
  | bool b => exact hT.shown (R := R) (.bool b)
  | int n => exact hT.shown (R := R) (.int n)
  | list items => exact hT.shown (.list items)
  | tuple items => exact hT.shown (.tuple items)
  | mapping entries => exact hT.shown (.mapping entries)

theorem Lasting.texts (hd : LikeAll R ds ds') :
    T (List String) (textsWith p ds) (textsWith q ds') := by
  induction ds generalizing ds' with
  | nil =>
    cases hd
    exact hT.ok []
  | cons d rest ih =>
    cases hd with
    | cons first more => exact hT.bind (hT.text h first) fun _ => hT.bind (ih more) fun _ => hT.ok _

theorem Lasting.fieldText (hd : Like R d d') :
    T String (d.fieldTextWith p) (d'.fieldTextWith q) := by
  cases hd with
  | node related => exact hT.map (h _ _ related) _
  | list items => exact hT.map (hT.texts h items) _
  | null => exact hT.text h .null
  | bool b => exact hT.text h (.bool b)
  | int n => exact hT.text h (.int n)
  | text s => exact hT.text h (.text s)
  | tuple items => exact hT.text h (.tuple items)
  | mapping entries => exact hT.text h (.mapping entries)

theorem Lasting.fieldTexts (hf : LikeFields R fs fs') :
    T (List String) (fieldTextsWith p fs) (fieldTextsWith q fs') := by
  induction hf with
  | nil => exact hT.ok []
  | cons first _ ih => exact hT.bind (hT.fieldText h first) fun _ => hT.bind ih fun _ => hT.ok _

end

end

/-! ## Replacing the nodes of a value -/

/-- Two replacements of nodes go together: they keep a condition on their states, and give nodes
that a relation between them holds of. It depends on the states, but what it holds of once it goes
on to hold of. -/
def GoTogether {σ τ : Type} (f : Nat → σ → Nat × σ) (g : Nat → τ → Nat × τ)
    (V : Nat → Prop) (R : Nat → Nat → Prop) (P : σ → τ → Prop) (Q : σ → τ → Nat → Nat → Prop) :
    Prop :=
  ∀ r r' s s', V r → R r r' → P s s' → P (f r s).2 (g r' s').2 ∧
    Q (f r s).2 (g r' s').2 (f r s).1 (g r' s').1 ∧ Q s s' ≤ Q (f r s).2 (g r' s').2

section

variable {σ τ : Type} {f : Nat → σ → Nat × σ} {g : Nat → τ → Nat × τ}
  {V : Nat → Prop} {R : Nat → Nat → Prop} {P : σ → τ → Prop} {Q : σ → τ → Nat → Nat → Prop}
  (h : GoTogether f g V R P Q)

include h

set_option linter.unusedSectionVars false in
mutual

/-- Two replacements of nodes that go together node by node do so for whole values. -/
theorem GoTogether.mapNodes (hd : Like R d d') (hV : ∀ r ∈ d.refs, V r) (hs : P s s') :
    P (d.mapNodes f s).2 (d'.mapNodes g s').2 ∧
      Like (Q (d.mapNodes f s).2 (d'.mapNodes g s').2) (d.mapNodes f s).1 (d'.mapNodes g s').1 ∧
      Q s s' ≤ Q (d.mapNodes f s).2 (d'.mapNodes g s').2 := by
  match hd with
  | .null => exact ⟨hs, .null, le_refl _⟩
  | .bool x => exact ⟨hs, .bool x, le_refl _⟩
  | .int n => exact ⟨hs, .int n, le_refl _⟩
  | .text t => exact ⟨hs, .text t, le_refl _⟩
  | .list items =>
    obtain ⟨hP, hlike, hQ⟩ := GoTogether.mapNodesAll items hV hs
    exact ⟨hP, .list hlike, hQ⟩
  | .tuple items =>
    obtain ⟨hP, hlike, hQ⟩ := GoTogether.mapNodesAll items hV hs
    exact ⟨hP, .tuple hlike, hQ⟩
  | .mapping entries =>
    obtain ⟨hP, hlike, hQ⟩ := GoTogether.mapNodesEntries entries hV hs
    exact ⟨hP, .mapping hlike, hQ⟩
  | .node related =>
    obtain ⟨hP, hrel, hQ⟩ := h _ _ s s' (hV _ (List.mem_singleton_self _)) related hs
    exact ⟨hP, .node hrel, hQ⟩

theorem GoTogether.mapNodesAll (hd : LikeAll R ds ds') (hV : ∀ r ∈ refsAll ds, V r)
    (hs : P s s') :
    P (mapNodesAll f ds s).2 (mapNodesAll g ds' s').2 ∧
      LikeAll (Q (mapNodesAll f ds s).2 (mapNodesAll g ds' s').2) (mapNodesAll f ds s).1
        (mapNodesAll g ds' s').1 ∧
      Q s s' ≤ Q (mapNodesAll f ds s).2 (mapNodesAll g ds' s').2 := by
  match hd with
  | .nil => exact ⟨hs, .nil, le_refl _⟩
  | .cons first rest =>
    obtain ⟨hfirst, hrest⟩ := List.forall_mem_append.1 hV
    obtain ⟨hP, hlike, hQ⟩ := GoTogether.mapNodes first hfirst hs
    obtain ⟨hP', hlike', hQ'⟩ := GoTogether.mapNodesAll rest hrest hP
    exact ⟨hP', .cons (hlike.mono hQ') hlike', le_trans hQ hQ'⟩

theorem GoTogether.mapNodesEntries (hd : LikeEntries R es es')
    (hV : ∀ r ∈ refsEntries es, V r) (hs : P s s') :
    P (mapNodesEntries f es s).2 (mapNodesEntries g es' s').2 ∧
      LikeEntries (Q (mapNodesEntries f es s).2 (mapNodesEntries g es' s').2)
        (mapNodesEntries f es s).1 (mapNodesEntries g es' s').1 ∧
      Q s s' ≤ Q (mapNodesEntries f es s).2 (mapNodesEntries g es' s').2 := by
  match hd with
  | .nil => exact ⟨hs, .nil, le_refl _⟩
  | .cons key value rest =>
    obtain ⟨hkey, hmore⟩ := List.forall_mem_append.1 hV
    obtain ⟨hvalue, hrest⟩ := List.forall_mem_append.1 hmore
    obtain ⟨hP, hlike, hQ⟩ := GoTogether.mapNodes key hkey hs
    obtain ⟨hP', hlike', hQ'⟩ := GoTogether.mapNodes value hvalue hP
    obtain ⟨hP'', hlike'', hQ''⟩ := GoTogether.mapNodesEntries rest hrest hP'
    exact ⟨hP'', .cons (hlike.mono (le_trans hQ' hQ'')) (hlike'.mono hQ'') hlike'',
      le_trans hQ (le_trans hQ' hQ'')⟩

end

theorem GoTogether.mapNodesFields (hf : LikeFields R fs fs') (hV : ∀ e ∈ fs, ∀ r ∈ e.2.refs, V r)
    (hs : P s s') :
    P (mapNodesFields f fs s).2 (mapNodesFields g fs' s').2 ∧
      LikeFields (Q (mapNodesFields f fs s).2 (mapNodesFields g fs' s').2) (mapNodesFields f fs s).1
        (mapNodesFields g fs' s').1 ∧
      Q s s' ≤ Q (mapNodesFields f fs s).2 (mapNodesFields g fs' s').2 := by
  induction hf generalizing s s' with
  | nil => exact ⟨hs, .nil, le_refl _⟩
  | cons first _ ih =>
    obtain ⟨hfirst, hrest⟩ := List.forall_mem_cons.1 hV
    obtain ⟨hP, hlike, hQ⟩ := h.mapNodes first hfirst hs
    obtain ⟨hP', hlike', hQ'⟩ := ih hrest hP
    exact ⟨hP', .cons (hlike.mono hQ') hlike', le_trans hQ hQ'⟩

end

mutual

theorem mapNodes_same (d : Datum) : d.mapNodes (fun r u => (r, u)) () = (d, ()) := by
  match d with
  | .null | .bool _ | .int _ | .text _ | .node _ => rfl
  | .list items => rw [mapNodes, mapNodesAll_same items]
  | .tuple items => rw [mapNodes, mapNodesAll_same items]
  | .mapping entries => rw [mapNodes, mapNodesEntries_same entries]

theorem mapNodesAll_same (ds : List Datum) : mapNodesAll (fun r u => (r, u)) ds () = (ds, ()) := by
  match ds with
  | [] => rfl
  | d :: rest => simp only [mapNodesAll, mapNodes_same d, mapNodesAll_same rest]

theorem mapNodesEntries_same (es : List (Datum × Datum)) :
    mapNodesEntries (fun r u => (r, u)) es () = (es, ()) := by
  match es with
  | [] => rfl
  | (k, v) :: rest =>
    simp only [mapNodesEntries, mapNodes_same k, mapNodes_same v, mapNodesEntries_same rest]

end

theorem mapNodesFields_same (fs : Fields) :
    mapNodesFields (fun r u => (r, u)) fs () = (fs, ()) := by
  induction fs with
  | nil => rfl
  | cons e rest ih => simp only [mapNodesFields, mapNodes_same, ih]

/-- A replacement of nodes keeps a condition on its state, relates each node to what replaces it,
and never takes such a relation back. -/
structure Replaces {σ : Type} (copyNode : Nat → σ → Nat × σ) (V : Nat → Prop) (P : σ → Prop)
    (R : σ → Nat → Nat → Prop) : Prop where
  keeps : ∀ ref s, V ref → P s → P (copyNode ref s).2
  relates : ∀ ref s, V ref → P s → R (copyNode ref s).2 ref (copyNode ref s).1
  mono : ∀ ref s, V ref → P s → ∀ r r', R s r r' → R (copyNode ref s).2 r r'

section

variable {σ : Type} {copyNode : Nat → σ → Nat × σ}
  {V : Nat → Prop} {P : σ → Prop} {R : σ → Nat → Nat → Prop} (h : Replaces copyNode V P R)

include h

theorem Replaces.together :
    GoTogether (fun r (u : Unit) => (r, u)) copyNode V Eq (fun _ => P) (fun _ => R) := by
  rintro r _ - s hV rfl hs
  exact ⟨h.keeps r s hV hs, h.relates r s hV hs, h.mono r s hV hs⟩

theorem Replaces.mapNodes (d : Datum) (s : σ) (hd : ∀ r ∈ d.refs, V r) (hs : P s) :
    P (d.mapNodes copyNode s).2 ∧ Like (R (d.mapNodes copyNode s).2) d (d.mapNodes copyNode s).1 ∧
      R s ≤ R (d.mapNodes copyNode s).2 := by
  have hboth := h.together.mapNodes (.refl d) hd (s := ()) hs
  rwa [mapNodes_same] at hboth

theorem Replaces.mapNodesFields (fs : Fields) (s : σ) (hd : ∀ e ∈ fs, ∀ r ∈ e.2.refs, V r)
    (hs : P s) :
    P (Datum.mapNodesFields copyNode fs s).2 ∧
      LikeFields (R (Datum.mapNodesFields copyNode fs s).2) fs
        (Datum.mapNodesFields copyNode fs s).1 ∧
      R s ≤ R (Datum.mapNodesFields copyNode fs s).2 := by
  have hboth := h.together.mapNodesFields (.refl fs) hd (s := ()) hs
  rwa [mapNodesFields_same] at hboth

end

end Datum

end LangKit
