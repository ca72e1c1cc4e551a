import LangKit.Store.Copy

/-!
# Stores node by node

As long as every node has a field table of its own (`Store.Separate`), a store is its nodes: each
has a kind and fields (`Store.node`), adding a node leaves the others as they are, and so does
setting the kind or a field of one. Copying a node without nodes in its fields adds one that is like
it: `copy_flat`.
-/

namespace LangKit

/-- Is a value neither nothing nor made of other values? -/
def Datum.isAtom : Datum → Bool
  | .bool _ | .int _ | .text _ => true
  | _ => false

namespace Store

def size (s : Store) : Nat :=
  s.cells.size

def node (s : Store) (ref : Nat) : String × Fields :=
  (s.kind ref, s.fields ref)

/-- Every node has the field table with its own number. -/
structure Separate (s : Store) : Prop where
  tables : s.tables.size = s.cells.size
  own : ∀ ref < s.size, (s.cell ref).table = ref

theorem separate_empty : Separate empty :=
  ⟨rfl, fun _ h => absurd h (Nat.not_lt_zero _)⟩

variable {s : Store} {ref r : Nat} {kind name : String} {fs : Fields} {value : Datum}

theorem cell_of_le (h : s.size ≤ ref) : s.cell ref = ⟨"", s.tables.size⟩ := by
  simp only [cell, Array.getD_eq_getD_getElem?, Array.getElem?_eq_none h, Option.getD_none]

theorem node_of_le (h : s.size ≤ ref) : s.node ref = ("", []) := by
  simp [node, kind, fields, cell_of_le h]

/-! ## Adding a node -/

@[simp] theorem fst_alloc : (s.alloc kind fs).1 = s.size := rfl

@[simp] theorem size_alloc : (s.alloc kind fs).2.size = s.size + 1 := by
  simp [alloc, size]

theorem cell_alloc_of_ne (h : r ≠ s.size) :
    (s.alloc kind fs).2.cell r = if r < s.size then s.cell r else ⟨"", s.tables.size + 1⟩ := by
  simp only [alloc, cell, Array.getD_eq_getD_getElem?, Array.getElem?_push, Array.size_push]
  have hne : r ≠ s.cells.size := h
  rw [if_neg hne]
  by_cases hr : r < s.size
  · have hlt : r < s.cells.size := hr
    simp [hr, hlt]
  · have hge : s.cells.size ≤ r := Nat.le_of_not_lt hr
    simp [hr, hge]

theorem cell_alloc_self : (s.alloc kind fs).2.cell s.size = ⟨kind, s.tables.size⟩ := by
  simp [alloc, cell, size]

theorem Separate.alloc (h : s.Separate) : (s.alloc kind fs).2.Separate where
  tables := by simp [Store.alloc, h.tables]
  own r hr := by
    rw [size_alloc] at hr
    by_cases hne : r = s.size
    · rw [hne, cell_alloc_self]
      exact h.tables
    · have hlt : r < s.size := by omega
      rw [cell_alloc_of_ne hne, if_pos hlt]
      exact h.own r hlt

theorem node_alloc (h : s.Separate) :
    (s.alloc kind fs).2.node r = if r = s.size then (kind, fs) else s.node r := by
  have htables : s.tables.size = s.size := h.tables
  by_cases hr : r = s.size
  · rw [hr, if_pos rfl]
    simp only [node, Store.kind, fields, cell_alloc_self]
    simp [alloc]
  · rw [if_neg hr]
    by_cases hlt : r < s.size
    · simp only [node, Store.kind, fields, cell_alloc_of_ne hr, if_pos hlt]
      have hown := h.own r hlt
      simp only [alloc, hown, Array.getD_eq_getD_getElem?, Array.getElem?_push, htables, if_neg hr]
    · rw [node_of_le (Nat.le_of_not_lt hlt), node_of_le]
      rw [size_alloc]
      omega

/-- A later store, in which the nodes from before are as they were. -/
structure Extends (s s' : Store) : Prop where
  separate : s'.Separate
  size : s.size ≤ s'.size
  node : ∀ ref < s.size, s'.node ref = s.node ref

theorem Extends.refl (h : s.Separate) : Extends s s :=
  ⟨h, Nat.le_refl _, fun _ _ => rfl⟩

theorem Extends.trans (h : Extends s1 s2) (h' : Extends s2 s3) : Extends s1 s3 where
  separate := h'.separate
  size := Nat.le_trans h.size h'.size
  node ref hr := (h'.node ref (Nat.lt_of_lt_of_le hr h.size)).trans (h.node ref hr)

theorem Separate.extends_alloc (h : s.Separate) : Extends s (s.alloc kind fs).2 where
  separate := h.alloc
  size := by simp
  node r hr := by rw [node_alloc h, if_neg (Nat.ne_of_lt hr)]

/-! ## Changing a node -/

@[simp] theorem size_setKind : (s.setKind ref kind).size = s.size := by
  simp [setKind, size]

@[simp] theorem size_setField : (s.setField ref name value).size = s.size := rfl

theorem cell_setKind (hr : ref < s.size) :
    (s.setKind ref kind).cell r = if r = ref then ⟨kind, (s.cell r).table⟩ else s.cell r := by
  have hlt : ref < s.cells.size := hr
  simp only [setKind, cell, Array.getD_eq_getD_getElem?, Array.getElem?_modify]
  by_cases h : ref = r
  · subst h
    simp [hlt]
  · simp [h, Ne.symm h]

theorem Separate.setKind (h : s.Separate) (hr : ref < s.size) : (s.setKind ref kind).Separate where
  tables := by simpa [Store.setKind] using h.tables
  own r hlt := by
    rw [cell_setKind hr]
    rw [size_setKind] at hlt
    split <;> exact h.own r hlt

theorem node_setKind (hr : ref < s.size) :
    (s.setKind ref kind).node r = if r = ref then (kind, s.fields r) else s.node r := by
  simp only [node, Store.kind, fields, cell_setKind hr]
  split <;> rfl

theorem cell_setField : (s.setField ref name value).cell r = s.cell r := by
  simp [setField, cell]

theorem Separate.setField (h : s.Separate) : (s.setField ref name value).Separate where
  tables := by simpa [Store.setField] using h.tables
  own r hr := by
    rw [cell_setField]
    exact h.own r hr

theorem node_setField (h : s.Separate) (hr : ref < s.size) :
    (s.setField ref name value).node r =
      if r = ref then (s.kind r, Assoc.put name value (s.fields r)) else s.node r := by
  have hown := h.own ref hr
  have hlt : ref < s.tables.size := h.tables ▸ hr
  by_cases hne : r = ref
  · subst hne
    simp only [node, Store.kind, fields, cell_setField, if_pos, hown]
    simp only [setField, hown, Array.getD_eq_getD_getElem?, Array.getElem?_modify, if_pos]
    simp [hlt]
  · rw [if_neg hne]
    -- Another node has another table, and what is past the last node has none of them.
    have htable : ref ≠ (s.cell r).table := by
      by_cases hlt' : r < s.size
      · rw [h.own r hlt']
        exact Ne.symm hne
      · rw [cell_of_le (Nat.le_of_not_lt hlt')]
        exact Nat.ne_of_lt hlt
    simp only [node, Store.kind, fields, cell_setField]
    simp only [setField, hown, Array.getD_eq_getD_getElem?, Array.getElem?_modify, if_neg htable]

theorem setField_alloc :
    (s.alloc kind fs).2.setField s.size name value =
      (s.alloc kind (Assoc.put name value fs)).2 := by
  have htables : (s.tables.push fs).modify s.tables.size (Assoc.put name value) =
      s.tables.push (Assoc.put name value fs) := by
    apply Array.ext_getElem?
    intro i
    rw [Array.getElem?_modify, Array.getElem?_push, Array.getElem?_push]
    grind
  rw [setField, cell_alloc_self]
  simp only [alloc, htables]

/-! ## Copies -/

theorem mapNodesFields_atoms {σ : Type} (copyNode : Nat → σ → Nat × σ) (state : σ)
    (h : ∀ e ∈ fs, e.2.isAtom = true) : Datum.mapNodesFields copyNode fs state = (fs, state) := by
  induction fs with
  | nil => rfl
  | cons e rest ih =>
    obtain ⟨name, d⟩ := e
    obtain ⟨hd, hrest⟩ := List.forall_mem_cons.mp h
    have hmap : Datum.mapNodes copyNode d state = (d, state) := by
      cases d <;> first | rfl | cases hd
    simp only [Datum.mapNodesFields, hmap, ih hrest]

theorem copy_flat (hatoms : ∀ e ∈ s.fields ref, e.2.isAtom = true) :
    s.copy (.node ref) = (.node s.size, (s.alloc (s.kind ref) (s.fields ref)).2) := by
  have hkind : (s.cell ref).kind = s.kind ref := rfl
  have hset : (s.tables.push []).set! s.tables.size (s.fields ref) =
      s.tables.push (s.fields ref) := by
    rw [Array.set!_eq_setIfInBounds]
    apply Array.ext_getElem?
    intro i
    rw [Array.getElem?_setIfInBounds, Array.getElem?_push, Array.getElem?_push]
    grind
  unfold copy Datum.mapNodes
  rw [Copying.copyNode]
  simp only [List.lookup_nil, hkind, mapNodesFields_atoms _ _ hatoms, fst_alloc, cell_alloc_self]
  simp only [alloc, hset]

end Store

end LangKit
