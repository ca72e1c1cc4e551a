import LangKit.Proofs.Store.Likeness

/-!
# Stores that grow

Nodes can share a field table, so a node is not known by its number alone: a field that is set
through one node is seen through all that have its table. What the operations on a store do is told
here cell by cell and table by table. Adding nodes and copying values leave all cells and tables
from before as they are, and the new nodes have new tables (`Grown`): `Formed.grown_alloc`,
`Formed.grown_copy`. All that is asked of the store is that the table of every node is there
(`Formed`).
-/

namespace LangKit

variable {t other ref : Nat} {fs : Fields} {s : Store}

namespace Store

/-- The field table of every node is there. -/
def Formed (s : Store) : Prop :=
  ∀ ref < s.size, (s.cell ref).table < s.tables.size

/-- A later store with more nodes: the cells and tables from before are as they were, and new nodes
have new tables. -/
structure Grown (s s' : Store) : Prop where
  size : s.size ≤ s'.size
  room : s.tables.size ≤ s'.tables.size
  cell : ∀ ref < s.size, s'.cell ref = s.cell ref
  table : ∀ t < s.tables.size, s'.tables[t]? = s.tables[t]?
  fresh : ∀ ref, s.size ≤ ref → s.tables.size ≤ (s'.cell ref).table

variable {s' s'' : Store} {r : Nat} {kind name : String} {value d : Datum}

theorem Separate.formed (h : s.Separate) : s.Formed := by
  intro ref hr
  rw [h.own ref hr, h.tables]
  exact hr

theorem Grown.refl (s : Store) : Grown s s where
  size := Nat.le_refl _
  room := Nat.le_refl _
  cell _ _ := rfl
  table _ _ := rfl
  fresh _ h := Nat.le_of_eq (congrArg Cell.table (cell_of_le h)).symm

theorem Grown.trans (h : Grown s s') (h' : Grown s' s'') : Grown s s'' where
  size := Nat.le_trans h.size h'.size
  room := Nat.le_trans h.room h'.room
  cell ref hr := (h'.cell ref (Nat.lt_of_lt_of_le hr h.size)).trans (h.cell ref hr)
  table t ht := (h'.table t (Nat.lt_of_lt_of_le ht h.room)).trans (h.table t ht)
  fresh ref hr := by
    by_cases hlt : ref < s'.size
    · rw [h'.cell ref hlt]
      exact h.fresh ref hr
    · exact Nat.le_trans h.room (h'.fresh ref (Nat.le_of_not_lt hlt))

theorem Grown.node (h : Grown s s') (hs : s.Formed) (hr : ref < s.size) :
    s'.node ref = s.node ref := by
  have htable := h.table _ (hs ref hr)
  simp only [Store.node, Store.kind, fields, h.cell ref hr, Array.getD_eq_getD_getElem?, htable]

theorem Grown.kind_eq (h : Grown s s') (hr : ref < s.size) : s'.kind ref = s.kind ref := by
  rw [Store.kind, h.cell ref hr, Store.kind]

theorem Grown.field?_eq (h : Grown s s') (hs : s.Formed) (hr : ref < s.size) (name : String) :
    s'.field? ref name = s.field? ref name := by
  have hfields : s'.fields ref = s.fields ref := congrArg Prod.snd (h.node hs hr)
  rw [Store.field?, hfields, Store.field?]

/-! ## Single operations -/

theorem Formed.alloc (hs : s.Formed) : (s.alloc kind fs).2.Formed := by
  intro r hr
  rw [size_alloc] at hr
  have hroom : (s.alloc kind fs).2.tables.size = s.tables.size + 1 := by simp [Store.alloc]
  rw [hroom]
  by_cases hne : r = s.size
  · rw [hne, cell_alloc_self]
    exact Nat.lt_succ_self _
  · have hlt : r < s.size := by omega
    have hr := hs r hlt
    rw [cell_alloc_of_ne hne, if_pos hlt]
    omega

theorem grown_alloc : Grown s (s.alloc kind fs).2 where
  size := by simp
  room := by simp [Store.alloc]
  cell r hr := by rw [cell_alloc_of_ne (Nat.ne_of_lt hr), if_pos hr]
  table t ht := by
    simp only [Store.alloc, Array.getElem?_push]
    rw [if_neg (Nat.ne_of_lt ht)]
  fresh r hr := by
    by_cases hne : r = s.size
    · exact Nat.le_of_eq (by rw [hne, cell_alloc_self])
    · rw [cell_alloc_of_ne hne, if_neg (Nat.not_lt.2 hr)]
      exact Nat.le_succ _

theorem cell_setKind_of_ne (h : r ≠ ref) : (s.setKind ref kind).cell r = s.cell r := by
  simp only [setKind, cell, Array.getD_eq_getD_getElem?, Array.getElem?_modify]
  rw [if_neg (Ne.symm h)]

theorem table_setKind : ((s.setKind ref kind).cell r).table = (s.cell r).table := by
  by_cases h : r = ref
  · subst h
    simp only [setKind, cell, Array.getD_eq_getD_getElem?, Array.getElem?_modify]
    cases s.cells[r]? <;> rfl
  · rw [cell_setKind_of_ne h]

theorem fields_setKind : (s.setKind ref kind).fields r = s.fields r := by
  rw [fields, table_setKind]
  rfl

theorem Formed.setKind (hs : s.Formed) : (s.setKind ref kind).Formed := by
  intro r hr
  rw [size_setKind] at hr
  rw [table_setKind]
  exact hs r hr

theorem Formed.setField (hs : s.Formed) : (s.setField ref name value).Formed := by
  intro r hr
  have hroom : (s.setField ref name value).tables.size = s.tables.size := by simp [Store.setField]
  rw [cell_setField, hroom]
  exact hs r hr

theorem table_setField_of_ne (h : t ≠ (s.cell ref).table) :
    (s.setField ref name value).tables[t]? = s.tables[t]? := by
  simp only [setField, Array.getElem?_modify]
  rw [if_neg (Ne.symm h)]

/-- Setting a field of a new node is not seen through the nodes from before. -/
theorem Grown.setField (h : Grown s s') (hr : s.size ≤ ref) :
    Grown s (s'.setField ref name value) where
  size := h.size
  room := by simpa [Store.setField] using h.room
  cell r hlt := by rw [cell_setField, h.cell r hlt]
  table t ht := by
    have hfresh := h.fresh ref hr
    rw [table_setField_of_ne (by omega), h.table t ht]
  fresh r hle := by
    rw [cell_setField]
    exact h.fresh r hle

theorem cell_shareTable_of_ne (h : r ≠ ref) : (s.shareTable ref other).cell r = s.cell r := by
  simp only [shareTable, cell, Array.getD_eq_getD_getElem?, Array.getElem?_modify]
  rw [if_neg (Ne.symm h)]

theorem size_shareTable : (s.shareTable ref other).size = s.size := by
  simp [shareTable, size]

theorem Formed.shareTable {other : Nat} (hs : s.Formed) (ho : other < s.size) :
    (s.shareTable ref other).Formed := by
  intro r hr
  rw [size_shareTable] at hr
  have hroom : (s.shareTable ref other).tables.size = s.tables.size := rfl
  rw [hroom]
  by_cases h : r = ref
  · subst h
    have hlt : r < s.cells.size := hr
    simp only [Store.shareTable, cell, Array.getD_eq_getD_getElem?, Array.getElem?_modify]
    rw [Array.getElem?_eq_getElem hlt]
    have hother := hs other ho
    rw [cell, Array.getD_eq_getD_getElem?] at hother
    exact hother
  · rw [cell_shareTable_of_ne h]
    exact hs r hr

end Store

/-! ## Copies -/

/-- A condition that every replacement of a node keeps. -/
theorem Datum.replaces_of_keeps {σ : Type} {copyNode : Nat → σ → Nat × σ} {P : σ → Prop}
    (h : ∀ ref s, P s → P (copyNode ref s).2) :
    Datum.Replaces copyNode (fun _ => True) P fun _ _ _ => True :=
  ⟨fun ref s _ => h ref s, fun _ _ _ _ => trivial, fun _ _ _ _ _ _ => id⟩

/-- A copy under way has only added to a store, and its copies are new. -/
structure Copying.Apart (s : Store) (c : Copying) : Prop where
  formed : c.store.Formed
  grown : Store.Grown s c.store
  tables : ∀ p ∈ c.tables, s.tables.size ≤ p.2 ∧ p.2 < c.store.tables.size

namespace Copying

variable {c : Copying}

theorem Apart.push {kind : String} {t : Nat} (h : c.Apart s) (hlow : s.tables.size ≤ t)
    (hlt : t < c.store.tables.size) {cells : List (Nat × Nat)} :
    Apart s ⟨{ c.store with cells := c.store.cells.push ⟨kind, t⟩ }, cells, c.tables⟩ := by
  have hcell : ∀ r, ({ c.store with cells := c.store.cells.push ⟨kind, t⟩ } : Store).cell r =
      if r = c.store.size then ⟨kind, t⟩ else c.store.cell r := by
    intro r
    simp only [Store.cell, Store.size, Array.getD_eq_getD_getElem?, Array.getElem?_push]
    split <;> rfl
  have hsize := h.grown.size
  refine ⟨?_, ⟨?_, h.grown.room, ?_, h.grown.table, ?_⟩, h.tables⟩
  · intro r hr
    rw [hcell]
    split
    · exact hlt
    · rename_i hne
      refine h.formed r ?_
      simp only [Store.size, Array.size_push] at hr hne ⊢
      omega
  · simp only [Store.size, Array.size_push] at hsize ⊢
    omega
  · intro r hr
    rw [hcell, if_neg (by omega)]
    exact h.grown.cell r hr
  · intro r hr
    rw [hcell]
    split
    · exact hlow
    · exact h.grown.fresh r hr

theorem Apart.setTable (h : c.Apart s) (hlow : s.tables.size ≤ t) :
    Apart s { c with store := { c.store with tables := c.store.tables.set! t fs } } := by
  have hsize : (c.store.tables.set! t fs).size = c.store.tables.size := by simp
  have hcell : ∀ r, ({ c.store with tables := c.store.tables.set! t fs } : Store).cell r =
      c.store.cell r := by
    intro r
    simp only [Store.cell, hsize]
  refine ⟨?_, ⟨h.grown.size, ?_, ?_, ?_, ?_⟩, ?_⟩
  · intro r hr
    rw [hsize, hcell]
    exact h.formed r hr
  · rw [hsize]
    exact h.grown.room
  · intro r hr
    rw [hcell]
    exact h.grown.cell r hr
  · intro t' ht'
    rw [Array.set!_eq_setIfInBounds, Array.getElem?_setIfInBounds_ne (by omega)]
    exact h.grown.table t' ht'
  · intro r hr
    rw [hcell]
    exact h.grown.fresh r hr
  · rw [hsize]
    exact h.tables

theorem Apart.copyNode (h : c.Apart s) (fuel ref : Nat) : (copyNode fuel ref c).2.Apart s := by
  induction fuel generalizing ref c with
  | zero => exact h
  | succ fuel ih =>
    rw [Copying.copyNode]
    split
    · exact h
    · dsimp only
      split
      · rename_i t ht
        obtain ⟨l1, l2, hmem, -⟩ := List.lookup_eq_some_iff.1 ht
        obtain ⟨hlow, hlt⟩ := h.tables ((c.store.cell ref).table, t) (by rw [hmem]; simp)
        exact h.push hlow hlt
      · -- The node and its table are added first, so that what leads back to it finds them.
        have hroom := h.grown.room
        have halloc : Apart s ⟨(c.store.alloc (c.store.cell ref).kind []).2,
            (ref, c.store.size) :: c.cells,
            ((c.store.cell ref).table,
              ((c.store.alloc (c.store.cell ref).kind []).2.cell c.store.size).table) ::
                c.tables⟩ := by
          refine ⟨h.formed.alloc, h.grown.trans Store.grown_alloc, ?_⟩
          intro p hp
          have hsize : (c.store.alloc (c.store.cell ref).kind []).2.tables.size =
              c.store.tables.size + 1 := by simp [Store.alloc]
          rw [hsize]
          rw [Store.cell_alloc_self] at hp
          rcases List.mem_cons.1 hp with rfl | hp
          · exact ⟨hroom, Nat.lt_succ_self _⟩
          · obtain ⟨hlow, hlt⟩ := h.tables p hp
            exact ⟨hlow, Nat.lt_succ_of_lt hlt⟩
        have hlow : s.tables.size ≤
            ((c.store.alloc (c.store.cell ref).kind []).2.cell c.store.size).table := by
          rw [Store.cell_alloc_self]
          exact hroom
        have hfields := ((Datum.replaces_of_keeps (P := Apart s)
          fun ref c hc => ih hc ref).mapNodesFields (c.store.fields ref) _ (fun _ _ _ _ => trivial)
            halloc).1
        exact hfields.setTable hlow

end Copying

namespace Store

variable {d : Datum}

theorem apart_start (hs : s.Formed) : Copying.Apart s ⟨s, [], []⟩ :=
  ⟨hs, .refl s, nofun⟩

theorem replaces_apart (s : Store) :
    Datum.Replaces (Copying.copyNode (s.cells.size + 1)) (fun _ => True) (Copying.Apart s)
      fun _ _ _ => True :=
  Datum.replaces_of_keeps fun ref _ hc => hc.copyNode _ ref

theorem Formed.copy (hs : s.Formed) : (s.copy d).2.Formed ∧ Grown s (s.copy d).2 := by
  have h := ((replaces_apart s).mapNodes d _ (fun _ _ => trivial) (apart_start hs)).1
  exact ⟨h.formed, h.grown⟩

theorem Formed.copyFields (hs : s.Formed) :
    (s.copyFields fs).2.Formed ∧ Grown s (s.copyFields fs).2 := by
  have h := ((replaces_apart s).mapNodesFields fs _ (fun _ _ _ _ => trivial) (apart_start hs)).1
  exact ⟨h.formed, h.grown⟩

theorem fst_copy_node : (s.copy (.node ref)).1 = .node s.size := by
  simp only [copy, Datum.mapNodes, Copying.copyNode, List.lookup_nil]
  rfl

end Store

end LangKit
