import LangKit.Proofs.Store.Copies

/-!
# Nodes that share a table

What the operations on a store do to a single node when nodes may share field tables: setting a
field of one node sets it for all nodes with its table. As long as no two nodes share a table
(`Store.OwnTables`) an operation changes the node that it is applied to and no other. Only giving a
node the table of another one ends this: adding, copying and changing nodes keep it, and none of the
operations on a store that is in form brings it back.
-/

namespace LangKit.Store

/-- No two nodes share a field table. -/
def OwnTables (s : Store) : Prop :=
  ∀ r < s.size, ∀ r' < s.size, (s.cell r).table = (s.cell r').table → r = r'

variable {s s' : Store} {ref r other : Nat} {kind name : String} {fs : Fields} {value : Datum}

/-! ## Single nodes -/

theorem kind_alloc_self : (s.alloc kind fs).2.kind s.size = kind := by
  rw [Store.kind, cell_alloc_self]

theorem fields_alloc_self : (s.alloc kind fs).2.fields s.size = fs := by
  rw [fields, cell_alloc_self]
  simp [alloc]

theorem kind_setKind_self (hr : ref < s.size) : (s.setKind ref kind).kind ref = kind := by
  rw [Store.kind, cell_setKind hr, if_pos rfl]

theorem setKind_self : s.setKind ref (s.kind ref) = s := by
  have hcells : s.cells.modify ref (fun c => { c with kind := s.kind ref }) = s.cells := by
    refine Array.ext_getElem? fun i => ?_
    rw [Array.getElem?_modify]
    split
    · rename_i heq
      subst heq
      cases hget : s.cells[ref]? with
      | none => rfl
      | some c => simp [Store.kind, Store.cell, Array.getD_eq_getD_getElem?, hget]
    · rfl
  rw [setKind, hcells]

theorem kind_setKind_of_ne (h : r ≠ ref) : (s.setKind ref kind).kind r = s.kind r := by
  rw [Store.kind, cell_setKind_of_ne h, Store.kind]

theorem kind_setField : (s.setField ref name value).kind r = s.kind r := by
  rw [Store.kind, cell_setField, Store.kind]

theorem fields_setField (hs : s.Formed) (hr : ref < s.size) :
    (s.setField ref name value).fields r =
      if (s.cell r).table = (s.cell ref).table then Assoc.put name value (s.fields r)
      else s.fields r := by
  have hlt := hs ref hr
  rw [fields, cell_setField]
  split
  · rename_i heq
    simp only [setField, fields, heq, Array.getD_eq_getD_getElem?, Array.getElem?_modify, if_pos]
    simp [hlt]
  · rename_i hne
    rw [fields, Array.getD_eq_getD_getElem?, table_setField_of_ne hne, Array.getD_eq_getD_getElem?]

theorem cell_shareTable_self (hr : ref < s.size) :
    (s.shareTable ref other).cell ref = ⟨s.kind ref, (s.cell other).table⟩ := by
  have hlt : ref < s.cells.size := hr
  simp only [shareTable, Store.kind, cell, Array.getD_eq_getD_getElem?, Array.getElem?_modify,
    if_pos]
  simp [hlt]

theorem kind_shareTable : (s.shareTable ref other).kind r = s.kind r := by
  by_cases h : r = ref
  · subst h
    by_cases hr : r < s.size
    · rw [Store.kind, cell_shareTable_self hr]
    · have hle : (s.shareTable r other).size ≤ r := by
        rw [size_shareTable]
        exact Nat.le_of_not_lt hr
      rw [Store.kind, cell_of_le hle, Store.kind, cell_of_le (Nat.le_of_not_lt hr)]
  · rw [Store.kind, cell_shareTable_of_ne h, Store.kind]

theorem fields_shareTable_self (hr : ref < s.size) :
    (s.shareTable ref other).fields ref = s.fields other := by
  rw [fields, cell_shareTable_self hr]
  rfl

theorem fields_shareTable_of_ne (h : r ≠ ref) : (s.shareTable ref other).fields r = s.fields r := by
  rw [fields, cell_shareTable_of_ne h]
  rfl

/-! ## Tables of their own -/

theorem OwnTables.of_grown (h : s'.OwnTables) (hg : Grown s s') : s.OwnTables := by
  intro r hr r' hr' heq
  refine h r (Nat.lt_of_lt_of_le hr hg.size) r' (Nat.lt_of_lt_of_le hr' hg.size) ?_
  rw [hg.cell r hr, hg.cell r' hr', heq]

theorem ownTables_setKind : (s.setKind ref kind).OwnTables ↔ s.OwnTables := by
  simp only [OwnTables, size_setKind, table_setKind]

theorem not_ownTables_shareTable (hr : ref < s.size) (ho : other < s.size) (hne : ref ≠ other) :
    ¬ (s.shareTable ref other).OwnTables := by
  intro h
  refine hne (h ref ?_ other ?_ ?_)
  · rwa [size_shareTable]
  · rwa [size_shareTable]
  · rw [cell_shareTable_self hr, cell_shareTable_of_ne (Ne.symm hne)]

theorem shareTable_self (hr : ref < s.size) : s.shareTable ref ref = s := by
  have hcells : (s.cells.modify ref fun c => { c with table := (s.cell ref).table }) = s.cells := by
    apply Array.ext_getElem?
    intro i
    rw [Array.getElem?_modify]
    split
    · rename_i heq
      subst heq
      have hlt : ref < s.cells.size := hr
      simp [cell, Array.getD_eq_getD_getElem?, hlt]
    · rfl
  simp only [shareTable, hcells]

end LangKit.Store
