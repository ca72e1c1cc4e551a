import LangKit.Proofs.Store.Growth
import Mathlib.Data.List.Nodup
import Mathlib.Data.List.Perm.Subperm

/-!
# What a copy is

A deep copy only adds nodes (`Grown`). Here it is told what the new nodes are: each is the copy of a
node from before, with the same kind and with fields that are alike (`Like`), where a node in a
field has been replaced by its own copy. Two copies share a field table exactly if the nodes that
they were made of do. This is `Store.Copied`, and `Store.copied_copy` and `Store.copied_copyFields`
say that it holds.

While a copy is under way some tables are not filled in yet. `Copying.Faithful` says what holds
then, by induction along the recursion of `Copying.copyNode`. The recursion never runs out of fuel:
a node is put on the list of copies before what it refers to is copied, and the list has no node
twice.
-/

namespace LangKit

open Datum (Like LikeFields Replaces)

variable {l : List (Nat × Nat)} {c : Copying} {V : Nat → Prop}

/-! ## Copies under way -/

namespace Copying

/-- A node has been copied to another one. -/
def Via (cells : List (Nat × Nat)) (ref ref' : Nat) : Prop :=
  (ref, ref') ∈ cells

/-- What holds while a copy of nodes in `V` is under way and the tables in `pending` are not filled
in yet. -/
structure Faithful (s : Store) (V : Nat → Prop) (pending : List Nat) (c : Copying) : Prop where
  apart : c.Apart s
  source : ∀ p ∈ c.cells, V p.1
  fresh : ∀ p ∈ c.cells, s.size ≤ p.2 ∧ p.2 < c.store.size
  kind : ∀ p ∈ c.cells, c.store.kind p.2 = s.kind p.1
  table : ∀ p ∈ c.cells, ((s.cell p.1).table, (c.store.cell p.2).table) ∈ c.tables
  once : (c.cells.map Prod.fst).Nodup
  onto : ∀ ref', s.size ≤ ref' → ref' < c.store.size → ∃ ref, (ref, ref') ∈ c.cells
  injective : ∀ p ∈ c.tables, ∀ q ∈ c.tables, p.1 = q.1 ↔ p.2 = q.2
  filled : ∀ p ∈ c.tables, p.2 ∈ pending ∨
    LikeFields (Via c.cells) (s.tables.getD p.1 []) (c.store.tables.getD p.2 [])

variable {s : Store} {pending : List Nat}

theorem notMem_of_lookup_none (h : l.lookup k = none) : ∀ p ∈ l, p.1 ≠ k := by
  intro p hp hk
  have hne := List.lookup_eq_none_iff.1 h p hp
  rw [hk, bne_self_eq_false] at hne
  cases hne

theorem mem_of_lookup (h : l.lookup k = some v) : (k, v) ∈ l := by
  obtain ⟨l1, l2, rfl, -⟩ := List.lookup_eq_some_iff.1 h
  exact List.mem_append_right _ List.mem_cons_self

theorem cell_push {cell : Cell} (s : Store) (r : Nat) :
    ({ s with cells := s.cells.push cell } : Store).cell r =
      if r = s.size then cell else s.cell r := by
  simp only [Store.cell, Store.size, Array.getD_eq_getD_getElem?, Array.getElem?_push]
  split <;> rfl

theorem once_cons {l : List (Nat × Nat)} (h : (l.map Prod.fst).Nodup) (hnew : l.lookup ref = none) :
    (ref :: l.map Prod.fst).Nodup := by
  refine List.nodup_cons.2 ⟨fun hmem => ?_, h⟩
  obtain ⟨p, hp, rfl⟩ := List.mem_map.1 hmem
  exact notMem_of_lookup_none hnew p hp rfl

theorem Faithful.length_le (h : c.Faithful s V pending) (hV : ∀ ref, V ref → ref < s.size) :
    c.cells.length ≤ s.size := by
  have hsub : c.cells.map Prod.fst ⊆ List.range s.size := by
    intro ref href
    obtain ⟨p, hp, rfl⟩ := List.mem_map.1 href
    exact List.mem_range.2 (hV _ (h.source p hp))
  have hle := (List.subperm_of_subset h.once hsub).length_le
  rwa [List.length_map, List.length_range] at hle

/-- A node whose table has been copied already gets a new cell with the copy of the table. -/
theorem Faithful.push (h : c.Faithful s V pending) (hV : V ref)
    (hnew : c.cells.lookup ref = none) (ht : ((s.cell ref).table, t) ∈ c.tables) :
    Faithful s V pending ⟨{ c.store with cells := c.store.cells.push ⟨s.kind ref, t⟩ },
      (ref, c.store.size) :: c.cells, c.tables⟩ := by
  have hgrown := h.apart.grown.size
  obtain ⟨hlow, hlt⟩ := h.apart.tables _ ht
  have hsize : ({ c.store with cells := c.store.cells.push ⟨s.kind ref, t⟩ } : Store).size =
      c.store.size + 1 := by
    simp [Store.size]
  refine ⟨h.apart.push hlow hlt, ?_, ?_, ?_, ?_, ?_, ?_, h.injective, ?_⟩
  · exact List.forall_mem_cons.2 ⟨hV, h.source⟩
  · rw [hsize]
    refine List.forall_mem_cons.2 ⟨⟨hgrown, Nat.lt_succ_self _⟩, fun p hp => ?_⟩
    obtain ⟨hle, hp⟩ := h.fresh p hp
    exact ⟨hle, Nat.lt_succ_of_lt hp⟩
  · refine List.forall_mem_cons.2 ⟨?_, fun p hp => ?_⟩
    · rw [Store.kind, cell_push, if_pos rfl]
    · rw [Store.kind, cell_push, if_neg (Nat.ne_of_lt (h.fresh p hp).2)]
      exact h.kind p hp
  · refine List.forall_mem_cons.2 ⟨?_, fun p hp => ?_⟩
    · rw [cell_push, if_pos rfl]
      exact ht
    · rw [cell_push, if_neg (Nat.ne_of_lt (h.fresh p hp).2)]
      exact h.table p hp
  · exact once_cons h.once hnew
  · intro ref' hle hlt'
    rw [hsize] at hlt'
    by_cases heq : ref' = c.store.size
    · exact ⟨ref, heq ▸ List.mem_cons_self⟩
    · obtain ⟨r, hr⟩ := h.onto ref' hle (by omega)
      exact ⟨r, List.mem_cons_of_mem _ hr⟩
  · intro p hp
    exact (h.filled p hp).imp_right fun hlike => hlike.mono fun _ _ => List.mem_cons_of_mem _

/-- A node with a table that has not been met gets a new cell and a new table, to be filled in. -/
theorem Faithful.alloc (h : c.Faithful s V pending) (hV : V ref)
    (hnew : c.cells.lookup ref = none) (ht : c.tables.lookup (s.cell ref).table = none) :
    Faithful s V (c.store.tables.size :: pending) ⟨(c.store.alloc (s.kind ref) []).2,
      (ref, c.store.size) :: c.cells, ((s.cell ref).table, c.store.tables.size) :: c.tables⟩ := by
  have hgrown := h.apart.grown.size
  have hroom := h.apart.grown.room
  have hcell : ∀ r < c.store.size, (c.store.alloc (s.kind ref) []).2.cell r = c.store.cell r := by
    intro r hr
    rw [Store.cell_alloc_of_ne (Nat.ne_of_lt hr), if_pos hr]
  have htables : (c.store.alloc (s.kind ref) []).2.tables.size = c.store.tables.size + 1 := by
    simp [Store.alloc]
  refine ⟨⟨h.apart.formed.alloc, h.apart.grown.trans Store.grown_alloc, ?_⟩, ?_, ?_, ?_, ?_,
    ?_, ?_, ?_, ?_⟩
  · rw [htables]
    refine List.forall_mem_cons.2 ⟨⟨hroom, Nat.lt_succ_self _⟩, fun p hp => ?_⟩
    obtain ⟨hlow, hlt⟩ := h.apart.tables p hp
    exact ⟨hlow, Nat.lt_succ_of_lt hlt⟩
  · exact List.forall_mem_cons.2 ⟨hV, h.source⟩
  · rw [Store.size_alloc]
    refine List.forall_mem_cons.2 ⟨⟨hgrown, Nat.lt_succ_self _⟩, fun p hp => ?_⟩
    obtain ⟨hle, hp⟩ := h.fresh p hp
    exact ⟨hle, Nat.lt_succ_of_lt hp⟩
  · refine List.forall_mem_cons.2 ⟨?_, fun p hp => ?_⟩
    · rw [Store.kind, Store.cell_alloc_self]
    · rw [Store.kind, hcell _ (h.fresh p hp).2]
      exact h.kind p hp
  · refine List.forall_mem_cons.2 ⟨?_, fun p hp => ?_⟩
    · rw [Store.cell_alloc_self]
      exact List.mem_cons_self
    · rw [hcell _ (h.fresh p hp).2]
      exact List.mem_cons_of_mem _ (h.table p hp)
  · exact once_cons h.once hnew
  · intro ref' hle hlt'
    rw [Store.size_alloc] at hlt'
    by_cases heq : ref' = c.store.size
    · exact ⟨ref, heq ▸ List.mem_cons_self⟩
    · obtain ⟨r, hr⟩ := h.onto ref' hle (by omega)
      exact ⟨r, List.mem_cons_of_mem _ hr⟩
  · -- The new table is past all tables, and the one that it is a copy of has not been met.
    have hkey := notMem_of_lookup_none ht
    have hval : ∀ p ∈ c.tables, p.2 ≠ c.store.tables.size := fun p hp =>
      Nat.ne_of_lt (h.apart.tables p hp).2
    intro p hp q hq
    rcases List.mem_cons.1 hp with rfl | hp <;> rcases List.mem_cons.1 hq with rfl | hq
    · exact ⟨fun _ => rfl, fun _ => rfl⟩
    · exact ⟨fun e => absurd e.symm (hkey q hq), fun e => absurd e.symm (hval q hq)⟩
    · exact ⟨fun e => absurd e (hkey p hp), fun e => absurd e (hval p hp)⟩
    · exact h.injective p hp q hq
  · refine List.forall_mem_cons.2 ⟨.inl List.mem_cons_self, fun p hp => ?_⟩
    have hget : (c.store.alloc (s.kind ref) []).2.tables.getD p.2 [] =
        c.store.tables.getD p.2 [] := by
      have hlt := (h.apart.tables p hp).2
      simp only [Store.alloc, Array.getD_eq_getD_getElem?, Array.getElem?_push]
      rw [if_neg (Nat.ne_of_lt hlt)]
    rw [hget]
    refine (h.filled p hp).imp (List.mem_cons_of_mem _) fun hlike => ?_
    exact hlike.mono fun _ _ => List.mem_cons_of_mem _

theorem Faithful.setTable (h : c.Faithful s V (t' :: pending))
    (ht : (t, t') ∈ c.tables) (hfs : LikeFields (Via c.cells) (s.tables.getD t []) fs) :
    Faithful s V pending { c with store := { c.store with tables := c.store.tables.set! t' fs } } :=
      by
  obtain ⟨hlow, hlt⟩ := h.apart.tables _ ht
  have hcell : ∀ r, ({ c.store with tables := c.store.tables.set! t' fs } : Store).cell r =
      c.store.cell r := by
    intro r
    simp [Store.cell]
  refine ⟨h.apart.setTable hlow, h.source, h.fresh, ?_, ?_, h.once, h.onto, h.injective, ?_⟩
  · intro p hp
    rw [Store.kind, hcell]
    exact h.kind p hp
  · intro p hp
    rw [hcell]
    exact h.table p hp
  · intro p hp
    by_cases heq : p.2 = t'
    · have hkey := (h.injective p hp _ ht).2 heq
      have hget : (c.store.tables.set! t' fs).getD t' [] = fs := by
        rw [Array.getD_eq_getD_getElem?, Array.set!_eq_setIfInBounds,
          Array.getElem?_setIfInBounds_self, if_pos hlt]
        rfl
      right
      simp only [heq, hget, hkey]
      exact hfs
    · have hget : (c.store.tables.set! t' fs).getD p.2 [] = c.store.tables.getD p.2 [] := by
        rw [Array.getD_eq_getD_getElem?, Array.set!_eq_setIfInBounds,
          Array.getElem?_setIfInBounds_ne (Ne.symm heq), Array.getD_eq_getD_getElem?]
      simp only [hget]
      exact (h.filled p hp).imp_left fun hmem => (List.mem_cons.1 hmem).resolve_left heq

/-- Copying a node keeps the copy faithful and what is known of tables, by induction on the fuel.
There is fuel for all nodes that have no copy yet. -/
theorem replaces_copyNode (hs : s.Formed)
    (closed : ∀ ref, V ref → ref < s.size ∧ ∀ e ∈ s.fields ref, ∀ r ∈ e.2.refs, V r)
    (hfuel : s.size < fuel + n) (pending : List Nat) (known : List (Nat × Nat)) :
    Replaces (copyNode fuel) V
      (fun c => Faithful s V pending c ∧ known ⊆ c.tables ∧ n ≤ c.cells.length)
      (fun c => Via c.cells) := by
  induction fuel generalizing n pending known with
  | zero =>
    have hnone : ∀ c, ¬ (Faithful s V pending c ∧ known ⊆ c.tables ∧ n ≤ c.cells.length) := by
      rintro c ⟨h, -, hn⟩
      have hle := h.length_le fun ref href => (closed ref href).1
      omega
    exact ⟨fun _ c _ h => absurd h (hnone c), fun _ c _ h => absurd h (hnone c),
      fun _ c _ h => absurd h (hnone c)⟩
  | succ fuel ih =>
    have hstep : ∀ ref c, V ref → Faithful s V pending c ∧ known ⊆ c.tables ∧ n ≤ c.cells.length →
        (Faithful s V pending (copyNode (fuel + 1) ref c).2 ∧
          known ⊆ (copyNode (fuel + 1) ref c).2.tables ∧
          n ≤ (copyNode (fuel + 1) ref c).2.cells.length) ∧
        Via (copyNode (fuel + 1) ref c).2.cells ref (copyNode (fuel + 1) ref c).1 ∧
        ∀ r r', Via c.cells r r' → Via (copyNode (fuel + 1) ref c).2.cells r r' := by
      rintro ref c hV ⟨h, hknown, hn⟩
      obtain ⟨hlt, hrefs⟩ := closed ref hV
      have hcell : c.store.cell ref = s.cell ref := h.apart.grown.cell ref hlt
      have hfields : c.store.fields ref = s.fields ref :=
        congrArg Prod.snd (h.apart.grown.node hs hlt)
      rw [copyNode, hcell, hfields]
      split
      · rename_i ref' hfound
        exact ⟨⟨h, hknown, hn⟩, mem_of_lookup hfound, fun _ _ => id⟩
      · rename_i hnew
        dsimp only
        split
        · rename_i t ht
          exact ⟨⟨h.push hV hnew (mem_of_lookup ht), hknown, Nat.le_succ_of_le hn⟩,
            List.mem_cons_self, fun _ _ => List.mem_cons_of_mem _⟩
        · rename_i hnone
          -- The node and its table come first, so that what leads back to it finds them.
          have halloc := h.alloc hV hnew hnone
          have hless : s.size < fuel + (n + 1) := by omega
          obtain ⟨⟨hfaithful, htables, hmore⟩, hlike, hmono⟩ :=
            (ih hless (c.store.tables.size :: pending)
              (((s.cell ref).table, c.store.tables.size) :: known)).mapNodesFields
                (s.fields ref) _ hrefs ⟨halloc, List.cons_subset_cons _ hknown, Nat.succ_le_succ hn⟩
          obtain ⟨htable, hknown'⟩ := List.cons_subset.1 htables
          rw [Store.fst_alloc, Store.cell_alloc_self]
          exact ⟨⟨hfaithful.setTable htable hlike, hknown', Nat.le_of_succ_le hmore⟩,
            hmono ref c.store.size List.mem_cons_self,
              fun r r' hr => hmono r r' (List.mem_cons_of_mem _ hr)⟩
    exact ⟨fun ref c hV h => (hstep ref c hV h).1, fun ref c hV h => (hstep ref c hV h).2.1,
      fun ref c hV h => (hstep ref c hV h).2.2⟩

end Copying

/-! ## Whole copies -/

namespace Store

/-- A store after some of its nodes, all of them in `V`, have been copied: `R` relates nodes to
their copies. -/
structure Copied (s s' : Store) (V : Nat → Prop) (R : Nat → Nat → Prop) : Prop where
  formed : s'.Formed
  grown : Grown s s'
  source : ∀ ref ref', R ref ref' → V ref
  fresh : ∀ ref ref', R ref ref' → s.size ≤ ref' ∧ ref' < s'.size
  once : ∀ ref r r', R ref r → R ref r' → r = r'
  onto : ∀ ref', s.size ≤ ref' → ref' < s'.size → ∃ ref, R ref ref'
  kind : ∀ ref ref', R ref ref' → s'.kind ref' = s.kind ref
  fields : ∀ ref ref', R ref ref' → LikeFields R (s.fields ref) (s'.fields ref')
  table : ∀ ref ref' r r', R ref ref' → R r r' →
    ((s'.cell ref').table = (s'.cell r').table ↔ (s.cell ref).table = (s.cell r).table)

variable {s : Store}

theorem copied_of_faithful (h : c.Faithful s V []) :
    Copied s c.store V fun r r' => (r, r') ∈ c.cells where
  formed := h.apart.formed
  grown := h.apart.grown
  source _ _ hr := h.source _ hr
  fresh _ _ hr := h.fresh _ hr
  once _ _ _ hr hr' := (Prod.mk.inj (List.inj_on_of_nodup_map h.once hr hr' rfl)).2
  onto := h.onto
  kind _ _ hr := h.kind _ hr
  fields _ _ hr := (h.filled _ (h.table _ hr)).resolve_left List.not_mem_nil
  table _ _ _ _ hr hr' := (h.injective _ (h.table _ hr) _ (h.table _ hr')).symm

theorem faithful_start (hs : s.Formed) : Copying.Faithful s V [] ⟨s, [], []⟩ where
  apart := apart_start hs
  source := nofun
  fresh := nofun
  kind := nofun
  table := nofun
  once := List.nodup_nil
  onto _ hle hlt := absurd hlt (Nat.not_lt.2 hle)
  injective := nofun
  filled := nofun

section

variable (hs : s.Formed)
  (closed : ∀ ref, V ref → ref < s.size ∧ ∀ e ∈ s.fields ref, ∀ r ∈ e.2.refs, V r)

include hs closed

/-- A deep copy adds copies of nodes, and the copied value is alike. -/
theorem copied_copy (hd : ∀ r ∈ d.refs, V r) :
    ∃ R, Copied s (s.copy d).2 V R ∧ Like R d (s.copy d).1 := by
  obtain ⟨⟨hfaithful, -⟩, hlike, -⟩ :=
    (Copying.replaces_copyNode hs closed (Nat.lt_succ_self _) [] []).mapNodes d _ hd
      ⟨faithful_start hs, List.nil_subset _, Nat.le_refl 0⟩
  exact ⟨_, copied_of_faithful hfaithful, hlike⟩

theorem copied_copyFields (hfs : ∀ e ∈ fs, ∀ r ∈ e.2.refs, V r) :
    ∃ R, Copied s (s.copyFields fs).2 V R ∧ LikeFields R fs (s.copyFields fs).1 := by
  obtain ⟨⟨hfaithful, -⟩, hlike, -⟩ :=
    (Copying.replaces_copyNode hs closed (Nat.lt_succ_self _) [] []).mapNodesFields fs _ hfs
      ⟨faithful_start hs, List.nil_subset _, Nat.le_refl 0⟩
  exact ⟨_, copied_of_faithful hfaithful, hlike⟩

end

end Store

end LangKit
