import LangKit.Proofs.Parallel.Bridges
import LangKit.Proofs.Parallel.Texts

/-!
# Programs at another place of the store

A program that is run in a session stands in the store behind what earlier calls have left there.
Run in a new session, it stands behind the inputs only. The two stores correspond if they have the
same from there on, with the numbers of nodes and tables shifted (`Relocated`). All changes of a
store keep this up. For deep copies this takes an argument, since they are made with as much fuel as
there are nodes: a copy adds a node to its list in each step of the recursion, and the list has at
most as many entries as the program has nodes, so the fuel never ends (`copyNode_alike`).
-/

namespace LangKit.Script.Parallel

open Store

variable {fs fs' : Fields} {s' : Store} {k r q r' : Nat} {V : Nat → Prop}

/-! ## Numbers that are shifted -/

/-- Two numbers lie equally far behind two others. -/
def Shifted (k k' r r' : Nat) : Prop :=
  ∃ i, r = k + i ∧ r' = k' + i

section

variable {k' q' : Nat}

theorem shifted_self (k k' : Nat) : Shifted k k' k k' :=
  ⟨0, rfl, rfl⟩

section

variable (h : Shifted k k' r r')

include h

theorem Shifted.le : k ≤ r := by
  obtain ⟨i, rfl, -⟩ := h
  exact Nat.le_add_right k i

theorem Shifted.le' : k' ≤ r' := by
  obtain ⟨i, -, rfl⟩ := h
  exact Nat.le_add_right k' i

theorem Shifted.succ : Shifted k k' (r + 1) (r' + 1) := by
  obtain ⟨i, rfl, rfl⟩ := h
  exact ⟨i + 1, rfl, rfl⟩

theorem Shifted.eq_iff (hq : Shifted k k' q q') : r = q ↔ r' = q' := by
  obtain ⟨i, rfl, rfl⟩ := h
  obtain ⟨j, rfl, rfl⟩ := hq
  omega

theorem Shifted.lt_iff (hq : Shifted k k' q q') : r < q ↔ r' < q' := by
  obtain ⟨i, rfl, rfl⟩ := h
  obtain ⟨j, rfl, rfl⟩ := hq
  omega

end

end

/-! ## Arrays that are shifted -/

section

variable {α : Type} {R : α → α → Prop} {k' n n' : Nat} {a a' base : Array α} {x x' : α}

/-- Two arrays have the same behind two places, up to a relation. -/
structure Aligned (R : α → α → Prop) (k k' : Nat) (a a' : Array α) : Prop where
  size : Shifted k k' a.size a'.size
  entry : ∀ {n n' x x'}, Shifted k k' n n' → a[n]? = some x → a'[n']? = some x' → R x x'

structure BeginsWith (base a : Array α) : Prop where
  size : base.size ≤ a.size
  entry : ∀ n < base.size, a[n]? = base[n]?

theorem Aligned.push (h : Aligned R k k' a a') (hx : R x x') :
    Aligned R k k' (a.push x) (a'.push x') where
  size := by
    rw [Array.size_push, Array.size_push]
    exact h.size.succ
  entry hn hy hy' := by
    rw [Array.getElem?_push] at hy hy'
    split at hy
    · rename_i hlast
      rw [if_pos ((hn.eq_iff h.size).1 hlast)] at hy'
      obtain rfl := Option.some.inj hy
      obtain rfl := Option.some.inj hy'
      exact hx
    · rename_i hlast
      rw [if_neg fun hlast' => hlast ((hn.eq_iff h.size).2 hlast')] at hy'
      exact h.entry hn hy hy'

section

variable (h : Aligned R k k' a a') (hn : Shifted k k' n n')
include h hn

theorem Aligned.modify (hf : ∀ x x', a[n]? = some x → R x x' → R (f x) (f' x')) :
    Aligned R k k' (a.modify n f) (a'.modify n' f') where
  size := by
    rw [Array.size_modify, Array.size_modify]
    exact h.size
  entry hm hy hy' := by
    rw [Array.getElem?_modify] at hy hy'
    split at hy
    · rename_i hsame
      obtain rfl := hsame
      rw [if_pos ((hn.eq_iff hm).1 rfl)] at hy'
      obtain ⟨x, hx, rfl⟩ := Option.map_eq_some_iff.1 hy
      obtain ⟨x', hx', rfl⟩ := Option.map_eq_some_iff.1 hy'
      exact hf x x' hx (h.entry hm hx hx')
    · rename_i hsame
      rw [if_neg fun hsame' => hsame ((hn.eq_iff hm).2 hsame')] at hy'
      exact h.entry hm hy hy'

theorem Aligned.set (hx : R x x') : Aligned R k k' (a.set! n x) (a'.set! n' x') where
  size := by simpa using h.size
  entry hm hy hy' := by
    rw [Array.set!_eq_setIfInBounds, Array.getElem?_setIfInBounds] at hy hy'
    split at hy
    · rename_i hsame
      obtain rfl := hsame
      rw [if_pos ((hn.eq_iff hm).1 rfl)] at hy'
      split at hy
      · split at hy'
        · obtain rfl := Option.some.inj hy
          obtain rfl := Option.some.inj hy'
          exact hx
        · cases hy'
      · cases hy
    · rename_i hsame
      rw [if_neg fun hsame' => hsame ((hn.eq_iff hm).2 hsame')] at hy'
      exact h.entry hm hy hy'

/-- What lies behind the two places is there in both arrays or in none. -/
theorem Aligned.getD (hx : R x x') : R (a.getD n x) (a'.getD n' x') := by
  rw [Array.getD_eq_getD_getElem?, Array.getD_eq_getD_getElem?]
  by_cases hlt : n < a.size
  · have hlt' : n' < a'.size := (hn.lt_iff h.size).1 hlt
    rw [Array.getElem?_eq_getElem hlt, Array.getElem?_eq_getElem hlt']
    exact h.entry hn (Array.getElem?_eq_getElem hlt) (Array.getElem?_eq_getElem hlt')
  · have hge' : a'.size ≤ n' := Nat.le_of_not_lt fun hlt' => hlt ((hn.lt_iff h.size).2 hlt')
    rw [Array.getElem?_eq_none (Nat.le_of_not_lt hlt), Array.getElem?_eq_none hge']
    exact hx

end

theorem BeginsWith.refl (a : Array α) : BeginsWith a a :=
  ⟨Nat.le_refl _, fun _ _ => rfl⟩

theorem BeginsWith.trans (h : BeginsWith a1 a2) (h' : BeginsWith a2 a3) :
    BeginsWith a1 a3 :=
  ⟨Nat.le_trans h.size h'.size,
    fun n hn => (h'.entry n (Nat.lt_of_lt_of_le hn h.size)).trans (h.entry n hn)⟩

theorem BeginsWith.push (h : BeginsWith base a) (x : α) : BeginsWith base (a.push x) := by
  refine ⟨?_, fun n hn => ?_⟩
  · rw [Array.size_push]
    exact Nat.le_succ_of_le h.size
  · rw [Array.getElem?_push, if_neg (Nat.ne_of_lt (Nat.lt_of_lt_of_le hn h.size))]
    exact h.entry n hn

theorem BeginsWith.modify (h : BeginsWith base a) (hn : base.size ≤ n) (f : α → α) :
    BeginsWith base (a.modify n f) := by
  refine ⟨?_, fun m hm => ?_⟩
  · rw [Array.size_modify]
    exact h.size
  · rw [Array.getElem?_modify, if_neg (Nat.ne_of_gt (Nat.lt_of_lt_of_le hm hn))]
    exact h.entry m hm

theorem BeginsWith.set (h : BeginsWith base a) (hn : base.size ≤ n) (x : α) :
    BeginsWith base (a.set! n x) := by
  refine ⟨?_, fun m hm => ?_⟩
  · simpa using h.size
  · rw [Array.set!_eq_setIfInBounds, Array.getElem?_setIfInBounds,
      if_neg (Nat.ne_of_gt (Nat.lt_of_lt_of_le hm hn))]
    exact h.entry m hm

end

/-! ## Stores that are shifted -/

structure Rests (base s : Store) : Prop where
  cells : BeginsWith base.cells s.cells
  tables : BeginsWith base.tables s.tables

/-- Two stores that rest on others have the same nodes behind them. -/
structure Relocated (b b' s s' : Store) : Prop where
  rests : Rests b s
  rests' : Rests b' s'
  cells : Aligned (fun c c' : Cell => c'.kind = c.kind ∧
    Shifted b.tables.size b'.tables.size c.table c'.table) b.size b'.size s.cells s'.cells
  tables : Aligned (Datum.LikeFields (Shifted b.size b'.size)) b.tables.size b'.tables.size
    s.tables s'.tables

section

variable {b b' s base : Store} {q' t t' : Nat} {kind name : String} {d d' : Datum}

theorem Rests.refl (s : Store) : Rests s s :=
  ⟨.refl _, .refl _⟩

theorem Rests.trans (h : Rests s1 s2) (h' : Rests s2 s3) : Rests s1 s3 :=
  ⟨h.cells.trans h'.cells, h.tables.trans h'.tables⟩

theorem Rests.cell (h : Rests base s) (hr : r < base.size) : s.cell r = base.cell r := by
  have hlt : r < base.cells.size := hr
  simp only [Store.cell, Array.getD_eq_getD_getElem?, h.cells.entry r hlt,
    Array.getElem?_eq_getElem hlt, Option.getD_some]

theorem Rests.node (h : Rests base s) (hb : base.Formed) (hr : r < base.size) :
    s.node r = base.node r := by
  have htable := h.tables.entry _ (hb r hr)
  simp only [Store.node, Store.kind, fields, h.cell hr, Array.getD_eq_getD_getElem?, htable]

theorem relocated_start (b b' : Store) : Relocated b b' b b' where
  rests := .refl b
  rests' := .refl b'
  cells := by
    refine ⟨shifted_self _ _, fun hn hx _ => ?_⟩
    rw [Array.getElem?_eq_none hn.le] at hx
    cases hx
  tables := by
    refine ⟨shifted_self _ _, fun hn hx _ => ?_⟩
    rw [Array.getElem?_eq_none hn.le] at hx
    cases hx

variable (h : Relocated b b' s s')

include h

theorem Relocated.size : Shifted b.size b'.size s.size s'.size :=
  h.cells.size

theorem Relocated.cell (hr : Shifted b.size b'.size r r') :
    (s'.cell r').kind = (s.cell r).kind ∧
      Shifted b.tables.size b'.tables.size (s.cell r).table (s'.cell r').table :=
  h.cells.getD hr ⟨rfl, h.tables.size⟩

theorem Relocated.kind_eq (hr : Shifted b.size b'.size r r') : s'.kind r' = s.kind r :=
  (h.cell hr).1

theorem Relocated.fields_like (hr : Shifted b.size b'.size r r') :
    Datum.LikeFields (Shifted b.size b'.size) (s.fields r) (s'.fields r') :=
  h.tables.getD (h.cell hr).2 .nil

theorem Relocated.nodeText_eq (n : Nat) (hr : Shifted b.size b'.size r r') :
    s'.nodeText n r' = s.nodeText n r := by
  induction n generalizing r r' with
  | zero => rfl
  | succ n ih =>
    have htexts : ∀ q q', Shifted b.size b'.size q q' → s.nodeText n q = s'.nodeText n q' :=
      fun _ _ hq => (ih hq).symm
    rw [nodeText, nodeText, Datum.lasting_eq.fieldTexts htexts (h.fields_like hr), h.kind_eq hr]

/-- Values have the same texts in both stores, although the stores differ in size. -/
theorem Relocated.textOf_eq (hd : Datum.Like (Shifted b.size b'.size) d d') :
    s'.textOf d' = s.textOf d := by
  refine (Datum.lasting_eq.text (fun r r' hr => (?_ : _ = _).symm) hd).symm
  have hleft : s.size < max s.size s'.size + 1 := by omega
  have hright : s'.size < max s.size s'.size + 1 := by omega
  calc s'.nodeText (s'.size + 1) r' = s'.nodeText (max s.size s'.size + 1) r' :=
        (nodeText_of_size_lt hright r').symm
    _ = s.nodeText (max s.size s'.size + 1) r := h.nodeText_eq _ hr
    _ = s.nodeText (s.size + 1) r := nodeText_of_size_lt hleft r

/-! ### Changes -/

theorem Relocated.pushCell (ht : Shifted b.tables.size b'.tables.size t t') :
    Relocated b b' { s with cells := s.cells.push ⟨kind, t⟩ }
      { s' with cells := s'.cells.push ⟨kind, t'⟩ } where
  rests := ⟨h.rests.cells.push _, h.rests.tables⟩
  rests' := ⟨h.rests'.cells.push _, h.rests'.tables⟩
  cells := h.cells.push ⟨rfl, ht⟩
  tables := h.tables

theorem Relocated.alloc (hfs : Datum.LikeFields (Shifted b.size b'.size) fs fs') :
    Relocated b b' (s.alloc kind fs).2 (s'.alloc kind fs').2 where
  rests := ⟨h.rests.cells.push _, h.rests.tables.push _⟩
  rests' := ⟨h.rests'.cells.push _, h.rests'.tables.push _⟩
  cells := h.cells.push ⟨rfl, h.tables.size⟩
  tables := h.tables.push hfs

theorem Relocated.setTable (ht : Shifted b.tables.size b'.tables.size t t')
    (hfs : Datum.LikeFields (Shifted b.size b'.size) fs fs') :
    Relocated b b' { s with tables := s.tables.set! t fs }
      { s' with tables := s'.tables.set! t' fs' } where
  rests := ⟨h.rests.cells, h.rests.tables.set ht.le fs⟩
  rests' := ⟨h.rests'.cells, h.rests'.tables.set ht.le' fs'⟩
  cells := h.cells
  tables := h.tables.set ht hfs

theorem Relocated.setKind (hr : Shifted b.size b'.size r r') :
    Relocated b b' (s.setKind r kind) (s'.setKind r' kind) where
  rests := ⟨h.rests.cells.modify hr.le fun c => ⟨kind, c.table⟩, h.rests.tables⟩
  rests' := ⟨h.rests'.cells.modify hr.le' fun c => ⟨kind, c.table⟩, h.rests'.tables⟩
  cells := by
    dsimp only [Store.setKind]
    refine h.cells.modify hr fun _ _ _ hc => ?_
    exact ⟨rfl, hc.2⟩
  tables := h.tables

theorem Relocated.setField (hr : Shifted b.size b'.size r r')
    (hd : Datum.Like (Shifted b.size b'.size) d d') :
    Relocated b b' (s.setField r name d) (s'.setField r' name d') where
  rests := ⟨h.rests.cells, h.rests.tables.modify (h.cell hr).2.le _⟩
  rests' := ⟨h.rests'.cells, h.rests'.tables.modify (h.cell hr).2.le' _⟩
  cells := h.cells
  tables := h.tables.modify (h.cell hr).2 fun _ _ _ hfs => LikeFields.put hfs name hd

theorem Relocated.shareTable (hr : Shifted b.size b'.size r r') (hq : Shifted b.size b'.size q q') :
    Relocated b b' (s.shareTable r q) (s'.shareTable r' q') where
  rests := ⟨h.rests.cells.modify hr.le fun c => ⟨c.kind, (s.cell q).table⟩, h.rests.tables⟩
  rests' := ⟨h.rests'.cells.modify hr.le' fun c => ⟨c.kind, (s'.cell q').table⟩, h.rests'.tables⟩
  cells := by
    dsimp only [Store.shareTable]
    refine h.cells.modify hr fun _ _ _ hc => ?_
    exact ⟨hc.1, (h.cell hq).2⟩
  tables := h.tables

end

/-! ## Copies -/

def PairsShifted (k k' : Nat) (l l' : List (Nat × Nat)) : Prop :=
  List.Forall₂ (fun p p' => Shifted k k' p.1 p'.1 ∧ Shifted k k' p.2 p'.2) l l'

theorem PairsShifted.lookup {k k' : Nat} {l l' : List (Nat × Nat)} (h : PairsShifted k k' l l')
    {r r' : Nat} (hr : Shifted k k' r r') :
    (l.lookup r = none ∧ l'.lookup r' = none) ∨
      ∃ q q', l.lookup r = some q ∧ l'.lookup r' = some q' ∧ Shifted k k' q q' := by
  induction h with
  | nil => exact .inl ⟨rfl, rfl⟩
  | @cons p p' _ _ first _ ih =>
    obtain ⟨key, value⟩ := p
    obtain ⟨key', value'⟩ := p'
    simp only [List.lookup_cons]
    by_cases heq : r = key
    · have heq' : r' = key' := (hr.eq_iff first.1).1 heq
      rw [beq_iff_eq.2 heq, beq_iff_eq.2 heq']
      exact .inr ⟨value, value', rfl, rfl, first.2⟩
    · have hne' : r' ≠ key' := fun heq' => heq ((hr.eq_iff first.1).2 heq')
      rw [beq_eq_false_iff_ne.2 heq, beq_eq_false_iff_ne.2 hne']
      exact ih

/-- Two copies under way, of nodes in `V` of the store `s`. At least `n` nodes have been met. -/
structure CopyingAlike (b b' s : Store) (V : Nat → Prop) (n : Nat) (c c' : Copying) : Prop where
  stores : Relocated b b' c.store c'.store
  cells : PairsShifted b.size b'.size c.cells c'.cells
  tables : PairsShifted b.tables.size b'.tables.size c.tables c'.tables
  rests : Rests s c.store
  once : (c.cells.map (·.1)).Nodup
  source : ∀ p ∈ c.cells, V p.1
  count : n ≤ c.cells.length

section

variable {b b' s : Store} {n : Nat} {c c' : Copying}

theorem CopyingAlike.mono (h : CopyingAlike b b' s V k c c') (hn : n ≤ k) :
    CopyingAlike b b' s V n c c' :=
  { h with count := Nat.le_trans hn h.count }

theorem CopyingAlike.le (h : CopyingAlike b b' s V n c c')
    (hV : ∀ r, V r → b.size ≤ r ∧ r < s.size) :
    n ≤ s.size - b.size := by
  have hsubset : c.cells.map (·.1) ⊆ List.range' b.size (s.size - b.size) := by
    intro r hr
    obtain ⟨p, hp, rfl⟩ := List.mem_map.1 hr
    obtain ⟨hle, hlt⟩ := hV p.1 (h.source p hp)
    rw [List.mem_range'_1]
    omega
  calc n ≤ c.cells.length := h.count
    _ = (c.cells.map (·.1)).length := (List.length_map _).symm
    _ ≤ (List.range' b.size (s.size - b.size)).length :=
      (List.subperm_of_subset h.once hsubset).length_le
    _ = s.size - b.size := List.length_range'

/-- A node that has not been met gets a new cell and a new table. -/
theorem CopyingAlike.alloc (h : CopyingAlike b b' s V n c c') (hr : V r)
    (hrel : Shifted b.size b'.size r r') (hnew : c.cells.lookup r = none) (kind : String) :
    CopyingAlike b b' s V (n + 1)
      ⟨(c.store.alloc kind []).2, (r, c.store.size) :: c.cells,
        ((c.store.cell r).table, c.store.tables.size) :: c.tables⟩
      ⟨(c'.store.alloc kind []).2, (r', c'.store.size) :: c'.cells,
        ((c'.store.cell r').table, c'.store.tables.size) :: c'.tables⟩ where
  stores := h.stores.alloc .nil
  cells := .cons ⟨hrel, h.stores.size⟩ h.cells
  tables := .cons ⟨(h.stores.cell hrel).2, h.stores.tables.size⟩ h.tables
  rests := ⟨h.rests.cells.push _, h.rests.tables.push _⟩
  once := Copying.once_cons h.once hnew
  source := List.forall_mem_cons.2 ⟨hr, h.source⟩
  count := Nat.succ_le_succ h.count

theorem CopyingAlike.setTable (h : CopyingAlike b b' s V n c c') {fs fs' : Fields}
    (ht : Shifted b.tables.size b'.tables.size t t') (hnew : s.tables.size ≤ t)
    (hfs : Datum.LikeFields (Shifted b.size b'.size) fs fs') :
    CopyingAlike b b' s V n { c with store := { c.store with tables := c.store.tables.set! t fs } }
      { c' with store := { c'.store with tables := c'.store.tables.set! t' fs' } } :=
  { h with
    stores := h.stores.setTable ht hfs
    rests := ⟨h.rests.cells, h.rests.tables.set hnew fs⟩ }

/-- Two copies of nodes go together, by induction on the fuel. That the fuel does not end is known
from the number of nodes that have been met. -/
theorem copyNode_alike (hs : s.Formed) (hV : ∀ r, V r → b.size ≤ r ∧ r < s.size)
    (closed : ∀ r, V r → ∀ e ∈ s.fields r, ∀ q ∈ e.2.refs, V q) (fuel fuel' n : Nat)
    (hfuel : s.size - b.size < fuel + n) (hfuel' : s.size - b.size < fuel' + n) :
    Datum.GoTogether (Copying.copyNode fuel) (Copying.copyNode fuel') V (Shifted b.size b'.size)
      (CopyingAlike b b' s V n) fun _ _ => Shifted b.size b'.size := by
  induction fuel generalizing fuel' n with
  | zero =>
    intro r r' c c' _ _ h
    have hle := h.le hV
    omega
  | succ fuel ih =>
    intro r r' c c' hr hrel h
    have hle := h.le hV
    cases fuel' with
    | zero => omega
    | succ fuel' =>
      rw [Copying.copyNode, Copying.copyNode]
      rcases h.cells.lookup hrel with ⟨hnone, hnone'⟩ | ⟨q, q', hq, hq', hqq⟩
      · rw [hnone, hnone']
        obtain ⟨hkind, htable⟩ := h.stores.cell hrel
        dsimp only
        rcases h.tables.lookup htable with ⟨hnew, hnew'⟩ | ⟨t, t', ht, ht', htt⟩
        · rw [hnew, hnew', hkind]
          have hfields : c.store.fields r = s.fields r :=
            congrArg Prod.snd (h.rests.node hs (hV r hr).2)
          obtain ⟨hcopy, hlike, -⟩ := (ih fuel' (n + 1) (by omega) (by omega)).mapNodesFields
            (h.stores.fields_like hrel)
            (hfields ▸ closed r hr) (h.alloc hr hrel hnone (c.store.cell r).kind)
          dsimp only
          rw [fst_alloc, fst_alloc, cell_alloc_self, cell_alloc_self]
          exact ⟨(hcopy.setTable h.stores.tables.size h.rests.tables.size hlike).mono
            (Nat.le_succ n), h.stores.size, le_refl _⟩
        · rw [ht, ht', hkind]
          refine ⟨⟨h.stores.pushCell htt, .cons ⟨hrel, h.stores.size⟩ h.cells, h.tables,
            ⟨h.rests.cells.push _, h.rests.tables⟩, Copying.once_cons h.once hnone,
            List.forall_mem_cons.2 ⟨hr, h.source⟩, Nat.le_succ_of_le h.count⟩,
              h.stores.size, le_refl _⟩
      · rw [hq, hq']
        exact ⟨h, hqq, le_refl _⟩

theorem copyingAlike_start (h : Relocated b b' s s') :
    CopyingAlike b b' s V 0 ⟨s, [], []⟩ ⟨s', [], []⟩ :=
  ⟨h, .nil, .nil, .refl s, List.nodup_nil, nofun, Nat.le_refl 0⟩

section

variable {s' : Store} (h : Relocated b b' s s')
  (hs : s.Formed) (hV : ∀ r, V r → b.size ≤ r ∧ r < s.size)
  (closed : ∀ r, V r → ∀ e ∈ s.fields r, ∀ q ∈ e.2.refs, V q)
include h hs hV closed

theorem copyNode_whole :
    Datum.GoTogether (Copying.copyNode (s.cells.size + 1)) (Copying.copyNode (s'.cells.size + 1)) V
      (Shifted b.size b'.size) (CopyingAlike b b' s V 0) fun _ _ => Shifted b.size b'.size := by
  obtain ⟨i, hsize, hsize'⟩ := h.size
  have hleft : s.size - b.size < s.cells.size + 1 + 0 := by
    change s.size - b.size < s.size + 1 + 0
    omega
  have hright : s.size - b.size < s'.cells.size + 1 + 0 := by
    change s.size - b.size < s'.size + 1 + 0
    omega
  exact copyNode_alike hs hV closed _ _ 0 hleft hright

theorem Relocated.copy (hd : ∀ r ∈ d.refs, V r) (hlike : Datum.Like (Shifted b.size b'.size) d d') :
    Relocated b b' (s.copy d).2 (s'.copy d').2 ∧
      Datum.Like (Shifted b.size b'.size) (s.copy d).1 (s'.copy d').1 := by
  obtain ⟨hcopy, hlike, -⟩ :=
    (copyNode_whole h hs hV closed).mapNodes hlike hd (copyingAlike_start h)
  exact ⟨hcopy.stores, hlike⟩

theorem Relocated.copyFields {fs fs' : Fields} (hfs : ∀ e ∈ fs, ∀ r ∈ e.2.refs, V r)
    (hlike : Datum.LikeFields (Shifted b.size b'.size) fs fs') :
    Relocated b b' (s.copyFields fs).2 (s'.copyFields fs').2 ∧
      Datum.LikeFields (Shifted b.size b'.size) (s.copyFields fs).1 (s'.copyFields fs').1 := by
  obtain ⟨hcopy, hlike, -⟩ :=
    (copyNode_whole h hs hV closed).mapNodesFields hlike hfs (copyingAlike_start h)
  exact ⟨hcopy.stores, hlike⟩

end

end

end LangKit.Script.Parallel
