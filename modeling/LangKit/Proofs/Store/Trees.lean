import LangKit.Proofs.Store.Likeness

/-!
# Trees in a store

`Holds s b d t` says that the value `d` stands for the tree `t` in a store, with all its nodes below
`b` and the nodes in a node's fields below that node. Loading a tree gives such a value
(`holds_load`), later stores that leave the nodes below `b` alone keep it (`Holds.extend`), and the
text of a value depends on nothing but its tree: `Holds.textOf_eq`.
-/

namespace LangKit.Store

variable {d d' : Datum} {t : Tree} {s s' : Store}

mutual

/-- A value stands for a tree, with nodes below a bound. -/
inductive Holds (s : Store) : Nat → Datum → Tree → Prop
  | null {b : Nat} : Holds s b .null .null
  | bool {b : Nat} (x : Bool) : Holds s b (.bool x) (.bool x)
  | int {b : Nat} (n : Int) : Holds s b (.int n) (.int n)
  | text {b : Nat} (x : String) : Holds s b (.text x) (.text x)
  | list {b : Nat} {ds : List Datum} {ts : List Tree} (items : HoldsAll s b ds ts) :
      Holds s b (.list ds) (.list ts)
  | tuple {b : Nat} {ds : List Datum} {ts : List Tree} (items : HoldsAll s b ds ts) :
      Holds s b (.tuple ds) (.tuple ts)
  | mapping {b : Nat} {ds : List (Datum × Datum)} {ts : List (Tree × Tree)}
      (entries : HoldsEntries s b ds ts) : Holds s b (.mapping ds) (.mapping ts)
  | node {b ref : Nat} {kind : String} {ts : List (String × Tree)} (lt : ref < b)
      (named : s.kind ref = kind) (fields : HoldsFields s ref (s.fields ref) ts) :
      Holds s b (.node ref) (.node kind ts)

inductive HoldsAll (s : Store) : Nat → List Datum → List Tree → Prop
  | nil {b : Nat} : HoldsAll s b [] []
  | cons {b : Nat} {d : Datum} {t : Tree} {ds : List Datum} {ts : List Tree} (first : Holds s b d t)
      (rest : HoldsAll s b ds ts) : HoldsAll s b (d :: ds) (t :: ts)

inductive HoldsEntries (s : Store) : Nat → List (Datum × Datum) → List (Tree × Tree) → Prop
  | nil {b : Nat} : HoldsEntries s b [] []
  | cons {b : Nat} {k v : Datum} {kt vt : Tree} {ds : List (Datum × Datum)}
      {ts : List (Tree × Tree)} (key : Holds s b k kt) (value : Holds s b v vt)
      (rest : HoldsEntries s b ds ts) :
      HoldsEntries s b ((k, v) :: ds) ((kt, vt) :: ts)

inductive HoldsFields (s : Store) : Nat → Fields → List (String × Tree) → Prop
  | nil {b : Nat} : HoldsFields s b [] []
  | cons {b : Nat} {name : String} {d : Datum} {t : Tree} {fs : Fields} {ts : List (String × Tree)}
      (first : Holds s b d t) (rest : HoldsFields s b fs ts) :
      HoldsFields s b ((name, d) :: fs) ((name, t) :: ts)

end

mutual

/-- A value keeps its tree while the nodes below its bound stay as they are. -/
theorem Holds.extend (hb : b ≤ b') (hs : ∀ ref < b, s'.node ref = s.node ref) {d : Datum}
    {t : Tree} (h : Holds s b d t) : Holds s' b' d t := by
  match h with
  | .null => exact .null
  | .bool x => exact .bool x
  | .int n => exact .int n
  | .text x => exact .text x
  | .list items => exact .list (items.extend hb hs)
  | .tuple items => exact .tuple (items.extend hb hs)
  | .mapping entries => exact .mapping (entries.extend hb hs)
  | @Holds.node _ _ ref _ _ lt named fields =>
    have hkind : s'.kind ref = s.kind ref := congrArg Prod.fst (hs ref lt)
    have hfields : s'.fields ref = s.fields ref := congrArg Prod.snd (hs ref lt)
    refine .node (Nat.lt_of_lt_of_le lt hb) (hkind.trans named) ?_
    rw [hfields]
    exact fields.extend (Nat.le_refl ref) fun r hr => hs r (Nat.lt_trans hr lt)

theorem HoldsAll.extend (hb : b ≤ b') (hs : ∀ ref < b, s'.node ref = s.node ref)
    (h : HoldsAll s b ds ts) : HoldsAll s' b' ds ts := by
  match h with
  | .nil => exact .nil
  | .cons first rest => exact .cons (first.extend hb hs) (rest.extend hb hs)

theorem HoldsEntries.extend (hb : b ≤ b') (hs : ∀ ref < b, s'.node ref = s.node ref)
    (h : HoldsEntries s b ds ts) :
    HoldsEntries s' b' ds ts := by
  match h with
  | .nil => exact .nil
  | .cons key value rest => exact .cons (key.extend hb hs) (value.extend hb hs) (rest.extend hb hs)

theorem HoldsFields.extend (hb : b ≤ b') (hs : ∀ ref < b, s'.node ref = s.node ref)
    (h : HoldsFields s b ds ts) : HoldsFields s' b' ds ts := by
  match h with
  | .nil => exact .nil
  | .cons first rest => exact .cons (first.extend hb hs) (rest.extend hb hs)

end

theorem HoldsAll.length_eq (h : HoldsAll s b ds ts) :
    ds.length = ts.length := by
  match h with
  | .nil => rfl
  | .cons _ rest => exact congrArg Nat.succ rest.length_eq

theorem HoldsAll.exists_tree (h : HoldsAll s b ds ts) :
    ∀ d ∈ ds, ∃ t, Holds s b d t := by
  match h with
  | .nil => exact nofun
  | .cons first rest => exact List.forall_mem_cons.mpr ⟨⟨_, first⟩, rest.exists_tree⟩

theorem HoldsFields.get? (h : HoldsFields s b fs ts)
    (name : String) {t : Tree} (ht : Assoc.get? name ts = some t) :
    ∃ d, Assoc.get? name fs = some d ∧ Holds s b d t := by
  induction ts generalizing fs with
  | nil => cases ht
  | cons entry ts ih =>
    cases h with
    | cons first rest =>
      simp only [Assoc.get?] at ht ⊢
      split at ht
      · next hname =>
        cases ht
        rw [if_pos hname]
        exact ⟨_, rfl, first⟩
      · next hname =>
        rw [if_neg hname]
        exact ih rest ht

theorem Holds.of_extends (h : Holds s s.size d t) (he : Extends s s') : Holds s' s'.size d t :=
  h.extend he.size he.node

/-! ## Loading -/

theorem holds_alloc {kind : String} (h : s.Separate)
    (hfs : HoldsFields s s.size fs ts) :
    Holds (s.alloc kind fs).2 (s.alloc kind fs).2.size (.node s.size) (.node kind ts) := by
  have hnode : (s.alloc kind fs).2.node s.size = (kind, fs) := (node_alloc h).trans (if_pos rfl)
  have hfields : (s.alloc kind fs).2.fields s.size = fs := congrArg Prod.snd hnode
  refine .node (by simp) (congrArg Prod.fst hnode) ?_
  rw [hfields]
  exact hfs.extend (Nat.le_refl _) h.extends_alloc.node

mutual

theorem holds_load (t : Tree) {s : Store} (h : s.Separate) :
    Extends s (s.load t).2 ∧ Holds (s.load t).2 (s.load t).2.size (s.load t).1 t := by
  match t with
  | .null => exact ⟨.refl h, .null⟩
  | .bool x => exact ⟨.refl h, .bool x⟩
  | .int n => exact ⟨.refl h, .int n⟩
  | .text x => exact ⟨.refl h, .text x⟩
  | .list items =>
    obtain ⟨he, hall⟩ := holdsAll_load items h
    exact ⟨he, .list hall⟩
  | .tuple items =>
    obtain ⟨he, hall⟩ := holdsAll_load items h
    exact ⟨he, .tuple hall⟩
  | .mapping entries =>
    obtain ⟨he, hall⟩ := holdsEntries_load entries h
    exact ⟨he, .mapping hall⟩
  | .node kind fields =>
    obtain ⟨he, hall⟩ := holdsFields_load fields h
    exact ⟨he.trans he.separate.extends_alloc, holds_alloc he.separate hall⟩

theorem holdsAll_load (ts : List Tree) {s : Store} (h : s.Separate) :
    Extends s (s.loadAll ts).2 ∧
    HoldsAll (s.loadAll ts).2 (s.loadAll ts).2.size (s.loadAll ts).1 ts := by
  match ts with
  | [] => exact ⟨.refl h, .nil⟩
  | t :: rest =>
    obtain ⟨he, ht⟩ := holds_load t h
    obtain ⟨he', hrest⟩ := holdsAll_load rest he.separate
    exact ⟨he.trans he', .cons (ht.of_extends he') hrest⟩

theorem holdsEntries_load (ts : List (Tree × Tree)) {s : Store} (h : s.Separate) :
    Extends s (s.loadEntries ts).2 ∧
      HoldsEntries (s.loadEntries ts).2 (s.loadEntries ts).2.size (s.loadEntries ts).1 ts := by
  match ts with
  | [] => exact ⟨.refl h, .nil⟩
  | (k, v) :: rest =>
    obtain ⟨hk, hkey⟩ := holds_load k h
    obtain ⟨hv, hvalue⟩ := holds_load v hk.separate
    obtain ⟨he, hrest⟩ := holdsEntries_load rest hv.separate
    exact ⟨(hk.trans hv).trans he, .cons (hkey.of_extends (hv.trans he)) (hvalue.of_extends he)
      hrest⟩

theorem holdsFields_load (ts : List (String × Tree)) {s : Store} (h : s.Separate) :
    Extends s (s.loadFields ts).2 ∧
      HoldsFields (s.loadFields ts).2 (s.loadFields ts).2.size (s.loadFields ts).1 ts := by
  match ts with
  | [] => exact ⟨.refl h, .nil⟩
  | (name, t) :: rest =>
    obtain ⟨he, ht⟩ := holds_load t h
    obtain ⟨he', hrest⟩ := holdsFields_load rest he.separate
    exact ⟨he.trans he', .cons (ht.of_extends he') hrest⟩

end

/-! ## Texts -/

/-- Two nodes stand for the same tree, with nodes below two bounds. -/
def SameTree (s s' : Store) (b b' r r' : Nat) : Prop :=
  ∃ t, Holds s b (.node r) t ∧ Holds s' b' (.node r') t

mutual

/-- Values of the same tree are alike. -/
theorem Holds.like {d d' : Datum} {t : Tree} (h : Holds s b d t) (h' : Holds s' b' d' t) :
    Datum.Like (SameTree s s' b b') d d' := by
  match h, h' with
  | .null, .null => exact .null
  | .bool x, .bool _ => exact .bool x
  | .int n, .int _ => exact .int n
  | .text x, .text _ => exact .text x
  | .list items, .list items' => exact .list (items.like items')
  | .tuple items, .tuple items' => exact .tuple (items.like items')
  | .mapping entries, .mapping entries' => exact .mapping (entries.like entries')
  | .node lt named fields, .node lt' named' fields' =>
    exact .node ⟨_, .node lt named fields, .node lt' named' fields'⟩

theorem HoldsAll.like (h : HoldsAll s b ds ts)
    (h' : HoldsAll s' b' ds' ts) : Datum.LikeAll (SameTree s s' b b') ds ds' := by
  match h, h' with
  | .nil, .nil => exact .nil
  | .cons first rest, .cons first' rest' => exact .cons (first.like first') (rest.like rest')

theorem HoldsEntries.like
    (h : HoldsEntries s b ds ts) (h' : HoldsEntries s' b' ds' ts) :
    Datum.LikeEntries (SameTree s s' b b') ds ds' := by
  match h, h' with
  | .nil, .nil => exact .nil
  | .cons key value rest, .cons key' value' rest' =>
    exact .cons (key.like key') (value.like value') (rest.like rest')

end

theorem HoldsFields.like (h : HoldsFields s b fs ts)
    (h' : HoldsFields s' b' fs' ts) : Datum.LikeFields (SameTree s s' b b') fs fs' := by
  match h, h' with
  | .nil, .nil => exact .nil
  | .cons first rest, .cons first' rest' => exact .cons (first.like first') (rest.like rest')

/-- Nodes of the same tree have the same text, if it goes deep enough. -/
theorem SameTree.nodeText_eq (hn : b ≤ n) (hn' : b' ≤ n') (h : SameTree s s' b b' r r') :
    s.nodeText n r = s'.nodeText n' r' := by
  obtain ⟨t, h, h'⟩ := h
  induction n generalizing b b' n' r r' t with
  | zero =>
    cases h
    omega
  | succ n ih =>
    cases h with
    | node lt named fields =>
      cases h' with
      | node lt' named' fields' =>
        -- The fields of a node refer to older nodes only, so one level less is deep enough for
        -- them.
        obtain ⟨n', rfl⟩ : ∃ m, n' = m + 1 := ⟨n' - 1, by omega⟩
        have htexts := Datum.lasting_eq.fieldTexts (p := s.nodeText n) (q := s'.nodeText n')
          (fun q q' ⟨t, h, h'⟩ => ih (by omega) (by omega) t h h') (fields.like fields')
        rw [nodeText, nodeText, htexts, named, named']

theorem Holds.textOf_eq (hb : b ≤ s.size) (hb' : b' ≤ s'.size) (h : Holds s b d t)
    (h' : Holds s' b' d' t) : s.textOf d = s'.textOf d' :=
  Datum.lasting_eq.text (fun _ _ hr => hr.nodeText_eq (Nat.le_succ_of_le hb)
    (Nat.le_succ_of_le hb')) (h.like h')

theorem Holds.textOf {d : Datum} {t : Tree} (hb : b ≤ s.size) (h : Holds s b d t) :
    s.textOf d = t.textOf :=
  h.textOf_eq hb (Nat.le_refl _) (holds_load t separate_empty).2

/-! ## Two stores -/

section

variable {P : Store → Store → Prop} {R : Nat → Nat → Prop}
  (h : ∀ s s' kind fs fs', P s s' → Datum.LikeFields R fs fs' →
    P (s.alloc kind fs).2 (s'.alloc kind fs').2 ∧ R s.size s'.size)

include h

set_option linter.unusedSectionVars false in
mutual

/-- A tree that is loaded into two stores stands for values that are alike, if adding nodes keeps
the stores related. -/
theorem like_load (t : Tree) {s s' : Store} (hs : P s s') :
    P (s.load t).2 (s'.load t).2 ∧ Datum.Like R (s.load t).1 (s'.load t).1 := by
  match t with
  | .null => exact ⟨hs, .null⟩
  | .bool x => exact ⟨hs, .bool x⟩
  | .int n => exact ⟨hs, .int n⟩
  | .text x => exact ⟨hs, .text x⟩
  | .list ts => exact ⟨(like_loadAll ts hs).1, .list (like_loadAll ts hs).2⟩
  | .tuple ts => exact ⟨(like_loadAll ts hs).1, .tuple (like_loadAll ts hs).2⟩
  | .mapping ts => exact ⟨(like_loadEntries ts hs).1, .mapping (like_loadEntries ts hs).2⟩
  | .node kind ts =>
    obtain ⟨hs, hlike⟩ := like_loadFields ts hs
    obtain ⟨hs, hrel⟩ := h _ _ kind _ _ hs hlike
    exact ⟨hs, .node hrel⟩

theorem like_loadAll (ts : List Tree) {s s' : Store} (hs : P s s') :
    P (s.loadAll ts).2 (s'.loadAll ts).2 ∧ Datum.LikeAll R (s.loadAll ts).1 (s'.loadAll ts).1 := by
  match ts with
  | [] => exact ⟨hs, .nil⟩
  | t :: rest =>
    obtain ⟨hs, hfirst⟩ := like_load t hs
    obtain ⟨hs, hrest⟩ := like_loadAll rest hs
    exact ⟨hs, .cons hfirst hrest⟩

theorem like_loadEntries (ts : List (Tree × Tree)) {s s' : Store} (hs : P s s') :
    P (s.loadEntries ts).2 (s'.loadEntries ts).2 ∧
      Datum.LikeEntries R (s.loadEntries ts).1 (s'.loadEntries ts).1 := by
  match ts with
  | [] => exact ⟨hs, .nil⟩
  | (k, v) :: rest =>
    obtain ⟨hs, hkey⟩ := like_load k hs
    obtain ⟨hs, hvalue⟩ := like_load v hs
    obtain ⟨hs, hrest⟩ := like_loadEntries rest hs
    exact ⟨hs, .cons hkey hvalue hrest⟩

theorem like_loadFields (ts : List (String × Tree)) {s s' : Store} (hs : P s s') :
    P (s.loadFields ts).2 (s'.loadFields ts).2 ∧
      Datum.LikeFields R (s.loadFields ts).1 (s'.loadFields ts).1 := by
  match ts with
  | [] => exact ⟨hs, .nil⟩
  | (name, t) :: rest =>
    obtain ⟨hs, hfirst⟩ := like_load t hs
    obtain ⟨hs, hrest⟩ := like_loadFields rest hs
    exact ⟨hs, .cons hfirst hrest⟩

end

end

/-- What holds of a store and goes on to hold when a node is added holds after loading a tree. -/
theorem load_keeps {P : Store → Prop} (h : ∀ s kind fs, P s → P (s.alloc kind fs).2)
    (t : Tree) (hs : P s) :
    P (s.load t).2 :=
  (like_load (P := fun s s' => P s ∧ P s') (R := fun _ _ => True)
    (fun _ _ _ _ _ hs _ => ⟨⟨h _ _ _ hs.1, h _ _ _ hs.2⟩, trivial⟩) t ⟨hs, hs⟩).1.1

end LangKit.Store
