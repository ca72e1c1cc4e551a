import LangKit.Proofs.Scoping.Stacked
import LangKit.Proofs.Store.Nodes
import Mathlib.Data.List.Forall2

/-!
# Frames of nodes

The running program keeps one flat scope of names and nodes, in which the frames of the plain
semantics are not to be seen. `Places` tells for each frame which node each of its names has.
`Frames s places env` says that these nodes hold the values of an environment, and `Flat places
scope` that the scope is what is left of the places when inner names hide outer ones.

No node occurs twice in the places. So setting the node of a name to a value is an update of the
environment (`Frames.update`), and everything else that happens to the store leaves the environment
as it is (`Frames.congr`).
-/

namespace LangKit.Script.Stacked

def Value.kind : Value → String
  | .int _ => "int"
  | .bool _ => "bool"
  | .string _ => "string"
  | .nil => "nil"

def Value.node (v : Value) : String × Fields :=
  (v.kind, (v.contents?.map fun d => ("val", d)).toList)

/-- The node of each name, frame by frame. -/
abbrev Places := List (List (String × Nat))

variable {x : String} {r r' : Nat} {frame : List (String × Nat)} {places : Places}
  {bindings : List (String × Value)}

def frameRefs (frame : List (String × Nat)) : List Nat :=
  frame.map (·.2)

def refs (places : Places) : List Nat :=
  places.flatMap frameRefs

@[simp] theorem refs_cons (frame : List (String × Nat)) (places : Places) :
    refs (frame :: places) = frameRefs frame ++ refs places := rfl

/-- The node of a name holds the value of the name. -/
def Binds (s : Store) (place : String × Nat) (binding : String × Value) : Prop :=
  place.1 = binding.1 ∧ s.node place.2 = binding.2.node

/-- The nodes of places hold the values of an environment. -/
abbrev Frames (s : Store) (places : Places) (env : Env) : Prop :=
  List.Forall₂ (List.Forall₂ (Binds s)) places env

/-- A scope has for each name the node of its innermost place. -/
def Flat (places : Places) (scope : Scope) : Prop :=
  ∀ x, Assoc.get? x scope = (lookup x places).map Datum.node

/-! ## Names and nodes -/

theorem mem_frameRefs_of_get? (h : Assoc.get? x frame = some r) : r ∈ frameRefs frame := by
  induction frame with
  | nil => cases h
  | cons e rest ih =>
    obtain ⟨y, r'⟩ := e
    simp only [Assoc.get?] at h
    split at h
    · cases h
      exact List.mem_cons_self
    · exact List.mem_cons_of_mem _ (ih h)

theorem mem_refs_of_lookup (h : lookup x places = some r) : r ∈ refs places := by
  induction places with
  | nil => cases h
  | cons frame rest ih =>
    rw [refs_cons, List.mem_append]
    rcases Option.or_eq_some_iff.mp h with hf | ⟨_, hrest⟩
    · exact .inl (mem_frameRefs_of_get? hf)
    · exact .inr (ih hrest)

theorem frameRefs_put_subset (h : r' ∈ frameRefs (Assoc.put x r frame)) :
    r' = r ∨ r' ∈ frameRefs frame := by
  obtain ⟨e, he, rfl⟩ := List.mem_map.1 h
  rcases Assoc.mem_put he with he | rfl
  · exact .inr (List.mem_map_of_mem he)
  · exact .inl rfl

theorem refs_put_subset (h : r' ∈ refs (Assoc.put x r frame :: places)) :
    r' = r ∨ r' ∈ refs (frame :: places) := by
  rw [refs_cons, List.mem_append] at h ⊢
  rcases h with h | h
  · exact (frameRefs_put_subset h).imp_right .inl
  · exact .inr (.inr h)

theorem frameRefs_putAll_subset {names : List String}
    (h : r ∈ frameRefs (Assoc.putAll frame (names.zip rs))) : r ∈ frameRefs frame ∨ r ∈ rs := by
  induction names generalizing frame rs with
  | nil => exact .inl h
  | cons x names ih =>
    cases rs with
    | nil => exact .inl h
    | cons r0 rs =>
      rcases ih h with h | h
      · rcases frameRefs_put_subset h with rfl | h
        · exact .inr List.mem_cons_self
        · exact .inl h
      · exact .inr (List.mem_cons_of_mem _ h)

theorem nodup_frameRefs_put (h : (frameRefs frame).Nodup) (hr : r ∉ frameRefs frame) :
    (frameRefs (Assoc.put x r frame)).Nodup := by
  induction frame with
  | nil => simp [Assoc.put, frameRefs]
  | cons e rest ih =>
    obtain ⟨y, r0⟩ := e
    obtain ⟨hr0, hrest⟩ := List.nodup_cons.mp h
    have hne : r ≠ r0 := fun he => hr (he ▸ List.mem_cons_self)
    have hr' : r ∉ frameRefs rest := fun hm => hr (List.mem_cons_of_mem _ hm)
    simp only [Assoc.put]
    split
    · exact List.nodup_cons.mpr ⟨hr', hrest⟩
    · refine List.nodup_cons.mpr ⟨fun hm => ?_, ih hrest hr'⟩
      rcases frameRefs_put_subset hm with he | hm
      · exact hne he.symm
      · exact hr0 hm

/-- A new node under a name of the top frame keeps the nodes apart. -/
theorem nodup_refs_put (h : (refs (frame :: places)).Nodup) (hr : r ∉ refs (frame :: places)) :
    (refs (Assoc.put x r frame :: places)).Nodup := by
  rw [refs_cons] at h hr ⊢
  obtain ⟨hframe, hplaces, hdisjoint⟩ := List.nodup_append.mp h
  have hr' := not_or.mp (mt List.mem_append.mpr hr)
  refine List.nodup_append.mpr ⟨nodup_frameRefs_put hframe hr'.1, hplaces, ?_⟩
  intro r1 h1 r2 h2 he
  subst he
  rcases frameRefs_put_subset h1 with rfl | h1
  · exact hr'.2 h2
  · exact hdisjoint r1 h1 r1 h2 rfl

theorem lookup_put {ν : Type} (x y : String) (v : ν) (frame : List (String × ν))
    (rest : List (List (String × ν))) :
    lookup y (Assoc.put x v frame :: rest) = if y = x then some v
      else lookup y (frame :: rest) := by
  by_cases h : y = x
  · simp [lookup, h]
  · simp [lookup, h, Assoc.get?_put_of_ne h]

/-! ## Scopes -/

theorem Flat.push {scope : Scope} (h : Flat places scope) : Flat ([] :: places) scope :=
  h

theorem Flat.put {frame : List (String × Nat)} {places : Places} {scope : Scope}
    (h : Flat (frame :: places) scope) (x : String) (r : Nat) :
    Flat (Assoc.put x r frame :: places) (Assoc.put x (.node r) scope) := by
  intro y
  rw [lookup_put]
  by_cases hy : y = x
  · rw [hy, Assoc.get?_put_self, if_pos rfl]
    rfl
  · rw [Assoc.get?_put_of_ne hy, if_neg hy]
    exact h y

theorem Flat.putAll {frame : List (String × Nat)} {places : Places} {scope : Scope}
    (h : Flat (frame :: places) scope) (names : List String) (rs : List Nat) :
    Flat (Assoc.putAll frame (names.zip rs) :: places)
      (Assoc.putAll scope (names.zip (rs.map .node))) := by
  induction names generalizing rs frame scope with
  | nil => exact h
  | cons x names ih =>
    cases rs with
    | nil => exact h
    | cons r rs => exact ih (h.put x r) rs

/-! ## Environments -/

section

variable {s s' : Store} {env : Env}

theorem frame_congr (h : List.Forall₂ (Binds s) frame bindings)
    (hs : ∀ r ∈ frameRefs frame, s'.node r = s.node r) :
    List.Forall₂ (Binds s') frame bindings := by
  induction h with
  | nil => exact .nil
  | cons hb _ ih =>
    obtain ⟨hr, hrest⟩ := List.forall_mem_cons.mp hs
    exact .cons ⟨hb.1, hr.trans hb.2⟩ (ih hrest)

theorem Frames.congr (h : Frames s places env) (hs : ∀ r ∈ refs places, s'.node r = s.node r) :
    Frames s' places env := by
  induction h with
  | nil => exact .nil
  | cons hframe _ ih =>
    obtain ⟨hf, hrest⟩ := List.forall_mem_append.mp hs
    exact .cons (frame_congr hframe hf) (ih hrest)

theorem get?_related (h : List.Forall₂ (Binds s) frame bindings) (x : String) :
    Option.Rel (fun r v => s.node r = v.node) (Assoc.get? x frame) (Assoc.get? x bindings) := by
  induction h with
  | nil => exact .none
  | @cons place binding _ _ hb _ ih =>
    obtain ⟨y, r⟩ := place
    obtain ⟨y', v⟩ := binding
    obtain ⟨rfl, hnode⟩ : y = y' ∧ s.node r = v.node := hb
    simp only [Assoc.get?]
    split
    · exact .some hnode
    · exact ih

theorem has_eq (h : List.Forall₂ (Binds s) frame bindings) (x : String) :
    Assoc.has x bindings = Assoc.has x frame := by
  have hget := get?_related h x
  simp only [Assoc.has]
  generalize Assoc.get? x frame = place at hget
  generalize Assoc.get? x bindings = binding at hget
  cases hget with
  | some _ => rfl
  | none => rfl

theorem Frames.lookup (h : Frames s places env) (x : String) :
    Option.Rel (fun r v => s.node r = v.node) (Stacked.lookup x places) (Stacked.lookup x env) := by
  induction h with
  | nil => exact .none
  | @cons frame bindings _ _ hframe _ ih =>
    have hget := get?_related hframe x
    simp only [Stacked.lookup]
    generalize Assoc.get? x frame = place at hget
    generalize Assoc.get? x bindings = binding at hget
    cases hget with
    | some hnode => exact .some hnode
    | none => exact ih

theorem frame_put (h : List.Forall₂ (Binds s) frame bindings)
    (x : String) (hr : s.node r = v.node) :
    List.Forall₂ (Binds s) (Assoc.put x r frame) (Assoc.put x v bindings) := by
  induction h with
  | nil => exact .cons ⟨rfl, hr⟩ .nil
  | @cons place binding _ _ hb hrest ih =>
    obtain ⟨y, r'⟩ := place
    obtain ⟨y', v'⟩ := binding
    obtain ⟨rfl, hnode⟩ : y = y' ∧ s.node r' = v'.node := hb
    simp only [Assoc.put]
    split
    · exact .cons ⟨rfl, hr⟩ hrest
    · exact .cons ⟨rfl, hnode⟩ ih

theorem frame_update (h : List.Forall₂ (Binds s) frame bindings) (hnodup : (frameRefs frame).Nodup)
    (hx : Assoc.get? x frame = some r) (hr : s'.node r = v.node)
    (hs : ∀ r' ∈ frameRefs frame, r' ≠ r → s'.node r' = s.node r') :
    List.Forall₂ (Binds s') frame (Assoc.put x v bindings) := by
  induction h with
  | nil => cases hx
  | @cons place binding _ _ hb hrest ih =>
    obtain ⟨y, r0⟩ := place
    obtain ⟨y', v0⟩ := binding
    obtain ⟨rfl, hnode⟩ : y = y' ∧ s.node r0 = v0.node := hb
    obtain ⟨hr0, hnodup'⟩ := List.nodup_cons.mp hnodup
    obtain ⟨hs0, hs'⟩ := List.forall_mem_cons.mp hs
    simp only [Assoc.get?] at hx
    simp only [Assoc.put]
    split at hx
    · next hy =>
      cases hx
      rw [if_pos hy]
      refine .cons ⟨rfl, hr⟩ (frame_congr hrest fun r' hr' => hs' r' hr' ?_)
      exact fun he => hr0 (he ▸ hr')
    · next hy =>
      rw [if_neg hy]
      have hne : r0 ≠ r := fun he => hr0 (he ▸ mem_frameRefs_of_get? hx)
      exact .cons ⟨rfl, (hs0 hne).trans hnode⟩ (ih hnodup' hx hs')

theorem Frames.update {x : String} {r : Nat} (h : Frames s places env)
    (hnodup : (refs places).Nodup) (hx : Stacked.lookup x places = some r) (hr : s'.node r = v.node)
    (hs : ∀ r' ∈ refs places, r' ≠ r → s'.node r' = s.node r') :
    Frames s' places (Stacked.update x v env) := by
  induction h with
  | nil => cases hx
  | @cons frame bindings rest _ hframe hrest ih =>
    obtain ⟨hnodupf, hnodupr, hdisjoint⟩ := List.nodup_append.mp hnodup
    obtain ⟨hsf, hsr⟩ := List.forall_mem_append.mp hs
    have hhas := has_eq hframe x
    simp only [Stacked.lookup] at hx
    cases hplace : Assoc.get? x frame with
    | some r0 =>
      -- The name is bound here, and no frame further out has its node.
      obtain rfl : r0 = r := by simpa [hplace] using hx
      simp only [Assoc.has, hplace, Option.isSome_some] at hhas
      rw [Stacked.update, Assoc.has, hhas, if_pos rfl]
      have hmem := mem_frameRefs_of_get? hplace
      refine .cons (frame_update hframe hnodupf hplace hr hsf) (Frames.congr hrest fun r' hr' => ?_)
      exact hsr r' hr' (Ne.symm (hdisjoint _ hmem _ hr'))
    | none =>
      -- The name is bound further out, so this frame does not have its node.
      have hx' : Stacked.lookup x rest = some r := by simpa [hplace] using hx
      simp only [Assoc.has, hplace, Option.isSome_none] at hhas
      rw [Stacked.update, Assoc.has, hhas, if_neg Bool.false_ne_true]
      have hmem := mem_refs_of_lookup hx'
      refine .cons (frame_congr hframe fun r' hr' => hsf r' hr' ?_) (ih hnodupr hx' hsr)
      exact hdisjoint _ hr' _ hmem

end

end LangKit.Script.Stacked
