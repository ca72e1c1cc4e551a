import LangKit.Grammar.First
import LangKit.Proofs.Fallible
import Mathlib.Data.List.Nodup
import Mathlib.Data.List.Perm.Subperm
import Mathlib.Algebra.Order.BigOperators.Group.List
import Mathlib.Algebra.Order.Ring.Nat

/-!
# Filling a table of sets

The sets of first symbols and of following symbols are filled in the same way: in rounds that add
symbols to sets until a round adds nothing. A step of the work keeps what all sets hold so far
(`Filled`), and it either adds a symbol or finds that there is nothing for it to add (`Completes`).
Only so many symbols fit into the sets, so within the limit on the rounds there is one that adds
nothing, and what each step wants to add is there (`rounds_complete`).
-/

namespace LangKit.Grammar

variable {symbols all names : List String} {first s : SymbolSets}

def members (sets : SymbolSets) (x : String) : List String :=
  Assoc.getD x sets []

theorem setOf_eq (h : Assoc.has x sets) : setOf sets x = .ok (members sets x) := by
  rw [Assoc.has, Option.isSome_iff_exists] at h
  obtain ⟨set, h⟩ := h
  rw [setOf, members, Assoc.getD, h]
  rfl

theorem addNew_spec (more set : List String) :
    set <+: addNew more set ∧ (∀ a, a ∈ addNew more set ↔ a ∈ set ∨ a ∈ more) ∧
      (set.Nodup → (addNew more set).Nodup) := by
  induction more generalizing set with
  | nil => exact ⟨List.prefix_refl set, fun a => by simp [addNew], id⟩
  | cons x rest ih =>
    have hcons : addNew (x :: rest) set = addNew rest (if set.contains x then set
      else set ++ [x]) := rfl
    rw [hcons]
    by_cases hx : x ∈ set
    · rw [if_pos (List.contains_iff_mem.2 hx)]
      obtain ⟨hinitial, hmem, hnodup⟩ := ih set
      refine ⟨hinitial, fun a => (hmem a).trans ?_, hnodup⟩
      rw [List.mem_cons]
      exact or_congr_right' fun ha => ⟨.inr, Or.rec (fun h => absurd (h ▸ hx) ha) id⟩
    · rw [if_neg (by rwa [List.contains_iff_mem])]
      obtain ⟨hinitial, hmem, hnodup⟩ := ih (set ++ [x])
      refine ⟨(List.prefix_append set [x]).trans hinitial, fun a => (hmem a).trans ?_,
        fun h => hnodup ?_⟩
      · rw [List.mem_append, List.mem_singleton, List.mem_cons, or_assoc]
      · exact List.nodup_append.2 ⟨h, List.nodup_singleton x,
          fun a ha b hb hab => hx (List.mem_singleton.1 hb ▸ hab ▸ ha)⟩

/-! ## First symbols of a sequence -/

/-- A symbol stands in the sets of first symbols for a sequence. -/
def Starts (sets : String → List String) (a : String) : List String → Prop
  | [] => a = emptyMark
  | x :: rest => a ∈ sets x ∧ a ≠ emptyMark ∨ emptyMark ∈ sets x ∧ Starts sets a rest

theorem starts_append {before after : List String} :
    Starts sets a (before ++ after) ↔
      Starts sets a before ∧ a ≠ emptyMark ∨ Starts sets emptyMark before ∧
      Starts sets a after := by
  induction before with
  | nil => exact ⟨fun h => .inr ⟨rfl, h⟩, Or.rec (fun h => absurd h.1 h.2) And.right⟩
  | cons x rest ih =>
    simp only [List.cons_append, Starts, ih, ne_eq, not_true_eq_false, and_false, false_or]
    tauto

theorem firstOf_eq (h : ∀ x ∈ symbols, Assoc.has x first) :
    ∃ set, firstOf first symbols = .ok set ∧ ∀ a, a ∈ set ↔ Starts (members first) a symbols := by
  have hfrom : ∀ found, ∃ set, firstOfFrom first symbols found = .ok set ∧
      ∀ a, a ∈ set ↔ a ∈ found ∨ Starts (members first) a symbols := by
    induction symbols with
    | nil =>
      exact fun found => ⟨_, rfl, fun a => by rw [List.mem_append, List.mem_singleton, Starts]⟩
    | cons x rest ih =>
      intro found
      obtain ⟨hx, hrest⟩ := List.forall_mem_cons.1 h
      rw [firstOfFrom, setOf_eq hx]
      have hfound := (addNew_spec ((members first x).filter (· != emptyMark)) found).2.1
      simp only [List.mem_filter, bne_iff_ne] at hfound
      by_cases hempty : emptyMark ∈ members first x
      · obtain ⟨set, hset, hmem⟩ :=
          ih hrest (addNew ((members first x).filter (· != emptyMark)) found)
        refine ⟨set, ?_, fun a => ?_⟩
        · simp only [bind, Except.bind, List.contains_iff_mem.2 hempty, if_true, hset]
        · rw [hmem, hfound, Starts, or_assoc]
          simp only [hempty, true_and]
      · refine ⟨_, ?_, fun a => (hfound a).trans ?_⟩
        · have hno : (members first x).contains emptyMark = false := by
            rwa [← Bool.not_eq_true, List.contains_iff_mem]
          simp only [bind, Except.bind, hno, Bool.false_eq_true, if_false]
          rfl
        · rw [Starts]
          simp only [hempty, false_and, or_false]
  obtain ⟨set, hset, hmem⟩ := hfrom []
  exact ⟨set, hset, fun a => by rw [hmem, List.mem_nil_iff, false_or]⟩

theorem currentFirst_eq (h : ∀ x ∈ symbols, Assoc.has x s) :
    ∃ set, currentFirst symbols s = (.ok set, s) ∧ ∀ a, a ∈ set ↔ Starts (members s) a symbols := by
  obtain ⟨set, hset, hmem⟩ := firstOf_eq h
  refine ⟨set, ?_, hmem⟩
  have hget : (get : Filling SymbolSets) s = (.ok s, s) := rfl
  rw [currentFirst, bind_of_ok hget, hset]
  rfl

/-! ## The work -/

/-- What has been filled in from `start` on: only the sets of `names` have changed, and they hold
what they may hold. -/
structure Filled (start : SymbolSets) (names : List String)
    (May : String → String → Prop) (s : SymbolSets) :
    Prop where
  keys : ∀ x, Assoc.has x s = Assoc.has x start
  fixed : ∀ x ∉ names, members s x = members start x
  grown : ∀ x, members start x ⊆ members s x
  nodup : ∀ x ∈ names, (members s x).Nodup
  sound : ∀ x ∈ names, ∀ a ∈ members s x, May x a

def weight (names : List String) (s : SymbolSets) : Nat :=
  (names.map fun x => (members s x).length).sum

/-- A step finds that there is nothing to add, or it adds a symbol. -/
def Advances (names : List String) (Keep Done : SymbolSets → Prop) (w : Filling Bool)
    (s : SymbolSets) : Prop :=
  ∃ changed s', w s = (.ok changed, s') ∧ Keep s' ∧
    if changed then weight names s < weight names s' else s' = s ∧ Done s

/-- A step works from every state of the table. -/
def Completes (names : List String) (Keep Done : SymbolSets → Prop) (w : Filling Bool) : Prop :=
  ∀ s, Keep s → Advances names Keep Done w s

section

variable {Keep Done Done' : SymbolSets → Prop} {w w' : Filling Bool} {start : SymbolSets}
  {May : String → String → Prop}

theorem Advances.seq (hw : Advances names Keep Done w s) (hw' : Completes names Keep Done' w') :
    Advances names Keep (fun s => Done s ∧ Done' s) (do let c ← w; return (← w') || c) s := by
  obtain ⟨c, s1, hw, hkeep, hc⟩ := hw
  obtain ⟨c', s2, hw', hkeep', hc'⟩ := hw' s1 hkeep
  refine ⟨c' || c, s2, ?_, hkeep', ?_⟩
  · rw [bind_of_ok hw, bind_of_ok hw']
    rfl
  · cases c <;> cases c' <;>
      simp only [Bool.or_false, Bool.or_true, Bool.false_eq_true, if_true, if_false] at *
    · obtain ⟨rfl, hdone⟩ := hc
      exact ⟨hc'.1, hdone, hc'.2⟩
    · obtain ⟨rfl, -⟩ := hc
      exact hc'
    · obtain ⟨rfl, -⟩ := hc'
      exact hc
    · exact Nat.lt_trans hc hc'

theorem Completes.pure_false (hdone : ∀ s, Keep s → Done s) :
    Completes names Keep Done (pure false) :=
  fun s hs => ⟨false, s, rfl, hs, rfl, hdone s hs⟩

theorem Advances.mono (h : Advances names Keep Done w s) (hdone : Done s → Done' s) :
    Advances names Keep Done' w s := by
  obtain ⟨c, s', hw, hkeep, hc⟩ := h
  refine ⟨c, s', hw, hkeep, ?_⟩
  cases c
  · exact ⟨hc.1, hdone hc.2⟩
  · exact hc

theorem Advances.congr (h : Advances names Keep Done w s) (hw : w' s = w s) :
    Advances names Keep Done w' s := by
  rwa [Advances, hw]

theorem Filled.extend (hs : Filled start names May s) (hx : x ∈ names) (hin : Assoc.has x start)
    (more : List String) (hmore : ∀ a ∈ more, May x a) :
    Advances names (Filled start names May) (fun s => ∀ a ∈ more, a ∈ members s x)
      (extend x more) s := by
  obtain ⟨hinitial, hmem, hnodup⟩ := addNew_spec more (members s x)
  have hrun : Grammar.extend x more s =
      (.ok ((addNew more (members s x)).length != (members s x).length),
        Assoc.put x (addNew more (members s x)) s) := by
    have hget : (get : Filling SymbolSets) s = (.ok s, s) := rfl
    rw [Grammar.extend, bind_of_ok hget, setOf_eq ((hs.keys x).trans hin)]
    rfl
  have hput : ∀ y, members (Assoc.put x (addNew more (members s x)) s) y =
      if y == x then addNew more (members s x) else members s y :=
        fun y => Assoc.getD_put x y _ [] s
  have hgrown : ∀ y, members s y <+: members (Assoc.put x (addNew more (members s x)) s) y := by
    intro y
    rw [hput]
    split
    · rename_i hy
      rw [eq_of_beq hy]
      exact hinitial
    · exact List.prefix_refl _
  refine ⟨_, _, hrun, ⟨?_, ?_, ?_, ?_, ?_⟩, ?_⟩
  · intro y
    rw [Assoc.has_put, hs.keys]
    by_cases hy : y = x
    · rw [hy, hin, Bool.or_true]
    · rw [beq_false_of_ne hy, Bool.false_or]
  · intro y hy
    have hne : (y == x) = false := beq_false_of_ne fun h => hy (h ▸ hx)
    rw [hput, hne, ← hs.fixed y hy]
    rfl
  · exact fun y => List.Subset.trans (hs.grown y) (hgrown y).subset
  · intro y hy
    rw [hput]
    split
    · exact hnodup (hs.nodup x hx)
    · exact hs.nodup y hy
  · intro y hy a ha
    rw [hput] at ha
    split at ha
    · rename_i hyx
      rw [eq_of_beq hyx]
      exact ((hmem a).1 ha).elim (hs.sound x hx a) (hmore a)
    · exact hs.sound y hy a ha
  · split
    · rename_i hchanged
      refine List.sum_lt_sum _ _ (fun y _ => (hgrown y).length_le) ⟨x, hx, ?_⟩
      rw [hput, if_pos (beq_self_eq_true x)]
      exact Nat.lt_of_le_of_ne hinitial.length_le (Ne.symm (bne_iff_ne.1 hchanged))
    · rename_i hsame
      have heq : members s x = addNew more (members s x) :=
        hinitial.eq_of_length (Decidable.not_not.1 fun h => hsame (bne_iff_ne.2 (Ne.symm h)))
      refine ⟨?_, fun a ha => ?_⟩
      · have hhas : Assoc.has x s = true := (hs.keys x).trans hin
        obtain ⟨set, hset⟩ := Option.isSome_iff_exists.1 hhas
        have hset' : members s x = set := by rw [members, Assoc.getD, hset, Option.getD_some]
        rw [← heq, hset', Assoc.put_eq_self hset]
      · rw [heq]
        exact (hmem a).2 (.inr ha)

/-- Sets without repetitions hold at most as many symbols as there are. -/
theorem Filled.weight_le (hs : Filled start names May s) (hall : ∀ x a, May x a → a ∈ all) :
    weight names s ≤ names.length * all.length := by
  have hsets : ∀ n ∈ names.map fun x => (members s x).length, n ≤ all.length := by
    intro n hn
    obtain ⟨x, hx, rfl⟩ := List.mem_map.1 hn
    exact ((hs.nodup x hx).subperm fun a ha => hall x a (hs.sound x hx a ha)).length_le
  simpa [weight] using List.sum_le_card_nsmul _ _ hsets

theorem Filled.weight_lt {g : Grammar} (hs : Filled start (Assoc.keys g.nonterminals) May s)
    (hall : ∀ x a, May x a → a ∈ Assoc.keys g.terminals ++ [endMark, emptyMark]) :
    weight (Assoc.keys g.nonterminals) s < g.roundLimit := by
  have hle := hs.weight_le hall
  rw [Assoc.keys, List.length_map, List.length_append, Assoc.keys, List.length_map] at hle
  exact Nat.lt_succ_of_le hle

theorem rounds_complete (limit : Nat) (hw : Completes names Keep Done w)
    (hlimit : ∀ s, Keep s → weight names s < limit) (hs : Keep s)
    (hfuel : limit ≤ fuel + weight names s) :
    ∃ s', rounds w fuel s = (.ok (), s') ∧ Keep s' ∧ Done s' := by
  induction fuel generalizing s with
  | zero => exact absurd (hlimit s hs) (by omega)
  | succ fuel ih =>
    obtain ⟨c, s', hrun, hkeep, hc⟩ := hw s hs
    rw [rounds, bind_of_ok hrun]
    cases c with
    | false =>
      obtain ⟨rfl, hdone⟩ := hc
      exact ⟨s', rfl, hkeep, hdone⟩
    | true => exact ih hkeep (by simp only [if_true] at hc; omega)

end

/-! ## What the work keeps -/

/-- Work keeps a property of the table, however it ends. -/
def Keeps (P : SymbolSets → Prop) {α : Type} (w : Filling α) : Prop :=
  ∀ s, P s → P (w s).2

section

variable {P : SymbolSets → Prop} {α β : Type}

theorem Keeps.pure (a : α) : Keeps P (pure a) :=
  fun _ hs => hs

theorem Keeps.known (r : Except Fault α) : Keeps P (known r) := by
  cases r <;> exact fun _ hs => hs

theorem Keeps.bind (hw : Keeps P w) (hk : ∀ a, Keeps P (k a)) :
    Keeps P (w >>= k) := by
  intro s hs
  have hs' := hw s hs
  rw [bind_apply]
  rcases hrun : w s with ⟨_ | a, s'⟩ <;> rw [hrun] at hs'
  · exact hs'
  · exact hk a s' hs'

variable (hput : ∀ s x set more, P s → Assoc.get? x s = some set →
  P (Assoc.put x (addNew more set) s))
include hput

theorem keeps_extend (x : String) (more : List String) : Keeps P (extend x more) := by
  intro s hs
  have hget : (get : Filling SymbolSets) s = (.ok s, s) := rfl
  rw [extend, bind_of_ok hget, setOf]
  cases h : Assoc.get? x s with
  | none => exact hs
  | some set => exact hput s x set more hs h

theorem keeps_firstOfRules (n : String) (rules : List Production) :
    Keeps P (firstOfRules n rules) := by
  induction rules with
  | nil => exact .pure _
  | cons p rest ih =>
    refine .bind (fun s hs => ?_) fun more => .bind (keeps_extend hput n more) fun _ => .bind ih
      fun _ => .pure _
    have hget : (get : Filling SymbolSets) s = (.ok s, s) := rfl
    rw [currentFirst, bind_of_ok hget]
    exact Keeps.known _ s hs

theorem keeps_firstRound (g : Grammar) (names : List String) : Keeps P (firstRound g names) := by
  induction names with
  | nil => exact .pure _
  | cons n rest ih =>
    rw [firstRound]
    split
    · exact fun _ hs => hs
    · exact .bind (keeps_firstOfRules hput n _) fun _ => .bind ih fun _ => .pure _

theorem keeps_followRound (g : Grammar) (first : SymbolSets) (rules : List Production) :
    Keeps P (followRound g first rules) := by
  have habove : ∀ symbol head ends, Keeps P (extendAbove symbol head ends) := by
    intro symbol head ends s hs
    rw [extendAbove]
    split
    · exact Keeps.bind (fun _ hs => hs) (fun _ => .bind (.known _)
        fun more => keeps_extend hput symbol more) s hs
    · exact hs
  have hplace : ∀ head b rest, Keeps P (followOfPlace g first head b rest) := by
    intro head b rest
    rw [followOfPlace]
    split
    · exact .bind (.known _) fun _ => .bind (keeps_extend hput b _) fun _ => .bind (habove _ _ _)
        fun _ => .pure _
    · exact .pure _
  have hrule : ∀ head symbols, Keeps P (followOfRule g first head symbols) := by
    intro head symbols
    induction symbols with
    | nil => exact .pure _
    | cons b rest ih => exact .bind (hplace head b rest) fun _ => .bind ih fun _ => .pure _
  induction rules with
  | nil => exact .pure _
  | cons p rest ih => exact .bind (hrule p.head p.body) fun _ => .bind ih fun _ => .pure _

omit hput in
theorem keeps_rounds (hw : Keeps P w) (fuel : Nat) : Keeps P (rounds w fuel) := by
  induction fuel with
  | zero => exact .pure _
  | succ fuel ih =>
    refine .bind hw fun changed => ?_
    cases changed with
    | false => exact .pure _
    | true => exact ih

end

end LangKit.Grammar
