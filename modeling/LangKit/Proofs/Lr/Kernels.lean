import LangKit.Proofs.Lr.Repeat
import Mathlib.Data.List.Count

/-!
# What tells states apart

The items of a state are its kernel and what the kernel opens (`Opened`). A state is found again by
its kernel, item for item and in order, so states are different as soon as their kernels are
different lists (`states_eq_iff`). Kernels with the same items in another order make two states with
the same items.
-/

namespace LangKit.Lr

variable {g : Grammar} {i : Item} {p : Production} {todo kernel : List Item}
  {stamp fuel : Nat} {s t : ItemSet} {marks : List (Nat × Nat)} {rules : List Production}
  {a : Automaton} {x : String}

/-! ## What a closure adds -/

/-- The items of a kernel, and those of the rules for a symbol after the dot of such an item. -/
inductive Opened (g : Grammar) (kernel : List Item) : Item → Prop
  | kernel {i : Item} (h : i ∈ kernel) : Opened g kernel i
  | rule {i : Item} {p : Production} (h : Opened g kernel i) (hp : p ∈ i.expansions g) :
      Opened g kernel ⟨p.number, 0⟩

theorem Opened.of_forall (h : ∀ i ∈ kernel, Opened g kernel' i) (hi : Opened g kernel i) :
    Opened g kernel' i := by
  induction hi with
  | kernel hi => exact h _ hi
  | rule _ hp ih => exact ih.rule hp

theorem addExpansions_sublist :
    (addExpansions stamp rules marks).1.Sublist (rules.map fun p => ⟨p.number, 0⟩) := by
  induction rules generalizing marks with
  | nil => exact .slnil
  | cons p rest ih =>
    simp only [addExpansions]
    split
    · exact ih.cons _
    · exact ih.cons_cons _

theorem mem_addExpansions (hp : p ∈ rules) (hnew : Assoc.getD p.number marks 0 ≠ stamp) :
    ⟨p.number, 0⟩ ∈ (addExpansions stamp rules marks).1 := by
  induction rules generalizing marks with
  | nil => cases hp
  | cons q rest ih =>
    simp only [addExpansions]
    split
    · rename_i hold
      refine ih ((List.mem_cons.1 hp).resolve_left ?_) hnew
      rintro rfl
      exact hnew (beq_iff_eq.1 hold)
    · by_cases hq : p.number = q.number
      · exact hq ▸ List.mem_cons_self
      · refine List.mem_cons_of_mem _
          (ih ((List.mem_cons.1 hp).resolve_left fun h => hq (h ▸ rfl)) ?_)
        rwa [Assoc.getD_put, if_neg fun h => hq (eq_of_beq h)]

theorem opened_of_mem_closeFrom (hi : i ∈ (closeFrom g stamp fuel todo marks).1) :
    Opened g todo i := by
  induction fuel generalizing todo marks with
  | zero => exact .kernel hi
  | succ fuel ih =>
    cases todo with
    | nil => cases hi
    | cons j todo =>
      simp only [closeFrom] at hi
      rcases List.mem_cons.1 hi with rfl | hi
      · exact .kernel List.mem_cons_self
      · refine (ih hi).of_forall fun k hk => ?_
        rcases List.mem_append.1 hk with hk | hk
        · exact .kernel (List.mem_cons_of_mem _ hk)
        · obtain ⟨p, hp, rfl⟩ := List.mem_map.1 (addExpansions_sublist.subset hk)
          exact (Opened.kernel List.mem_cons_self).rule hp

theorem mem_closeFrom_of_mem (hi : i ∈ todo) : i ∈ (closeFrom g stamp fuel todo marks).1 := by
  induction fuel generalizing todo marks with
  | zero => exact hi
  | succ fuel ih =>
    cases todo with
    | nil => cases hi
    | cons j todo =>
      simp only [closeFrom]
      rcases List.mem_cons.1 hi with rfl | hi
      · exact List.mem_cons_self
      · exact List.mem_cons_of_mem _ (ih (List.mem_append_left _ hi))

/-! ## A closure ends -/

/-- The rules that a closure may still add. -/
def unmarked (g : Grammar) (stamp : Nat) (marks : List (Nat × Nat)) : Nat :=
  g.rules.toList.countP fun p => Assoc.getD p.number marks 0 != stamp

theorem unmarked_put (hp : p ∈ g.rules) (hnew : Assoc.getD p.number marks 0 ≠ stamp) :
    unmarked g stamp (Assoc.put p.number stamp marks) < unmarked g stamp marks := by
  have hle : ∀ rules : List Production,
      rules.countP (fun q => Assoc.getD q.number (Assoc.put p.number stamp marks) 0 != stamp) ≤
        rules.countP fun q => Assoc.getD q.number marks 0 != stamp := by
    refine fun rules => List.countP_mono_left fun q _ hq => ?_
    rw [Assoc.getD_put] at hq
    split at hq
    · simp at hq
    · exact hq
  obtain ⟨before, after, hsplit⟩ := List.append_of_mem (Array.mem_toList_iff.2 hp)
  have hbefore := hle before
  have hafter := hle after
  have hput : Assoc.getD p.number (Assoc.put p.number stamp marks) 0 = stamp := by
    rw [Assoc.getD_put, if_pos (beq_self_eq_true _)]
  simp only [unmarked, hsplit, List.countP_append, List.countP_cons, hput, bne_self_eq_false,
    bne_iff_ne.2 hnew]
  simp only [Bool.false_eq_true, if_true, if_false]
  omega

theorem addExpansions_length (hrules : ∀ p ∈ rules, p ∈ g.rules) :
    (addExpansions stamp rules marks).1.length + unmarked g stamp
      (addExpansions stamp rules marks).2 ≤ unmarked g stamp marks := by
  induction rules generalizing marks with
  | nil => exact Nat.le_of_eq (Nat.zero_add _)
  | cons p rest ih =>
    obtain ⟨hp, hrest⟩ := List.forall_mem_cons.1 hrules
    simp only [addExpansions]
    split
    · exact ih hrest
    · rename_i hnew
      have hless := unmarked_put hp (mt beq_iff_eq.2 hnew)
      have hmore := @ih (Assoc.put p.number stamp marks) hrest
      simp only [List.length_cons]
      omega

/-- With rounds for all items that are left and all rules that may come, no item is left
unexpanded. -/
theorem mem_closeFrom_of_expansions (hg : g.Regular)
    (hfuel : todo.length + unmarked g stamp marks < fuel)
    (hi : i ∈ (closeFrom g stamp fuel todo marks).1) (hp : p ∈ i.expansions g) :
    ⟨p.number, 0⟩ ∈ (closeFrom g stamp fuel todo marks).1 ∨
    Assoc.getD p.number marks 0 = stamp := by
  induction fuel generalizing todo marks with
  | zero => omega
  | succ fuel ih =>
    cases todo with
    | nil => cases hi
    | cons j todo =>
      have hlength := @addExpansions_length g stamp marks (j.expansions g)
        fun q hq => mem_rules_of_expansions hg hq
      have hmarks := addExpansions_marks stamp (j.expansions g) marks p.number
      simp only [closeFrom] at hi ⊢
      refine or_iff_not_imp_right.2 fun hnew => List.mem_cons_of_mem _ ?_
      -- A rule that has just been added waits to be expanded.
      have hadded (h : ⟨p.number, 0⟩ ∈ (addExpansions stamp (j.expansions g) marks).1) :=
        @mem_closeFrom_of_mem g _ _ stamp fuel (addExpansions stamp (j.expansions g) marks).2
          (List.mem_append_right todo h)
      rcases List.mem_cons.1 hi with rfl | hi
      · exact hadded (mem_addExpansions hp hnew)
      · rw [List.length_cons] at hfuel
        have hlater := ih (by rw [List.length_append]; omega) hi
        rcases hmarks with ⟨-, hkept⟩ | ⟨hmem, -⟩
        · exact hlater.resolve_right (hkept ▸ hnew)
        · exact hadded hmem

/-! ## Kernels -/

/-- Each state is the closure of its kernel, no two kernels are the same list, and the next closure
finds no rule marked with its number. -/
structure Separate (g : Grammar) (a : Automaton) : Prop where
  marks : ∀ rule, Assoc.getD rule a.marks 0 ≤ a.states.size
  items : ∀ s ∈ a.states, ∀ i, i ∈ s.items ↔ Opened g s.kernel i
  kernel : ∀ s ∈ a.states, ∀ i ∈ s.kernel, 0 < i.dot ∨ i.rule = 0
  distinct : ∀ (i j : Nat) (s t : ItemSet), a.states[i]? = some s → a.states[j]? = some t →
    s.kernel = t.kernel → i = j

theorem Separate.addState (hg : g.Regular) (h : Separate g a)
    (hnew : ∀ s ∈ a.states, s.kernel ≠ kernel) (hkernel : ∀ i ∈ kernel, 0 < i.dot ∨ i.rule = 0) :
    Separate g (a.addState g kernel) := by
  have hfuel : kernel.length + unmarked g (a.states.size + 1) a.marks <
      kernel.length + g.size + 1 := by
    have hle : unmarked g (a.states.size + 1) a.marks ≤ g.rules.toList.length :=
      List.countP_le_length
    rw [Array.length_toList] at hle
    rw [Grammar.size]
    omega
  have hfresh : ∀ rule, Assoc.getD rule a.marks 0 ≠ a.states.size + 1 :=
    fun rule => Nat.ne_of_lt (Nat.lt_succ_of_le (h.marks rule))
  rw [Automaton.addState]
  constructor
  · intro rule
    simp only [Array.size_push]
    rcases closeFrom_marks g (a.states.size + 1) (kernel.length + g.size + 1) kernel a.marks rule
      with ⟨-, hkept⟩ | ⟨-, hset, -⟩
    · exact hkept ▸ Nat.le_succ_of_le (h.marks rule)
    · exact Nat.le_of_eq hset
  · intro s hs i
    rcases Array.mem_push.1 hs with hs | rfl
    · exact h.items s hs i
    · refine ⟨opened_of_mem_closeFrom, fun hi => ?_⟩
      induction hi with
      | kernel hi => exact mem_closeFrom_of_mem hi
      | rule _ hp ih => exact (mem_closeFrom_of_expansions hg hfuel ih hp).resolve_right (hfresh _)
  · intro s hs
    rcases Array.mem_push.1 hs with hs | rfl
    · exact h.kernel s hs
    · exact hkernel
  · intro i j s t hs ht heq
    rw [Array.getElem?_push] at hs ht
    split at hs <;> split at ht
    · omega
    · cases hs
      exact absurd heq.symm (hnew t (Array.mem_of_getElem? ht))
    · cases ht
      exact absurd heq (hnew s (Array.mem_of_getElem? hs))
    · exact h.distinct i j s t hs ht heq

theorem separate_buildStates (hg : g.Regular) (ha : buildStates limit g = .ok a) :
    Separate g a := by
  have hnil : Separate g ⟨g.marks, #[]⟩ := by
    refine ⟨fun rule => ?_, nofun, nofun, nofun⟩
    rw [hg.blank.2.2]
    exact Nat.le_refl 0
  refine addStates_keeps (fun b s x hb _ hnone => hb.addState hg ?_
    fun i hi => .inl (dot_pos_of_mem_moved hi)) (hnil.addState hg nofun ?_) ha
  · intro t ht heq
    rw [numberOf?, Array.findIdx?_eq_none_iff] at hnone
    exact absurd (beq_iff_eq.2 heq) (Bool.eq_false_iff.1 (hnone t ht))
  · rintro i hi
    exact .inr (congrArg Item.rule (List.mem_singleton.1 hi))

/-- A closure adds rules at their start only, so the items of a state determine those of its
kernel. -/
theorem Separate.mem_kernel_iff (hg : g.Regular) (h : Separate g a) (hs : s ∈ a.states) :
    i ∈ s.kernel ↔ i ∈ s.items ∧ (0 < i.dot ∨ i.rule = 0) := by
  rw [h.items s hs]
  refine ⟨fun hi => ⟨.kernel hi, h.kernel s hs i hi⟩, ?_⟩
  rintro ⟨hi, hplace⟩
  cases hi with
  | kernel hi => exact hi
  | rule _ hp =>
    rcases hplace with hdot | hrule
    · exact absurd hdot (Nat.lt_irrefl 0)
    · exact absurd hrule (number_ne_zero hg (mem_rules_of_expansions hg hp))

theorem Separate.items_iff (hg : g.Regular) (h : Separate g a) (hs : s ∈ a.states)
    (ht : t ∈ a.states) :
    (∀ i, i ∈ s.items ↔ i ∈ t.items) ↔ ∀ i, i ∈ s.kernel ↔ i ∈ t.kernel := by
  refine ⟨fun hsame i => ?_, fun hsame i => ?_⟩
  · rw [h.mem_kernel_iff hg hs, h.mem_kernel_iff hg ht, hsame]
  · rw [h.items s hs, h.items t ht]
    exact ⟨.of_forall fun k hk => .kernel ((hsame k).1 hk), .of_forall fun k hk =>
      .kernel ((hsame k).2 hk)⟩

theorem goto?_eq_some {states : Array ItemSet} (h : goto? g states s x = some n) :
    ∃ t, states[n]? = some t ∧ t.kernel = moved g s x ∧ ∃ i, i ∈ moved g s x := by
  rw [goto?] at h
  split at h
  · cases h
  · rename_i hsome
    obtain ⟨hn, hkernel, -⟩ := Array.findIdx?_eq_some_iff_getElem.1 h
    exact ⟨_, Array.getElem?_eq_getElem hn, beq_iff_eq.1 hkernel,
      List.exists_mem_of_ne_nil _ (mt List.isEmpty_iff.2 hsome)⟩

/-- States differ exactly if their kernels are different lists, while their items are the same
exactly if their kernels have the same items in whatever order. Symbols lead to one state exactly if
moving the dot over them gives one list. -/
theorem states_eq_iff {limit i j : Nat} (hg : g.Built) (ha : buildStates limit g = .ok a)
    (hs : a.states[i]? = some s) (ht : a.states[j]? = some t) :
    (i = j ↔ s.kernel = t.kernel) ∧
      ((∀ k, k ∈ s.items ↔ k ∈ t.items) ↔ ∀ k, k ∈ s.kernel ↔ k ∈ t.kernel) ∧
      ∀ x y m n, goto? g a.states s x = some m → goto? g a.states t y = some n →
        (m = n ↔ moved g s x = moved g t y) := by
  have h := separate_buildStates hg.regular ha
  have heq : ∀ (i j : Nat) (s t : ItemSet), a.states[i]? = some s → a.states[j]? = some t →
      (i = j ↔ s.kernel = t.kernel) := by
    intro i j s t hs ht
    refine ⟨?_, h.distinct i j s t hs ht⟩
    rintro rfl
    rw [Option.some.inj (hs.symm.trans ht)]
  refine ⟨heq i j s t hs ht, h.items_iff hg.regular (Array.mem_of_getElem? hs)
    (Array.mem_of_getElem? ht), ?_⟩
  intro x y m n hm hn
  obtain ⟨s', hs', hkernel, -⟩ := goto?_eq_some hm
  obtain ⟨t', ht', hkernel', -⟩ := goto?_eq_some hn
  rw [heq m n s' t' hs' ht', hkernel, hkernel']

/-- `X` can begin both `a` and `b`, and after `W` these are listed the other way round. -/
def turned : Grammar :=
  ((Grammar.ofTokens ["W", "X", "P", "Q"]).withRules
    [("s", ["a"]), ("s", ["b"]), ("s", ["W", "b"]), ("s", ["W", "a"]), ("a", ["X", "P"]),
      ("b", ["X", "Q"])]).startingAt "s"

theorem states_eq_iff_turned :
    ∃ a s t, buildStates 100 turned = .ok a ∧ a.states[5]? = some s ∧ a.states[8]? = some t ∧
    s.kernel ≠ t.kernel := by
  have hsize : (buildStates 100 turned).toOption.any (·.states.size == 11) := by decide +kernel
  cases ha : buildStates 100 turned with
  | error f =>
    rw [ha] at hsize
    cases hsize
  | ok a =>
    rw [ha, Except.toOption, Option.any_some, beq_iff_eq] at hsize
    have hs : a.states[5]? = some a.states[5] := Array.getElem?_eq_getElem _
    have ht : a.states[8]? = some a.states[8] := Array.getElem?_eq_getElem _
    refine ⟨a, _, _, rfl, hs, ht, fun hsame => ?_⟩
    have hg : turned.Built := .startingAt (.withRules (.tokens _) _) _
    exact absurd ((states_eq_iff hg ha hs ht).1.2 hsame) (by decide)

/-- Two states have the same items, and `X` leads to the one from the first state and to the other
from the state after `W`. -/
theorem turned_twice :
    (buildStates 100 turned).toOption.map
        (fun a => (a.states[5]?.map (·.items), a.states[8]?.map (·.items))) =
          some (some [⟨5, 1⟩, ⟨6, 1⟩], some [⟨6, 1⟩, ⟨5, 1⟩]) ∧
      (buildStates 100 turned).toOption.map
        (fun a => (a.states[0]?.bind (goto? turned a.states · "X"),
          a.states[4]?.bind (goto? turned a.states · "X"))) = some (some 5, some 8) := by
  decide +kernel

end LangKit.Lr
