import LangKit.Lr.Automaton
import LangKit.Proofs.Grammar.Declared
import LangKit.Proofs.Grammar.Filling

/-!
# States and their items

A closure adds a rule at most once, and marks it when it does (`closeFrom_marks`). What holds of the
first state and is kept by each state that is added holds in the end (`addStates_keeps`). When all
states have been gone through, each symbol after a dot leads to a state (`exists_goto`).
-/

namespace LangKit.Lr

variable {i : Item} {todo kernel : List Item} {s : ItemSet} {x : String} {a b : Automaton}
  {xs ys states : Array ItemSet} {symbols : List String}

variable {g : Grammar} {stamp fuel : Nat} {marks marks' : List (Nat × Nat)}

/-! ## Closures -/

theorem addExpansions_marks (stamp : Nat) (rules : List Production) (marks : List (Nat × Nat))
    (rule : Nat) :
    let r := addExpansions stamp rules marks
    (⟨rule, 0⟩ ∉ r.1 ∧ Assoc.getD rule r.2 0 = Assoc.getD rule marks 0) ∨
      (⟨rule, 0⟩ ∈ r.1 ∧ Assoc.getD rule r.2 0 = stamp ∧ Assoc.getD rule marks 0 ≠ stamp) := by
  induction rules generalizing marks with
  | nil => exact .inl ⟨List.not_mem_nil, rfl⟩
  | cons p rest ih =>
    simp only [addExpansions]
    split
    · exact ih marks
    · rename_i hnew
      have hput := Assoc.getD_put p.number rule stamp 0 marks
      by_cases hp : rule = p.number
      · subst hp
        rw [if_pos (beq_self_eq_true _)] at hput
        refine .inr ⟨List.mem_cons_self, ?_, fun h => hnew (beq_iff_eq.2 h)⟩
        rcases ih (Assoc.put p.number stamp marks) with ⟨-, h⟩ | ⟨-, h, -⟩
        · exact h.trans hput
        · exact h
      · rw [if_neg fun h => hp (eq_of_beq h)] at hput
        have hmem : ∀ items : List Item, (⟨rule, 0⟩ : Item) ∈ (⟨p.number, 0⟩ : Item) :: items ↔
            ⟨rule, 0⟩ ∈ items :=
          fun items => List.mem_cons.trans (or_iff_right fun h => hp (congrArg Item.rule h))
        simp only [hmem]
        rw [← hput]
        exact ih (Assoc.put p.number stamp marks)

theorem closeFrom_marks (g : Grammar) (stamp fuel : Nat) (todo : List Item)
    (marks : List (Nat × Nat)) (rule : Nat) :
    let r := closeFrom g stamp fuel todo marks
    ((⟨rule, 0⟩ ∈ r.1 ↔ ⟨rule, 0⟩ ∈ todo) ∧ Assoc.getD rule r.2 0 = Assoc.getD rule marks 0) ∨
      (⟨rule, 0⟩ ∈ r.1 ∧ Assoc.getD rule r.2 0 = stamp ∧ Assoc.getD rule marks 0 ≠ stamp) := by
  induction fuel generalizing todo marks with
  | zero => exact .inl ⟨.rfl, rfl⟩
  | succ fuel ih =>
    cases todo with
    | nil => exact .inl ⟨.rfl, rfl⟩
    | cons i todo =>
      simp only [closeFrom]
      rcases addExpansions_marks stamp (i.expansions g) marks rule with ⟨hnone, hmark⟩ | ⟨hmem,
          hmark, hold⟩ <;>
        rcases ih (todo ++ (addExpansions stamp (i.expansions g) marks).1)
          (addExpansions stamp (i.expansions g) marks).2 with ⟨hsame, hkept⟩ | ⟨hadded, hset, hnew⟩
      · refine .inl ⟨?_, hkept.trans hmark⟩
        rw [List.mem_cons, List.mem_cons, hsame, List.mem_append, or_iff_left hnone]
      · exact .inr ⟨List.mem_cons_of_mem _ hadded, hset, hmark ▸ hnew⟩
      · exact .inr ⟨List.mem_cons_of_mem _ (hsame.2 (List.mem_append_right _ hmem)),
          hkept.trans hmark, hold⟩
      · exact .inr ⟨List.mem_cons_of_mem _ hadded, hset, hold⟩

/-! ## States that are added -/

theorem dot_pos_of_mem_moved (h : i ∈ moved g s x) : 0 < i.dot := by
  obtain ⟨j, -, rfl⟩ := List.mem_map.1 h
  exact Nat.succ_pos _

theorem addTarget_states (g : Grammar) (s : ItemSet) (a : Automaton) (x : String) :
    a.states.toList <+: (a.addTarget g s x).states.toList := by
  rw [Automaton.addTarget]
  split
  · exact List.prefix_refl _
  · rw [Automaton.addState, Array.toList_push]
    exact List.prefix_append _ _

theorem addTargets_states (g : Grammar) (s : ItemSet) (symbols : List String) (a : Automaton) :
    a.states.toList <+: (symbols.foldl (Automaton.addTarget g s) a).states.toList := by
  induction symbols generalizing a with
  | nil => exact List.prefix_refl _
  | cons x rest ih => exact (addTarget_states g s a x).trans (ih _)

theorem addStates_states {i : Nat} (h : addStates g fuel i a = .ok b) :
    a.states.toList <+: b.states.toList := by
  induction fuel generalizing i a with
  | zero => cases h
  | succ fuel ih =>
    rw [addStates] at h
    split at h
    · cases h
      exact List.prefix_refl _
    · exact (addTargets_states g _ _ a).trans (ih h)

theorem getElem?_of_initial (h : xs.toList <+: ys.toList) {i : Nat} (hs : xs[i]? = some s) :
    ys[i]? = some s := by
  obtain ⟨rest, h⟩ := h
  rw [← Array.getElem?_toList] at hs ⊢
  rw [← h, List.getElem?_append_left (List.getElem?_eq_some_iff.1 hs).1, hs]

section

variable {P : Automaton → Prop}
  (hstep : ∀ a s x, P a → s ∈ a.states → numberOf? a.states (moved g s x) = none →
    P (a.addState g (moved g s x)))
include hstep

theorem addTargets_keeps (ha : P a) (hs : s ∈ a.states) :
    P (symbols.foldl (Automaton.addTarget g s) a) := by
  induction symbols generalizing a with
  | nil => exact ha
  | cons x rest ih =>
    refine ih ?_ (Array.mem_toList_iff.1 ((addTarget_states g s a x).subset
      (Array.mem_toList_iff.2 hs)))
    rw [Automaton.addTarget]
    split
    · exact ha
    · rename_i hnew
      rw [Bool.or_eq_true, not_or, Option.not_isSome_iff_eq_none] at hnew
      exact hstep a s x ha hs hnew.2

theorem addStates_keeps {i : Nat} (ha : P a) (h : addStates g fuel i a = .ok b) : P b := by
  induction fuel generalizing i a with
  | zero => cases h
  | succ fuel ih =>
    rw [addStates] at h
    split at h
    · cases h
      exact ha
    · rename_i s hs
      exact ih (addTargets_keeps hstep ha (Array.mem_of_getElem? hs)) h

end

/-! ## Where symbols lead -/

theorem numberOf?_of_prefix (h : xs.toList <+: ys.toList) (hk : (numberOf? xs kernel).isSome) :
    (numberOf? ys kernel).isSome := by
  rw [numberOf?, Array.findIdx?_isSome, Array.any_eq_true'] at hk ⊢
  obtain ⟨s, hs, hk⟩ := hk
  exact ⟨s, Array.mem_toList_iff.1 (h.subset (Array.mem_toList_iff.2 hs)), hk⟩

theorem addTarget_leads (g : Grammar) (s : ItemSet) (a : Automaton) (hx : moved g s x ≠ []) :
    (numberOf? (a.addTarget g s x).states (moved g s x)).isSome := by
  have hne : (moved g s x).isEmpty = false := Bool.eq_false_iff.2 (mt List.isEmpty_iff.1 hx)
  rw [Automaton.addTarget]
  rw [hne, Bool.false_or]
  split
  · assumption
  · rw [Automaton.addState, numberOf?, Array.findIdx?_isSome, Array.any_push]
    simp

theorem addTargets_lead (g : Grammar) (s : ItemSet) (hx : x ∈ symbols)
    (hmoved : moved g s x ≠ []) (a : Automaton) :
    (numberOf? (symbols.foldl (Automaton.addTarget g s) a).states (moved g s x)).isSome := by
  induction symbols generalizing a with
  | nil => cases hx
  | cons y rest ih =>
    rcases List.mem_cons.1 hx with rfl | hx
    · exact numberOf?_of_prefix (addTargets_states g s rest _) (addTarget_leads g s a hmoved)
    · exact ih hx _

/-- All symbols of a state lead somewhere, if they lead anywhere. -/
def Leads (g : Grammar) (states : Array ItemSet) (s : ItemSet) : Prop :=
  ∀ x ∈ setSymbols g s, moved g s x ≠ [] → (numberOf? states (moved g s x)).isSome

theorem addStates_lead {i : Nat} (ha : ∀ j s, j < i → a.states[j]? = some s → Leads g a.states s)
    (h : addStates g fuel i a = .ok b) : ∀ s ∈ b.states, Leads g b.states s := by
  induction fuel generalizing i a with
  | zero => cases h
  | succ fuel ih =>
    rw [addStates] at h
    split at h
    · rename_i hend
      cases h
      intro s hs
      obtain ⟨j, hj, rfl⟩ := Array.mem_iff_getElem.1 hs
      exact ha j _ (Nat.lt_of_lt_of_le hj (Array.getElem?_eq_none_iff.1 hend))
        (Array.getElem?_eq_getElem hj)
    · rename_i s hs
      refine ih (fun j t hj ht => ?_) h
      have hgrown := addTargets_states g s (setSymbols g s) a
      rcases Nat.lt_succ_iff_lt_or_eq.1 hj with hj | rfl
      · have hold : a.states[j]? = some t := by
          have hlt : j < a.states.size := Nat.lt_trans hj (Array.getElem?_eq_some_iff.1 hs).1
          rw [← ht, getElem?_of_initial hgrown (Array.getElem?_eq_getElem hlt),
            Array.getElem?_eq_getElem hlt]
        exact fun x hx hmoved => numberOf?_of_prefix hgrown (ha j t hj hold x hx hmoved)
      · obtain rfl := Option.some.inj ((getElem?_of_initial hgrown hs).symm.trans ht)
        exact fun x hx hmoved => addTargets_lead g s hx hmoved a

theorem mem_symbols_of_next (h : i.next? g = some x) : x ∈ i.symbols g := by
  rw [Item.next?, Item.body] at h
  rw [Item.symbols]
  cases hp : g.rule? i.rule with
  | none =>
    rw [hp] at h
    cases h
  | some p =>
    rw [hp] at h
    exact ((Grammar.addNew_spec p.body []).2.1 x).2 (.inr (List.mem_of_getElem? h))

/-- In the end each symbol after a dot leads to a state. -/
theorem exists_goto (h : buildStates limit g = .ok a) (hs : s ∈ a.states) (hi : i ∈ s.items)
    (hx : i.next? g = some x) :
    ∃ n, goto? g a.states s x = some n := by
  have hmoved : moved g s x ≠ [] :=
    List.ne_nil_of_mem (List.mem_map_of_mem (List.mem_filter.2 ⟨hi, beq_iff_eq.2 hx⟩))
  have hsymbol : x ∈ setSymbols g s := by
    rw [setSymbols, Assoc.mem_keys, Assoc.has, Assoc.get?_putAll_map fun _ => (), if_pos,
      Option.isSome_some]
    exact List.mem_flatMap.2 ⟨i, hi, mem_symbols_of_next hx⟩
  have hsome := addStates_lead (fun j s hj _ => absurd hj (Nat.not_lt_zero j)) h s hs x
    hsymbol hmoved
  rw [goto?]
  rw [if_neg (mt List.isEmpty_iff.1 hmoved)]
  exact Option.isSome_iff_exists.1 hsome

end LangKit.Lr
