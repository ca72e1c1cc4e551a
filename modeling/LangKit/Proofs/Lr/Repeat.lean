import LangKit.Proofs.Lr.Tables
import Mathlib.Data.List.Induction

/-!
# Making a table again

A rule is marked with the number of the last state that opens it, that is, in which it stands with
the dot at its start (`Numbered`). The marks stay with the grammar, and the states of a second table
are numbered from one again. A closure takes a rule for done if it finds its own number at the rule,
and it finds an old mark only at a rule that no earlier state has opened. So the states come out the
same if and only if no rule is opened by exactly one state, and with the states the table
(`buildTable_again`).
-/

namespace LangKit.Lr

variable {s : ItemSet} {p : Production} {todo kernel : List Item} {rule : Nat} {b a' : Automaton}
  {marks marks' old : List (Nat × Nat)}

def ItemSet.opens (s : ItemSet) (rule : Nat) : Bool :=
  s.items.contains ⟨rule, 0⟩

def openings (states : Array ItemSet) (rule : Nat) : Nat :=
  states.toList.countP (·.opens rule)

/-- The number of the last state that opens a rule, counted from one, or zero. -/
def lastOpening (rule : Nat) (states : List ItemSet) : Nat :=
  states.zipIdx.foldl (fun last (s, i) => if s.opens rule then i + 1 else last) 0

section

variable {states : List ItemSet}

theorem lastOpening_concat (rule : Nat) (states : List ItemSet) (s : ItemSet) :
    lastOpening rule (states ++ [s]) = if s.opens rule then states.length + 1
      else lastOpening rule states := by
  rw [lastOpening, List.zipIdx_append, List.foldl_append, Nat.zero_add]
  rfl

theorem lastOpening_le (rule : Nat) (states : List ItemSet) :
    lastOpening rule states ≤ states.length := by
  induction states using List.reverseRecOn with
  | nil => exact Nat.le_refl 0
  | append_singleton states s ih =>
    rw [lastOpening_concat, List.length_append, List.length_singleton]
    split
    · exact Nat.le_refl _
    · exact Nat.le_succ_of_le ih

theorem lastOpening_eq_zero : lastOpening rule states = 0 ↔ states.countP (·.opens rule) = 0 := by
  induction states using List.reverseRecOn with
  | nil => exact ⟨fun _ => rfl, fun _ => rfl⟩
  | append_singleton states s ih =>
    rw [lastOpening_concat, List.countP_append, List.countP_singleton]
    split
    · exact ⟨fun h => absurd h (Nat.succ_ne_zero _), fun h => absurd h (Nat.succ_ne_zero _)⟩
    · exact ih

theorem lastOpening_eq_iff {before after : List ItemSet} (h : lastOpening rule before = 0) :
    lastOpening rule (before ++ s :: after) = before.length + 1 ↔
      s.opens rule ∧ (before ++ s :: after).countP (·.opens rule) = 1 := by
  have hnone := lastOpening_eq_zero.1 h
  induction after using List.reverseRecOn with
  | nil =>
    rw [lastOpening_concat, h, List.countP_append, hnone, List.countP_singleton]
    cases s.opens rule <;> simp
  | append_singleton after t ih =>
    have hassoc : before ++ s :: (after ++ [t]) = (before ++ s :: after) ++ [t] := by simp
    have hlength : (before ++ s :: after).length = before.length + (after.length + 1) := by
      rw [List.length_append, List.length_cons]
    rw [hassoc, lastOpening_concat, List.countP_append, List.countP_singleton]
    split
    · refine ⟨fun hlast => by omega, fun ⟨hs, hone⟩ => ?_⟩
      -- Two states open the rule: the one in question and the last one.
      rw [List.countP_append, List.countP_cons, if_pos hs] at hone
      omega
    · exact ih

end

/-! ## Marks -/

variable {g : Grammar} {stamp fuel : Nat} {a : Automaton}

/-- Marks agree on which rules a closure takes for done. The start rule is in no closure. -/
def Agree (stamp : Nat) (marks marks' : List (Nat × Nat)) : Prop :=
  ∀ rule, rule ≠ 0 → (Assoc.getD rule marks 0 = stamp ↔ Assoc.getD rule marks' 0 = stamp)

theorem addExpansions_congr {rules : List Production} (hrules : ∀ p ∈ rules, p.number ≠ 0)
    (h : Agree stamp marks marks') :
    (addExpansions stamp rules marks).1 = (addExpansions stamp rules marks').1 ∧
      Agree stamp (addExpansions stamp rules marks).2 (addExpansions stamp rules marks').2 := by
  induction rules generalizing marks marks' with
  | nil => exact ⟨rfl, h⟩
  | cons p rest ih =>
    obtain ⟨hp, hrest⟩ := List.forall_mem_cons.1 hrules
    simp only [addExpansions, beq_iff_eq]
    by_cases hmark : Assoc.getD p.number marks 0 = stamp
    · rw [if_pos hmark, if_pos ((h p.number hp).1 hmark)]
      exact ih hrest h
    · rw [if_neg hmark, if_neg (mt (h p.number hp).2 hmark)]
      have hput : Agree stamp (Assoc.put p.number stamp marks)
          (Assoc.put p.number stamp marks') := by
        intro rule hrule
        rw [Assoc.getD_put, Assoc.getD_put]
        split
        · exact .rfl
        · exact h rule hrule
      obtain ⟨hitems, hagree⟩ := ih hrest hput
      exact ⟨congrArg (List.cons _) hitems, hagree⟩

theorem number_ne_zero (hg : g.Regular) (hp : p ∈ g.rules) : p.number ≠ 0 := by
  obtain ⟨i, hi, rfl⟩ := Array.mem_iff_getElem.1 hp
  rw [hg.numbered i _ (Array.getElem?_eq_getElem hi)]
  exact Nat.succ_ne_zero i

theorem mem_rules_of_expansions {i : Item} (hg : g.Regular) (hp : p ∈ i.expansions g) :
    p ∈ g.rules := by
  rw [Item.expansions] at hp
  split at hp
  · exact (hg.mem_rulesOf.1 hp).1
  · cases hp

theorem closeFrom_congr (hg : g.Regular) (h : Agree stamp marks marks') :
    (closeFrom g stamp fuel todo marks).1 = (closeFrom g stamp fuel todo marks').1 := by
  induction fuel generalizing todo marks marks' with
  | zero => rfl
  | succ fuel ih =>
    cases todo with
    | nil => rfl
    | cons i todo =>
      have hrules : ∀ p ∈ i.expansions g, p.number ≠ 0 :=
        fun p hp => number_ne_zero hg (mem_rules_of_expansions hg hp)
      obtain ⟨hmore, hagree⟩ := addExpansions_congr hrules h
      simp only [closeFrom]
      rw [hmore, ih hagree]

/-- What the marks say, if they were `old` before the first state: a rule has the number of the last
state that opens it, or its old mark, and no state opens a rule that came to it with the state's own
number. -/
structure Numbered (old : List (Nat × Nat)) (a : Automaton) : Prop where
  marks : ∀ rule, rule ≠ 0 → Assoc.getD rule a.marks 0 =
    if lastOpening rule a.states.toList = 0 then Assoc.getD rule old 0 else lastOpening rule
      a.states.toList
  lost : ∀ before s after, a.states.toList = before ++ s :: after → ∀ rule, rule ≠ 0 →
    lastOpening rule before = 0 →
    Assoc.getD rule old 0 = before.length + 1 → s.opens rule = false

theorem Numbered.addState {old : List (Nat × Nat)} (h : Numbered old a) {kernel : List Item}
    (hkernel : ∀ rule, rule ≠ 0 → (⟨rule, 0⟩ : Item) ∉ kernel) :
    Numbered old (a.addState g kernel) := by
  rw [Automaton.addState]
  generalize hclose : closeFrom g (a.states.size + 1) (kernel.length + g.size + 1) kernel
    a.marks = closed
  obtain ⟨items, marks⟩ := closed
  have hmarks : ∀ rule, rule ≠ 0 →
    ((⟨rule, 0⟩ : Item) ∉ items ∧ Assoc.getD rule marks 0 = Assoc.getD rule a.marks 0) ∨
      ((⟨rule, 0⟩ : Item) ∈ items ∧ Assoc.getD rule marks 0 = a.states.size + 1 ∧
        Assoc.getD rule a.marks 0 ≠ a.states.size + 1) := by
    intro rule hrule
    have hspec := closeFrom_marks g (a.states.size + 1) (kernel.length + g.size + 1)
      kernel a.marks rule
    rw [hclose] at hspec
    exact hspec.imp_left fun hkept => ⟨fun hmem => hkernel rule hrule (hkept.1.1 hmem), hkept.2⟩
  have hlength : a.states.toList.length = a.states.size := Array.length_toList
  refine ⟨fun rule hrule => ?_, fun before s after heq rule hrule hbefore hold => ?_⟩
  · simp only [Array.toList_push, lastOpening_concat, ItemSet.opens, List.contains_iff_mem, hlength]
    rcases hmarks rule hrule with ⟨hnone, hkept⟩ | ⟨hmem, hset, -⟩
    · rw [if_neg hnone, hkept]
      exact h.marks rule hrule
    · rw [if_pos hmem, hset, if_neg (Nat.succ_ne_zero _)]
  · simp only [Array.toList_push] at heq
    rcases List.eq_nil_or_concat after with rfl | ⟨after, t, rfl⟩
    · obtain ⟨rfl, hs⟩ := List.append_inj' heq rfl
      obtain rfl := List.singleton_inj.1 hs
      rw [hlength] at hold
      have hmark := h.marks rule hrule
      rw [if_pos hbefore, hold] at hmark
      rcases hmarks rule hrule with ⟨hnone, -⟩ | ⟨-, -, hnew⟩
      · simpa [ItemSet.opens] using hnone
      · exact absurd hmark hnew
    · rw [List.concat_eq_append, ← List.cons_append, ← List.append_assoc] at heq
      exact h.lost before s after (List.append_inj' heq rfl).1 rule hrule hbefore hold

theorem not_mem_moved (s : ItemSet) (x : String) (rule : Nat) : (⟨rule, 0⟩ : Item) ∉ moved g s x :=
  fun h => Nat.lt_irrefl 0 (dot_pos_of_mem_moved h)

theorem not_mem_first (h : rule ≠ 0) : (⟨rule, 0⟩ : Item) ∉ [(⟨0, 0⟩ : Item)] :=
  fun hmem => h (congrArg Item.rule (List.mem_singleton.1 hmem))

theorem numbered_nil (old : List (Nat × Nat)) : Numbered old ⟨old, #[]⟩ := by
  refine ⟨fun rule _ => by rw [if_pos]; rfl, fun before s after h => ?_⟩
  cases before <;> cases h

theorem numbered_buildStates (h : buildStates limit g = .ok a) : Numbered g.marks a :=
  addStates_keeps (fun _ s x ha _ _ => ha.addState fun rule _ => not_mem_moved s x rule)
    ((numbered_nil g.marks).addState fun _ => not_mem_first) h

/-! ## The states again -/

section

variable {final : List ItemSet} (hg : g.Regular)
  (hold : ∀ rule, rule ≠ 0 → Assoc.getD rule old 0 = lastOpening rule final)
  (honce : ∀ rule, rule ≠ 0 → final.countP (·.opens rule) ≠ 1)
include hg hold honce

section

variable (ha : Numbered [] a) (ha' : Numbered old a') (hsame : a'.states = a.states)

include ha ha' hsame

theorem addState_again (hfinal : (a.addState g kernel).states.toList <+: final) :
    (a'.addState g kernel).states = (a.addState g kernel).states := by
  have hagree : Agree (a.states.size + 1) a.marks a'.marks := by
    intro rule hrule
    have hle := lastOpening_le rule a.states.toList
    rw [Array.length_toList] at hle
    rw [ha.marks rule hrule, ha'.marks rule hrule, hsame]
    split
    · rename_i hnone
      refine ⟨fun h => absurd h (Nat.succ_ne_zero _).symm, fun h => ?_⟩
      obtain ⟨rest, hrest⟩ := hfinal
      rw [Automaton.addState, Array.toList_push, List.append_assoc, List.singleton_append] at hrest
      rw [hold rule hrule, ← Array.length_toList] at h
      have hlast := (lastOpening_eq_iff hnone).1 (hrest.symm ▸ h)
      rw [hrest] at hlast
      exact absurd hlast.2 (honce rule hrule)
    · exact .rfl
  rw [Automaton.addState, Automaton.addState, hsame]
  exact congrArg (fun items => a.states.push ⟨kernel, items⟩) (closeFrom_congr hg hagree).symm

theorem addTargets_again {symbols : List String}
    (hfinal : (symbols.foldl (Automaton.addTarget g s) a).states.toList <+: final) :
    (symbols.foldl (Automaton.addTarget g s) a').states =
      (symbols.foldl (Automaton.addTarget g s) a).states ∧
      Numbered [] (symbols.foldl (Automaton.addTarget g s) a) ∧
      Numbered old (symbols.foldl (Automaton.addTarget g s) a') := by
  induction symbols generalizing a a' with
  | nil => exact ⟨hsame, ha, ha'⟩
  | cons x rest ih =>
    simp only [List.foldl_cons] at hfinal ⊢
    have hnext := (addTargets_states g s rest (a.addTarget g s x)).trans hfinal
    have hkernel := fun rule (_ : rule ≠ 0) => not_mem_moved (g := g) s x rule
    have hone : ∀ b : Automaton, b.states = a.states → b.addTarget g s x =
        if (moved g s x).isEmpty || (numberOf? a.states (moved g s x)).isSome then b
            else b.addState g (moved g s x) :=
      fun b hb => by rw [Automaton.addTarget, hb]
    rw [hone a rfl] at hfinal hnext ⊢
    rw [hone a' hsame]
    split at hfinal
    · rename_i hnone
      rw [if_pos hnone, if_pos hnone]
      exact ih ha ha' hsame hfinal
    · rename_i hnew
      rw [if_neg hnew] at hnext ⊢
      rw [if_neg hnew]
      exact ih (ha.addState hkernel) (ha'.addState hkernel)
        (addState_again hg hold honce ha ha' hsame hnext) hfinal

theorem addStates_again (h : addStates g fuel i a = .ok b) (hfinal : b.states.toList = final) :
    ∃ b', addStates g fuel i a' = .ok b' ∧ b'.states = b.states := by
  induction fuel generalizing i a a' with
  | zero => cases h
  | succ fuel ih =>
    rw [addStates] at h ⊢
    rw [hsame]
    split at h
    · cases h
      exact ⟨a', rfl, hsame⟩
    · rename_i s hs
      have hnext : ((setSymbols g s).foldl (Automaton.addTarget g s) a).states.toList <+: final :=
        hfinal ▸ addStates_states h
      obtain ⟨hsame, ha, ha'⟩ := addTargets_again hg hold honce ha ha' hsame hnext
      exact ih ha ha' hsame h

end

end

section

variable (hg : g.Regular) (ha : buildStates limit g = .ok a)
include hg ha

theorem getD_marks (hrule : rule ≠ 0) :
    Assoc.getD rule a.marks 0 = lastOpening rule a.states.toList := by
  rw [(numbered_buildStates ha).marks rule hrule, hg.blank.2.2]
  split
  · rename_i hnone
    exact hnone.symm
  · rfl

theorem buildStates_again (honce : ∀ rule, rule ≠ 0 → openings a.states rule ≠ 1) :
    ∃ a', buildStates limit { g with marks := a.marks } = .ok a' ∧ a'.states = a.states := by
  have hold := fun rule (hrule : rule ≠ 0) => getD_marks hg ha hrule
  rw [buildStates, hg.blank.2.2] at ha
  rw [buildStates_left g g.first g.follow a.marks g.reduced]
  have hsame := addState_again hg hold honce (numbered_nil []) (numbered_nil a.marks) rfl
    (addStates_states ha)
  exact addStates_again hg hold honce ((numbered_nil []).addState fun _ => not_mem_first)
    ((numbered_nil a.marks).addState fun _ => not_mem_first) hsame ha rfl

theorem buildStates_differ (hrule : rule ≠ 0) (hone : openings a.states rule = 1)
    (ha' : buildStates limit { g with marks := a.marks } = .ok a') : a'.states ≠ a.states := by
  intro hsame
  obtain ⟨s, hs, hopens⟩ := List.countP_pos_iff.1 (Nat.lt_of_lt_of_eq Nat.one_pos hone.symm)
  obtain ⟨before, after, hsplit⟩ := List.append_of_mem hs
  rw [openings, hsplit] at hone
  have hnone : before.countP (·.opens rule) = 0 := by
    rw [List.countP_append, List.countP_cons, if_pos hopens] at hone
    omega
  have hlast := (lastOpening_eq_iff (lastOpening_eq_zero.2 hnone)).2 ⟨hopens, hone⟩
  have hlost := (numbered_buildStates ha').lost before s after (hsame ▸ hsplit) rule hrule
    (lastOpening_eq_zero.2 hnone) (by rw [getD_marks hg ha hrule, hsplit, hlast])
  rw [hopens] at hlost
  cases hlost

end

/-! ## The table again -/

/-- A table is made again from its grammar if no rule but the start rule is opened by exactly one
state, and only then are the states the same. -/
theorem buildTable_again {limit : Nat} {g g' : Grammar} {method : Method} {table : Table}
    (hg : g.Built) (h : buildTable limit g method = (.ok table, g')) :
    ∃ a, buildStates limit g = .ok a ∧
      ((∀ rule, rule ≠ 0 → openings a.states rule ≠ 1) →
        (buildTable limit g' method).1 = .ok table) ∧
      ∀ rule, rule ≠ 0 → openings a.states rule = 1 → ∀ a', buildStates limit g' = .ok a' →
        a'.states ≠ a.states := by
  have hg := hg.regular
  obtain ⟨first, follow, a, reduced, l, rows, notes, rfl, hstart, hfirst, hfollow, -, ha, hl,
      hrows, rfl⟩ :=
    buildTable_eq_ok hg.blank.1 hg.blank.2.1 h
  have hstates : buildStates limit { g with first, follow, marks := a.marks, reduced } =
      buildStates limit { g with marks := a.marks } := by
    rw [buildStates_left g first follow a.marks reduced, buildStates_left g g.first g.follow
      a.marks g.reduced]
  refine ⟨a, ha, fun honce => ?_, fun rule hrule hone a' ha' => buildStates_differ hg ha hrule hone
    (hstates ▸ ha')⟩
  obtain ⟨a', ha', hsame⟩ := buildStates_again hg ha honce
  obtain ⟨reduced', hbuild⟩ := buildRows_eq (hstates.trans ha') (hsame ▸ hl)
  have hknown : ∀ g : Grammar, g.first ≠ [] → g.computeFirst = (.ok (), g) :=
    fun g hg => by rw [Grammar.computeFirst, if_pos (by simpa using hg)]
  have hknown' : ∀ g : Grammar, g.follow ≠ [] → g.computeFollow none = (.ok (), g) :=
    fun g hg => by rw [Grammar.computeFollow, if_pos (by simpa using hg)]
  rw [buildTable, hknown _ hfirst]
  simp only [hstart, Bool.false_eq_true, if_false]
  rw [hknown' _ hfollow]
  simp only [hbuild, hsame, hrows]
  rfl

def strokes : Grammar :=
  ((Grammar.ofTokens ["X"]).withRules [("row", ["X", "row"]), ("row", [])]).startingAt "row"

theorem buildTable_again_strokes : ∃ table g', buildTable 100 strokes .slr = (.ok table, g') ∧
    (buildTable 100 g' .slr).1 = .ok table := by
  rcases h : buildTable 100 strokes .slr with ⟨f | table, g'⟩
  · have hsome : (buildTable 100 strokes .slr).1.isOk = true := by decide +kernel
    rw [h] at hsome
    cases hsome
  · obtain ⟨a, ha, hsame, -⟩ :=
      buildTable_again (g := strokes) (.startingAt (.withRules (.tokens _) _) _) h
    have hstates : (buildStates 100 strokes).toOption.any fun a =>
        [1, 2].all (openings a.states · == 2) && a.states.all
          fun s => s.items.all (·.rule < 3) := by decide +kernel
    rw [ha, Except.toOption, Option.any_some, Bool.and_eq_true] at hstates
    refine ⟨table, g', rfl, hsame fun rule hrule hone => ?_⟩
    -- Rules with higher numbers are in no state.
    have hlt : rule < 3 := by
      obtain ⟨s, hs, hopens⟩ := List.countP_pos_iff.1 (Nat.lt_of_lt_of_eq Nat.one_pos hone.symm)
      have hitems := Array.all_eq_true'.1 hstates.2 s (Array.mem_toList_iff.1 hs)
      simpa using List.all_eq_true.1 hitems _ (List.contains_iff_mem.1 hopens)
    have htwo := List.all_eq_true.1 hstates.1 rule (by simp; omega)
    rw [hone] at htwo
    cases htwo

def lone : Grammar :=
  ((Grammar.ofTokens ["A"]).withRules [("s", ["A"])]).startingAt "s"

/-- The second table has a state less. -/
theorem lone_differs : (buildTable 100 lone .lalr).1.toOption.map (·.actions.size) = some 3 ∧
    (buildTable 100 (buildTable 100 lone .lalr).2 .lalr).1.toOption.map (·.actions.size) =
      some 2 := by
  decide +kernel

end LangKit.Lr
