import LangKit.Proofs.Lr.Rows

/-!
# Shifting or reducing

Where a state can shift a terminal and can reduce on it by one rule, the precedences decide,
whatever the order of the items is, with one exception. Neither move is made if both have the same
level and the rule does not associate. The entry is then cleared, and a cleared entry counts as
none: an item that shifts the terminal and comes after that puts its shift there
(`action_of_conflict`).
-/

namespace LangKit.Lr

variable {before after : List Item} {set tokens : List String}

variable {g : Grammar} {method : Method} {l : Lookaheads} {states : Array ItemSet}
  {s : ItemSet} {state target : Nat} {item : Item} {row row' : Row} {x : String}
  {notes notes' : Notes} {move : Option Action}

def Reduces (g : Grammar) (method : Method) (l : Lookaheads) (state : Nat) (x : String)
    (item : Item) : Prop :=
  item.next? g = none ∧ item.head g ≠ startHead ∧
  ∃ tokens, reduceOn g state method l item = .ok tokens ∧ x ∈ tokens

def shiftCount (g : Grammar) (x : String) (items : List Item) : Nat :=
  items.countP (·.next? g == some x)

/-- How the rule of an item fares against a terminal. -/
def choiceOf (g : Grammar) (x : String) (item : Item) : Resolution :=
  resolve (g.precedenceOf x) (ruleOf g item.rule).precedence

def shiftMove (choice : Resolution) (target : Nat) : Option Action → Option Action
  | some (.reduce r) =>
    match choice with
    | .shift => some (.shift target)
    | .neither => none
    | .reduce => some (.reduce r)
  | some a => some a
  | none => some (.shift target)

def reduceMove (choice : Resolution) (rule : Nat) : Option Action → Option Action
  | some (.shift target) =>
    match choice with
    | .reduce => some (.reduce rule)
    | .neither => none
    | .shift => some (.shift target)
  | some a => some a
  | none => some (.reduce rule)

/-- The move of a row on a terminal, which reduces by no rule but that of `item`. -/
structure Stands (row : Row) (x : String) (item : Item) (move : Option Action) : Prop where
  action : row.action? x = move
  owner : ∀ r, move = some (.reduce r) → r = item.rule ∧ Assoc.get? x row.owners = some item

theorem action?_set (row : Row) (x : String) (action : Action) (item : Item) :
    (row.set x action item).action? x = some action := by
  rw [Row.action?, Row.set, Assoc.get?_put_self]
  rfl

theorem action?_forbid (row : Row) (x : String) : (row.forbid x).action? x = none := by
  rw [Row.action?, Row.forbid, Assoc.get?_put_self]
  rfl

theorem Stands.kept (h : Stands row x item move) (hk : Kept x row row') : Stands row' x item move :=
  ⟨(congrArg Option.join hk.1).trans h.action,
    fun r hr => ⟨(h.owner r hr).1, hk.2.trans (h.owner r hr).2⟩⟩

theorem Stands.shift {j : Item} (h : Stands row x item move)
    (hrow : addShift g state target j row x notes = (.ok row', notes')) :
    Stands row' x item (shiftMove (choiceOf g x item) target move) := by
  obtain ⟨text, rfl⟩ := addShift_eq_ok hrow
  have hold : Stands (row.consider x j text) x item move := h.kept ⟨rfl, rfl⟩
  have hset : Stands ((row.consider x j text).set x (.shift target) j) x item
      (some (.shift target)) :=
    ⟨action?_set _ _ _ _, fun _ hr => by cases hr⟩
  rw [Row.shift, hold.action]
  cases move with
  | none => exact hset
  | some a =>
    cases a with
    | shift old => exact hold
    | accept => exact hold
    | reduce r =>
      have howner : (Assoc.getD x (row.consider x j text).owners j) = item := by
        rw [Assoc.getD, (hold.owner r rfl).2, Option.getD_some]
      rw [howner, ← choiceOf]
      dsimp only [shiftMove]
      cases choiceOf g x item with
      | shift => exact hset
      | neither => exact ⟨action?_forbid _ _, fun _ hr => by cases hr⟩
      | reduce => exact hold

theorem Stands.reduce (h : Stands row x item move) (hmove : ∀ r, move ≠ some (.reduce r))
    (hrow : addReduce g state item row x notes = (.ok row', notes')) :
    Stands row' x item (reduceMove (choiceOf g x item) item.rule move) := by
  obtain ⟨text, rfl⟩ := addReduce_eq_ok hrow
  have hold : Stands (row.consider x item text) x item move := h.kept ⟨rfl, rfl⟩
  have hset : Stands ((row.consider x item text).set x (.reduce item.rule) item) x item
      (some (.reduce item.rule)) := by
    refine ⟨action?_set _ _ _ _, fun r hr => ?_⟩
    cases hr
    exact ⟨rfl, Assoc.get?_put_self _ _ _⟩
  rw [Row.reduce, hold.action]
  cases move with
  | none => exact hset
  | some a =>
    cases a with
    | reduce r => exact absurd rfl (hmove r)
    | accept => exact hold
    | shift old =>
      rw [← choiceOf]
      dsimp only [reduceMove]
      cases choiceOf g x item with
      | reduce => exact hset
      | neither => exact ⟨action?_forbid _ _, fun _ hr => by cases hr⟩
      | shift => exact hold

/-! ## The items of a state -/

section

variable (hend : x ≠ endMark) (hterm : g.isTerminal x) (hgoto : goto? g states s x = some target)
include hend hterm hgoto

theorem Stands.addItem (h : Stands row x item move) (hj : ¬ Reduces g method l state x j)
    (hrow : addItem g state method l states s j row notes = (.ok row', notes')) :
    Stands row' x item (if j.next? g == some x then shiftMove (choiceOf g x item) target move
      else move) := by
  rcases addItem_eq_ok hrow with ⟨token, hnext, hmade⟩ | ⟨hnext,
    ⟨hhead, rfl⟩ | ⟨hhead, tokens, hon, hreduces⟩⟩
  · rw [hnext]
    by_cases hx : token = x
    · subst hx
      rw [if_pos (beq_self_eq_true _)]
      rcases hmade with ⟨target', -, hgoto', hshift⟩ | ⟨hnone, -⟩
      · obtain rfl := Option.some.inj (hgoto'.symm.trans hgoto)
        exact h.shift hshift
      · rw [hnone hterm] at hgoto
        cases hgoto
    · rw [if_neg fun hb => hx (Option.some.inj (eq_of_beq hb))]
      rcases hmade with ⟨_, -, -, hshift⟩ | ⟨-, rfl⟩
      · exact h.kept (addShift_kept hshift (Ne.symm hx))
      · exact h
  · rw [hnext]
    exact h.kept (kept_set hend _ _ _)
  · rw [hnext]
    exact h.kept (addReduces_kept hreduces fun hx => hj ⟨hnext, hhead, tokens, hon, hx⟩)

theorem Stands.addItems {items : List Item} (h : Stands row x item move)
    (hitems : ∀ j ∈ items, ¬ Reduces g method l state x j)
    (hrow : addItems g state method l states s items row notes = (.ok row', notes')) :
    Stands row' x item ((shiftMove (choiceOf g x item) target)^[shiftCount g x items] move) := by
  induction items generalizing row notes move with
  | nil =>
    obtain ⟨rfl, -⟩ := pure_eq_ok.1 hrow
    exact h
  | cons j rest ih =>
    obtain ⟨hj, hrest⟩ := List.forall_mem_cons.1 hitems
    obtain ⟨row1, notes1, hone, hrow⟩ := bind_eq_ok.1 hrow
    have hlast := ih (h.addItem hend hterm hgoto hj hone) hrest hrow
    rw [shiftCount, List.countP_cons]
    by_cases hx : (j.next? g == some x) = true
    · rw [if_pos hx] at hlast ⊢
      exact hlast
    · rw [if_neg hx] at hlast ⊢
      exact hlast

end

theorem addItems_append (h : addItems g state method l states s (before ++ after) row notes =
      (.ok row', notes')) :
    ∃ row1 notes1, addItems g state method l states s before row notes = (.ok row1, notes1) ∧
    addItems g state method l states s after row1 notes1 = (.ok row', notes') := by
  induction before generalizing row notes with
  | nil => exact ⟨row, notes, rfl, h⟩
  | cons j rest ih =>
    obtain ⟨row1, notes1, hone, h⟩ := bind_eq_ok.1 h
    obtain ⟨row2, notes2, hrest, hafter⟩ := ih h
    exact ⟨row2, notes2, (bind_of_ok hone).trans hrest, hafter⟩

theorem Stands.addReduces {tokens : List String} (h : Stands row x item move)
    (hmove : ∀ r, move ≠ some (.reduce r)) (hx : x ∈ tokens) (hnodup : tokens.Nodup)
    (hrow : addReduces g state item tokens row notes = (.ok row', notes')) :
    Stands row' x item (reduceMove (choiceOf g x item) item.rule move) := by
  induction tokens generalizing row notes with
  | nil => cases hx
  | cons token rest ih =>
    obtain ⟨hnew, hnodup⟩ := List.nodup_cons.1 hnodup
    obtain ⟨row1, notes1, hone, hmore⟩ := bind_eq_ok.1 hrow
    rcases List.mem_cons.1 hx with rfl | hrest
    · exact (h.reduce hmove hone).kept (addReduces_kept hmore hnew)
    · exact ih (h.kept (addReduce_kept hone fun heq => hnew (heq ▸ hrest))) hrest hnodup hmore

/-- The move that comes out, by the number of items that shift before and after the reduction. -/
def settledMove (choice : Resolution) (target rule before after : Nat) : Option Action :=
  match choice with
  | .reduce => some (.reduce rule)
  | .shift => some (.shift target)
  | .neither =>
    if (0 < before ∧ after = 0) ∨ (before = 0 ∧ after = 1) then none else some (.shift target)

theorem iterate_shiftMove_none (choice : Resolution) (target n : Nat) :
    (shiftMove choice target)^[n] none = if n = 0 then none else some (.shift target) := by
  cases n with
  | zero => rfl
  | succ n => exact Function.iterate_fixed (x := some (Action.shift target)) rfl n

theorem iterate_shiftMove_reduce (choice : Resolution) (target rule n : Nat) :
    (shiftMove choice target)^[n + 1] (some (.reduce rule)) =
      match choice with
      | .reduce => some (.reduce rule)
      | .shift => some (.shift target)
      | .neither => if n = 0 then none else some (.shift target) := by
  cases choice with
  | reduce => exact Function.iterate_fixed (x := some (Action.reduce rule)) rfl (n + 1)
  | shift => exact Function.iterate_fixed (x := some (Action.shift target)) rfl n
  | neither => exact iterate_shiftMove_none .neither target n

theorem settledMove_eq (choice : Resolution) (target rule : Nat) {before after : Nat}
    (h : 0 < before + after) :
    (shiftMove choice target)^[after]
      (reduceMove choice rule ((shiftMove choice target)^[before] none)) = settledMove choice target
        rule before after := by
  rw [iterate_shiftMove_none]
  cases before with
  | zero =>
    obtain ⟨n, rfl⟩ := Nat.exists_eq_succ_of_ne_zero (Nat.ne_of_gt (Nat.zero_add after ▸ h))
    rw [if_pos rfl]
    refine (iterate_shiftMove_reduce choice target rule n).trans ?_
    cases choice <;> simp [settledMove]
  | succ m =>
    rw [if_neg (Nat.succ_ne_zero m)]
    cases choice with
    | reduce => exact Function.iterate_fixed (x := some (Action.reduce rule)) rfl after
    | shift => exact Function.iterate_fixed (x := some (Action.shift target)) rfl after
    | neither =>
      refine (iterate_shiftMove_none .neither target after).trans ?_
      simp [settledMove]

/-! ## Lookaheads -/

theorem nodup_lookaheads (h : lookaheads g states = .ok l) (hset : Assoc.get? key l = some set) :
    set.Nodup := by
  have hadd : ∀ key terms (l : Lookaheads), (∀ k set, Assoc.get? k l = some set → set.Nodup) →
      ∀ k set, Assoc.get? k (addLookaheads key terms l) = some set → set.Nodup := by
    intro key terms l hl k set hset
    rw [addLookaheads, Assoc.get?_put] at hset
    split at hset
    · cases hset
      refine (Grammar.addNew_spec terms _).2.2 ?_
      rw [Assoc.getD]
      cases hold : Assoc.get? key l with
      | none => exact List.nodup_nil
      | some set => exact hl key set hold
    · exact hl k set hset
  unfold lookaheads at h
  simp only [bind, Except.bind] at h
  split at h
  · cases h
  · split at h
    · cases h
    · obtain rfl := Except.ok.inj h
      revert key set
      refine List.foldlRecOn (motive := fun l : Lookaheads => ∀ {k set}, Assoc.get? k l = some set →
        set.Nodup) _ _ (fun hnone => by cases hnone) ?_
      intro l hl look _
      refine List.foldlRecOn (motive := fun l : Lookaheads => ∀ {k set}, Assoc.get? k l = some set →
        set.Nodup) _ _ hl ?_
      exact fun l hl key _ _ _ => hadd _ _ l (fun _ _ => hl) _ _

theorem nodup_reduceOn (hfollow : ∀ b set, Assoc.get? b g.follow = some set → set.Nodup)
    (hl : lookaheadsBy method g states = .ok l) (h : reduceOn g state method l item = .ok tokens) :
    tokens.Nodup := by
  cases method with
  | slr =>
    simp only [reduceOn] at h
    split at h
    · rename_i set hset
      obtain rfl := Except.ok.inj h
      exact hfollow _ _ hset
    · cases h
  | lalr =>
    simp only [reduceOn] at h
    split at h
    · rename_i set hset
      obtain rfl := Except.ok.inj h
      exact nodup_lookaheads hl hset
    · cases h

theorem next_ne_endMark (hg : g.Regular) {j : Item} (h : j.next? g = some x) : x ≠ endMark := by
  rw [Item.next?, Item.body] at h
  cases hp : g.rule? j.rule with
  | none =>
    rw [hp] at h
    cases h
  | some p =>
    rw [hp] at h
    have hx : x ∈ p.body := List.mem_of_getElem? h
    rw [Grammar.rule?] at hp
    split at hp
    · obtain ⟨-, -, y, hbody, hy, -⟩ := hg.startRule p hp
      rw [hbody, List.mem_singleton] at hx
      obtain ⟨q, hq, rfl | hq'⟩ := hg.used y hy
      · exact hx ▸ (hg.head q hq).2.2
      · exact hx ▸ (hg.body q hq y hq').2
    · exact (hg.body p (Array.mem_of_getElem? hp) x hx).2

theorem action_of_items (hend : x ≠ endMark) (hterm : g.isTerminal x)
    (hgoto : goto? g states s x = some target) (hreduces : Reduces g method l state x item)
    (honly : ∀ j ∈ before ++ after, ¬ Reduces g method l state x j)
    (hnodup : ∀ tokens, reduceOn g state method l item = .ok tokens → tokens.Nodup)
    (hcount : 0 < shiftCount g x before + shiftCount g x after)
    (h : addItems g state method l states s (before ++ item :: after) ⟨[], [], []⟩ notes =
      (.ok row, notes')) :
    row.action? x = settledMove (choiceOf g x item) target item.rule (shiftCount g x before)
      (shiftCount g x after) := by
  obtain ⟨row1, notes1, hbefore, h⟩ := addItems_append h
  obtain ⟨row2, notes2, hitem, hafter⟩ := bind_eq_ok.1 h
  obtain ⟨hb, ha⟩ := List.forall_mem_append.1 honly
  have hnone : Stands ⟨[], [], []⟩ x item none := ⟨rfl, nofun⟩
  have hshifted := hnone.addItems hend hterm hgoto hb hbefore
  obtain ⟨hdone, hhead, tokens, hon, hx⟩ := hreduces
  rcases addItem_eq_ok hitem with ⟨_, hsome, -⟩ | ⟨-, ⟨hstart, -⟩ | ⟨-, tokens', hon', hreduced⟩⟩
  · cases hdone.symm.trans hsome
  · exact absurd hstart hhead
  · obtain rfl := Except.ok.inj (hon.symm.trans hon')
    have hmoves : ∀ r, (shiftMove (choiceOf g x item) target)^[shiftCount g x before] none ≠
        some (.reduce r) := by
      intro r
      rw [iterate_shiftMove_none]
      split <;> nofun
    have hstands := (hshifted.addReduces hmoves hx (hnodup tokens hon) hreduced).addItems hend hterm
      hgoto ha hafter
    exact hstands.action.trans (settledMove_eq _ _ _ hcount)

/-- In a table, the move of a state on a terminal that it can shift and on which one item of it
reduces. -/
theorem action_of_conflict {limit : Nat} {g' : Grammar} {table : Table} (hg : g.Built)
    (h : buildTable limit g method = (.ok table, g')) :
    ∃ a l, buildStates limit g = .ok a ∧ lookaheadsBy method g' a.states = .ok l ∧
      ∀ n s x item before after, a.states[n]? = some s → g.isTerminal x →
        s.items = before ++ item :: after →
        Reduces g' method l n x item → (∀ j ∈ before ++ after, ¬ Reduces g' method l n x j) →
        (∃ j ∈ s.items, j.next? g = some x) →
        ∃ row target, table.actions[n]? = some row ∧ goto? g a.states s x = some target ∧
          (Assoc.get? x row).join = settledMove (choiceOf g x item) target item.rule
            (shiftCount g x before) (shiftCount g x after) := by
  have hg := hg.regular
  obtain ⟨first, follow, a, reduced, l, rows, notes, rfl, -, -, -, hnodup, ha, hl, hrows, rfl⟩ :=
    buildTable_eq_ok hg.blank.1 hg.blank.2.1 h
  refine ⟨a, l, ha, hl,
    fun n s x item before after hs hterm hitems hreduces honly ⟨j, hj, hnext⟩ => ?_⟩
  obtain ⟨target, hgoto⟩ := exists_goto ha (Array.mem_of_getElem? hs) hj hnext
  obtain ⟨made, notes1, notes2, hmade, hrow⟩ := addRows_eq_ok hrows (Array.getElem?_toList.trans hs)
  have hcount : 0 < shiftCount g x before + shiftCount g x after := by
    have hpos : 0 < shiftCount g x s.items := List.countP_pos_iff.2 ⟨j, hj, beq_iff_eq.2 hnext⟩
    have hdone : ¬ (item.next? g == some x) = true := by
      rw [show item.next? g = none from hreduces.1]
      nofun
    rwa [hitems, shiftCount, List.countP_append, List.countP_cons, if_neg hdone] at hpos
  rw [Nat.zero_add, hitems] at hmade
  refine ⟨made.actions, target, by simp [tableOf, hrow], hgoto, ?_⟩
  exact action_of_items (g := { g with first, follow, marks := a.marks, reduced })
    (next_ne_endMark hg hnext) hterm hgoto hreduces honly (fun tokens hon => nodup_reduceOn hnodup
      hl hon) hcount hmade

def additions : Grammar :=
  (((Grammar.ofTokens ["PLUS", "NUM"]).withPrecedence "PLUS" "left" 1).withRules
    [("e", ["e", "PLUS", "e"]), ("e", ["NUM"])]).startingAt "e"

theorem action_of_conflict_additions :
    ∃ table g' row, buildTable 100 additions .slr = (.ok table, g') ∧
    table.actions[4]? = some row ∧ (Assoc.get? "PLUS" row).join = some (.reduce 1) := by
  rcases h : buildTable 100 additions .slr with ⟨f | table, g'⟩
  · have hsome : (buildTable 100 additions .slr).1.isOk = true := by decide +kernel
    rw [h] at hsome
    cases hsome
  · obtain ⟨a, l, ha, hl, hall⟩ := action_of_conflict (g := additions)
      (.startingAt (.withRules (.withPrecedence (.tokens _) _ _ _) _) _) h
    obtain rfl : l = [] := (Except.ok.inj hl).symm
    have hstate : ∃ s, a.states[4]? = some s ∧ s.items = [] ++ ⟨1, 3⟩ :: [⟨1, 1⟩] := by
      have hitems : (buildStates 100 additions).toOption.bind (·.states[4]?.map (·.items)) =
          some [⟨1, 3⟩, ⟨1, 1⟩] := by
        decide +kernel
      rw [ha] at hitems
      exact Option.map_eq_some_iff.1 hitems
    obtain ⟨s, hs, hitems⟩ := hstate
    have hon : reduceOn g' 4 .slr [] ⟨1, 3⟩ = .ok ["$end", "PLUS"] := by
      have hfollow : Assoc.get? "e" (buildTable 100 additions .slr).2.follow =
        some ["$end", "PLUS"] := by decide +kernel
      have hhead : Item.head (buildTable 100 additions .slr).2 ⟨1, 3⟩ = "e" := by decide +kernel
      rw [h] at hfollow hhead
      simp only [reduceOn, hhead, hfollow]
    have hdone : Item.next? g' ⟨1, 3⟩ = none ∧ Item.head g' ⟨1, 3⟩ ≠ startHead ∧
        Item.next? g' ⟨1, 1⟩ ≠ none := by
      have hrun : Item.next? (buildTable 100 additions .slr).2 ⟨1, 3⟩ = none ∧
          Item.head (buildTable 100 additions .slr).2 ⟨1, 3⟩ ≠ startHead ∧
          Item.next? (buildTable 100 additions .slr).2 ⟨1, 1⟩ ≠ none := by decide +kernel
      rwa [h] at hrun
    obtain ⟨row, target, hrow, -, hmove⟩ := hall 4 s "PLUS" ⟨1, 3⟩ [] [⟨1, 1⟩] hs (by decide) hitems
      ⟨hdone.1, hdone.2.1, _, hon,
      by decide⟩ (fun j hj hr => hdone.2.2 (List.mem_singleton.1 hj ▸ hr.1)) ⟨⟨1, 1⟩,
        by rw [hitems]; decide, by decide⟩
    exact ⟨table, g', row, rfl, hrow, hmove⟩

def equations : Grammar :=
  (((Grammar.ofTokens ["EQ", "K", "NUM"]).withPrecedence "EQ" "nonassoc" 1).withRules
    [("e", ["e", "EQ", "e"]), ("e", ["e", "EQ", "K"]), ("e", ["NUM"])]).startingAt "e"

/-- One item of the state reduces on the terminal, by a rule of the same level, and they do not
associate; but the state shifts. -/
theorem equations_shift :
    (buildStates 100 equations).toOption.bind (·.states[4]?.map (·.items)) =
      some [⟨1, 3⟩, ⟨1, 1⟩, ⟨2, 1⟩] ∧
      (∀ j ∈ [⟨1, 3⟩, ⟨1, 1⟩, ⟨2, 1⟩],
        Reduces (buildTable 100 equations .slr).2 .slr [] 4 "EQ" j ↔ j = ⟨1, 3⟩) ∧
      choiceOf equations "EQ" ⟨1, 3⟩ = .neither ∧
      (buildTable 100 equations .slr).1.toOption.bind (·.actions[4]?.map (Assoc.get? "EQ" ·)) =
        some (some (some (.shift 3))) := by
  have hdone : Item.next? (buildTable 100 equations .slr).2 ⟨1, 3⟩ = none ∧
      Item.head (buildTable 100 equations .slr).2 ⟨1, 3⟩ = "e" := by decide +kernel
  have hfollow : Assoc.get? "e" (buildTable 100 equations .slr).2.follow = some ["$end", "EQ"] := by
    decide +kernel
  have hnext : ∀ j ∈ [(⟨1, 1⟩ : Item), ⟨2, 1⟩], Item.next? (buildTable 100 equations .slr).2
      j ≠ none := by
    decide +kernel
  refine ⟨by decide +kernel, fun j hj => ⟨fun hr => ?_, ?_⟩, by decide +kernel⟩
  · rcases List.mem_cons.1 hj with rfl | hj
    · rfl
    · exact absurd hr.1 (hnext j hj)
  · rintro rfl
    refine ⟨hdone.1, by rw [hdone.2]; decide, ["$end", "EQ"], ?_, by decide⟩
    simp only [reduceOn, hdone.2, hfollow]

end LangKit.Lr
