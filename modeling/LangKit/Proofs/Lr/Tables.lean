import LangKit.Lr.Table
import LangKit.Proofs.Grammar.First
import LangKit.Proofs.Lr.States

/-!
# How a table comes about

The states and the rows of a table depend on the declarations and on the sets of symbols, and on
nothing else that earlier work has left at the grammar. So a table that is made has the states of
the declared grammar, and its rows are made from these with the grammar that comes out
(`buildTable_eq_ok`, `addRows_eq_ok`).
-/

namespace LangKit.Lr

variable {state : Nat} {s : ItemSet} {notes notes' : Notes}

/-! ## What has been left at the grammar -/

section

-- Neither the states nor the rows depend on what has been left at the grammar.
variable (g : Grammar) (first follow : SymbolSets) (marks : List (Nat × Nat))
  (reduced : List (Nat × Int))

theorem closeFrom_left (stamp fuel : Nat) (todo : List Item) (m : List (Nat × Nat)) :
    closeFrom { g with first, follow, marks, reduced } stamp fuel todo m = closeFrom g stamp
      fuel todo m := by
  induction fuel generalizing todo m with
  | zero => rfl
  | succ fuel ih =>
    cases todo with
    | nil => rfl
    | cons i todo =>
      simp only [closeFrom, ih]
      rfl

theorem addState_left :
    Automaton.addState { g with first, follow, marks, reduced } = Automaton.addState g := by
  funext a kernel
  simp only [Automaton.addState, closeFrom_left]
  rfl

theorem addStates_left (fuel i : Nat) (a : Automaton) :
    addStates { g with first, follow, marks, reduced } fuel i a = addStates g fuel i a := by
  have htarget : Automaton.addTarget { g with first, follow, marks, reduced } =
      Automaton.addTarget g := by
    funext s a x
    simp only [Automaton.addTarget, addState_left]
    rfl
  induction fuel generalizing i a with
  | zero => rfl
  | succ fuel ih =>
    simp only [addStates, ih, htarget]
    rfl

theorem buildStates_left : buildStates limit { g with first, follow, marks, reduced } =
    addStates g limit 0 (Automaton.addState g ⟨marks, #[]⟩ [⟨0, 0⟩]) := by
  rw [buildStates, addState_left g first follow marks reduced, addStates_left g first follow
    marks reduced]

theorem walk_left (states : Array ItemSet) (all : List Transition) (nullable : List String)
    (state : Int) (symbols : List String) :
      walk { g with marks, reduced } states all nullable state symbols = walk g states all nullable
        state symbols := by
  induction symbols generalizing state with
  | nil => rfl
  | cons x rest ih =>
    simp only [walk, ih]
    rfl

theorem lookbackOf_left (states : Array ItemSet) (all : List Transition) (nullable : List String)
    (t : Transition) (items : List Item) :
      lookbackOf { g with marks, reduced } states all nullable t items = lookbackOf g states all
        nullable t items := by
  induction items with
  | nil => rfl
  | cons p rest ih =>
    simp only [lookbackOf, ih, walk_left]
    rfl

theorem lookaheadsBy_left (method : Method) (states : Array ItemSet) :
    lookaheadsBy method { g with marks, reduced } states = lookaheadsBy method g states := by
  simp only [lookaheadsBy, lookaheads, relations, lookbackOf_left]
  rfl

theorem addReduces_left (state : Nat) (item : Item) (tokens : List String) (row : Row) :
    addReduces { g with marks, reduced } state item tokens row = addReduces g state item
      tokens row := by
  induction tokens generalizing row with
  | nil => rfl
  | cons token rest ih =>
    simp only [addReduces, ih]
    rfl

theorem addItems_left (state : Nat) (method : Method) (l : Lookaheads) (states : Array ItemSet)
    (s : ItemSet) (items : List Item) (row : Row) :
      addItems { g with marks, reduced } state method l states s items row = addItems g state method
        l states s items row := by
  induction items generalizing row with
  | nil => rfl
  | cons item rest ih =>
    simp only [addItems, ih, addItem, addReduces_left]
    rfl

theorem addRows_left (method : Method) (l : Lookaheads) (states : Array ItemSet)
    (state : Nat) (rest : List ItemSet) :
    addRows { g with marks, reduced } method l states state rest = addRows g method l states
      state rest := by
  induction rest generalizing state with
  | nil => rfl
  | cons s rest ih =>
    simp only [addRows, ih, addRow, addItems_left]
    rfl

end

/-! ## A table that is made -/

variable {g g' : Grammar} {method : Method} {table : Table} {l : Lookaheads}
  {states : Array ItemSet}

def firstNotes (method : Method) : Notes :=
  ⟨[], [], "Parsing method: " ++ method.label ++ "\n", []⟩

def tableOf (method : Method) (rows : List (ActionRow × GotoRow)) (notes : Notes) : Table :=
  ⟨method, (rows.map (·.1)).toArray, (rows.map (·.2)).toArray, notes.shiftReduce,
    notes.reduceReduce, notes.log⟩

theorem buildRows_eq (ha : buildStates limit g = .ok a)
    (hl : lookaheadsBy method g a.states = .ok l) :
    ∃ reduced, buildRows limit g method =
      let r := addRows g method l a.states 0 a.states.toList (firstNotes method)
      (r.1.map (tableOf method · r.2), { g with marks := a.marks, reduced }) := by
  rw [buildRows, ha]
  dsimp only
  rw [hl]
  exact ⟨_, rfl⟩

theorem buildRows_eq_ok (h : buildRows limit g method = (.ok table, g')) :
    ∃ a reduced l rows notes, g' = { g with marks := a.marks, reduced } ∧
      buildStates limit g = .ok a ∧
      lookaheadsBy method g a.states = .ok l ∧
      addRows g method l a.states 0 a.states.toList (firstNotes method) = (.ok rows, notes) ∧
      table = tableOf method rows notes := by
  cases ha : buildStates limit g with
  | error f =>
    rw [buildRows, ha] at h
    cases h
  | ok a =>
    cases hl : lookaheadsBy method g a.states with
    | error f =>
      simp only [buildRows, ha, hl] at h
      cases h
    | ok l =>
      obtain ⟨reduced, heq⟩ := buildRows_eq ha hl
      rw [heq] at h
      rcases hrows : addRows g method l a.states 0 a.states.toList
          (firstNotes method) with ⟨_ | rows, notes⟩ <;>
        rw [hrows] at h <;> cases h
      exact ⟨a, reduced, l, rows, notes, rfl, rfl, hl, hrows, rfl⟩

theorem computeFirst_eq (hfirst : g.first = []) :
    ∃ first, g.computeFirst.2 = { g with first } ∧ first ≠ [] := by
  have hrun : g.computeFirst.2 = { g with
      first := (Grammar.rounds (g.firstRound (Assoc.keys g.nonterminals)) g.roundLimit
          g.firstStart).2 } := by
    rw [Grammar.computeFirst, hfirst]
    rfl
  refine ⟨_, hrun, Grammar.keeps_rounds (Grammar.keeps_firstRound (P := fun s => s ≠ []) ?_ g _) _ _
    fun h => ?_⟩
  · exact fun _ _ _ _ _ _ => Assoc.put_ne_nil _ _ _
  · have hend : Assoc.has endMark g.firstStart = true :=
      Grammar.has_firstStart.trans (by simp [Grammar.isSymbol])
    rw [h] at hend
    cases hend

theorem computeFollow_eq (hfirst : g.first ≠ [])
    (hfollow : g.follow = []) (h : g.computeFollow none = (.ok (), g')) :
    ∃ follow, g' = { g with follow } ∧ ∀ P : SymbolSets → Prop,
      (∀ s x set more, P s → Assoc.get? x s = some set →
        P (Assoc.put x (Grammar.addNew more set) s)) →
      (∀ start, P (Assoc.put start [endMark] ((Assoc.keys g.nonterminals).map fun n => (n, [])))) →
        P follow := by
  have hknown : g.computeFirst = (.ok (), g) := by
    rw [Grammar.computeFirst, if_pos (by simpa using hfirst)]
  rw [Grammar.computeFollow, if_neg (by simp [hfollow]), hknown] at h
  dsimp only at h
  split at h
  · cases h
  · rename_i start _
    have hg' : g' = { g with
        follow := (Grammar.rounds (g.followRound g.first g.rules.toList) g.roundLimit
          (Assoc.put start [endMark] ((Assoc.keys g.nonterminals).map fun n => (n, [])))).2 } :=
            (Prod.mk.inj h).2.symm
    refine ⟨_, hg', fun P hput hstart => ?_⟩
    exact Grammar.keeps_rounds (Grammar.keeps_followRound hput g g.first _) _ _ (hstart start)

/-- A table that is made has the states of the declared grammar. The grammar that comes out differs
in the sets of symbols, the marks and the counts, and the table can be made from it with these
states. -/
theorem buildTable_eq_ok (hfirst : g.first = []) (hfollow : g.follow = [])
    (h : buildTable limit g method = (.ok table, g')) :
    ∃ first follow a reduced l rows notes,
      g' = { g with first, follow, marks := a.marks, reduced } ∧
      g.startRule.isNone = false ∧ first ≠ [] ∧ follow ≠ [] ∧
      (∀ x set, Assoc.get? x follow = some set → set.Nodup) ∧ buildStates limit g = .ok a ∧
      lookaheadsBy method g' a.states = .ok l ∧
      addRows g' method l a.states 0 a.states.toList (firstNotes method) = (.ok rows, notes) ∧
      table = tableOf method rows notes := by
  rw [buildTable] at h
  split at h
  · cases h
  · rename_i hstart
    obtain ⟨first, hg1, hsome⟩ := computeFirst_eq hfirst
    split at h
    · cases h
    · rename_i g1 hrun
      obtain rfl : g1 = { g with first } := by rw [← hg1, hrun]
      split at h
      · cases h
      · rename_i g2 hrun2
        obtain ⟨follow, rfl, hkept⟩ := computeFollow_eq (g := { g with first }) hsome hfollow hrun2
        have hnodup := hkept (fun s => ∀ x set, Assoc.get? x s = some set → set.Nodup)
          (fun s x set more hs hx y other hy => ?_) fun start x set hx => ?_
        · obtain ⟨a, reduced, l, rows, notes, rfl, ha, hl, hrows, rfl⟩ := buildRows_eq_ok h
          refine ⟨first, follow, a, reduced, l, rows, notes, rfl, Bool.eq_false_iff.2 hstart,
            hsome, ?_, hnodup, ?_, ?_, ?_, rfl⟩
          · exact hkept (fun s => s ≠ []) (fun _ _ _ _ _ _ => Assoc.put_ne_nil _ _ _)
              fun _ => Assoc.put_ne_nil _ _ _
          · rw [← ha, buildStates_left g first follow g.marks g.reduced, buildStates]
          · exact (lookaheadsBy_left { g with first, follow } a.marks reduced method a.states).trans
              hl
          · rw [← hrows]
            exact congrFun (addRows_left { g with first, follow } a.marks reduced method l
              a.states 0 _) _
        · rw [Assoc.get?_put] at hy
          split at hy
          · cases hy
            exact (Grammar.addNew_spec more set).2.2 (hs x set hx)
          · exact hs y other hy
        · rw [Assoc.get?_put] at hx
          split at hx
          · cases hx
            exact List.nodup_singleton _
          · obtain ⟨n, -, hn⟩ := List.mem_map.1 (Assoc.mem_of_get? hx)
            cases hn
            exact List.nodup_nil

/-! ## Rows -/

theorem addRow_eq_ok {row : ActionRow × GotoRow}
    (h : addRow g method l states state s notes = (.ok row, notes')) :
    ∃ made notes1 notes2, addItems g state method l states s s.items ⟨[], [], []⟩ notes1 =
      (.ok made, notes2) ∧
      row = (made.actions, gotoRow g states s) := by
  obtain ⟨_, notes1, -, h⟩ := bind_eq_ok.1 h
  obtain ⟨made, notes2, hitems, h⟩ := bind_eq_ok.1 h
  refine ⟨made, notes1, notes2, hitems, ?_⟩
  obtain ⟨_, _, -, h⟩ := bind_eq_ok.1 h
  obtain ⟨_, _, -, h⟩ := bind_eq_ok.1 h
  obtain ⟨unused, _, -, h⟩ := bind_eq_ok.1 h
  cases unused with
  | true =>
    obtain ⟨_, _, -, h⟩ := bind_eq_ok.1 h
    obtain ⟨_, _, -, h⟩ := bind_eq_ok.1 h
    exact (pure_eq_ok.1 h).1.symm
  | false =>
    obtain ⟨_, _, -, h⟩ := bind_eq_ok.1 h
    exact (pure_eq_ok.1 h).1.symm

theorem addRows_eq_ok
    (h : addRows g method l states state rest notes = (.ok rows, notes')) (hs : rest[n]? = some s) :
    ∃ made notes1 notes2, addItems g (state + n) method l states s s.items ⟨[], [], []⟩ notes1 =
      (.ok made, notes2) ∧
      rows[n]? = some (made.actions, gotoRow g states s) := by
  induction rest generalizing state rows notes n with
  | nil => cases hs
  | cons t rest ih =>
    obtain ⟨row, notes1, hrow, h⟩ := bind_eq_ok.1 h
    obtain ⟨others, notes2, hrest, h⟩ := bind_eq_ok.1 h
    obtain ⟨rfl, rfl⟩ := pure_eq_ok.1 h
    cases n with
    | zero =>
      cases hs
      obtain ⟨made, notes1, notes2, hitems, rfl⟩ := addRow_eq_ok hrow
      exact ⟨made, notes1, notes2, hitems, rfl⟩
    | succ n =>
      have hnext := ih hrest hs
      rwa [Nat.add_assoc, Nat.add_comm 1 n] at hnext

end LangKit.Lr
