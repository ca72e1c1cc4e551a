import LangKit.Lr.TokenParse
import LangKit.Proofs.Lr.Conflicts
import LangKit.Proofs.Lr.Kernels
import LangKit.Proofs.Parser.Steps

/-!
# Parses are rightmost derivations

A parser over a table that a grammar makes reduces along a rightmost derivation, backwards. Each
entry of the table comes from an item of its state (`Due`), whatever conflicts have been decided on
the way; the stack is a path through the states (`Trail`), and the symbols under the dot of an item
are the part of the rule before the dot (`Trail.spells`). So what stands on the stack before the
tokens ahead derives the tokens, and when the parse is accepted it is the start symbol:
`reductions_rightmost`.
-/

namespace LangKit.Lr

/-! ## Moves without an error -/

section Machine

variable {σ ν ω : Type}

/-- The move that a step decides on, if it finds an entry for it. -/
def Setup.decision (m : Setup σ ν ω) (c : Config σ ν ω) : Option Action :=
  match m.tables.sole c.state with
  | some n => some (.reduce n)
  | none =>
    match (c.fill m).1 with
    | .ok d => d.look.bind fun e => m.tables.action d.state e.sort
    | .error _ => none

/-- The rules that are reduced until the parse is accepted, if no step meets an empty entry. -/
def reductions (m : Setup σ ν ω) [BEq σ] : Nat → Config σ ν ω → Option (List Nat)
  | 0, _ => none
  | fuel + 1, c =>
    match m.decision c, step m c with
    | some .accept, .done _ _ => some []
    | some (.shift _), .next d => reductions m fuel d
    | some (.reduce n), .next d => (reductions m fuel d).map (n :: ·)
    | _, _ => none

/-- A source gives out symbols of these sorts, and then no more. -/
inductive Supplies (m : Setup σ ν ω) : ω → List σ → Prop
  | none {w w' : ω} (h : m.pull w = (.ok none, w')) : Supplies m w []
  | some {w w' : ω} {e : Entry σ ν} {rest : List σ} (h : m.pull w = (.ok (some e), w'))
      (hrest : Supplies m w' rest) :
      Supplies m w (e.sort :: rest)

/-- What is ahead of a machine: the symbol in hand and what the source gives out. -/
def Config.Ahead (m : Setup σ ν ω) (c : Config σ ν ω) (ahead : List σ) : Prop :=
  c.putBack = [] ∧
    match c.look with
    | none => Supplies m c.world ahead
    | some e =>
      (e.sort = m.endSort ∧ ahead = []) ∨ ∃ rest, ahead = e.sort :: rest ∧ Supplies m c.world rest

variable {m : Setup σ ν ω} {c d : Config σ ν ω} {ahead : List σ}

theorem Config.Ahead.fill (h : c.Ahead m ahead) :
    ∃ d e, c.fill m = (.ok d, d) ∧ d.look = some e ∧ d.Ahead m ahead ∧ d.state = c.state ∧
      d.states = c.states ∧
      d.stack = c.stack := by
  obtain ⟨state, states, stack, look, putBack, recovering, errorOk, world, log⟩ := c
  obtain ⟨rfl, h⟩ := h
  cases look with
  | some e => exact ⟨_, e, rfl, rfl, ⟨rfl, h⟩, rfl, rfl, rfl⟩
  | none =>
    cases h with
    | none h =>
      simp only [Config.fill, h]
      exact ⟨_, _, rfl, rfl, ⟨rfl, .inl ⟨rfl, rfl⟩⟩, rfl, rfl, rfl⟩
    | some h hrest =>
      simp only [Config.fill, h]
      exact ⟨_, _, rfl, rfl, ⟨rfl, .inr ⟨_, rfl, hrest⟩⟩, rfl, rfl, rfl⟩

theorem spanOf_sort {length : Nat} {right : List (Entry σ ν)}
    (h : spanOf m world length right e = .ok e') : e'.sort = e.sort := by
  rw [spanOf] at h
  split at h
  · cases h
    rfl
  · split at h
    · cases h
      rfl
    · split at h
      · simp only [bind, Except.bind] at h
        repeat' split at h
        all_goals cases h
        rfl
      · cases h

/-- A reduction that succeeds pops the right side and goes on from the state below it. -/
theorem reduce_eq_next (hact : ∀ n right below, m.act n right below ≠ .error .syntaxError)
    (h : c.reduce m n rule = .next d) :
    ∃ e log below rest target, c.states.drop rule.length = below :: rest ∧
      m.tables.goto below rule.sort = some target ∧ e.sort = rule.sort ∧
      d = { c with
        state := target, states := target :: below :: rest,
        stack := e :: c.stack.drop rule.length, log } := by
  rw [Config.reduce] at h
  split at h
  · cases h
  rename_i c1 hnote
  obtain ⟨log, rfl⟩ : ∃ log, c1 = { c with log } := by
    rw [Config.noteReduce] at hnote
    split at hnote
    · simp only [bind, Except.bind, pure, Except.pure] at hnote
      repeat' split at hnote
      all_goals cases hnote
      exact ⟨_, note_eq _ _ _⟩
    · cases hnote
      exact ⟨_, rfl⟩
  dsimp only at h
  split at h
  · cases h
  split at h
  · cases h
  rename_i e hspan
  split at h
  · cases h
  · rename_i hdeclared
    exact absurd hdeclared (hact n _ _)
  rename_i value _
  rw [note_eq, Config.goTo] at h
  dsimp only at h
  split at h
  · cases h
  rename_i below rest hstates
  split at h
  · cases h
  rename_i target hgoto
  cases h
  exact ⟨{ e with value := some value }, _, below, rest, target, hstates, hgoto, spanOf_sort hspan,
    by rw [hstates]⟩

theorem step_of_ahead [BEq σ] (h : c.Ahead m ahead) :
    ∃ d : Config σ ν ω, step m c = d.perform m (m.decision c) ∧ d.Ahead m ahead ∧
      d.state = c.state ∧ d.states = c.states ∧
      d.stack = c.stack ∧ (m.tables.sole c.state = none →
        ∃ e, d.look = some e ∧ m.decision c = m.tables.action c.state e.sort) := by
  cases hsole : m.tables.sole c.state with
  | some n =>
    have hdecision : m.decision c = some (.reduce n) := by rw [Setup.decision, hsole]
    obtain ⟨log, hstep⟩ : ∃ log, step m c = Config.perform m { c with log } (some (.reduce n)) := by
      simp only [step, note_eq, hsole]
      exact ⟨_, rfl⟩
    exact ⟨{ c with log }, hdecision ▸ hstep, h, rfl, rfl, rfl, fun h => by cases h⟩
  | none =>
    obtain ⟨d, e, hfill, hlook, hahead, hstate, hstates, hstack⟩ := h.fill
    have hdecision : m.decision c = m.tables.action c.state e.sort := by
      rw [Setup.decision, hsole, hfill, ← hstate]
      exact congrArg (Option.bind · _) hlook
    obtain ⟨log, hstep⟩ := step_filled hsole hfill hlook (by rw [hstate, ← hdecision])
    exact ⟨{ d with log }, hstep, hahead, hstate, hstates, hstack, fun _ => ⟨e, hlook, hdecision⟩⟩

end Machine

/-! ## Where the entries of a table come from -/

section Tables

variable {g g' : Grammar} {method : Method} {l : Lookaheads} {states : Array ItemSet}
  {s : ItemSet} {state target : Nat} {item : Item} {row row' : Row} {x : String} {action : Action}
  {notes notes' : Notes} {table : Table}

/-- What an entry of a state comes from. -/
def Due (g : Grammar) (states : Array ItemSet) (s : ItemSet) (x : String) : Action → Prop
  | .shift target => g.isTerminal x ∧ goto? g states s x = some target
  | .reduce n => ∃ i ∈ s.items, i.rule = n ∧ i.next? g = none ∧ i.head g ≠ startHead
  | .accept => x = endMark ∧ ∃ i ∈ s.items, i.next? g = none ∧ i.head g = startHead

def Row.Due (g : Grammar) (states : Array ItemSet) (s : ItemSet) (row : Row) : Prop :=
  ∀ x action, (x, some action) ∈ row.actions → Lr.Due g states s x action

theorem Row.Due.set (h : row.Due g states s) (hx : Lr.Due g states s x action) :
    (row.set x action item).Due g states s := by
  intro y a ha
  obtain ha | ha := Assoc.mem_put ha
  · exact h y a ha
  · cases ha
    exact hx

theorem Row.Due.forbid (h : row.Due g states s) (x : String) : (row.forbid x).Due g states s := by
  intro y a ha
  obtain ha | ha := Assoc.mem_put ha
  · exact h y a ha
  · cases ha

theorem Row.Due.addShift (h : row.Due g states s) (hx : Lr.Due g states s x (.shift target))
    (hrow : addShift g state target item row x notes = (.ok row', notes')) :
    row'.Due g states s := by
  obtain ⟨text, rfl⟩ := addShift_eq_ok hrow
  have h : (row.consider x item text).Due g states s := h
  rw [Row.shift]
  split
  · split
    · exact h.set hx
    · exact h.forbid x
    · exact h
  · exact h
  · exact h.set hx

theorem Row.Due.addReduces (h : row.Due g states s)
    (hx : ∀ x, Lr.Due g states s x (.reduce item.rule))
    (hrow : addReduces g state item tokens row notes = (.ok row', notes')) :
    row'.Due g states s := by
  induction tokens generalizing row notes with
  | nil => exact (pure_eq_ok.1 hrow).1 ▸ h
  | cons x rest ih =>
    obtain ⟨row1, notes1, hone, hrow⟩ := bind_eq_ok.1 hrow
    refine ih ?_ hrow
    obtain ⟨text, rfl⟩ := addReduce_eq_ok hone
    have h : (row.consider x item text).Due g states s := h
    rw [Row.reduce]
    split
    · exact h.set (hx x)
    · split
      · exact h.set (hx x)
      · exact h.forbid x
      · exact h
    · split
      · exact h.set (hx x)
      · exact h
    · exact h

theorem Row.Due.addItems {items : List Item} (hitems : ∀ i ∈ items, i ∈ s.items)
    (h : row.Due g states s)
    (hrow : addItems g state method l states s items row notes = (.ok row', notes')) :
    row'.Due g states s := by
  induction items generalizing row notes with
  | nil => exact (pure_eq_ok.1 hrow).1 ▸ h
  | cons i rest ih =>
    obtain ⟨row1, notes1, hone, hrow⟩ := bind_eq_ok.1 hrow
    have hi := hitems i List.mem_cons_self
    refine ih (fun j hj => hitems j (List.mem_cons_of_mem _ hj)) ?_ hrow
    rcases addItem_eq_ok hone with ⟨x, -, ⟨target, hterm, hgoto, hshift⟩ | ⟨-, rfl⟩⟩ |
      ⟨hnext, ⟨hhead, rfl⟩ | ⟨hhead, tokens, -, hreduces⟩⟩
    · exact h.addShift ⟨hterm, hgoto⟩ hshift
    · exact h
    · exact h.set ⟨rfl, i, hi, hnext, hhead⟩
    · exact h.addReduces (fun _ => ⟨i, hi, rfl, hnext, hhead⟩) hreduces

/-- The entries of a table that has been made come from the items of the states. -/
structure Sourced (g : Grammar) (states : Array ItemSet) (t : Tables String) : Prop where
  action : ∀ n s x a, states[n]? = some s → t.action n x = some a → Due g states s x a
  sole : ∀ n s r, states[n]? = some s → t.sole n = some r → ∃ x, Due g states s x (.reduce r)
  goto : ∀ n s x target, states[n]? = some s → t.goto n x = some target →
    goto? g states s x = some target

theorem sourced_of_buildTable (hg : g.Regular) (h : buildTable limit g method = (.ok table, g'))
    (rule : Nat → Option (RuleInfo String)) (useDefaulted : Bool) :
    ∃ a, buildStates limit g = .ok a ∧ Sourced g a.states (table.toTables rule useDefaulted) := by
  obtain ⟨first, follow, a, reduced, l, rows, notes, hg', -, -, -, -, ha, -, hrows, rfl⟩ :=
    buildTable_eq_ok hg.blank.1 hg.blank.2.1 h
  have hrow : ∀ (n : Nat) s, a.states[n]? = some s → ∃ made : Row, made.Due g' a.states s ∧
      (tableOf method rows notes).actions[n]? = some made.actions ∧
      (tableOf method rows notes).gotos[n]? = some (gotoRow g' a.states s) := by
    intro n s hs
    rw [← Array.getElem?_toList] at hs
    obtain ⟨made, notes1, notes2, hmade, hn⟩ := addRows_eq_ok hrows hs
    refine ⟨made, Row.Due.addItems (fun _ hi => hi) (fun _ _ hx => absurd hx List.not_mem_nil)
      hmade, ?_, ?_⟩ <;> simp [tableOf, hn]
  have hdue : ∀ s x a', Due g' a.states s x a' → Due g a.states s x a' := by
    subst hg'
    intro s x a' h
    cases a' <;> exact h
  refine ⟨a, ha, fun n s x act hs hact => ?_, fun n s r hs hsole => ?_,
    fun n s x target hs hgoto => ?_⟩
  · obtain ⟨made, hmade, hactions, -⟩ := hrow n s hs
    refine hdue s x act (hmade x act (Assoc.mem_of_get? (Option.join_eq_some_iff.1 ?_)))
    rw [← hact, Table.toTables]
    dsimp only
    rw [hactions, Option.bind_some]
  · obtain ⟨made, hmade, hactions, -⟩ := hrow n s hs
    rw [Table.toTables] at hsole
    dsimp only at hsole
    split at hsole
    · rw [hactions] at hsole
      split at hsole
      · rename_i x n heq
        cases hsole
        exact ⟨x, hdue s x _ (hmade x _ (Option.some.inj heq ▸ List.mem_singleton_self _))⟩
      · cases hsole
    · cases hsole
  · obtain ⟨made, -, -, hgotos⟩ := hrow n s hs
    rw [Table.toTables] at hgoto
    dsimp only at hgoto
    rw [hgotos, Option.bind_some] at hgoto
    obtain ⟨y, -, hy⟩ := List.mem_filterMap.1 (Assoc.mem_of_get? hgoto)
    obtain ⟨target', htarget, hpair⟩ := Option.map_eq_some_iff.1 hy
    cases hpair
    subst hg'
    exact htarget

end Tables

/-! ## The stack as a path through the states -/

section Trails

variable {g : Grammar} {states : Array ItemSet} {s : ItemSet} {a : Automaton} {n d : Nat}
  {ns : List Nat} {x : String} {xs : List String}

/-- The states on the stack and the symbols between them, the last ones first. -/
inductive Trail (g : Grammar) (states : Array ItemSet) : List Nat → List String → Prop
  | start : Trail g states [0] []
  | step {n target : Nat} {ns : List Nat} {s : ItemSet} {x : String} {xs : List String}
      (below : Trail g states (n :: ns) xs) (state : states[n]? = some s)
      (goto : goto? g states s x = some target) :
      Trail g states (target :: n :: ns) (x :: xs)

/-- The first state comes from the start rule alone. -/
theorem kernel_zero (ha : buildStates limit g = .ok a) :
    ∃ s, a.states[0]? = some s ∧ s.kernel = [⟨0, 0⟩] :=
  ⟨_, getElem?_of_initial (addStates_states ha) rfl, rfl⟩

theorem Trail.state (ha : buildStates limit g = .ok a) (h : Trail g a.states (n :: ns) xs) :
    ∃ s, a.states[n]? = some s := by
  cases h with
  | start => exact (kernel_zero ha).imp fun _ hs => hs.1
  | step _ _ goto => exact (goto?_eq_some goto).imp fun _ ht => ht.1

/-- An item of a state that a symbol leads to has its dot after that symbol, or is new there. -/
theorem item_before (hg : g.Regular) (ha : buildStates limit g = .ok a) {target : Nat}
    (hgoto : goto? g a.states s x = some target) (ht : a.states[target]? = some t)
    (hi : i ∈ t.items) (hold : 0 < i.dot ∨ i.rule = 0) :
    ∃ j ∈ s.items, j.next? g = some x ∧ i = j.advance := by
  obtain ⟨t', ht', hkernel, -⟩ := goto?_eq_some hgoto
  obtain rfl := Option.some.inj (ht.symm.trans ht')
  have hmem := ((separate_buildStates hg ha).mem_kernel_iff hg (Array.mem_of_getElem? ht)).2
    ⟨hi, hold⟩
  rw [hkernel] at hmem
  obtain ⟨j, hj, rfl⟩ := List.mem_map.1 hmem
  obtain ⟨hj, hnext⟩ := List.mem_filter.1 hj
  exact ⟨j, hj, beq_iff_eq.1 hnext, rfl⟩

/-- The symbols under the dot of an item are the part of its rule before the dot, and the state
below them has the item with the dot at the left end. -/
theorem Trail.spells (hg : g.Regular) (ha : buildStates limit g = .ok a) (hi : ⟨rule, d⟩ ∈ s.items)
    (hs : a.states[n]? = some s) (h : Trail g a.states (n :: ns) xs) :
    ∃ ys zs n' ns' s', xs = ys ++ zs ∧ ys.length = d ∧ ys.reverse = (Item.body g ⟨rule, 0⟩).take d ∧
      (n :: ns).drop d = n' :: ns' ∧ Trail g a.states (n' :: ns') zs ∧ a.states[n']? = some s' ∧
      ⟨rule, 0⟩ ∈ s'.items := by
  induction d generalizing n ns xs s with
  | zero => exact ⟨[], xs, n, ns, s, rfl, rfl, by simp, rfl, h, hs, hi⟩
  | succ d ih =>
    cases h with
    | start =>
      obtain ⟨s0, hs0, hkernel⟩ := kernel_zero ha
      obtain rfl := Option.some.inj (hs.symm.trans hs0)
      have hmem := ((separate_buildStates hg ha).mem_kernel_iff hg (Array.mem_of_getElem? hs)).2
        ⟨hi, .inl (Nat.succ_pos d)⟩
      rw [hkernel] at hmem
      cases List.mem_singleton.1 hmem
    | @step n' _ ns' s' x xs below hs' goto =>
      obtain ⟨j, hj, hnext, hadvance⟩ := item_before hg ha goto hs hi (.inl (Nat.succ_pos d))
      obtain ⟨rule', dot⟩ := j
      cases hadvance
      obtain ⟨ys, zs, m, ms, t, rfl, hlen, hys, hdrop, htrail, ht, hmem⟩ := ih hj hs' below
      refine ⟨x :: ys, zs, m, ms, t, rfl, congrArg (· + 1) hlen, ?_, hdrop, htrail, ht, hmem⟩
      rw [List.reverse_cons, hys, List.take_add_one, show (Item.body g ⟨rule', 0⟩)[dot]? =
        some x from hnext]
      rfl

/-- A completed item has its whole rule on the stack. -/
theorem Trail.completed (hg : g.Regular) (ha : buildStates limit g = .ok a) (hi : i ∈ s.items)
    (hnext : i.next? g = none) (hs : a.states[n]? = some s) (h : Trail g a.states (n :: ns) xs) :
    ∃ zs n' ns' s', xs = (i.body g).reverse ++ zs ∧ (n :: ns).drop (i.body g).length = n' :: ns' ∧
      Trail g a.states (n' :: ns') zs ∧ a.states[n']? = some s' ∧ ⟨i.rule, 0⟩ ∈ s'.items := by
  obtain ⟨rule, dot⟩ := i
  obtain ⟨ys, zs, n', ns', s', rfl, hlen, hys, hdrop, htrail, hs', hmem⟩ := h.spells hg ha hi hs
  have hle : (Item.body g ⟨rule, 0⟩).length ≤ dot := List.getElem?_eq_none_iff.1 hnext
  rw [List.take_of_length_le hle] at hys
  have hlen' : (Item.body g ⟨rule, 0⟩).length = dot := by rw [← hys, List.length_reverse, hlen]
  refine ⟨zs, n', ns', s', ?_, hlen'.symm ▸ hdrop, htrail, hs', hmem⟩
  rw [← List.reverse_reverse ys, hys]
  rfl

/-- The start rule is only completed with the start symbol alone on the stack. -/
theorem Trail.accepted (hg : g.Regular) (ha : buildStates limit g = .ok a) (hi : i ∈ s.items)
    (hnext : i.next? g = none) (hhead : i.head g = startHead) (hs : a.states[n]? = some s)
    (h : Trail g a.states (n :: ns) xs) : ∃ x, g.start = some x ∧ xs = [x] := by
  obtain ⟨rule, dot⟩ := i
  obtain ⟨zs, n', ns', s', rfl, hdrop, htrail, hs', hmem⟩ := h.completed hg ha hi hnext hs
  have hhead' : ((g.rule? rule).map (·.head)).getD "" = startHead := hhead
  have hrule : rule = 0 := by
    refine Decidable.byContradiction fun hne => ?_
    rw [Grammar.rule?, if_neg (by simpa using hne)] at hhead'
    cases hp : g.rules[rule - 1]? with
    | none =>
      rw [hp] at hhead'
      exact absurd hhead' (by decide)
    | some p =>
      rw [hp] at hhead'
      exact (hg.head p (Array.mem_of_getElem? hp)).2.1 hhead'
  subst hrule
  cases hp : g.rule? 0 with
  | none =>
    rw [hp] at hhead'
    exact absurd hhead' (by decide)
  | some p =>
    obtain ⟨-, -, x, hbody, -, hstart⟩ := hg.startRule p hp
    have hbody' : Item.body g ⟨0, dot⟩ = [x] := by
      rw [Item.body, hp]
      exact hbody
    refine ⟨x, hstart, ?_⟩
    rw [hbody']
    cases htrail with
    | start => rfl
    | step _ _ goto =>
      obtain ⟨j, -, -, hadvance⟩ := item_before hg ha goto hs' hmem (.inr rfl)
      exact absurd (congrArg Item.dot hadvance) (Nat.succ_ne_zero j.dot).symm

end Trails

/-! ## Rightmost derivations -/

/-- A derivation by rules with these numbers, in which all that stands behind the symbol that is
replaced is terminal. -/
inductive Rightmost (g : Grammar) : List String → List Nat → List String → Prop
  | refl (symbols : List String) : Rightmost g symbols [] symbols
  | rule (mem : p ∈ g.rules) (number : p.number = n)
      (after_terminal : ∀ x ∈ after, g.isTerminal x)
      (rest : Rightmost g (before ++ p.body ++ after) ns symbols) :
      Rightmost g (before ++ p.head :: after) (n :: ns) symbols

section Parses

variable {g g' : Grammar} {a : Automaton} {ν ω : Type} {m : Setup String ν ω}
  {c d : Config String ν ω} {tokens ahead : List String} {xs : List String} {done : List Nat}

/-- Where a parse stands that has reduced by the rules `done`, the last one first. -/
structure Standing (g : Grammar) (states : Array ItemSet) (m : Setup String ν ω)
    (tokens : List String) (done : List Nat) (c : Config String ν ω) (xs ahead : List String) :
    Prop where
  state : ∃ ns, c.states = c.state :: ns
  trail : Trail g states c.states xs
  stack : ∃ bottom, c.stack.map (·.sort) = xs ++ [bottom]
  input : c.Ahead m ahead
  terminals : ∀ x ∈ ahead, g.isTerminal x
  derives : Rightmost g (xs.reverse ++ ahead) done tokens

variable (hg : g.Regular) (ha : buildStates limit g = .ok a) (ht : Sourced g a.states m.tables)
  (hend : g.isTerminal endMark = false) (hm : m.endSort = endMark)

include ha ht in
theorem Standing.decided (h : Standing g a.states m tokens done c xs ahead) {action : Action}
    (hd : m.decision c = some action) :
    ∃ (d : Config String ν ω) (ns : List Nat) (s : ItemSet) (x : String), step m c = d.perform m
      (some action) ∧
      d.Ahead m ahead ∧ d.states = c.state :: ns ∧ d.stack = c.stack ∧
      Trail g a.states (c.state :: ns) xs ∧
      a.states[c.state]? = some s ∧ Due g a.states s x action ∧
      ((∀ n, action ≠ .reduce n) → ∃ e, d.look = some e ∧ e.sort = x) := by
  obtain ⟨ns, hns⟩ := h.state
  have htrail := hns ▸ h.trail
  obtain ⟨s, hs⟩ := htrail.state ha
  obtain ⟨d, hstep, hinput, -, hstates, hstack, hlook⟩ := step_of_ahead h.input
  rw [hd] at hstep
  rw [hns] at hstates
  cases hsole : m.tables.sole c.state with
  | some n =>
    obtain ⟨x, hx⟩ := ht.sole _ s n hs hsole
    rw [Setup.decision, hsole] at hd
    cases hd
    exact ⟨d, ns, s, x, hstep, hinput, hstates, hstack, htrail, hs, hx,
      fun hne => absurd rfl (hne n)⟩
  | none =>
    obtain ⟨e, hlook, haction⟩ := hlook hsole
    exact ⟨d, ns, s, e.sort, hstep, hinput, hstates, hstack, htrail, hs,
      ht.action _ s _ _ hs (haction.symm.trans hd), fun _ => ⟨e, hlook, rfl⟩⟩

include ha ht hend hm in
theorem Standing.shift {target : Nat} (h : Standing g a.states m tokens done c xs ahead)
    (hd : m.decision c = some (.shift target)) (hstep : step m c = .next d) :
    ∃ xs' ahead', Standing g a.states m tokens done d xs' ahead' := by
  obtain ⟨c1, ns, s, _, hperform, ⟨hback, hinput⟩, hstates, hstack, htrail, hs,
      ⟨hterm, hgoto⟩, hlook⟩ :=
    h.decided ha ht hd
  obtain ⟨e, hhand, rfl⟩ := hlook nofun
  rw [hperform, Config.perform, hhand] at hstep
  cases hstep
  rw [hhand] at hinput
  obtain ⟨hsort, -⟩ | ⟨rest, rfl, hrest⟩ := hinput
  · rw [hsort, hm, hend] at hterm
    cases hterm
  · obtain ⟨bottom, hbottom⟩ := h.stack
    refine ⟨e.sort :: xs, rest, ⟨_, rfl⟩, ?_, ⟨bottom, ?_⟩, ⟨hback, hrest⟩,
      fun x hx => h.terminals x (List.mem_cons_of_mem _ hx), ?_⟩
    · rw [hstates]
      exact .step htrail hs hgoto
    · rw [List.map_cons, hstack, hbottom]
      rfl
    · simpa using h.derives

include hg in
theorem mem_rules (hp : g.rule? n = some p) (hhead : p.head ≠ startHead) :
    p ∈ g.rules ∧ p.number = n := by
  cases n with
  | zero => exact absurd (hg.startRule p hp).2.1 hhead
  | succ n => exact ⟨Array.mem_of_getElem? hp, hg.numbered n p hp⟩

include hg ha ht in
theorem Standing.reduce {n : Nat}
    (hact : ∀ n right below, m.act n right below ≠ .error .syntaxError)
    (hrules : ∀ n, m.tables.rule n = (g.rule? n).map ruleInfo)
    (h : Standing g a.states m tokens done c xs ahead) (hd : m.decision c = some (.reduce n))
    (hstep : step m c = .next d) :
    ∃ xs', Standing g a.states m tokens (n :: done) d xs' ahead := by
  obtain ⟨c1, ns, s, _, hperform, hinput, hstates, hstack, htrail, hs, ⟨i, hi, rfl, hnext, hhead⟩,
      -⟩ :=
    h.decided ha ht hd
  obtain ⟨zs, n', ns', s', rfl, hdrop, htrail', hs', -⟩ := htrail.completed hg ha hi hnext hs
  rw [hperform, Config.perform] at hstep
  cases hp : g.rule? i.rule with
  | none =>
    simp only [hrules, hp, Option.map_none] at hstep
    cases hstep
  | some p =>
    simp only [hrules, hp, Option.map_some] at hstep
    obtain ⟨e, log, below, rest, target, hbelow, hgoto, hsort, rfl⟩ := reduce_eq_next hact hstep
    have hbody : i.body g = p.body := by rw [Item.body, hp]; rfl
    rw [hstates, ruleInfo, ← hbody, hdrop] at hbelow
    cases hbelow
    obtain ⟨bottom, hbottom⟩ := h.stack
    obtain ⟨hmem, hnumber⟩ := mem_rules hg hp fun hp' => hhead (by rw [Item.head, hp]; exact hp')
    refine ⟨p.head :: zs, ⟨_, rfl⟩, .step htrail' hs' (ht.goto _ s' _ _ hs' hgoto), ⟨bottom, ?_⟩,
      hinput, h.terminals, ?_⟩
    · have hpopped : (c.stack.drop p.body.length).map (·.sort) = zs ++ [bottom] := by
        rw [List.map_drop, hbottom, hbody, List.append_assoc, ← p.body.length_reverse,
          List.drop_left]
      rw [List.map_cons, hsort, hstack]
      exact congrArg (p.head :: ·) hpopped
    · have hderives := h.derives
      rw [List.reverse_append, List.reverse_reverse, hbody] at hderives
      rw [List.reverse_cons, List.append_assoc]
      exact .rule hmem hnumber h.terminals hderives

include hg ha ht hend in
theorem Standing.accept (h : Standing g a.states m tokens done c xs ahead)
    (hd : m.decision c = some .accept) :
    ∃ x, g.start = some x ∧ Rightmost g [x] done tokens := by
  obtain ⟨c1, ns, s, _, -, ⟨-, hinput⟩, -, -, htrail, hs, ⟨rfl, i, hi, hnext, hhead⟩, hlook⟩ :=
    h.decided ha ht hd
  obtain ⟨e, hlook, hsort⟩ := hlook nofun
  obtain ⟨x, hstart, rfl⟩ := htrail.accepted hg ha hi hnext hhead hs
  refine ⟨x, hstart, ?_⟩
  rw [hlook] at hinput
  obtain ⟨-, rfl⟩ | ⟨rest, rfl, -⟩ := hinput
  · exact h.derives
  · have hterm := h.terminals e.sort List.mem_cons_self
    rw [hsort, hend] at hterm
    cases hterm

include hg ha ht hend hm in
theorem Standing.rightmost (hact : ∀ n right below, m.act n right below ≠ .error .syntaxError)
    (hrules : ∀ n, m.tables.rule n = (g.rule? n).map ruleInfo) {rules : List Nat}
    (h : Standing g a.states m tokens done c xs ahead) (hrun : reductions m fuel c = some rules) :
    ∃ x, g.start = some x ∧ Rightmost g [x] (rules.reverse ++ done) tokens := by
  induction fuel generalizing c xs ahead done rules with
  | zero => cases hrun
  | succ fuel ih =>
    rw [reductions] at hrun
    split at hrun
    · rename_i hd _
      cases hrun
      exact h.accept hg ha ht hend hd
    · rename_i hd hstep
      obtain ⟨xs', ahead', h'⟩ := h.shift ha ht hend hm hd hstep
      exact ih h' hrun
    · rename_i n d hd hstep
      obtain ⟨xs', h'⟩ := h.reduce hg ha ht hact hrules hd hstep
      obtain ⟨rest, hrest, rfl⟩ := Option.map_eq_some_iff.1 hrun
      rw [List.reverse_cons, List.append_assoc]
      exact ih h' hrest
    · cases hrun

end Parses

/-- A parse that is accepted without an error has reduced by the rules of a rightmost derivation of
its tokens, the last one first, whatever conflicts the table has and however they were decided. -/
theorem reductions_rightmost {limit : Nat} {g g' : Grammar} {method : Method} {table : Table}
    {ν ω : Type} (m : Setup String ν ω) (useDefaulted : Bool) (hg : g.Built)
    (h : buildTable limit g method = (.ok table, g')) (hend : g.isTerminal endMark = false)
    (htables : m.tables = table.toTables (fun n => (g.rule? n).map ruleInfo) useDefaulted)
    (hm : m.endSort = endMark) (hact : ∀ n right below, m.act n right below ≠ .error .syntaxError)
    {world : ω} {tokens : List String} (hsource : Supplies m world tokens)
    (htokens : ∀ x ∈ tokens, g.isTerminal x) {fuel : Nat} {errorOk : Bool} {log : String}
    {rules : List Nat} (hrun : reductions m fuel (.start m errorOk world log) = some rules) :
    ∃ x, g.start = some x ∧ Rightmost g [x] rules.reverse tokens := by
  obtain ⟨a, ha, ht⟩ :=
    sourced_of_buildTable hg.regular h (fun n => (g.rule? n).map ruleInfo) useDefaulted
  rw [← htables] at ht
  have hrules : ∀ n, m.tables.rule n = (g.rule? n).map ruleInfo := fun n => by rw [htables]; rfl
  have hstart : Standing g a.states m tokens [] (.start m errorOk world log) [] tokens :=
    ⟨⟨[], rfl⟩, .start, ⟨m.endSort, rfl⟩, ⟨rfl, hsource⟩, htokens, .refl tokens⟩
  rw [← List.append_nil rules.reverse]
  exact hstart.rightmost hg.regular ha ht hend hm hact hrules hrun

/-- A list of tokens is such a source. -/
theorem supplies_feed (p : Parser)
    (onError : Option (Feed → Option TextEntry → Except Fault (ErrorReply String Value) × Feed))
    (tracking logging : Bool) (tokens : List TextEntry)
    (line pos : Int) (errors : List (Option TextEntry)) :
    Supplies (p.setup onError tracking logging) ⟨tokens, line, pos,
      errors⟩ (tokens.map (·.sort)) := by
  induction tokens generalizing line pos with
  | nil => exact .none rfl
  | cons e rest ih => exact .some rfl (ih _ _)

/-- The parser of a table for sums, with a machine that neither tracks nor logs. -/
def summing (table : Table) : Setup String Value Feed :=
  Parser.setup ⟨table.toTables (fun n => (additions.rule? n).map ruleInfo) true, toString,
    fun _ => .none, none⟩ none false false

def sumTokens : List TextEntry :=
  ["NUM", "PLUS", "NUM", "PLUS", "NUM"].map fun x => .bare x (some .none)

/-- A sum of three numbers over a table with a conflict that the precedence decides. -/
theorem reductions_rightmost_sum : ∃ table g', buildTable 100 additions .lalr = (.ok table, g') ∧
    reductions (summing table) 20 (.start (summing table) true (.ofTokens sumTokens) "") =
      some [2, 2, 1, 2, 1] ∧
    Rightmost additions ["e"] [1, 2, 1, 2, 2] (sumTokens.map (·.sort)) := by
  rcases h : buildTable 100 additions .lalr with ⟨f | table, g'⟩
  · have hsome : (buildTable 100 additions .lalr).1.isOk = true := by decide +kernel
    rw [h] at hsome
    cases hsome
  · have hrun : (buildTable 100 additions .lalr).1.toOption.bind (fun table =>
        reductions (summing table) 20 (.start (summing table) true (.ofTokens sumTokens) "")) =
          some [2, 2, 1, 2, 1] := by
      decide +kernel
    rw [h] at hrun
    obtain ⟨x, hx, hr⟩ := reductions_rightmost (g := additions) (summing table) true
      (.startingAt (.withRules (.withPrecedence (.tokens _) _ _ _) _) _) h (by decide) rfl rfl
      (fun _ _ _ => nofun) (supplies_feed _ _ _ _ sumTokens 1 0 []) (by decide) hrun
    cases hx
    exact ⟨table, g', rfl, hrun, hr⟩

end LangKit.Lr
