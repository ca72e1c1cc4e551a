import LangKit.Proofs.Parser.Moves

/-!
# Items of the parser's states

A state of the parser stands for the rules that are under way in it. `kernel s` lists them, each
with a dot that tells how much of its body has been read when the parser enters `s`. The list is
checked against the table once (`fits_of_leads`, `mem_kernel_of_reduction`), and all that the
parser's stack can look like follows from it: `Path.spells` says that the frames under a dot are the
read part of the body, and that the state below them expects the head of the rule.

So a reduction never fails: `Path.progress` says that a stage on a path has a move, accepts, or
meets a symbol for which its state has no entry.
-/

namespace LangKit.Script

variable {s target n : Nat} {symbol : Symbol} {fs : List Frame}

structure Item where
  rule : Nat
  dot : Nat
  deriving DecidableEq, Repr

/-- The left operand of a binary operator has been read. -/
def operandItems : List Item :=
  [25, 26, 27, 28, 29, 30, 31, 32, 33, 34, 36, 37].map fun n => ⟨n, 1⟩

/-- A name has been read that may start a variable or a call. -/
def nameItems : List Item :=
  [15, 16, 46, 47, 48, 49].map fun n => ⟨n, 1⟩

/-- The rules under way in each state, in the order of the states. The rules of the start and of the
state that accepts are left out. -/
def kernels : Array (List Item) := #[
  [],
  [],
  [⟨1, 1⟩, ⟨2, 1⟩],
  [⟨3, 1⟩],
  [⟨4, 1⟩, ⟨5, 1⟩],
  [⟨2, 2⟩],
  [⟨4, 2⟩, ⟨5, 2⟩],
  [⟨4, 3⟩, ⟨5, 3⟩],
  [⟨10, 1⟩],
  [⟨4, 4⟩, ⟨8, 1⟩],
  [⟨5, 4⟩],
  [⟨9, 1⟩],
  [⟨11, 1⟩],
  [⟨4, 5⟩],
  [⟨8, 2⟩],
  [⟨5, 5⟩],
  [⟨11, 2⟩],
  [⟨4, 6⟩],
  [⟨8, 3⟩],
  nameItems,
  [⟨35, 1⟩],
  [⟨5, 6⟩, ⟨12, 1⟩],
  [⟨13, 1⟩],
  [⟨14, 1⟩, ⟨45, 1⟩],
  ⟨20, 1⟩ :: operandItems,
  [⟨17, 1⟩, ⟨18, 1⟩],
  [⟨19, 1⟩],
  [⟨21, 1⟩, ⟨22, 1⟩],
  [⟨23, 1⟩],
  [⟨24, 1⟩],
  [⟨38, 1⟩],
  [⟨39, 1⟩],
  [⟨40, 1⟩],
  [⟨41, 1⟩],
  [⟨42, 1⟩],
  [⟨43, 1⟩],
  [⟨44, 1⟩],
  [⟨6, 1⟩, ⟨7, 1⟩],
  [⟨4, 7⟩, ⟨12, 1⟩],
  [⟨15, 2⟩, ⟨48, 2⟩, ⟨49, 2⟩],
  [⟨46, 2⟩, ⟨47, 2⟩],
  ⟨35, 2⟩ :: operandItems,
  [⟨45, 1⟩],
  nameItems,
  [⟨5, 7⟩],
  [⟨12, 2⟩],
  [⟨14, 2⟩],
  [⟨20, 2⟩],
  [⟨25, 2⟩],
  [⟨26, 2⟩],
  [⟨27, 2⟩],
  [⟨28, 2⟩],
  [⟨29, 2⟩],
  [⟨30, 2⟩],
  [⟨31, 2⟩],
  [⟨32, 2⟩],
  [⟨33, 2⟩],
  [⟨34, 2⟩],
  [⟨36, 2⟩],
  [⟨37, 2⟩],
  [⟨17, 2⟩, ⟨18, 2⟩],
  [⟨19, 2⟩],
  ⟨21, 2⟩ :: operandItems,
  [⟨22, 2⟩],
  ⟨23, 2⟩ :: operandItems,
  ⟨24, 2⟩ :: operandItems,
  [⟨6, 2⟩, ⟨7, 2⟩],
  [⟨4, 8⟩],
  [⟨15, 3⟩, ⟨48, 3⟩, ⟨49, 3⟩],
  [⟨46, 3⟩, ⟨50, 1⟩],
  [⟨47, 3⟩],
  ⟨51, 1⟩ :: operandItems,
  [⟨35, 3⟩],
  [⟨15, 2⟩, ⟨48, 2⟩, ⟨49, 2⟩],
  ⟨14, 3⟩ :: operandItems,
  ⟨25, 3⟩ :: operandItems,
  ⟨26, 3⟩ :: operandItems,
  ⟨27, 3⟩ :: operandItems,
  ⟨28, 3⟩ :: operandItems,
  ⟨29, 3⟩ :: operandItems,
  ⟨30, 3⟩ :: operandItems,
  ⟨31, 3⟩ :: operandItems,
  ⟨32, 3⟩ :: operandItems,
  ⟨33, 3⟩ :: operandItems,
  ⟨34, 3⟩ :: operandItems,
  ⟨36, 3⟩ :: operandItems,
  ⟨37, 3⟩ :: operandItems,
  ⟨17, 3⟩ :: ⟨18, 3⟩ :: operandItems,
  ⟨19, 3⟩ :: operandItems,
  [⟨21, 3⟩],
  [⟨6, 3⟩, ⟨8, 1⟩],
  [⟨7, 3⟩],
  [⟨48, 4⟩, ⟨49, 4⟩],
  [⟨46, 4⟩],
  [⟨50, 2⟩],
  [⟨15, 3⟩, ⟨48, 3⟩, ⟨49, 3⟩],
  [⟨14, 4⟩],
  [⟨17, 4⟩, ⟨18, 4⟩],
  [⟨19, 4⟩],
  [⟨6, 4⟩],
  [⟨7, 4⟩],
  [⟨48, 5⟩, ⟨50, 1⟩],
  [⟨49, 5⟩],
  ⟨50, 3⟩ :: operandItems,
  [⟨17, 5⟩, ⟨18, 5⟩],
  [⟨19, 5⟩],
  [⟨6, 5⟩],
  [⟨7, 5⟩, ⟨12, 1⟩],
  [⟨48, 6⟩],
  [⟨17, 6⟩, ⟨18, 6⟩, ⟨12, 1⟩],
  [⟨19, 6⟩, ⟨12, 1⟩],
  [⟨6, 6⟩, ⟨12, 1⟩],
  [⟨7, 6⟩],
  [⟨17, 7⟩, ⟨18, 7⟩],
  [⟨19, 7⟩],
  [⟨6, 7⟩],
  [⟨18, 8⟩],
  [⟨18, 9⟩],
  [⟨18, 10⟩, ⟨12, 1⟩],
  [⟨18, 11⟩]
]

/-- The rules under way in a state. -/
def kernel (s : Nat) : List Item :=
  kernels.getD s []

/-! ## The table respects the kernels -/

def State.edges (st : State) : List (Symbol × Nat) :=
  st.shifts.map (fun e => (.token e.1, e.2)) ++ st.gotos.map (fun e => (.phrase e.1, e.2))

/-- The parser goes from one state to another with a symbol on its stack. -/
def Leads (s : Nat) (symbol : Symbol) (target : Nat) : Prop :=
  ∃ st, states[s]? = some st ∧ (symbol, target) ∈ st.edges

/-- Is an item right in a state that is entered from `s` with a symbol? The symbol stands before the
dot. If there is more before it, the rule is under way in `s`, and else `s` expects the rule's
head. -/
def Item.fits (s : Nat) (symbol : Symbol) (i : Item) : Bool :=
  match rules[i.rule]?, i.dot with
  | some r, d + 1 =>
    r.body[d]? == some symbol &&
      if d == 0 then (tables.goto s (.phrase r.head)).isSome else (kernel s).contains ⟨i.rule, d⟩
  | _, _ => false

theorem fits_of_leads (h : Leads s symbol target) (hi : i ∈ kernel target) :
    i.fits s symbol = true := by
  have hall : checkStates (fun s st =>
      st.edges.all fun edge => (kernel edge.2).all fun i => i.fits s edge.1) = true := by
    decide +kernel
  obtain ⟨st, hst, hmem⟩ := h
  exact List.all_eq_true.mp (List.all_eq_true.mp (of_checkStates hall hst) _ hmem) i hi

/-- What an entry of a state comes from. -/
inductive State.Due (st : State) : Symbol → Lr.Action → Prop
  | shift {kind : TokenKind} {target : Nat} (mem : (kind, target) ∈ st.shifts) :
      st.Due (.token kind) (.shift target)
  | reduce {symbol : Symbol} {n : Nat} (reduction : st.reduction = some n) :
      st.Due symbol (.reduce n)
  | accept (accepts : st.accepts = true) : st.Due .endMark .accept

theorem exists_due {action : Lr.Action} (h : tables.action s symbol = some action) :
    ∃ st, states[s]? = some st ∧ st.Due symbol action := by
  cases hs : states[s]? with
  | none => simp [tables, hs] at h
  | some st =>
    simp only [tables, hs, Option.bind_some, State.action] at h
    refine ⟨st, rfl, ?_⟩
    split at h
    · next hshift =>
      cases h
      split at hshift
      · obtain ⟨target, hlookup, rfl⟩ := Option.map_eq_some_iff.mp hshift
        obtain ⟨l1, l2, hl, _⟩ := List.lookup_eq_some_iff.mp hlookup
        exact .shift (by simp [hl])
      · cases hshift
    · split at h
      · obtain ⟨n, hn, rfl⟩ := Option.map_eq_some_iff.mp h
        exact .reduce hn
      · split at h
        · next hend =>
          cases h
          obtain ⟨haccepts, rfl⟩ : st.accepts = true ∧ symbol = .endMark := by simpa using hend
          exact .accept haccepts
        · cases h

theorem exists_goto (h : tables.goto s (.phrase p) = some target) :
    ∃ st, states[s]? = some st ∧ (p, target) ∈ st.gotos := by
  cases hs : states[s]? with
  | none => simp [tables, hs] at h
  | some st =>
    simp only [tables, hs, Option.bind_some, State.goto] at h
    obtain ⟨l1, l2, hl, _⟩ := List.lookup_eq_some_iff.mp h
    exact ⟨st, rfl, by simp [hl]⟩

theorem mem_kernel_of_reduction (h : tables.action s symbol = some (.reduce n)) :
    ∃ r, rules[n]? = some r ∧ ⟨n, r.body.length⟩ ∈ kernel s := by
  have hall : checkStates (fun s st => st.reduction.all fun n =>
      rules[n]?.any fun r => (kernel s).contains ⟨n, r.body.length⟩) = true := by
    decide +kernel
  obtain ⟨st, hst, hdue⟩ := exists_due h
  cases hdue with
  | reduce hm =>
    have hs := of_checkStates hall hst
    simp only [hm, Option.all_some] at hs
    cases hr : rules[n]? with
    | none => simp [hr] at hs
    | some r =>
      simp only [hr, Option.any_some] at hs
      exact ⟨r, rfl, by simpa using hs⟩

/-! ## Paths -/

/-- Frames that the parser can have on its stack: each is entered from the one below it. -/
inductive Path : List Frame → Prop
  | nil : Path []
  | cons {f : Frame} {fs : List Frame} (tail : Path fs)
      (leads : Leads (topState fs) f.sort f.state) :
      Path (f :: fs)

theorem Path.tail {fs : List Frame} (h : Path (f :: fs)) : Path fs := by
  cases h with
  | cons tail _ => exact tail

theorem Path.leads {fs : List Frame} (h : Path (f :: fs)) :
    Leads (topState fs) f.sort f.state := by
  cases h with
  | cons _ leads => exact leads

theorem kernel_zero : kernel 0 = [] := rfl

/-- The frames under the dot of an item are the part of the body before the dot, and the state below
them expects the head. -/
theorem Path.spells (hr : rules[n]? = some r) :
    ∀ {d : Nat} {fs : List Frame}, Path fs → ⟨n, d + 1⟩ ∈ kernel (topState fs) →
      ∃ parts below, fs = parts ++ below ∧ parts.reverse.map (·.sort) = r.body.take (d + 1) ∧
        (tables.goto (topState below) (.phrase r.head)).isSome = true := by
  intro d
  induction d with
  | zero =>
    intro fs hp hi
    cases hp with
    | nil => simp [topState, kernel_zero] at hi
    | @cons f fs tail leads =>
      have hfits := fits_of_leads leads hi
      simp only [Item.fits, hr, beq_self_eq_true, if_true, Bool.and_eq_true, beq_iff_eq] at hfits
      refine ⟨[f], fs, rfl, ?_, hfits.2⟩
      cases hb : r.body with
      | nil => simp [hb] at hfits
      | cons x xs =>
        simp only [hb, List.getElem?_cons_zero, Option.some.injEq] at hfits
        simp [hfits.1]
  | succ d ih =>
    intro fs hp hi
    cases hp with
    | nil => simp [topState, kernel_zero] at hi
    | @cons f fs tail leads =>
      have hfits := fits_of_leads leads hi
      simp only [Item.fits, hr, Bool.and_eq_true, beq_iff_eq, Nat.add_eq_zero_iff, Nat.one_ne_zero,
        and_false, if_false, List.contains_iff_mem] at hfits
      obtain ⟨parts, below, rfl, hsorts, hgoto⟩ := ih tail hfits.2
      refine ⟨f :: parts, below, rfl, ?_, hgoto⟩
      rw [List.take_add_one, hfits.1, List.reverse_cons, List.map_append, hsorts]
      rfl

/-- Where a reduction is due, the frames on the path are the parts of the rule above a state that
expects its head. -/
theorem Path.reducible (hp : Path fs) (ha : tables.action (topState fs) symbol = some (.reduce n)) :
    ∃ r parts below t, rules[n]? = some r ∧ fs = parts ++ below ∧ parts.length = r.body.length ∧
      parts.reverse.map (·.sort) = r.body ∧
      tables.goto (topState below) (.phrase r.head) = some t := by
  obtain ⟨r, hr, hmem⟩ := mem_kernel_of_reduction ha
  obtain ⟨k, hk⟩ := Nat.exists_eq_succ_of_ne_zero (body_length_ne_zero hr)
  rw [hk] at hmem
  obtain ⟨parts, below, rfl, hsorts, hgoto⟩ := hp.spells hr hmem
  rw [← Nat.succ_eq_add_one, ← hk, List.take_length] at hsorts
  obtain ⟨t, ht⟩ := Option.isSome_iff_exists.mp hgoto
  refine ⟨r, parts, below, t, hr, rfl, ?_, hsorts, ht⟩
  rw [← hsorts, List.length_map, List.length_reverse]

theorem Path.sort_ne_errorMark (hp : Path fs) : ∀ f ∈ fs, f.sort ≠ .errorMark := by
  induction hp with
  | nil => simp
  | @cons f fs tail leads ih =>
    intro g hg
    rcases List.mem_cons.mp hg with rfl | hg
    · obtain ⟨st, _, hmem⟩ := leads
      simp only [State.edges, List.mem_append, List.mem_map] at hmem
      intro h
      rw [h] at hmem
      simp at hmem
    · exact ih g hg

/-- Only the start leads to the state that accepts, and nothing leads to the start. -/
theorem leads_ends (h : Leads s symbol target) :
    target ≠ 0 ∧ (target = 1 → s = 0 ∧ symbol = .phrase .program) := by
  have hall : checkStates (fun s st => st.edges.all fun edge =>
      edge.2 != 0 && (edge.2 != 1 || (s == 0 && edge.1 == .phrase .program))) = true := by
    decide +kernel
  obtain ⟨st, hst, hmem⟩ := h
  have hedge := List.all_eq_true.mp (of_checkStates hall hst) _ hmem
  simp only [Bool.and_eq_true, bne_iff_ne, ne_eq, Bool.or_eq_true, beq_iff_eq] at hedge
  exact ⟨hedge.1, fun h => hedge.2.resolve_left fun hn => hn h⟩

theorem Path.eq_nil (hp : Path fs) (h : topState fs = 0) : fs = [] := by
  cases hp with
  | nil => rfl
  | cons _ leads => exact absurd h (leads_ends leads).1

theorem Path.accepting (hp : Path fs) (h : tables.action (topState fs) symbol = some .accept) :
    ∃ f, fs = [f] ∧ f.sort = .phrase .program ∧ symbol = .endMark := by
  have hall : checkStates (fun s st => !st.accepts || s == 1) = true := by decide +kernel
  obtain ⟨st, hst, hdue⟩ := exists_due h
  cases hdue with
  | accept haccepts =>
    have hs := of_checkStates hall hst
    simp only [haccepts, Bool.not_true, Bool.false_or, beq_iff_eq] at hs
    cases hp with
    | nil => simp [topState] at hs
    | @cons f fs tail leads =>
      obtain ⟨htop, hsort⟩ := (leads_ends leads).2 hs
      rw [tail.eq_nil htop]
      exact ⟨f, rfl, hsort, rfl⟩

theorem leads_of_goto (h : tables.goto s (.phrase p) = some target) :
    Leads s (.phrase p) target := by
  obtain ⟨st, hst, hmem⟩ := exists_goto h
  exact ⟨st, hst, List.mem_append_right _ (List.mem_map.mpr ⟨_, hmem, rfl⟩)⟩

theorem leads_of_shift (h : tables.action s symbol = some (.shift target)) :
    Leads s symbol target := by
  obtain ⟨st, hst, hdue⟩ := exists_due h
  cases hdue with
  | shift hmem => exact ⟨st, hst, List.mem_append_left _ (List.mem_map.mpr ⟨_, hmem, rfl⟩)⟩

theorem Path.drop {parts : List Frame} (hp : Path (parts ++ fs)) : Path fs := by
  induction parts with
  | nil => exact hp
  | cons f parts ih => exact ih hp.tail

theorem Move.path (hm : Move k k') (hp : Path k.frames) : Path k'.frames := by
  cases hm with
  | shift action => exact .cons hp (leads_of_shift action)
  | reduce action rule length goto => exact .cons hp.drop (leads_of_goto goto)

theorem Path.progress (ws : List Word) (hp : Path fs) :
    (∃ k, Move ⟨fs, ws⟩ k) ∨
      (∃ f, fs = [f] ∧ ws = [] ∧ tables.action f.state .endMark = some .accept) ∨
      tables.action (topState fs) (ahead ws) = none := by
  cases ha : tables.action (topState fs) (ahead ws) with
  | none => exact .inr (.inr rfl)
  | some action =>
    cases action with
    | shift target =>
      cases ws with
      | nil =>
        -- The end mark is never shifted.
        obtain ⟨_, _, hdue⟩ := exists_due ha
        cases hdue
      | cons w ws => exact .inl ⟨_, .shift ha⟩
    | reduce n =>
      obtain ⟨r, parts, below, s, hr, rfl, hlen, -, hs⟩ := hp.reducible ha
      exact .inl ⟨_, .reduce ha hr hlen hs⟩
    | accept =>
      obtain ⟨f, rfl, _, hend⟩ := hp.accepting ha
      cases ws with
      | nil => exact .inr (.inl ⟨f, rfl, rfl, ha⟩)
      | cons w ws => cases hend

end LangKit.Script
