import Mathlib.Logic.Relation
import LangKit.Proofs.Parser.Precedence

/-!
# Completeness of the parser

The parser follows every ranked derivation. In a state that expects a phrase, it reads the words of
the phrase and ends in the state that the phrase leads to (`Ranked.moves`), provided that what comes
next can follow: that state has a move on it, and it shifts every operator that may still belong to
the phrase (`Enters`). One check of the table (`follows_parts`) says that these conditions pass from
a phrase to the parts of each of its rules.

So the words of a program are accepted without an error: `Ranked.outcome`. An outcome is unique
(`Outcome.unique`), hence this is what the machine does with them: `parse_complete`.
-/

namespace LangKit.Script

open Relation (ReflTransGen)

variable {n : Nat} {after : List Symbol} {st : State} {k : Stage} {ws : List Word}

abbrev Moves : Stage → Stage → Prop := ReflTransGen Move

/-! ## The words that a phrase starts with -/

def Phrase.starts : Phrase → List TokenKind
  | .start | .program | .functions | .function => [.func]
  | .lambda => [.lambda]
  | .formals | .formal => [.name, .ref]
  | .statements | .statement => statementShifts.map (·.1)
  | .variable => [.name]
  | .expression | .arguments => operandShifts.map (·.1)

def Symbol.starts : Symbol → List Symbol
  | .phrase p => p.starts.map .token
  | x => [x]

/-- The symbols that come first in a row of parts, or behind it if it is empty. -/
def startsOf (after : List Symbol) : List (Symbol × Nat) → List Symbol
  | [] => after
  | x :: _ => x.1.starts

theorem starts_of_rule (hr : rules[n]? = some r) :
    ∀ x ∈ startsOf after r.parts, x ∈ (Symbol.phrase r.head).starts := by
  have hall : rules.toList.all (fun r => !r.parts.isEmpty &&
      (startsOf [] r.parts).all (Symbol.phrase r.head).starts.contains) = true := by
    decide +kernel
  have hmem : r ∈ rules.toList := Array.mem_toList_iff.mpr (Array.mem_of_getElem? hr)
  have hrule := List.all_eq_true.mp hall r hmem
  simp only [Bool.and_eq_true, List.all_eq_true, List.contains_iff_mem] at hrule
  intro x hx
  cases hparts : r.parts with
  | nil => simp [hparts] at hrule
  | cons y ys =>
    rw [hparts] at hx hrule
    exact hrule.2 x hx

mutual

theorem Ranked.ahead_mem {rank : Nat} {ws : List Word}
    (h : Ranked rank x ws t) (rest : List Word) : ahead (ws ++ rest) ∈ x.starts :=
  match h with
  | .word w => List.mem_singleton.mpr rfl
  | .rule hr _ hparts =>
    starts_of_rule hr _ (hparts.ahead_mem (List.mem_singleton.mpr (Eq.refl (ahead rest))))

theorem RankedAll.ahead_mem {ws : List Word}
    (h : RankedAll xs ws ts) {after : List Symbol} (ha : ahead rest ∈ after) :
    ahead (ws ++ rest) ∈ startsOf after xs :=
  match h with
  | .nil => ha
  | .cons first _ => by
    rw [List.append_assoc]
    exact first.ahead_mem _

end

/-! ## The table follows the rules -/

def Symbol.rank : Symbol → Nat
  | .token kind => kind.rank
  | _ => 0

/-- Does a state shift every binary operator from a rank on? -/
def State.opens (st : State) (rank : Nat) : Bool :=
  operatorShifts.all fun op => op.1.rank < rank || (st.shifts.lookup op.1).isSome

def State.meets (st : State) (rank : Nat) (a : Symbol) : Bool :=
  a.rank ≤ rank && (st.action a).isSome

/-- From state `s` the parser can read a symbol, in a derivation of a rank, and get to a state,
where `a` comes next. -/
inductive Enters (s rank : Nat) (a : Symbol) : Symbol → Nat → Prop
  | shift {kind : TokenKind} {target : Nat}
      (action : tables.action s (.token kind) = some (.shift target)) :
      Enters s rank a (.token kind) target
  | goto {p : Phrase} {target : Nat} {st : State} (goto : tables.goto s (.phrase p) = some target)
      (state : states[target]? = some st) (opens : st.opens rank = true)
      (meets : st.meets rank a = true) : Enters s rank a (.phrase p) target

/-- Can the parser read the parts of rule `n` one after another from a state on, and then reduce on
each of the symbols `after`? -/
def follows (n : Nat) (after : List Symbol) : Nat → List (Symbol × Nat) → Bool
  | s, [] => states[s]?.any fun st => after.all fun a => st.action a == some (.reduce n)
  | s, (.phrase p, rank) :: xs =>
    (tables.goto s (.phrase p)).any fun target =>
      (states[target]?.any fun st => st.opens rank && (startsOf after xs).all (st.meets rank)) &&
        follows n after target xs
  | s, (x, _) :: xs =>
    match tables.action s x with
    | some (.shift target) => follows n after target xs
    | _ => false

def State.symbols (st : State) : List Symbol :=
  (if st.accepts then [.endMark] else []) ++ st.shifts.map (fun e => .token e.1) ++ st.on

theorem State.mem_symbols (h : (st.action a).isSome = true) : a ∈ st.symbols := by
  simp only [State.symbols, List.mem_append, List.mem_map]
  cases a with
  | token kind =>
    cases hl : st.shifts.lookup kind with
    | some target =>
      obtain ⟨l1, l2, hl, _⟩ := List.lookup_eq_some_iff.mp hl
      exact .inl (.inr ⟨(kind, target), by simp [hl], rfl⟩)
    | none =>
      by_cases hon : Symbol.token kind ∈ st.on
      · exact .inr hon
      · simp [State.action, hl, hon] at h
  | phrase p =>
    by_cases hon : Symbol.phrase p ∈ st.on
    · exact .inr hon
    · simp [State.action, hon] at h
  | endMark =>
    by_cases hon : Symbol.endMark ∈ st.on
    · exact .inr hon
    · have haccepts : st.accepts = true := by simpa [State.action, hon] using h
      exact .inl (.inl (by simp [haccepts]))
  | errorMark =>
    by_cases hon : Symbol.errorMark ∈ st.on
    · exact .inr hon
    · simp [State.action, hon] at h

theorem State.opens_mono {rank rank' : Nat} (h : st.opens rank = true) (hle : rank ≤ rank') :
    st.opens rank' = true := by
  simp only [State.opens, List.all_eq_true, Bool.or_eq_true, decide_eq_true_eq] at h ⊢
  intro op hop
  rcases h op hop with h | h
  · exact .inl (Nat.lt_of_lt_of_le h hle)
  · exact .inr h

theorem follows_parts {s target : Nat} (hgoto : tables.goto s (.phrase r.head) = some target)
    (hst : states[target]? = some st) (hr : rules[n]? = some r) (hopens : st.opens r.rank = true) :
    follows n (st.symbols.filter fun a => a.rank ≤ r.rank) s r.parts = true := by
  have hall : checkStates (fun s st => st.gotos.all fun edge => states[edge.2]?.all fun target =>
      rules.toList.zipIdx.all fun e => e.1.head != edge.1 || !target.opens e.1.rank ||
        follows e.2 (target.symbols.filter fun a => a.rank ≤ e.1.rank) s e.1.parts) = true := by
    decide +kernel
  have hrule : (r, n) ∈ rules.toList.zipIdx := by
    rw [List.mem_zipIdx_iff_getElem?, Array.getElem?_toList]
    exact hr
  obtain ⟨here, hs, hmem⟩ := exists_goto hgoto
  have hedge := List.all_eq_true.mp (of_checkStates hall hs) _ hmem
  simp only [hst, Option.all_some] at hedge
  have hfollows := List.all_eq_true.mp hedge (r, n) hrule
  simpa [hopens] using hfollows

/-- The way through the parts goes over the first one. -/
theorem follows_cons {s rank : Nat}
    (h : follows n after s ((x, rank) :: xs) = true) :
    ∃ target, (∀ a ∈ startsOf after xs, Enters s rank a x target) ∧
      follows n after target xs = true := by
  cases x with
  | phrase p =>
    simp only [follows, Option.any_eq_true, Bool.and_eq_true, List.all_eq_true] at h
    obtain ⟨target, hgoto, ⟨st, hst, hopens, hmeets⟩, hrest⟩ := h
    exact ⟨target, fun a ha => .goto hgoto hst hopens (hmeets a ha), hrest⟩
  | token kind =>
    simp only [follows] at h
    split at h
    · next target haction => exact ⟨target, fun _ _ => .shift haction, h⟩
    · cases h
  | endMark =>
    simp only [follows] at h
    split at h
    · next target haction =>
      obtain ⟨_, _, hdue⟩ := exists_due haction
      cases hdue
    · cases h
  | errorMark =>
    simp only [follows, action_errorMark] at h
    cases h

theorem length_parts (r : Rule) : r.parts.length = r.body.length := by
  unfold Rule.parts
  split
  · next hbody => rw [hbody]; rfl
  · next hbody => rw [hbody]; rfl
  · exact List.length_map ..

mutual

theorem Ranked.moves {rank : Nat} {ws : List Word} (h : Ranked rank x ws t)
    {target : Nat}
    (he : Enters (topState fs) rank (ahead rest) x target) :
    Moves ⟨fs, ws ++ rest⟩ ⟨⟨target, x, t⟩ :: fs, rest⟩ :=
  match h with
  | .word w => by
    cases he with
    | shift action => exact .single (.shift action)
  | .rule hr hrank hparts => by
    cases he with
    | goto hgoto hst hopens hmeets =>
      simp only [State.meets, Bool.and_eq_true, decide_eq_true_eq] at hmeets
      have hfollows := follows_parts hgoto hst hr (State.opens_mono hopens hrank)
      obtain ⟨parts, hmoves, hvalues, hlength, haction⟩ := hparts.moves hfollows
        (List.mem_filter.mpr ⟨State.mem_symbols hmeets.2,
          decide_eq_true (Nat.le_trans hmeets.1 hrank)⟩)
      -- The frame of the rule takes the place of the frames of its parts.
      rw [length_parts] at hlength
      have hreduce := Move.reduce haction hr hlength hgoto
      rw [Rule.frame, hvalues] at hreduce
      exact hmoves.tail hreduce

theorem RankedAll.moves {ws : List Word}
    (h : RankedAll xs ws ts) {n : Nat} {after : List Symbol}
    (hf : follows n after (topState fs) xs = true) (ha : ahead rest ∈ after) :
    ∃ parts, Moves ⟨fs, ws ++ rest⟩ ⟨parts ++ fs, rest⟩ ∧ parts.reverse.map (·.value) = ts ∧
      parts.length = xs.length ∧
      tables.action (topState (parts ++ fs)) (ahead rest) = some (.reduce n) :=
  match h with
  | .nil => by
    simp only [follows, Option.any_eq_true, List.all_eq_true, beq_iff_eq] at hf
    obtain ⟨st, hst, hreduce⟩ := hf
    refine ⟨[], .refl, rfl, rfl, ?_⟩
    simp only [tables, List.nil_append, hst, Option.bind_some]
    exact hreduce _ ha
  | .cons (x := x) (t := t) first others => by
    obtain ⟨target, henters, hrest⟩ := follows_cons hf
    -- Behind the first part come the words of the others, or what follows them all.
    have hfirst := first.moves (henters _ (others.ahead_mem ha))
    have hthere : follows n after (topState (⟨target, x, t⟩ :: fs)) _ = true := hrest
    obtain ⟨parts, hmoves, hvalues, hlength, haction⟩ := others.moves hthere ha
    refine ⟨parts ++ [⟨target, x, t⟩], ?_, ?_, ?_, ?_⟩
    · rw [List.append_assoc, List.append_assoc]
      exact hfirst.trans hmoves
    · simp [hvalues]
    · simp [hlength]
    · rw [List.append_assoc]
      exact haction

end

/-! ## Outcomes are unique -/

theorem Move.unique (h1 : Move k k1) (h2 : Move k k2) : k1 = k2 := by
  generalize hk : k = k' at h2
  cases h1 with
  | @shift fs s w rest action =>
    cases h2 with
    | shift action' =>
      cases hk
      cases action.symm.trans action'
      rfl
    | reduce action' =>
      cases hk
      cases action.symm.trans action'
  | @reduce parts fs ws n r s action rule length goto =>
    cases h2 with
    | shift action' =>
      cases hk
      cases action.symm.trans action'
    | @reduce parts' fs' ws' n' r' s' action' rule' length' goto' =>
      -- The table gives one rule, and its length says where the frames are cut.
      obtain ⟨hframes, rfl⟩ : parts ++ fs = parts' ++ fs' ∧ ws = ws' := by simpa using hk
      rw [← hframes] at action'
      cases action.symm.trans action'
      cases rule.symm.trans rule'
      obtain ⟨rfl, rfl⟩ := List.append_inj hframes (length.trans length'.symm)
      cases goto.symm.trans goto'
      rfl

theorem not_move (h : tables.action (topState fs) (ahead ws) = none) : ¬ Move ⟨fs, ws⟩ k :=
  fun hm => hm.action_ne_none h

theorem not_move_of_accept (h : tables.action f.state .endMark = some .accept) :
    ¬ Move ⟨[f], []⟩ k := by
  intro hm
  generalize hk : (⟨[f], []⟩ : Stage) = k' at hm
  cases hm with
  | shift action => cases hk
  | @reduce parts fs ws n r s action rule length goto =>
    obtain ⟨hframes, rfl⟩ : [f] = parts ++ fs ∧ [] = ws := by simpa using hk
    rw [← hframes] at action
    cases h.symm.trans action

theorem Outcome.unique {k : Stage} (h1 : Outcome k n1 r1)
    (h2 : Outcome k n2 r2) : n1 = n2 ∧ r1 = r2 := by
  induction h1 generalizing n2 r2 with
  | move hm _ ih =>
    cases h2 with
    | move hm' later =>
      cases hm.unique hm'
      exact ih later
    | accept action => exact absurd hm (not_move_of_accept action)
    | drop action => exact absurd hm (not_move action)
    | fail action => exact absurd hm (not_move action)
  | accept action =>
    cases h2 with
    | move hm => exact absurd hm (not_move_of_accept action)
    | accept => exact ⟨rfl, rfl⟩
    | fail action' => cases action.symm.trans action'
  | drop action _ ih =>
    cases h2 with
    | move hm => exact absurd hm (not_move action)
    | drop _ later =>
      obtain ⟨rfl, rfl⟩ := ih later
      exact ⟨rfl, rfl⟩
  | fail action =>
    cases h2 with
    | move hm => exact absurd hm (not_move action)
    | accept action' => cases action.symm.trans action'
    | fail => exact ⟨rfl, rfl⟩

theorem Outcome.of_moves (hm : Moves k k') (h : Outcome k' n r) : Outcome k n r := by
  induction hm using ReflTransGen.head_induction_on with
  | refl => exact h
  | head hm _ ih => exact .move hm ih

/-! ## Programs are accepted -/

theorem Ranked.outcome (h : Ranked topRank (.phrase .program) ws t) :
    Outcome ⟨[], ws⟩ 0 (some t) := by
  have hgoto : tables.goto 0 (.phrase .program) = some 1 := by decide +kernel
  have haccept : tables.action 1 .endMark = some .accept := by decide +kernel
  have hready : states[1]?.any (fun st => st.opens topRank && st.meets topRank .endMark) =
      true := by
    decide +kernel
  simp only [Option.any_eq_true, Bool.and_eq_true] at hready
  obtain ⟨st, hst, hopens, hmeets⟩ := hready
  have henters : Enters (topState []) topRank (ahead []) (.phrase .program) 1 :=
    .goto hgoto hst hopens hmeets
  have hmoves := h.moves henters
  rw [List.append_nil] at hmoves
  exact .of_moves hmoves (.accept haccept)

/-- A text whose words have a ranked derivation is parsed to its value. The error handler is not
called, and nothing is printed but what the scanner prints. -/
theorem parse_complete {text : String} (hscan : (tokenRun text).fault = none)
    (h : Ranked topRank (.phrase .program) (wordsOfText text) t) :
    (parse false false text).outcome = .ok (some t) ∧
      (parse false false text).printed = reportOf (scan text) ∧ errorCalls text = [] := by
  obtain ⟨n, result, hparse, hout, hprinted, hcalls⟩ := parse_outcome hscan
  obtain ⟨rfl, rfl⟩ := hout.unique h.outcome
  exact ⟨hparse, hprinted rfl, hcalls.mpr rfl⟩

end LangKit.Script
