import LangKit.Proofs.Parser.Completeness

/-!
# Recovery from syntax errors

Words are viable if a program can start with them. The parser has read viable words at any time
(`Path.viable`): the rules under way in its states can be completed, one after another. It stops at
the first word that makes them unviable (`not_viable_of_refusal`), drops that word and all before
it, and starts again behind it.

So a text with a syntax error can still give a tree. `parseProgram_ok_iff` says when: exactly if
what is left after some restarts is a program.
-/

namespace LangKit.Script

open Relation (ReflTransGen)

variable {ws read rest : List Word} {n s : Nat} {r : Option Tree} {fs : List Frame}
  {k k' : Stage} {w : Word}

def IsProgram (ws : List Word) : Prop :=
  ∃ t, Derives (.phrase .program) ws t

def Viable (ws : List Word) : Prop :=
  ∃ more, IsProgram (ws ++ more)

/-- What is left of words after a number of restarts. At each of them the words up to the first one
that makes them unviable are dropped. -/
inductive Restarts : List Word → List Word → Prop
  | none (ws : List Word) : Restarts ws ws
  | drop {read rest left : List Word} {w : Word} (viable : Viable read)
      (refused : ¬ Viable (read ++ [w])) (later : Restarts rest left) :
      Restarts (read ++ w :: rest) left

theorem Viable.of_append (h : Viable (ws ++ more)) : Viable ws := by
  obtain ⟨rest, h⟩ := h
  exact ⟨more ++ rest, by rwa [← List.append_assoc]⟩

/-! ## Completing a rule -/

/-- A rule that makes a phrase from simpler parts. -/
def Phrase.simplest : Phrase → Nat
  | .start => 0
  | .program => 1
  | .functions => 3
  | .function => 5
  | .lambda => 7
  | .formals => 9
  | .formal => 10
  | .statements => 13
  | .statement => 22
  | .variable => 16
  | .expression => 42
  | .arguments => 51

/-- How deep the derivation by the simplest rules is. -/
def Phrase.depth : Phrase → Nat
  | .formal | .statement | .variable | .expression => 0
  | .formals | .statements | .arguments => 1
  | .lambda | .function => 2
  | .functions => 3
  | .program => 4
  | .start => 5

def Symbol.below (bound : Nat) : Symbol → Bool
  | .token _ => true
  | .phrase p => p.depth < bound
  | _ => false

theorem simplest_spec (p : Phrase) :
    ∃ r, rules[p.simplest]? = some r ∧ r.head = p ∧ ∀ x ∈ r.body, x.below p.depth = true := by
  have h : rules[p.simplest]?.any (fun r => r.head == p && r.body.all (·.below p.depth)) =
      true := by
    cases p <;> decide +kernel
  simpa only [Option.any_eq_true, Bool.and_eq_true, beq_iff_eq, List.all_eq_true] using h

theorem exists_derivesAll (h : ∀ x ∈ xs, ∃ ws t, Derives x ws t) :
    ∃ ws ts, DerivesAll xs ws ts := by
  induction xs with
  | nil => exact ⟨[], [], .nil⟩
  | cons x xs ih =>
    obtain ⟨ws, t, hx⟩ := h x (List.mem_cons_self ..)
    obtain ⟨ws', ts, hxs⟩ := ih fun y hy => h y (List.mem_cons_of_mem x hy)
    exact ⟨ws ++ ws', t :: ts, .cons hx hxs⟩

theorem exists_derives (p : Phrase) : ∃ ws t, Derives (.phrase p) ws t := by
  induction hn : p.depth using Nat.strongRecOn generalizing p with
  | ind n ih =>
    obtain ⟨r, hr, hhead, hbody⟩ := simplest_spec p
    have hparts : ∃ ws ts, DerivesAll r.body ws ts := by
      refine exists_derivesAll fun x hx => ?_
      have hbelow := hbody x hx
      cases x with
      | token kind => exact ⟨_, _, .word ⟨kind, .text ""⟩⟩
      | phrase q => exact ih q.depth (hn ▸ of_decide_eq_true hbelow) q rfl
      | endMark => cases hbelow
      | errorMark => cases hbelow
    obtain ⟨ws, ts, hparts⟩ := hparts
    have hrule := Derives.rule hr hparts
    rw [hhead] at hrule
    exact ⟨ws, _, hrule⟩

theorem exists_derives_of_mem_body {r : Rule} (hr : rules[n]? = some r) :
    ∀ x ∈ r.body, ∃ ws t, Derives x ws t := by
  have hall : rules.toList.all (fun r => r.body.all (·.below 6)) = true := by decide +kernel
  have hmem : r ∈ rules.toList := Array.mem_toList_iff.mpr (Array.mem_of_getElem? hr)
  intro x hx
  have hbelow := List.all_eq_true.mp (List.all_eq_true.mp hall r hmem) x hx
  cases x with
  | token kind => exact ⟨_, _, .word ⟨kind, .text ""⟩⟩
  | phrase p => exact exists_derives p
  | endMark => cases hbelow
  | errorMark => cases hbelow

/-! ## What has been read is viable -/

/-- How many rules with one part lie between a symbol and a rule with more. -/
def Symbol.height : Symbol → Nat
  | .phrase p => phraseRank p
  | _ => 4

/-- A state other than the last one has a rule under way. If the rule has one part so far, its head
is lower than the part. -/
theorem item_of_leads {target : Nat} (h : Leads s symbol target) (hne : target ≠ 1) :
    ∃ n d r, ⟨n, d + 1⟩ ∈ kernel target ∧ rules[n]? = some r ∧ d < r.body.length ∧
      (d = 0 → phraseRank r.head < symbol.height) := by
  have hall : checkStates (fun _ st => st.edges.all fun edge => edge.2 == 1 ||
      (kernel edge.2).head?.any fun i => i.dot != 0 && rules[i.rule]?.any fun r =>
        i.dot ≤ r.body.length && (i.dot != 1 || phraseRank r.head < edge.1.height)) = true := by
    decide +kernel
  obtain ⟨st, hst, hmem⟩ := h
  have hedge := List.all_eq_true.mp (of_checkStates hall hst) _ hmem
  simp only [Bool.or_eq_true, beq_iff_eq, hne, false_or, Option.any_eq_true, Bool.and_eq_true,
    bne_iff_ne, decide_eq_true_eq] at hedge
  obtain ⟨⟨n, dot⟩, hi, hdot, r, hr, hle, hlow⟩ := hedge
  obtain ⟨d, rfl⟩ := Nat.exists_eq_succ_of_ne_zero hdot
  refine ⟨n, d, r, List.mem_of_mem_head? hi, hr, hle, fun hd => ?_⟩
  subst hd
  exact hlow.resolve_left fun hne => hne rfl

/-- A bound on the number of rules that have yet to be completed. -/
def height : List Frame → Nat
  | [] => 0
  | f :: fs => 5 * (fs.length + 1) + f.sort.height

theorem height_lt {parts : List Frame} (hparts : parts ≠ [])
    (hlow : parts.length = 1 → phraseRank p < f.sort.height)
    (hsplit : ∃ gs, f :: gs = parts ++ fs) :
    height (⟨s, .phrase p, t⟩ :: fs) < height (parts ++ fs) := by
  obtain ⟨gs, hgs⟩ := hsplit
  have hlength := congrArg List.length hgs
  simp only [List.length_cons, List.length_append] at hlength
  rw [← hgs]
  simp only [height, Symbol.height]
  have hle := phraseRank_le p
  have hpos : parts.length ≠ 0 := fun h => hparts (List.length_eq_zero_iff.mp h)
  rcases Nat.lt_or_ge 1 parts.length with hlen | hlen
  · omega
  · have hlow := hlow (by omega)
    simp only [Symbol.height] at hlow
    omega

/-- The rules under way can be completed, so what has been read can be. -/
theorem Path.viable (hp : Path fs) (hr : Reads fs read) : Viable read := by
  induction hn : height fs using Nat.strongRecOn generalizing fs read with
  | ind n ih =>
    cases fs with
    | nil =>
      cases hr
      obtain ⟨ws, t, h⟩ := exists_derives .program
      exact ⟨ws, t, h⟩
    | cons f fs =>
      by_cases hlast : f.state = 1
      · obtain ⟨htop, hsort⟩ := (leads_ends hp.leads).2 hlast
        cases hp.tail.eq_nil htop
        cases hr with
        | cons below top =>
          cases below
          rw [hsort] at top
          exact ⟨[], _, by simpa using top⟩
      · obtain ⟨m, d, r, hitem, hrule, hd, hlow⟩ := item_of_leads hp.leads hlast
        obtain ⟨parts, below, hsplit, hsorts, hgoto⟩ := hp.spells hrule hitem
        obtain ⟨s, hs⟩ := Option.isSome_iff_exists.mp hgoto
        rw [hsplit] at hr hp hn
        obtain ⟨ws1, ws2, rfl, hbelow, hparts⟩ := hr.split
        have hlength : parts.length = d + 1 := by
          have := congrArg List.length hsorts
          simp only [List.length_map, List.length_reverse, List.length_take] at this
          omega
        -- The rest of the rule's body completes what has been read of it.
        have hmore : ∀ x ∈ r.body.drop (d + 1), ∃ ws t, Derives x ws t := fun x hx =>
          exists_derives_of_mem_body hrule x (List.mem_of_mem_drop hx)
        obtain ⟨ws3, ts, hrest⟩ := exists_derivesAll hmore
        obtain ⟨t, hhead⟩ : ∃ t, Derives (.phrase r.head) (ws2 ++ ws3) t := by
          have hbody := hparts.append hrest
          rw [hsorts, List.take_append_drop] at hbody
          exact ⟨_, .rule hrule hbody⟩
        have hpath : Path (⟨s, .phrase r.head, t⟩ :: below) := .cons hp.drop (leads_of_goto hs)
        have hreads : Reads (⟨s, .phrase r.head, t⟩ :: below) (ws1 ++ (ws2 ++ ws3)) :=
          .cons hbelow hhead
        have hlt : height (⟨s, .phrase r.head, t⟩ :: below) < height (parts ++ below) :=
          height_lt (List.ne_nil_of_length_eq_add_one hlength)
            (fun h => hlow (by omega)) ⟨fs, hsplit⟩
        have hviable := ih _ (hn ▸ hlt) hpath hreads rfl
        rw [← List.append_assoc] at hviable
        exact hviable.of_append

/-- Moves go on reading: what has been read and what is ahead stay the same row. -/
theorem Moves.reads {k k' : Stage} {read : List Word} (hm : Moves k k') (hp : Path k.frames)
    (hr : Reads k.frames read) :
    Path k'.frames ∧ ∃ read', Reads k'.frames read' ∧ read' ++ k'.input = read ++ k.input := by
  induction hm with
  | refl => exact ⟨hp, read, hr, rfl⟩
  | tail _ hm ih =>
    obtain ⟨hp', read', hr', heq⟩ := ih
    obtain ⟨read'', hr'', heq'⟩ := hm.reads hp' hr'
    exact ⟨hm.path hp', read'', hr'', heq'.trans heq⟩

theorem Moves.viable {fs : List Frame} {read rest : List Word}
    (hm : Moves ⟨[], read ++ rest⟩ ⟨fs, rest⟩) : Viable read := by
  obtain ⟨hp, read', hr, heq⟩ := Moves.reads hm .nil .nil
  obtain rfl : read' = read := List.append_cancel_right heq
  exact hp.viable hr

/-! ## A word without a move is not viable -/

theorem Moves.input_suffix (hm : Moves k k') : k'.input <:+ k.input := by
  induction hm with
  | refl => exact List.suffix_refl _
  | tail _ hm ih =>
    cases hm with
    | shift => exact (List.suffix_cons _ _).trans ih
    | reduce => exact ih

theorem ahead_append_cons (pre : List Word) (w : Word) (rest more : List Word) :
    ahead (pre ++ w :: rest) = ahead (pre ++ w :: more) := by
  cases pre <;> rfl

theorem Moves.change_rest (hm : Moves ⟨fs, read ++ w :: rest⟩ ⟨fs', w :: rest⟩)
    (more : List Word) : Moves ⟨fs, read ++ w :: more⟩ ⟨fs', w :: more⟩ := by
  generalize hk : (⟨fs, read ++ w :: rest⟩ : Stage) = k at hm
  induction hm using ReflTransGen.head_induction_on generalizing fs read with
  | refl =>
    obtain ⟨rfl, hread⟩ : fs = fs' ∧ read = [] := by simpa using hk
    rw [hread]
    exact .refl
  | head hm hlater ih =>
    cases hm with
    | @shift gs s v after action =>
      obtain ⟨rfl, hinput⟩ : fs = gs ∧ read ++ w :: rest = v :: after := by simpa using hk
      cases read with
      | nil =>
        -- The word itself cannot have been shifted, for it is still ahead at the end.
        obtain ⟨rfl, rfl⟩ : w = v ∧ rest = after := by simpa using hinput
        have hle := (Moves.input_suffix hlater).length_le
        simp only [List.length_cons] at hle
        omega
      | cons u read =>
        obtain ⟨rfl, rfl⟩ : u = v ∧ read ++ w :: rest = after := by simpa using hinput
        exact .head (.shift action) (ih rfl)
    | @reduce parts below ws n s r action rule length goto =>
      obtain ⟨rfl, rfl⟩ : fs = parts ++ below ∧ read ++ w :: rest = ws := by simpa using hk
      rw [ahead_append_cons read w rest more] at action
      exact .head (.reduce action rule length goto) (ih rfl)

theorem Outcome.after_moves (h : Outcome k n r) (hm : Moves k k') : Outcome k' n r := by
  induction hm with
  | refl => exact h
  | tail _ hm ih =>
    cases ih with
    | move hm' later =>
      cases hm.unique hm'
      exact later
    | accept action => exact absurd hm (not_move_of_accept action)
    | drop action => exact absurd hm (not_move action)
    | fail action => exact absurd hm (not_move action)

theorem IsProgram.outcome {ws : List Word} (h : IsProgram ws) :
    ∃ t, Outcome ⟨[], ws⟩ 0 (some t) := by
  obtain ⟨t, h⟩ := h
  obtain ⟨t', h⟩ := h.ranked
  exact ⟨t', Ranked.outcome h⟩

/-- No program starts with the words that have been read and a word for which there is no move. -/
theorem not_viable_of_refusal (hm : Moves ⟨[], read ++ w :: rest⟩ ⟨fs, w :: rest⟩)
    (ha : tables.action (topState fs) (.token w.kind) = none) : ¬ Viable (read ++ [w]) := by
  rintro ⟨more, h⟩
  rw [List.append_assoc] at h
  -- The program would be read by the same moves up to the word, and then be stuck.
  obtain ⟨t, hout⟩ := h.outcome
  have hstuck : tables.action (topState fs) (ahead (w :: more)) = none := ha
  cases hout.after_moves (Moves.change_rest hm more) with
  | move hm => exact not_move hstuck hm

/-! ## When a parse gives a tree -/

/-- A parse ends without an error, or it comes to the end of the words, or it comes to the first
word for which there is no move. -/
theorem Outcome.first_refusal (h : Outcome k n r) :
    (∃ t, n = 0 ∧ r = some t) ∨ (r = none ∧ ∃ fs, Moves k ⟨fs, []⟩) ∨
      ∃ fs w rest m, Moves k ⟨fs, w :: rest⟩ ∧
        tables.action (topState fs) (.token w.kind) = none ∧ n = m + 1 ∧
        Outcome ⟨[], rest⟩ m r := by
  induction h with
  | move hm _ ih =>
    rcases ih with hok | ⟨hnone, fs, hmoves⟩ | ⟨fs, w, rest, m, hmoves, hlater⟩
    · exact .inl hok
    · exact .inr (.inl ⟨hnone, fs, .head hm hmoves⟩)
    · exact .inr (.inr ⟨fs, w, rest, m, .head hm hmoves, hlater⟩)
  | accept => exact .inl ⟨_, rfl, rfl⟩
  | drop action later => exact .inr (.inr ⟨_, _, _, _, .refl, action, rfl, later⟩)
  | fail => exact .inr (.inl ⟨rfl, _, .refl⟩)

theorem Outcome.restarts (h : Outcome ⟨[], ws⟩ n (some t)) :
    ∃ left, Restarts ws left ∧ Derives (.phrase .program) left t := by
  induction n generalizing ws with
  | zero =>
    obtain ⟨left, _, hderives, hall⟩ := h.sound .nil .nil
    exact ⟨left, hall rfl ▸ .none left, hderives⟩
  | succ n ih =>
    rcases h.first_refusal with ⟨_, hn, _⟩ | ⟨hnone, _⟩ | ⟨fs, w, rest, m, hmoves, ha, hm, hlater⟩
    · cases hn
    · cases hnone
    · cases hm
      obtain ⟨_, read, _, hinput⟩ := Moves.reads hmoves .nil .nil
      obtain rfl : read ++ w :: rest = ws := hinput
      obtain ⟨left, hrestarts, hderives⟩ := ih hlater
      exact ⟨left, .drop (Moves.viable hmoves) (not_viable_of_refusal hmoves ha) hrestarts,
        hderives⟩

theorem exists_outcome (hp : Path k.frames) : ∃ n r, Outcome k n r := by
  induction hpot : potential k using Nat.strongRecOn generalizing k with
  | ind p ih =>
    obtain ⟨fs, ws⟩ := k
    rcases hp.progress ws with ⟨k', hm⟩ | ⟨f, rfl, rfl, ha⟩ | ha
    · obtain ⟨n, r, hlater⟩ := ih _ (hpot ▸ potential_move hm) (hm.path hp) rfl
      exact ⟨n, r, .move hm hlater⟩
    · exact ⟨0, _, .accept ha⟩
    · cases ws with
      | nil => exact ⟨1, none, .fail ha⟩
      | cons w ws =>
        have hzero : stateRank 0 = 0 := by decide +kernel
        have hlt : potential ⟨[], ws⟩ < p := by
          simp only [← hpot, potential, topState, hzero, List.length_cons, List.length_nil]
          omega
        obtain ⟨n, r, hlater⟩ := ih _ hlt .nil rfl
        exact ⟨n + 1, r, .drop ha hlater⟩

theorem refusal_unique (heq : read ++ w :: rest = read' ++ w' :: rest')
    (hv : Viable read) (hn : ¬ Viable (read ++ [w])) (hv' : Viable read')
    (hn' : ¬ Viable (read' ++ [w'])) :
    read = read' ∧ w = w' ∧ rest = rest' := by
  rcases List.append_eq_append_iff.mp heq with ⟨mid, rfl, hmid⟩ | ⟨mid, rfl, hmid⟩
  · cases mid with
    | nil => simpa using hmid
    | cons v mid =>
      obtain ⟨rfl, rfl⟩ : w = v ∧ rest = mid ++ w' :: rest' := by simpa using hmid
      have hlonger : Viable (read ++ [w] ++ mid) := by simpa using hv'
      exact absurd hlonger.of_append hn
  · cases mid with
    | nil =>
      obtain ⟨rfl, rfl⟩ : w' = w ∧ rest' = rest := by simpa using hmid
      simp
    | cons v mid =>
      obtain ⟨rfl, rfl⟩ : w' = v ∧ rest' = mid ++ w :: rest := by simpa using hmid
      have hlonger : Viable (read' ++ [w'] ++ mid) := by simpa using hv
      exact absurd hlonger.of_append hn'

theorem Restarts.outcome {ws left : List Word} (h : Restarts ws left) (hp : IsProgram left) :
    ∃ n t, Outcome ⟨[], ws⟩ n (some t) := by
  induction h with
  | none ws =>
    obtain ⟨t, hout⟩ := hp.outcome
    exact ⟨0, t, hout⟩
  | @drop read rest left w hv hn _ ih =>
    obtain ⟨n, r, hout⟩ := exists_outcome (k := ⟨[], read ++ w :: rest⟩) .nil
    rcases hout.first_refusal with ⟨t, rfl, rfl⟩ | ⟨_, fs, hmoves⟩ |
      ⟨fs, w', rest', m, hmoves, ha, rfl, hlater⟩
    · exact ⟨0, t, hout⟩
    · -- All words would have been read, the refused one as well.
      have hall : Viable (read ++ w :: rest) := by
        rw [← List.append_nil (read ++ w :: rest)] at hmoves
        exact Moves.viable hmoves
      rw [List.append_cons] at hall
      exact absurd hall.of_append hn
    · -- The word that the table refuses is the one with which the words stop being viable.
      obtain ⟨_, read', _, hinput⟩ := Moves.reads hmoves .nil .nil
      have hinput : read' ++ w' :: rest' = read ++ w :: rest := hinput
      rw [← hinput] at hmoves
      obtain ⟨rfl, rfl, rfl⟩ := refusal_unique hinput (Moves.viable hmoves)
        (not_viable_of_refusal hmoves ha) hv hn
      obtain ⟨m', t, hlater'⟩ := ih hp
      obtain ⟨rfl, rfl⟩ := hlater.unique hlater'
      exact ⟨_, t, hout⟩

/-- What is left of words after some restarts is a program. -/
def Recovers (ws : List Word) : Prop :=
  ∃ left, Restarts ws left ∧ IsProgram left

/-- A text gives a tree exactly if its words are a program after some restarts, and is refused with
a syntax error otherwise. -/
theorem parseProgram_ok_iff {text : String} (hscan : (tokenRun text).fault = none) :
    ((∃ t, (parseProgram text).1 = .ok t) ↔ Recovers (wordsOfText text)) ∧
      ((parseProgram text).1 = .error (.syntaxError (some "Syntax error")) ↔
        ¬ Recovers (wordsOfText text)) := by
  obtain ⟨n, result, hparse, hout, _⟩ := parse_outcome hscan
  cases result with
  | some t =>
    rw [parseProgram_of_some hparse]
    obtain ⟨left, hrestarts, hderives⟩ := hout.restarts
    have hrecovers : Recovers (wordsOfText text) := ⟨left, hrestarts, t, hderives⟩
    refine ⟨⟨fun _ => hrecovers, fun _ => ⟨t, rfl⟩⟩, ⟨fun h => ?_, fun h => absurd hrecovers h⟩⟩
    cases h
  | none =>
    rw [parseProgram_of_none hparse]
    have hnot : ¬ Recovers (wordsOfText text) := by
      rintro ⟨left, hrestarts, hprogram⟩
      obtain ⟨m, t, hout'⟩ := hrestarts.outcome hprogram
      cases (hout.unique hout').2
    refine ⟨⟨fun ⟨t, h⟩ => ?_, fun h => absurd h hnot⟩, ⟨fun _ => hnot, fun _ => rfl⟩⟩
    cases h

/-- A text that is a program behind one stray word recovers. -/
theorem parseProgram_ok_iff_stray_word :
    (tokenRun "x func main() { y = 1; }").fault = none ∧
      Recovers (wordsOfText "x func main() { y = 1; }") := by
  have hscan : (tokenRun "x func main() { y = 1; }").fault = none := by decide +kernel
  have hok : (parseProgram "x func main() { y = 1; }").1.toOption.isSome = true := by decide +kernel
  refine ⟨hscan, (parseProgram_ok_iff hscan).1.mp ?_⟩
  cases h : (parseProgram "x func main() { y = 1; }").1 with
  | ok t => exact ⟨t, rfl⟩
  | error f => simp [h, Except.toOption] at hok

theorem IsProgram.ahead_eq (h : IsProgram ws) : ahead ws = .token .func := by
  obtain ⟨t, h⟩ := h
  obtain ⟨t', h⟩ := h.ranked
  have hahead := h.ahead_mem []
  rw [List.append_nil] at hahead
  exact List.mem_singleton.mp hahead

/-- A text with a syntax error that gives a tree: its first word opens no function. -/
theorem parseProgram_accepts_stray_word :
    ¬ IsProgram (wordsOfText "x func main() { y = 1; }") ∧
      (parseProgram "x func main() { y = 1; }").1.toOption.isSome = true := by
  refine ⟨fun h => ?_, by decide +kernel⟩
  have hname : ahead (wordsOfText "x func main() { y = 1; }") = .token .name := by decide +kernel
  cases hname.symm.trans h.ahead_eq

end LangKit.Script
