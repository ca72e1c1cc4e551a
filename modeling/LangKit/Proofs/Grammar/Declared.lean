import LangKit.Grammar.Declare
import Mathlib.Data.List.Basic
import Mathlib.Tactic.Tauto

/-!
# Grammars that declarations make

A grammar comes from its tokens by declarations (`Built`). Whatever is declared, its parts agree:
the rules are numbered in order, the rules of a left side are those with that left side, and every
symbol of a rule is a terminal or a nonterminal (`Regular`).
-/

namespace LangKit.Grammar

variable {symbols : List String} {asked name : Option String} {x head : String} {g : Grammar}

/-- Grammars that come from declarations. A rule that is refused may leave new terminals behind. -/
inductive Built : Grammar → Prop
  | tokens (names : List String) : Built (ofTokens names)
  | precedence {g g' : Grammar} {term assoc : String} {level : Int} (hg : Built g)
      (h : g.setPrecedence term assoc level = .ok g') : Built g'
  | rule {g : Grammar} (hg : Built g) (place : Place) (head : String) (symbols : List String)
      (action : Option String) : Built (g.addRule place head symbols action).2
  | start {g g' : Grammar} {name : Option String} (hg : Built g) (h : g.setStart name = .ok g') :
      Built g'

/-- The parts of a grammar agree, and nothing has been computed of it. -/
structure Regular (g : Grammar) : Prop where
  numbered : ∀ i p, g.rules[i]? = some p → p.number = i + 1
  byHead : ∀ x, Assoc.get? x g.byHead =
    let own := g.rules.toList.filter (·.head == x)
    if own.isEmpty then none else some (own.map (·.number))
  head : ∀ p ∈ g.rules, g.isNonterminal p.head ∧ p.head ≠ startHead ∧ p.head ≠ endMark
  body : ∀ p ∈ g.rules, ∀ x ∈ p.body, (g.isTerminal x ∨ g.isNonterminal x) ∧ x ≠ endMark
  used : ∀ x, g.isNonterminal x → ∃ p ∈ g.rules, x = p.head ∨ x ∈ p.body
  startRule : ∀ p, g.startRule = some p → p.number = 0 ∧ p.head = startHead ∧
    ∃ x, p.body = [x] ∧ g.isNonterminal x ∧ g.start = some x
  error : g.isTerminal errorMark
  blank : g.first = [] ∧ g.follow = [] ∧ g.marks = []

section

variable {g' : Grammar} {place : Place}

theorem readSymbols_spec (h : readSymbols place head symbols g = (r, g')) :
    (∃ terminals, g' = { g with terminals }) ∧ (∀ x, g.isTerminal x → g'.isTerminal x) ∧
      ∀ body, r = .ok body → ∀ x ∈ body, x ≠ endMark := by
  induction symbols generalizing g r with
  | nil =>
    cases h
    exact ⟨⟨_, rfl⟩, fun _ hx => hx, fun body hb => by cases hb; nofun⟩
  | cons s rest ih =>
    rw [readSymbols] at h
    split at h
    · cases h
      exact ⟨⟨_, rfl⟩, fun _ hx => hx, nofun⟩
    · dsimp only at h
      split at h
      · rename_i t _
        split at h
        · cases h
          exact ⟨⟨_, rfl⟩, fun _ hx => hx, nofun⟩
        · rename_i hlength
          generalize hg : (if g.isTerminal t then g
            else { g with terminals := Assoc.put t [] g.terminals }) = g1 at h
          have hnew : (∃ terminals, g1 = { g with terminals }) ∧ ∀ x, g.isTerminal x →
              g1.isTerminal x := by
            subst hg
            split
            · exact ⟨⟨_, rfl⟩, fun _ hx => hx⟩
            · refine ⟨⟨_, rfl⟩, fun x hx => ?_⟩
              rw [isTerminal, Assoc.has_put, Bool.or_eq_true]
              exact .inr hx
          rcases hr : readSymbols place head rest g1 with ⟨others, g2⟩
          rw [hr] at h
          cases h
          obtain ⟨⟨T, rfl⟩, hmore, hwords⟩ := ih hr
          obtain ⟨⟨T1, rfl⟩, hmore1⟩ := hnew
          refine ⟨⟨T, rfl⟩, fun x hx => hmore x (hmore1 x hx), fun body hb => ?_⟩
          cases others with
          | error f => cases hb
          | ok words =>
            cases hb
            refine List.forall_mem_cons.2 ⟨?_, hwords words rfl⟩
            rintro rfl
            exact hlength (by decide)
      · split at h
        · cases h
          exact ⟨⟨_, rfl⟩, fun _ hx => hx, nofun⟩
        · rename_i hname
          rcases hr : readSymbols place head rest g with ⟨others, g2⟩
          rw [hr] at h
          cases h
          obtain ⟨hsame, hmore, hwords⟩ := ih hr
          refine ⟨hsame, hmore, fun body hb => ?_⟩
          cases others with
          | error f => cases hb
          | ok words =>
            cases hb
            refine List.forall_mem_cons.2 ⟨?_, hwords words rfl⟩
            rintro rfl
            exact hname (by decide)

theorem foldl_addUse_spec (number : Nat) (symbols : List String) (g : Grammar) :
    (∃ terminals nonterminals, symbols.foldl (addUse · number) g =
      { g with terminals, nonterminals }) ∧
    (∀ x, (symbols.foldl (addUse · number) g).isTerminal x = g.isTerminal x) ∧
    ∀ x, (symbols.foldl (addUse · number) g).isNonterminal x ↔
      g.isNonterminal x ∨ x ∈ symbols ∧ g.isTerminal x = false := by
  induction symbols generalizing g with
  | nil => exact ⟨⟨_, _, rfl⟩, fun _ => rfl, fun x => by simp⟩
  | cons s rest ih =>
    have hone : (∃ T N, g.addUse number s = { g with terminals := T, nonterminals := N }) ∧
        (∀ x, (g.addUse number s).isTerminal x = g.isTerminal x) ∧
        ∀ x, (g.addUse number s).isNonterminal x ↔
          g.isNonterminal x ∨ x = s ∧ g.isTerminal x = false := by
      rw [addUse]
      cases hs : Assoc.get? s g.terminals with
      | some uses =>
        have hterm : g.isTerminal s = true := by rw [isTerminal, Assoc.has, hs]; rfl
        refine ⟨⟨_, _, rfl⟩, fun x => ?_, fun x => ?_⟩
        · by_cases hx : x = s
          · subst hx
            rw [hterm, isTerminal, Assoc.has_put, beq_self_eq_true, Bool.true_or]
          · rw [isTerminal, Assoc.has_put, beq_false_of_ne hx, Bool.false_or, isTerminal]
        · refine ⟨.inl, fun h => h.resolve_right ?_⟩
          rintro ⟨rfl, hx⟩
          rw [hterm] at hx
          cases hx
      | none =>
        have hterm : g.isTerminal s = false := by rw [isTerminal, Assoc.has, hs]; rfl
        refine ⟨⟨_, _, rfl⟩, fun _ => rfl, fun x => ?_⟩
        rw [isNonterminal, Assoc.has_put, Bool.or_eq_true, beq_iff_eq, or_comm, isNonterminal]
        refine or_congr_right ⟨?_, And.left⟩
        rintro rfl
        exact ⟨rfl, hterm⟩
    obtain ⟨⟨T, N, hsame⟩, hterm, hnon⟩ := hone
    obtain ⟨⟨T', N', hsame'⟩, hterm', hnon'⟩ := ih (g.addUse number s)
    refine ⟨⟨T', N', by rw [List.foldl_cons, hsame', hsame]⟩, fun x => (hterm' x).trans (hterm x),
      fun x => ?_⟩
    rw [List.foldl_cons, hnon', hnon, hterm, List.mem_cons]
    tauto

theorem Regular.moreTerminals (hg : g.Regular) {terminals : List (String × List Nat)}
    (h : ∀ x, g.isTerminal x → ({ g with terminals } : Grammar).isTerminal x) :
    ({ g with terminals } : Grammar).Regular :=
  ⟨hg.numbered, hg.byHead, hg.head,
    fun p hp x hx => ⟨(hg.body p hp x hx).1.imp_left (h x), (hg.body p hp x hx).2⟩, hg.used,
    hg.startRule, h _ hg.error, hg.blank⟩

theorem Regular.insertRule (hg : g.Regular) (hhead : head ≠ startHead ∧ head ≠ endMark)
    {body : List String} (hbody : ∀ x ∈ body, x ≠ endMark)
    (p : Precedence) (action : Option String) :
    (g.insertRule place head body p action).Regular := by
  generalize hN : (if g.isNonterminal head then g.nonterminals else Assoc.put head
    [] g.nonterminals) = N
  have hnon : ∀ x, ({ g with nonterminals := N } : Grammar).isNonterminal x ↔
      g.isNonterminal x ∨ x = head := by
    intro x
    subst hN
    rw [isNonterminal]
    split
    · rename_i hold
      refine ⟨.inl, ?_⟩
      rintro (hx | rfl)
      · exact hx
      · exact hold
    · rw [Assoc.has_put, Bool.or_eq_true, beq_iff_eq, or_comm, isNonterminal]
  obtain ⟨⟨T', N', hsame⟩, hterm, hnon'⟩ :=
    foldl_addUse_spec g.size body { g with nonterminals := N }
  rw [hsame] at hterm hnon'
  have hto : ∀ x, g.isNonterminal x → Assoc.has x N' = true :=
    fun x hx => (hnon' x).2 (.inl ((hnon x).2 (.inl hx)))
  have hg' : g.insertRule place head body p action =
      { g with
        terminals := T', nonterminals := N'
        rules := g.rules.push ⟨g.size, head, body, p, action, place.file, place.line⟩
        byHead := Assoc.put head (Assoc.getD head g.byHead [] ++ [g.size]) g.byHead } := by
    simp only [Grammar.insertRule, hN, hsame]
  rw [hg']
  constructor
  · intro i q hq
    rw [Array.getElem?_push] at hq
    split at hq
    · cases hq
      rename_i hi
      rw [hi]
      rfl
    · exact hg.numbered i q hq
  · intro x
    dsimp only
    rw [Assoc.get?_put, hg.byHead x, Assoc.getD, hg.byHead head, Array.toList_push,
      List.filter_append, List.filter_cons, List.filter_nil]
    by_cases hx : x = head
    · subst hx
      simp only [beq_self_eq_true, if_true, List.isEmpty_iff]
      split <;> simp_all
    · have hne : (head == x) = false := beq_false_of_ne (Ne.symm hx)
      simp only [hne, beq_false_of_ne hx, Bool.false_eq_true, if_false, List.append_nil]
  · intro q hq
    rcases Array.mem_push.1 hq with hq | rfl
    · exact ⟨hto _ (hg.head q hq).1, (hg.head q hq).2⟩
    · exact ⟨(hnon' head).2 (.inl ((hnon head).2 (.inr rfl))), hhead⟩
  · intro q hq x hx
    rcases Array.mem_push.1 hq with hq | rfl
    · exact ⟨(hg.body q hq x hx).1.imp (fun h => (hterm x).trans h) (hto x), (hg.body q hq x hx).2⟩
    · refine ⟨?_, hbody x hx⟩
      by_cases hxt : g.isTerminal x = true
      · exact .inl ((hterm x).trans hxt)
      · exact .inr ((hnon' x).2 (.inr ⟨hx, Bool.eq_false_iff.2 hxt⟩))
  · intro x hx
    rcases (hnon' x).1 hx with hx | ⟨hx, -⟩
    · rcases (hnon x).1 hx with hx | rfl
      · obtain ⟨q, hq, huse⟩ := hg.used x hx
        exact ⟨q, Array.mem_push.2 (.inl hq), huse⟩
      · exact ⟨_, Array.mem_push.2 (.inr rfl), .inl rfl⟩
    · exact ⟨_, Array.mem_push.2 (.inr rfl), .inr hx⟩
  · intro q hq
    obtain ⟨hnumber, hq', x, hxb, hxn, hs⟩ := hg.startRule q hq
    exact ⟨hnumber, hq', x, hxb, hto x hxn, hs⟩
  · exact (hterm errorMark).trans hg.error
  · exact hg.blank

theorem mem_of_readPrecedence {body : List String}
    (h : readPrecedence place g symbols = .ok (body, p, asked)) (hx : x ∈ body) : x ∈ symbols := by
  rw [readPrecedence] at h
  split at h
  · split at h
    · cases h
    · rename_i name rest hrev
      split at h
      · cases h
        rw [← List.mem_reverse, hrev]
        exact List.mem_cons_of_mem _ (List.mem_cons_of_mem _ (List.mem_reverse.1 hx))
      · cases h
    · cases h
  · cases h
    exact hx

theorem Regular.addRule (hg : g.Regular) (place : Place) (head : String) (symbols : List String)
    (action : Option String) : (g.addRule place head symbols action).2.Regular := by
  rw [Grammar.addRule]
  split
  · exact hg
  · split
    · exact hg
    · rename_i hname
      have hhead : head ≠ startHead ∧ head ≠ endMark := by
        constructor <;> rintro rfl <;> exact hname (by decide)
      rcases hr : readSymbols place head symbols g with ⟨f | words, g1⟩
      · obtain ⟨⟨T, rfl⟩, hmore, -⟩ := readSymbols_spec hr
        exact hg.moreTerminals hmore
      · obtain ⟨⟨T, rfl⟩, hmore, hwords⟩ := readSymbols_spec hr
        have hg1 := hg.moreTerminals hmore
        dsimp only
        split
        · exact hg1
        · rename_i body p asked hprec
          have hbody : ∀ x ∈ body, x ≠ endMark :=
            fun x hx => hwords words rfl x (mem_of_readPrecedence hprec hx)
          cases asked with
          | none =>
            dsimp only
            split
            · exact hg1
            · exact hg1.insertRule hhead hbody p action
          | some name =>
            have hg2 : Grammar.Regular
                { g with terminals := T, usedPrecedences := name :: g.usedPrecedences } :=
              ⟨hg1.numbered, hg1.byHead, hg1.head, hg1.body, hg1.used, hg1.startRule,
                hg1.error, hg1.blank⟩
            dsimp only
            split
            · exact hg2
            · exact hg2.insertRule hhead hbody p action

theorem Regular.setPrecedence (hg : g.Regular) {level : Int}
    (h : g.setPrecedence term assoc level = .ok g') : g'.Regular := by
  rw [Grammar.setPrecedence] at h
  split at h
  · cases h
  · split at h
    · cases h
    · split at h
      · cases h
      · cases h
        exact ⟨hg.numbered, hg.byHead, hg.head, hg.body, hg.used, hg.startRule, hg.error, hg.blank⟩

/-- The start symbol becomes the body of the start rule; nothing else changes but its uses. -/
theorem setStart_spec (h : g.setStart name = .ok g') :
    ∃ s uses, Assoc.get? s g.nonterminals = some uses ∧
      g' = { g with
        startRule := some ⟨0, startHead, [s], .default, none, "", 0⟩
        nonterminals := Assoc.put s (uses ++ [0]) g.nonterminals
        start := some s } := by
  -- However the name is chosen, there must be one, and it must have an entry.
  unfold Grammar.setStart at h
  simp only [bind, Except.bind] at h
  repeat' split at h
  all_goals cases h
  all_goals exact ⟨_, _, ‹Assoc.get? _ g.nonterminals = some _›, rfl⟩

theorem Regular.setStart (hg : g.Regular) {name : Option String} (h : g.setStart name = .ok g') :
    g'.Regular := by
  obtain ⟨s, uses, hs, rfl⟩ := setStart_spec h
  have hnon : ∀ x, Assoc.has x (Assoc.put s (uses ++ [0]) g.nonterminals) = g.isNonterminal x := by
    intro x
    rw [Assoc.has_put, isNonterminal]
    by_cases hx : x = s
    · subst hx
      rw [Assoc.has, hs, Option.isSome_some, Bool.or_true]
    · rw [beq_false_of_ne hx, Bool.false_or]
  refine ⟨hg.numbered, hg.byHead, ?_, ?_, ?_, ?_, hg.error, hg.blank⟩
  · exact fun p hp => ⟨(hnon p.head).trans (hg.head p hp).1, (hg.head p hp).2⟩
  · exact fun p hp x hx => ⟨(hg.body p hp x hx).1.imp_right (hnon x).trans, (hg.body p hp x hx).2⟩
  · exact fun x hx => hg.used x ((hnon x).symm.trans hx)
  · intro p hp
    cases hp
    exact ⟨rfl, rfl, s, rfl, by rw [isNonterminal, Assoc.has, Assoc.get?_put_self]; rfl, rfl⟩

end

namespace Regular

variable {p : Production}

theorem rule?_number (hg : g.Regular) (hp : p ∈ g.rules) : g.rule? p.number = some p := by
  obtain ⟨i, hi, rfl⟩ := Array.mem_iff_getElem.1 hp
  have hget := Array.getElem?_eq_getElem hi
  rw [hg.numbered i _ hget]
  exact hget

theorem rulesOf (hg : g.Regular) (x : String) :
    g.rulesOf x = g.rules.toList.filter (·.head == x) := by
  have hown : (Assoc.get? x g.byHead).getD [] = (g.rules.toList.filter (·.head == x)).map
      (·.number) := by
    rw [hg.byHead]
    dsimp only
    split
    · rename_i h
      rw [List.isEmpty_iff.1 h]
      rfl
    · rfl
  rw [Grammar.rulesOf, hown, List.filterMap_map]
  refine (List.filterMap_congr fun p hp => ?_).trans List.filterMap_some
  exact hg.rule?_number (Array.mem_toList_iff.1 (List.mem_filter.1 hp).1)

theorem mem_rulesOf (hg : g.Regular) : p ∈ g.rulesOf x ↔ p ∈ g.rules ∧ p.head = x := by
  rw [hg.rulesOf, List.mem_filter, Array.mem_toList_iff, beq_iff_eq]

theorem hasRule (hg : g.Regular) : g.hasRule x ↔ ∃ p ∈ g.rules, p.head = x := by
  rw [Grammar.hasRule, Assoc.has, hg.byHead]
  dsimp only
  rw [← hg.rulesOf]
  split
  · rename_i h
    refine ⟨(fun hfalse => by cases hfalse), ?_⟩
    rintro ⟨p, hp⟩
    exact absurd (hg.mem_rulesOf.2 hp) (List.isEmpty_iff.1 h ▸ List.not_mem_nil)
  · rename_i h
    obtain ⟨p, hp⟩ := List.exists_mem_of_ne_nil _ (mt List.isEmpty_iff.2 h)
    exact ⟨fun _ => ⟨p, hg.mem_rulesOf.1 hp⟩, fun _ => rfl⟩

end Regular

theorem Built.regular (h : g.Built) : g.Regular := by
  induction h with
  | tokens names =>
    refine ⟨nofun, fun _ => rfl, nofun, nofun, nofun, nofun, ?_, rfl, rfl, rfl⟩
    rw [isTerminal, Assoc.has, ofTokens, Assoc.get?_putAll_map fun _ => [], if_pos (by simp)]
    rfl
  | precedence _ h ih => exact ih.setPrecedence h
  | rule _ place head symbols action ih => exact ih.addRule place head symbols action
  | start _ h ih => exact ih.setStart h

def withRules (g : Grammar) (rules : List (String × List String)) : Grammar :=
  rules.foldl (fun g r => (g.addRule ⟨"", 0⟩ r.1 r.2 none).2) g

theorem Built.withRules {g : Grammar} (h : g.Built) (rules : List (String × List String)) :
    (g.withRules rules).Built := by
  induction rules generalizing g with
  | nil => exact h
  | cons r rest ih => exact ih (h.rule _ _ _ _)

def withPrecedence (g : Grammar) (term assoc : String) (level : Int) : Grammar :=
  (g.setPrecedence term assoc level).toOption.getD g

theorem Built.withPrecedence {g : Grammar} (h : g.Built) (term assoc : String) (level : Int) :
    (g.withPrecedence term assoc level).Built := by
  rw [Grammar.withPrecedence]
  cases hs : g.setPrecedence term assoc level with
  | error f => exact h
  | ok g' => exact h.precedence hs

def startingAt (g : Grammar) (name : String) : Grammar :=
  (g.setStart (some name)).toOption.getD g

theorem Built.startingAt {g : Grammar} (h : g.Built) (name : String) :
    (g.startingAt name).Built := by
  rw [Grammar.startingAt]
  cases hs : g.setStart (some name) with
  | error f => exact h
  | ok g' => exact h.start hs

end LangKit.Grammar
