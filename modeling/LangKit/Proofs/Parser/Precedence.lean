import LangKit.Proofs.Parser.Soundness

/-!
# Precedence

The grammar is ambiguous: a row of operands and operators derives in many ways. `Ranked` picks one
of them. Each binary operator has a rank, the left operand of an operator must rank at least as high
as the operator and the right one higher, and an operand of `-` or `!` is no operation of a binary
operator.

The main statement is `Derives.ranked`: words that derive at all have a ranked derivation, so
precedence decides between derivations and refuses none. The operands are regrouped one operator at
a time (`Operand.extend`), as the parser does.
-/

namespace LangKit.Script

variable {ws left right : List Word} {ts : List Tree} {w : Word}

/-- How tightly a binary operator binds. Other tokens have rank zero. -/
def TokenKind.rank : TokenKind → Nat
  | .or => 1
  | .and => 2
  | .eq | .notEq | .greaterEq | .greater | .lessEq | .less => 3
  | .plus | .minus => 4
  | .multiply | .divide => 5
  | _ => 0

def topRank : Nat := 6

theorem TokenKind.rank_lt (kind : TokenKind) : kind.rank < topRank := by
  cases kind <;> decide

/-- The rank of what a rule makes: that of its operator for an operation of a binary operator. -/
def Rule.rank (r : Rule) : Nat :=
  match r.head, r.body with
  | .expression, [.phrase .expression, .token op, .phrase .expression] => op.rank
  | _, _ => topRank

/-- The rank that a part of a rule needs where no operator asks for more. -/
def Symbol.need (x : Symbol) : Nat :=
  if x = .phrase .expression then 0 else topRank

def Rule.parts (r : Rule) : List (Symbol × Nat) :=
  match r.head, r.body with
  | .expression, [.phrase .expression, .token op, .phrase .expression] =>
    [(.phrase .expression, op.rank), (.token op, topRank), (.phrase .expression, op.rank + 1)]
  | .expression, [.token op, .phrase .expression] =>
    [(.token op, topRank), (.phrase .expression, topRank)]
  | _, body => body.map fun x => (x, x.need)

mutual

inductive Ranked : Nat → Symbol → List Word → Tree → Prop
  | word {rank : Nat} (w : Word) : Ranked rank (.token w.kind) [w] w.value.tree
  | rule {rank n : Nat} {r : Rule} {ws : List Word} {ts : List Tree} (rule : rules[n]? = some r)
      (rank_le : rank ≤ r.rank) (parts : RankedAll r.parts ws ts) :
      Ranked rank (.phrase r.head) ws (r.meaning ts)

/-- Words derive from a row of symbols, each part with the rank that it needs. -/
inductive RankedAll : List (Symbol × Nat) → List Word → List Tree → Prop
  | nil : RankedAll [] [] []
  | cons {x : Symbol} {rank : Nat} {xs : List (Symbol × Nat)} {ws ws' : List Word} {t : Tree}
      {ts : List Tree} (first : Ranked rank x ws t) (rest : RankedAll xs ws' ts) :
      RankedAll ((x, rank) :: xs) (ws ++ ws') (t :: ts)

end

theorem Ranked.weaken {rank rank' : Nat} (h : Ranked rank x ws t) (hle : rank' ≤ rank) :
    Ranked rank' x ws t := by
  cases h with
  | word w => exact .word w
  | rule hr hrank hparts => exact .rule hr (Nat.le_trans hle hrank) hparts

/-! ## Operands -/

def Operand (rank : Nat) (ws : List Word) : Prop :=
  ∃ t, Ranked rank (.phrase .expression) ws t

def IsBinary (op : TokenKind) : Prop :=
  ∃ (n : Nat) (r : Rule), rules[n]? = some r ∧ r.head = .expression ∧
    r.body = [.phrase .expression, .token op, .phrase .expression]

def IsUnary (op : TokenKind) : Prop :=
  ∃ (n : Nat) (r : Rule), rules[n]? = some r ∧ r.head = .expression ∧
    r.body = [.token op, .phrase .expression]

theorem Operand.weaken {rank rank' : Nat} {ws : List Word} (h : Operand rank ws)
    (hle : rank' ≤ rank) : Operand rank' ws := by
  obtain ⟨t, ht⟩ := h
  exact ⟨t, ht.weaken hle⟩

theorem Operand.of_rule {n rank : Nat} (hr : rules[n]? = some r) (hhead : r.head = .expression)
    (hle : rank ≤ r.rank) (hparts : RankedAll r.parts ws ts) : Operand rank ws := by
  have hrule : Ranked rank (.phrase r.head) ws (r.meaning ts) := .rule hr hle hparts
  rw [hhead] at hrule
  exact ⟨_, hrule⟩

theorem RankedAll.cons_word {rank : Nat} (w : Word) (h : RankedAll xs ws ts) :
    RankedAll ((.token w.kind, rank) :: xs) (w :: ws) (w.value.tree :: ts) :=
  .cons (.word w) h

theorem RankedAll.single {rank : Nat} (h : Ranked rank x ws t) :
    RankedAll [(x, rank)] ws [t] := by
  have := RankedAll.cons h .nil
  rwa [List.append_nil] at this

theorem Operand.binary {rank : Nat} (hop : IsBinary w.kind) (hrank : rank ≤ w.kind.rank)
    (hleft : Operand w.kind.rank left) (hright : Operand (w.kind.rank + 1) right) :
    Operand rank (left ++ w :: right) := by
  obtain ⟨n, r, hr, hhead, hbody⟩ := hop
  obtain ⟨t1, hleft⟩ := hleft
  obtain ⟨t2, hright⟩ := hright
  have hparts : RankedAll r.parts (left ++ w :: right) [t1, w.value.tree, t2] := by
    simp only [Rule.parts, hhead, hbody]
    exact .cons hleft (.cons_word w (.single hright))
  have hle : rank ≤ r.rank := by
    simpa only [Rule.rank, hhead, hbody] using hrank
  exact .of_rule hr hhead hle hparts

theorem Operand.unary (hop : IsUnary w.kind) (h : Operand topRank ws) :
    Operand topRank (w :: ws) := by
  obtain ⟨n, r, hr, hhead, hbody⟩ := hop
  obtain ⟨t, h⟩ := h
  have hparts : RankedAll r.parts (w :: ws) [w.value.tree, t] := by
    simp only [Rule.parts, hhead, hbody]
    exact .cons_word w (.single h)
  have hle : topRank ≤ r.rank := by
    simp only [Rule.rank, hhead, hbody, Nat.le_refl]
  exact .of_rule hr hhead hle hparts

theorem Operand.cases {rank : Nat} {ws : List Word} (h : Operand rank ws) :
    Operand topRank ws ∨
      ∃ left w right, ws = left ++ w :: right ∧ IsBinary w.kind ∧ rank ≤ w.kind.rank ∧
        Operand w.kind.rank left ∧ Operand (w.kind.rank + 1) right := by
  obtain ⟨t, h⟩ := h
  generalize hx : Symbol.phrase .expression = x at h
  cases h with
  | word w => cases hx
  | @rule _ n r ws ts hr hrank hparts =>
    have hhead : r.head = .expression := (Symbol.phrase.inj hx).symm
    by_cases hbinary : ∃ op, r.body = [.phrase .expression, .token op, .phrase .expression]
    · obtain ⟨op, hbody⟩ := hbinary
      simp only [Rule.rank, hhead, hbody] at hrank
      simp only [Rule.parts, hhead, hbody] at hparts
      -- The three parts are the left operand, the operator's word and the right operand.
      cases hparts with
      | @cons _ _ _ left _ t1 _ hleft hparts =>
        cases hparts with
        | cons hword hparts =>
          cases hword with
          | word w =>
            cases hparts with
            | @cons _ _ _ right _ t2 _ hright hparts =>
              cases hparts
              refine .inr ⟨left, w, right, ?_, ⟨n, r, hr, hhead, hbody⟩, hrank, ⟨t1, hleft⟩,
                ⟨t2, hright⟩⟩
              rw [List.append_nil]
              rfl
    · have htop : r.rank = topRank := by
        unfold Rule.rank
        split
        · next op _ hbody => exact absurd ⟨op, hbody⟩ hbinary
        · rfl
      left
      exact .of_rule hr hhead (Nat.le_of_eq htop.symm) hparts

/-- One more operator and a tight operand on the right of an operand: the operator goes to the right
operand of every operator that binds less tightly. -/
theorem Operand.extend (hop : IsBinary w.kind) (hright : Operand topRank right)
    {rank : Nat} (h : Operand rank ws) (hrank : rank ≤ w.kind.rank) :
    Operand rank (ws ++ w :: right) := by
  induction hn : ws.length using Nat.strongRecOn generalizing ws rank with
  | ind n ih =>
    have hlt := w.kind.rank_lt
    rcases h.cases with htop | ⟨left, v, mid, rfl, hv, hle, hl, hm⟩
    · exact .binary hop hrank (htop.weaken (Nat.le_of_lt hlt)) (hright.weaken hlt)
    · rcases Nat.lt_or_ge v.kind.rank w.kind.rank with hlow | hhigh
      · have hmid : Operand (v.kind.rank + 1) (mid ++ w :: right) := by
          refine ih mid.length ?_ hm hlow rfl
          simp only [← hn, List.length_append, List.length_cons]
          omega
        rw [List.append_assoc]
        exact .binary hv hle hl hmid
      · have hall : Operand w.kind.rank (left ++ v :: mid) := .binary hv hhigh hl hm
        exact .binary hop hrank hall (hright.weaken hlt)

/-- An operator between two operands, whatever binds them, makes an operand. -/
theorem Operand.join (hop : IsBinary w.kind) (hleft : Operand 0 left) (hright : Operand 0 right) :
    Operand 0 (left ++ w :: right) := by
  induction hn : right.length using Nat.strongRecOn generalizing left right w with
  | ind n ih =>
    rcases hright.cases with htop | ⟨l, v, r, rfl, hv, _, hl, hr⟩
    · exact .extend hop htop hleft (Nat.zero_le _)
    · simp only [List.length_append, List.length_cons] at hn
      have hfirst := ih l.length (by omega) hop hleft (hl.weaken (Nat.zero_le _)) rfl
      have hboth := ih r.length (by omega) hv hfirst (hr.weaken (Nat.zero_le _)) rfl
      rwa [List.append_assoc] at hboth

theorem Operand.negate (hop : IsUnary w.kind) (h : Operand 0 ws) : Operand 0 (w :: ws) := by
  induction hn : ws.length using Nat.strongRecOn generalizing ws with
  | ind n ih =>
    rcases h.cases with htop | ⟨l, v, r, rfl, hv, _, hl, hr⟩
    · exact (htop.unary hop).weaken (Nat.zero_le _)
    · simp only [List.length_append, List.length_cons] at hn
      have hfirst := ih l.length (by omega) (hl.weaken (Nat.zero_le _)) rfl
      exact .join hv hfirst (hr.weaken (Nat.zero_le _))

/-! ## Every derivation can be ranked -/

theorem exists_ranked_of_parts {n : Nat} {r : Rule} (hr : rules[n]? = some r)
    (h : RankedAll (r.body.map fun x => (x, x.need)) ws ts) :
    ∃ t, Ranked (Symbol.phrase r.head).need (.phrase r.head) ws t := by
  have hneed : (Symbol.phrase r.head).need ≤ topRank := by
    unfold Symbol.need
    split <;> decide
  by_cases hbinary : r.head = .expression ∧
      ∃ op, r.body = [.phrase .expression, .token op, .phrase .expression]
  · obtain ⟨hhead, op, hbody⟩ := hbinary
    rw [hbody] at h
    rw [hhead]
    cases h with
    | @cons _ _ _ left _ t1 _ hleft h =>
      cases h with
      | cons hword h =>
        cases hword with
        | word w =>
          cases h with
          | @cons _ _ _ right _ t2 _ hright h =>
            cases h
            rw [List.append_nil]
            exact Operand.join ⟨n, r, hr, hhead, hbody⟩ ⟨t1, hleft⟩ ⟨t2, hright⟩
  by_cases hunary : r.head = .expression ∧ ∃ op, r.body = [.token op, .phrase .expression]
  · obtain ⟨hhead, op, hbody⟩ := hunary
    rw [hbody] at h
    rw [hhead]
    cases h with
    | cons hword h =>
      cases hword with
      | word w =>
        cases h with
        | @cons _ _ _ operand _ t _ hoperand h =>
          cases h
          rw [List.append_nil]
          exact Operand.negate ⟨n, r, hr, hhead, hbody⟩ ⟨t, hoperand⟩
  · -- No other rule limits its parts more than their symbols do.
    have hrank : r.rank = topRank := by
      unfold Rule.rank
      split
      · next op hhead hbody => exact absurd ⟨hhead, op, hbody⟩ hbinary
      · rfl
    have hparts : r.parts = r.body.map fun x => (x, x.need) := by
      unfold Rule.parts
      split
      · next op hhead hbody => exact absurd ⟨hhead, op, hbody⟩ hbinary
      · next op hhead hbody => exact absurd ⟨hhead, op, hbody⟩ hunary
      · rfl
    exact ⟨_, .rule hr (hrank ▸ hneed) (hparts ▸ h)⟩

mutual

theorem Derives.ranked {x : Symbol} {ws : List Word} {t : Tree} (h : Derives x ws t) :
    ∃ t', Ranked x.need x ws t' :=
  match h with
  | .word w => ⟨_, .word w⟩
  | .rule hr hparts => by
    obtain ⟨ts', hall⟩ := hparts.ranked
    exact exists_ranked_of_parts hr hall

theorem DerivesAll.ranked {ws : List Word} {ts : List Tree}
    (h : DerivesAll xs ws ts) : ∃ ts', RankedAll (xs.map fun x => (x, x.need)) ws ts' :=
  match h with
  | .nil => ⟨_, .nil⟩
  | .cons first rest => by
    obtain ⟨t', hfirst⟩ := first.ranked
    obtain ⟨ts', hrest⟩ := rest.ranked
    exact ⟨t' :: ts', .cons hfirst hrest⟩

end

end LangKit.Script
