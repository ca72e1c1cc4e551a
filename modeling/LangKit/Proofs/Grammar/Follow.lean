import LangKit.Lr.Table
import LangKit.Proofs.Grammar.First

/-!
# Following symbols

`Follows g start` are the least sets with the end mark behind the start symbol, the first symbols of
what stands behind a nonterminal in a rule, and what follows the left side of a rule where its rest
is empty. The sets that are computed for a table are these, with the left side of the first rule as
the start symbol (`follow_of_firstRule`), whatever start symbol has been set.
-/

namespace LangKit.Grammar

variable {b x start : String} {p : Production}

inductive Follows (g : Grammar) (start : String) : String → String → Prop
  | finish : Follows g start start endMark
  | next {p : Production} (hp : p ∈ g.rules) {before after : List String} {b a : String}
      (hbody : p.body = before ++ b :: after) (hb : g.isNonterminal b) (ha : g.isTerminal a)
      (hafter : ∃ rest, g.Derives after (a :: rest)) : Follows g start b a
  | above {p : Production} (hp : p ∈ g.rules) {before after : List String} {b a : String}
      (hbody : p.body = before ++ b :: after) (hb : g.isNonterminal b) (hafter : g.Derives after [])
      (ha : Follows g start p.head a) : Follows g start b a

section

variable {g : Grammar} {first s : SymbolSets}

theorem Follows.mem_all (h : g.Follows start b a) :
    a ∈ Assoc.keys g.terminals ++ [endMark, emptyMark] := by
  induction h with
  | finish => simp
  | next _ _ _ ha _ => exact List.mem_append_left _ (Assoc.mem_keys.2 ha)
  | above _ _ _ _ _ ih => exact ih

def followSeed (g : Grammar) (start : String) : SymbolSets :=
  Assoc.put start [endMark] ((Assoc.keys g.nonterminals).map fun n => (n, []))

abbrev FollowSoFar (g : Grammar) (start : String) (s : SymbolSets) : Prop :=
  Filled (g.followSeed start) (Assoc.keys g.nonterminals) (g.Follows start) s

/-- A set holds what a place in a rule asks of it. -/
def Meets (g : Grammar) (head : String) (s : SymbolSets) (b : String) (after : List String) :
    Prop :=
  (∀ a, g.isTerminal a → (∃ rest, g.Derives after (a :: rest)) → a ∈ members s b) ∧
    (g.Derives after [] → ∀ a ∈ members s head, a ∈ members s b)

theorem has_followSeed (hx : g.isNonterminal x) : Assoc.has x (g.followSeed start) := by
  rw [followSeed, Assoc.has_put, Bool.or_eq_true, ← Assoc.mem_keys]
  refine .inr ?_
  rw [Assoc.keys, List.map_map]
  exact (List.map_id _).symm ▸ Assoc.mem_keys.2 hx

def FirstKnown (g : Grammar) (first : SymbolSets) : Prop :=
  ∀ symbols, (∀ x ∈ symbols, g.isSymbol x ∧ x ≠ endMark) → ∃ set, firstOf first symbols = .ok set ∧
    g.ExactFor symbols set ∧ ∀ a ∈ set, a = emptyMark ∨ g.isTerminal a

variable (hg : g.Regular) (hmark : g.isTerminal emptyMark = false) (hfirst : g.FirstKnown first)
include hg hmark hfirst

section

-- The work goes on with a grammar in which the first symbols are known.
variable {g' : Grammar} (hsame : g'.nonterminals = g.nonterminals) (hp : p ∈ g.rules)
include hsame
include hp

theorem advances_followOfPlace {before after : List String} (hbody : p.body = before ++ b :: after)
    (hs : g.FollowSoFar start s) : Advances (Assoc.keys g.nonterminals) (g.FollowSoFar start)
      (fun s => g.isNonterminal b → g.Meets p.head s b after)
      (followOfPlace g' first p.head b after) s := by
  have hnon : g'.isNonterminal b = g.isNonterminal b := by rw [isNonterminal, hsame, isNonterminal]
  rw [followOfPlace, hnon]
  split
  · rename_i hb
    obtain ⟨next, hnext, ⟨hterm, hempty⟩, hmem⟩ := hfirst after fun x hx =>
      isSymbol_of_mem_body hg hp (hbody ▸ List.mem_append_right _ (List.mem_cons_of_mem _ hx))
    have hin := Assoc.mem_keys.2 hb
    have hadd := hs.extend hin (has_followSeed hb) (next.filter (· != emptyMark)) fun a ha => by
      rw [List.mem_filter, bne_iff_ne] at ha
      have hta := (hmem a ha.1).resolve_left ha.2
      exact .next hp hbody hb hta ((hterm a hta).1 ha.1)
    have hends : (next.contains emptyMark || after.isEmpty) = true ↔ g.Derives after [] := by
      rw [Bool.or_eq_true, List.contains_iff_mem, hempty, List.isEmpty_iff, or_iff_left_of_imp]
      rintro rfl
      exact .refl
    have habove : Completes (Assoc.keys g.nonterminals) (g.FollowSoFar start)
        (fun s => g.Derives after [] → ∀ a ∈ members s p.head, a ∈ members s b)
        (extendAbove b p.head (next.contains emptyMark || after.isEmpty)) := by
      intro s hs
      have hhead := (hg.head p hp).1
      rw [extendAbove]
      split
      · rename_i hnull
        refine ((hs.extend hin (has_followSeed hb) (members s p.head) fun a ha =>
          .above hp hbody hb (hends.1 hnull) (hs.sound _ (Assoc.mem_keys.2 hhead) a ha)).congr
            ?_).mono fun h _ => h
        have hget : (get : Filling SymbolSets) s = (.ok s, s) := rfl
        rw [bind_of_ok hget, setOf_eq ((hs.keys _).trans (has_followSeed hhead))]
        rfl
      · rename_i hnull
        exact Completes.pure_false (fun _ _ hd => absurd (hends.2 hd) hnull) s hs
    have hrun : known (firstOf first after) s = (.ok next, s) := by rw [hnext]; rfl
    refine ((hadd.seq habove).congr (by rw [bind_of_ok hrun])).mono
      fun h _ => ⟨fun a ha hd => ?_, h.2⟩
    exact h.1 a (List.mem_filter.2 ⟨(hterm a ha).2 hd,
      bne_iff_ne.2 fun h => by simp [← h, ha] at hmark⟩)
  · rename_i hb
    exact Completes.pure_false (fun _ _ h => absurd h hb) s hs

theorem completes_followOfRule {before symbols : List String} (hbody : p.body = before ++ symbols) :
    Completes (Assoc.keys g.nonterminals) (g.FollowSoFar start)
      (fun s => ∀ front b after, symbols = front ++ b :: after → g.isNonterminal b →
      g.Meets p.head s b after) (followOfRule g' first p.head symbols) := by
  induction symbols generalizing before with
  | nil => exact .pure_false fun _ _ front b after h => by simp at h
  | cons b rest ih =>
    intro s hs
    have hone := advances_followOfPlace hg hmark hfirst hsame hp hbody hs
    refine (hone.seq (ih (show p.body = (before ++ [b]) ++ rest by simpa using hbody))).mono
      fun h front b' after hcons hb' => ?_
    cases front with
    | nil =>
      cases hcons
      exact h.1 hb'
    | cons f front =>
      cases hcons
      exact h.2 front b' after rfl hb'

omit hp in
theorem completes_followRound {rules : List Production} (hrules : ∀ p ∈ rules, p ∈ g.rules) :
    Completes (Assoc.keys g.nonterminals) (g.FollowSoFar start)
      (fun s => ∀ p ∈ rules, ∀ before b after, p.body = before ++ b :: after → g.isNonterminal b →
        g.Meets p.head s b after) (followRound g' first rules) := by
  induction rules with
  | nil => exact .pure_false fun _ _ => nofun
  | cons p rest ih =>
    intro s hs
    obtain ⟨hp, hrest⟩ := List.forall_mem_cons.1 hrules
    have hone := completes_followOfRule hg hmark hfirst hsame hp (List.nil_append p.body).symm s hs
    exact (hone.seq (ih hrest)).mono fun h => List.forall_mem_cons.2 h

end

omit hfirst in
/-- Once first symbols are computed exactly, the sets of following symbols are those of the first
rule's left side as the start symbol. -/
theorem exists_computeFollow (hfirst : g.FirstKnown first)
    (hsome : first ≠ []) (hp : g.rules[0]? = some p) :
    ∃ follow, ({ g with first } : Grammar).computeFollow none = (.ok (), { g with first, follow }) ∧
      ∀ b, g.isNonterminal b → ∃ set, Assoc.get? b follow = some set ∧ ∀ a, a ∈ set ↔
        g.Follows p.head b a := by
  have hhead := (hg.head p (Array.mem_of_getElem? hp)).1
  have hseed : ∀ x, members (g.followSeed p.head) x = if x = p.head then [endMark] else [] := by
    intro x
    have hblank : Assoc.getD x ((Assoc.keys g.nonterminals).map fun n => (n, ([] : List String)))
        [] = [] := by
      induction Assoc.keys g.nonterminals with
      | nil => rfl
      | cons n rest ih =>
        simp only [List.map_cons, Assoc.getD, Assoc.get?]
        split
        · rfl
        · exact ih
    rw [members, followSeed, Assoc.getD_put, hblank]
    simp only [beq_iff_eq]
  have hstart : g.FollowSoFar p.head (g.followSeed p.head) := by
    refine ⟨fun _ => rfl, fun _ _ => rfl, fun _ => List.Subset.refl _,
      fun x _ => ?_, fun x _ a ha => ?_⟩
    · rw [hseed]
      split
      · exact List.nodup_singleton _
      · exact List.nodup_nil
    · rw [hseed] at ha
      split at ha
      · rename_i hx
        subst hx
        rw [List.mem_singleton.1 ha]
        exact .finish
      · cases ha
  obtain ⟨follow, hfill, hfilled, hdone⟩ := rounds_complete g.roundLimit
    (completes_followRound hg hmark hfirst (show ({ g with first } : Grammar).nonterminals =
      g.nonterminals from rfl) (show ∀ p ∈ g.rules.toList, p ∈ g.rules from fun p hp =>
        Array.mem_toList_iff.1 hp))
    (fun s hs => hs.weight_lt fun _ _ h => h.mem_all) hstart (Nat.le_add_right _ _)
  refine ⟨follow, ?_, fun b hb => ?_⟩
  · have hknown : ({ g with first } : Grammar).computeFirst = (.ok (), { g with first }) := by
      rw [computeFirst, if_pos (by simpa using hsome)]
    rw [computeFollow, if_neg (by simp [hg.blank.2.1]), hknown]
    simp only [followStart, followStart.firstHead, hp]
    exact congrArg (fun r : Except Fault Unit × SymbolSets =>
      (r.1, ({ g with first, follow := r.2 } : Grammar))) hfill
  · obtain ⟨set, hset⟩ := Option.isSome_iff_exists.1 ((hfilled.keys b).trans (has_followSeed hb))
    have hmem : members follow b = set := by rw [members, Assoc.getD, hset, Option.getD_some]
    refine ⟨set, hset, fun a => ⟨fun ha => hfilled.sound b (Assoc.mem_keys.2 hb) a (hmem ▸ ha),
      fun h => hmem ▸ ?_⟩⟩
    clear hset hmem hb
    induction h with
    | finish => exact hfilled.grown _ (by rw [hseed, if_pos rfl]; exact List.mem_singleton_self _)
    | next hp hbody hb ha hd => exact (hdone _ (Array.mem_toList_iff.2 hp) _ _ _ hbody hb).1 _ ha hd
    | above hp hbody hb hd _ ih =>
      exact (hdone _ (Array.mem_toList_iff.2 hp) _ _ _ hbody hb).2 hd _ ih

omit hg hfirst in
theorem firstKnown_of_closed (hboth : ∀ x, g.isTerminal x → ¬ g.isNonterminal x)
    (hsets : g.FirstSoFar first)
    (hclosed : ∀ p ∈ g.rules, ∀ a, Starts (members first) a p.body → a ∈ members first p.head) :
    g.FirstKnown first := by
  intro symbols hsymbols
  obtain ⟨set, hset, hmem⟩ :=
    firstOf_eq fun x hx => (hsets.keys x).trans (has_firstStart.trans (hsymbols x hx).1)
  refine ⟨set, hset, exactFor_of_starts hmark hsets hclosed hboth (fun x hx => (hsymbols x hx).1)
    hmem, fun a ha => ?_⟩
  exact (hsets.own_of_starts hmark hsymbols ((hmem a).1 ha)).1

end

def FollowExact (g : Grammar) (start : String) (follow : SymbolSets) : Prop :=
  ∀ b, g.isNonterminal b → ∃ set, Assoc.get? b follow = some set ∧ ∀ a, a ∈ set ↔
    g.Follows start b a

theorem buildRows_grammar (limit : Nat) (g : Grammar) (method : Lr.Method) :
    ∃ marks reduced, (Lr.buildRows limit g method).2 = { g with marks, reduced } := by
  rw [Lr.buildRows]
  split
  · exact ⟨_, _, rfl⟩
  · dsimp only
    split <;> exact ⟨_, _, rfl⟩

/-- The following symbols of a table are computed from the left side of the first rule as the start
symbol, and a table of simple lookaheads reduces on them. -/
theorem follow_of_firstRule {g g' : Grammar} {start : Option String}
    (hg : g.Built) (hstart : g.setStart start = .ok g')
    (hdef : g'.undefinedSymbols = []) (hmark : g'.isTerminal emptyMark = false)
    (hboth : ∀ x, g'.isTerminal x → ¬ g'.isNonterminal x) (limit : Nat) (method : Lr.Method) :
    ∃ p, g'.rules[0]? = some p ∧ g'.FollowExact p.head (Lr.buildTable limit g' method).2.follow ∧
      ∀ state l item, Lr.reduceOn (Lr.buildTable limit g' method).2 state .slr l item =
        setOf (Lr.buildTable limit g' method).2.follow (item.head g') := by
  have hreg := (hg.start hstart).regular
  obtain ⟨s, uses, hs, hg'⟩ := setStart_spec hstart
  have hrule : g'.startRule.isNone = false := by rw [hg']; rfl
  obtain ⟨p, hp⟩ : ∃ p, g'.rules[0]? = some p := by
    have hsome : g'.isNonterminal s := by
      rw [hg', isNonterminal, Assoc.has, Assoc.get?_put_self]; rfl
    obtain ⟨q, hq, -⟩ := hreg.used s hsome
    exact ⟨_, Array.getElem?_eq_getElem (Array.size_pos_of_mem hq)⟩
  obtain ⟨first, hfirst, hsets, hclosed⟩ := exists_computeFirst hreg hmark
    fun x hx => hasRule_of_undefinedSymbols hreg hdef hboth hx
  have hsome : first ≠ [] := by
    rintro rfl
    have hend : Assoc.has endMark ([] : SymbolSets) = true :=
      (hsets.keys endMark).trans (has_firstStart.trans (by simp [isSymbol]))
    cases hend
  obtain ⟨follow, hfollow, hexact⟩ :=
    exists_computeFollow hreg hmark (firstKnown_of_closed hmark hboth hsets hclosed) hsome hp
  obtain ⟨marks, reduced, hrows⟩ := buildRows_grammar limit { g' with first, follow } method
  have hbuild : (Lr.buildTable limit g' method).2 = { g' with first, follow, marks, reduced } := by
    simp only [Lr.buildTable, hrule, Bool.false_eq_true, if_false, hfirst, hfollow, hrows]
  rw [hbuild]
  refine ⟨p, hp, hexact, fun state l item => ?_⟩
  rw [Lr.reduceOn, setOf]
  rfl

theorem follow_of_firstRule_sums : sums.setStart (some "item") = .ok (sums.startingAt "item") ∧
    ∃ p, (sums.startingAt "item").rules[0]? = some p ∧
      (sums.startingAt "item").FollowExact p.head (Lr.buildTable 100 (sums.startingAt "item")
        .lalr).2.follow := by
  have hstart : sums.setStart (some "item") = .ok (sums.startingAt "item") := rfl
  have hboth : ∀ x ∈ Assoc.keys sums.terminals, ¬ (sums.startingAt "item").isNonterminal x := by
    decide
  obtain ⟨p, hp, hexact, -⟩ :=
    follow_of_firstRule (.withRules (.tokens _) _) hstart (by decide) (by decide)
      (fun x hx => hboth x (Assoc.mem_keys.2 hx)) 100 .lalr
  exact ⟨hstart, p, hp, hexact⟩

def lateStart : Grammar :=
  ((ofTokens ["Y", "Z"]).withRules [("x", ["Y"]), ("s", ["x", "Z"])]).startingAt "s"

/-- The end mark is not among what follows the start symbol. -/
theorem lateStart_not_followExact : lateStart.start = some "s" ∧ lateStart.undefinedSymbols = [] ∧
    lateStart.isTerminal emptyMark = false ∧
    ¬ lateStart.FollowExact "s" (Lr.buildTable 100 lateStart .slr).2.follow := by
  refine ⟨rfl, by decide, by decide, fun h => ?_⟩
  obtain ⟨set, hset, hmem⟩ := h "s" (by decide)
  have hend := (hmem endMark).2 .finish
  have hnone : Assoc.get? "s" (Lr.buildTable 100 lateStart .slr).2.follow = some [] := by
    decide +kernel
  rw [hnone] at hset
  cases hset
  cases hend

end LangKit.Grammar
