import LangKit.Grammar.Check
import LangKit.Lr.Lookahead
import LangKit.Proofs.Grammar.Declared
import LangKit.Proofs.Grammar.Filling
import Mathlib.Logic.Relation

/-!
# First symbols and empty texts

A rule rewrites an occurrence of its left side (`Derives`). The sets of first symbols are sound,
since a symbol gets into a set only if a derivation shows it, and complete, since sets to which no
rule adds anything do not lose a first symbol when a derivation is read backwards
(`starts_of_derives`). The nonterminals that derive the empty text are found by rounds of their own,
with the same result.

All this is so exactly if no symbol is both a terminal and a nonterminal (`firstExact_iff`). A
quoted character can take the name of a nonterminal after that was used: then the set of the
terminal is lost.
-/

namespace LangKit.Grammar

variable {p : Production} {known names set : List String} {first s' s : SymbolSets} {g' g : Grammar}

inductive Rewrites (g : Grammar) : List String → List String → Prop
  | rule {p : Production} (hp : p ∈ g.rules) (before after : List String) :
      Rewrites g (before ++ p.head :: after) (before ++ (p.body ++ after))

abbrev Derives (g : Grammar) : List String → List String → Prop :=
  Relation.ReflTransGen g.Rewrites

def isSymbol (g : Grammar) (x : String) : Bool :=
  g.isTerminal x || g.isNonterminal x || x == endMark

/-- A set has the terminals that a text derived from the symbols can start with, and the empty mark
if they derive the empty text. -/
def ExactFor (g : Grammar) (symbols set : List String) : Prop :=
  (∀ a, g.isTerminal a → (a ∈ set ↔ ∃ rest, g.Derives symbols (a :: rest))) ∧
    (emptyMark ∈ set ↔ g.Derives symbols [])

/-- First symbols are computed exactly, for symbols and for sequences, and the nonterminals that are
found to be empty are those with the empty mark. -/
def FirstExact (g : Grammar) : Prop :=
  ∃ first, g.computeFirst = (.ok (), { g with first }) ∧
    (∀ x, g.isSymbol x → ∃ set, Assoc.get? x first = some set ∧ g.ExactFor [x] set) ∧
    (∀ symbols, (∀ x ∈ symbols, g.isSymbol x) → ∃ set, firstOf first symbols = .ok set ∧
      g.ExactFor symbols set) ∧
    ∀ x, x ∈ Lr.nullable g ↔ g.isNonterminal x ∧ emptyMark ∈ members first x

section

variable {sets : String → List String} {a x : String} {symbols symbols' : List String}

/-! ## Derivations -/

theorem Rewrites.append (h : g.Rewrites symbols symbols') (before after : List String) :
    g.Rewrites (before ++ (symbols ++ after)) (before ++ (symbols' ++ after)) := by
  obtain ⟨hp, before', after'⟩ := h
  simpa using Rewrites.rule hp (before ++ before') (after' ++ after)

theorem Derives.append (h : g.Derives symbols symbols') (before after : List String) :
    g.Derives (before ++ (symbols ++ after)) (before ++ (symbols' ++ after)) :=
  h.lift _ fun _ _ hr => hr.append before after

theorem derives_rule (hp : p ∈ g.rules) : g.Derives [p.head] p.body := by
  simpa using Relation.ReflTransGen.single (Rewrites.rule hp [] [])

/-- What a derivation shows about a member of a set of first symbols. -/
def Begins (g : Grammar) (symbols : List String) (a : String) : Prop :=
  if a = emptyMark then g.Derives symbols [] else ∃ rest, g.Derives symbols (a :: rest)

theorem Begins.of_derives (h : g.Begins symbols' a) (hd : g.Derives symbols symbols') :
    g.Begins symbols a := by
  rw [Begins] at *
  split
  · rename_i ha
    rw [if_pos ha] at h
    exact hd.trans h
  · rename_i ha
    rw [if_neg ha] at h
    obtain ⟨rest, h⟩ := h
    exact ⟨rest, hd.trans h⟩

theorem starts_singleton : Starts sets a [x] ↔ a ∈ sets x := by
  simp only [Starts]
  by_cases ha : a = emptyMark <;> simp [ha]

theorem begins_of_starts (hsets : ∀ x ∈ symbols, ∀ a ∈ sets x, g.Begins [x] a)
    (h : Starts sets a symbols) :
    g.Begins symbols a := by
  induction symbols with
  | nil =>
    have ha : a = emptyMark := h
    rw [Begins, if_pos ha]
  | cons x rest ih =>
    obtain ⟨hx, hrest⟩ := List.forall_mem_cons.1 hsets
    rcases h with ⟨ha, hne⟩ | ⟨hempty, h⟩
    · have hb := hx a ha
      rw [Begins, if_neg hne] at hb ⊢
      obtain ⟨more, hd⟩ := hb
      exact ⟨more ++ rest, hd.append [] rest⟩
    · have hd : g.Derives [x] [] := hx emptyMark hempty
      exact (ih hrest h).of_derives (hd.append [] rest)

theorem starts_of_derives (hsets : ∀ p ∈ g.rules, ∀ a, Starts sets a p.body → a ∈ sets p.head)
    (hd : g.Derives symbols symbols') (h : Starts sets a symbols') : Starts sets a symbols := by
  induction hd with
  | refl => exact h
  | tail _ hr ih =>
    refine ih ?_
    obtain ⟨hp, before, after⟩ := hr
    simp only [starts_append, Starts] at h ⊢
    have hhead := hsets _ hp
    rcases h with h | ⟨hb, ⟨h, hne⟩ | ⟨hempty, h⟩⟩
    · exact .inl h
    · exact .inr ⟨hb, .inl ⟨hhead a h, hne⟩⟩
    · exact .inr ⟨hb, .inr ⟨hhead emptyMark hempty, h⟩⟩

/-! ## Empty texts -/

/-- A round keeps the nonterminals that are known, and adds those that a rule shows to be empty. -/
theorem nullableRound_spec (rules : List Production) (known : List String) :
    known <:+ Lr.nullableRound rules known ∧
    (∀ P : String → Prop, (∀ x ∈ known, P x) → (∀ p ∈ rules, (∀ x ∈ p.body, P x) → P p.head) →
      ∀ x ∈ Lr.nullableRound rules known, P x) ∧
    (known.Nodup → (Lr.nullableRound rules known).Nodup) ∧
    (Lr.nullableRound rules known = known → ∀ p ∈ rules, (∀ x ∈ p.body, x ∈ known) →
      p.head ∈ known) := by
  induction rules generalizing known with
  | nil => exact ⟨List.suffix_refl known, fun _ h _ => h, id, fun _ => nofun⟩
  | cons p rest ih =>
    have hcons : Lr.nullableRound (p :: rest) known = Lr.nullableRound rest
      (if p.body.all known.contains && !known.contains p.head then p.head :: known else known) :=
        rfl
    rw [hcons]
    split
    · rename_i hadd
      simp only [Bool.and_eq_true, List.all_eq_true, List.contains_iff_mem,
        Bool.not_eq_true'] at hadd
      have hnew : p.head ∉ known := fun h => by simp [h] at hadd
      obtain ⟨hsuffix, hall, hnodup, -⟩ := ih (p.head :: known)
      refine ⟨(List.suffix_cons _ _).trans hsuffix,
        fun P hP hrules => ?_, fun h => hnodup (List.nodup_cons.2 ⟨hnew, h⟩), fun h => ?_⟩
      · obtain ⟨hp, hrest⟩ := List.forall_mem_cons.1 hrules
        exact hall P (List.forall_mem_cons.2 ⟨hp fun x hx => hP x (hadd.1 x hx), hP⟩) hrest
      · have hlength := hsuffix.length_le
        rw [h, List.length_cons] at hlength
        omega
    · rename_i hadd
      obtain ⟨hsuffix, hall, hnodup, hdone⟩ := ih known
      refine ⟨hsuffix, fun P hP hrules => hall P hP (List.forall_mem_cons.1 hrules).2, hnodup,
        fun h => List.forall_mem_cons.2 ⟨fun hbody => ?_, hdone h⟩⟩
      by_contra hnew
      refine hadd ?_
      simpa [hnew] using hbody

theorem derives_nil (h : ∀ x ∈ symbols, g.Derives [x] []) : g.Derives symbols [] := by
  induction symbols with
  | nil => exact .refl
  | cons x rest ih =>
    obtain ⟨hx, hrest⟩ := List.forall_mem_cons.1 h
    exact Relation.ReflTransGen.trans (Derives.append hx [] rest) (ih hrest)

/-- The names that are found are different left sides of rules, so the rounds do not run out before
one of them adds nothing. -/
theorem nullableRounds_spec (fuel : Nat) (hnodup : known.Nodup)
    (hfuel : g.rules.size < fuel + known.length)
    (hknown : ∀ x ∈ known, g.Derives [x] [] ∧ x ∈ g.rules.toList.map (·.head)) :
    let found := Lr.nullableRounds g.rules.toList fuel known
    (∀ x ∈ found, g.Derives [x] []) ∧ ∀ p ∈ g.rules, (∀ x ∈ p.body, x ∈ found) →
      p.head ∈ found := by
  induction fuel generalizing known with
  | zero =>
    have hle := (hnodup.subperm fun x hx => (hknown x hx).2).length_le
    simp only [List.length_map, Array.length_toList] at hle
    omega
  | succ fuel ih =>
    obtain ⟨hsuffix, hall, hnodup', hdone⟩ := nullableRound_spec g.rules.toList known
    simp only [Lr.nullableRounds]
    split
    · rename_i hsame
      have heq := hsuffix.eq_of_length (eq_of_beq hsame).symm
      exact ⟨fun x hx => (hknown x hx).1, fun p hp => hdone heq.symm p (Array.mem_toList_iff.2 hp)⟩
    · rename_i hmore
      have hlength := Nat.lt_of_le_of_ne hsuffix.length_le fun h => hmore (beq_iff_eq.2 h.symm)
      refine ih (hnodup' hnodup) (by omega)
        (hall _ hknown fun p hp hbody => ⟨?_, List.mem_map_of_mem hp⟩)
      exact (derives_rule (Array.mem_toList_iff.1 hp)).trans
        (derives_nil fun x hx => (hbody x hx).1)

theorem mem_nullable : x ∈ Lr.nullable g ↔ g.Derives [x] [] := by
  obtain ⟨hsound, hclosed⟩ :=
    nullableRounds_spec (g := g) (g.rules.size + 1) List.nodup_nil (by simp) nofun
  refine ⟨hsound x, fun h => ?_⟩
  have hback : ∀ {l}, g.Derives l [] → ∀ y ∈ l, y ∈ Lr.nullable g := by
    intro l hl
    induction hl using Relation.ReflTransGen.head_induction_on with
    | refl => exact nofun
    | head hr _ ih =>
      obtain ⟨hp, before, after⟩ := hr
      simp only [List.forall_mem_append, List.forall_mem_cons] at ih ⊢
      exact ⟨ih.1, hclosed _ hp ih.2.1, ih.2.2⟩
  exact hback h x List.mem_cons_self

/-! ## Computing first symbols -/

theorem get?_firstStart : Assoc.get? x g.firstStart =
    if g.isNonterminal x then some [] else if g.isTerminal x ∨
        x = endMark then some [x] else none := by
  rw [firstStart, Assoc.putAll, List.foldl_append, ← Assoc.putAll, ← Assoc.putAll,
    Assoc.get?_putAll_map (fun _ => []), Assoc.get?_putAll_map (fun t => [t])]
  simp only [List.mem_append, List.mem_singleton, Assoc.mem_keys]
  rfl

theorem has_firstStart : Assoc.has x g.firstStart = g.isSymbol x := by
  rw [Assoc.has, get?_firstStart, isSymbol]
  cases g.isNonterminal x <;> cases g.isTerminal x <;> by_cases he : x = endMark <;> simp [he]

/-- What the set of first symbols of `x` may hold. -/
def MayStart (g : Grammar) (x a : String) : Prop :=
  (a = emptyMark ∨ g.isTerminal a ∨ a = endMark ∧ x = endMark) ∧
  (g.isNonterminal a → a = emptyMark) ∧ g.Begins [x] a

theorem MayStart.mem_all (h : g.MayStart x a) :
    a ∈ Assoc.keys g.terminals ++ [endMark, emptyMark] := by
  rw [List.mem_append, Assoc.mem_keys]
  rcases h.1 with rfl | ht | ⟨rfl, -⟩
  · exact .inr (by simp)
  · exact .inl ht
  · exact .inr (by simp)

abbrev FirstSoFar (g : Grammar) (s : SymbolSets) : Prop :=
  Filled g.firstStart (Assoc.keys g.nonterminals) g.MayStart s

theorem Filled.mayStart (hs : g.FirstSoFar s) (hmark : g.isTerminal emptyMark = false)
    (hx : g.isSymbol x) (ha : a ∈ members s x) : g.MayStart x a := by
  by_cases hn : g.isNonterminal x
  · exact hs.sound x (Assoc.mem_keys.2 hn) a ha
  · have hx' : g.isTerminal x ∨ x = endMark := by simpa [isSymbol, hn] using hx
    rw [hs.fixed x (mt Assoc.mem_keys.1 hn), members, Assoc.getD, get?_firstStart,
      if_neg hn, if_pos hx', Option.getD_some, List.mem_singleton] at ha
    subst ha
    have hne : a ≠ emptyMark := by
      rintro rfl
      rcases hx' with ht | he
      · rw [hmark] at ht
        cases ht
      · exact absurd he (by decide)
    refine ⟨?_, fun h => absurd h hn, ?_⟩
    · exact .inr (hx'.imp_right fun he => ⟨he, he⟩)
    · rw [Begins, if_neg hne]
      exact ⟨[], .refl⟩

def Has (s : SymbolSets) (x : String) (rules : List Production) : Prop :=
  ∀ p ∈ rules, ∀ a, Starts (members s) a p.body → a ∈ members s x

theorem Filled.own_of_starts (hs : g.FirstSoFar s) (hmark : g.isTerminal emptyMark = false)
    (hsymbols : ∀ x ∈ symbols, g.isSymbol x ∧ x ≠ endMark) (h : Starts (members s) a symbols) :
    (a = emptyMark ∨ g.isTerminal a) ∧ (g.isNonterminal a → a = emptyMark) := by
  induction symbols with
  | nil =>
    obtain rfl : a = emptyMark := h
    exact ⟨.inl rfl, fun _ => rfl⟩
  | cons x rest ih =>
    obtain ⟨⟨hx, hne⟩, hrest⟩ := List.forall_mem_cons.1 hsymbols
    rcases h with ⟨ha, -⟩ | ⟨-, h⟩
    · obtain ⟨hown, hname, -⟩ := hs.mayStart hmark hx ha
      exact ⟨hown.imp_right fun h => h.resolve_right fun he => hne he.2, hname⟩
    · exact ih hrest h

variable (hg : g.Regular) (hmark : g.isTerminal emptyMark = false)
include hg

theorem isSymbol_of_mem_body (hp : p ∈ g.rules) (hx : x ∈ p.body) : g.isSymbol x ∧ x ≠ endMark := by
  obtain ⟨h, hne⟩ := hg.body p hp x hx
  refine ⟨?_, hne⟩
  rcases h with h | h <;> simp [isSymbol, h]

include hmark

theorem Filled.mayStart_of_starts (hs : g.FirstSoFar s) (hp : p ∈ g.rules)
    (h : Starts (members s) a p.body) :
    g.MayStart p.head a := by
  have hbody := fun y hy => isSymbol_of_mem_body (x := y) hg hp hy
  have hb : g.Begins p.body a :=
    begins_of_starts (fun y hy a ha => (hs.mayStart hmark (hbody y hy).1 ha).2.2) h
  obtain ⟨hown, hname⟩ := hs.own_of_starts hmark hbody h
  exact ⟨hown.imp_right .inl, hname, hb.of_derives (derives_rule hp)⟩

theorem completes_firstOfRules (hx : g.isNonterminal x) {rules : List Production}
    (hrules : ∀ p ∈ rules, p ∈ g.rules ∧ p.head = x) :
    Completes (Assoc.keys g.nonterminals) g.FirstSoFar (Has · x rules) (firstOfRules x rules) := by
  induction rules with
  | nil => exact .pure_false fun _ _ => nofun
  | cons p rest ih =>
    intro s hs
    obtain ⟨⟨hp, rfl⟩, hrest⟩ := List.forall_mem_cons.1 hrules
    have hbody : ∀ y ∈ p.body, Assoc.has y s := fun y hy =>
      (hs.keys y).trans (has_firstStart.trans (isSymbol_of_mem_body hg hp hy).1)
    obtain ⟨more, hrun, hmore⟩ := currentFirst_eq hbody
    have hin : Assoc.has p.head g.firstStart := has_firstStart.trans (by simp [isSymbol, hx])
    have hadd := hs.extend (Assoc.mem_keys.2 hx) hin more
      fun a ha => hs.mayStart_of_starts hg hmark hp ((hmore a).1 ha)
    refine ((hadd.seq (ih hrest)).congr (by rw [firstOfRules, bind_of_ok hrun])).mono fun h => ?_
    exact List.forall_mem_cons.2 ⟨fun a ha => h.1 a ((hmore a).2 ha), h.2⟩

theorem completes_firstRound (hnames : ∀ x ∈ names, g.isNonterminal x ∧ g.hasRule x) :
    Completes (Assoc.keys g.nonterminals) g.FirstSoFar (fun s => ∀ x ∈ names, Has s x (g.rulesOf x))
      (firstRound g names) := by
  induction names with
  | nil => exact .pure_false fun _ _ => nofun
  | cons x rest ih =>
    intro s hs
    obtain ⟨⟨hx, hrule⟩, hrest⟩ := List.forall_mem_cons.1 hnames
    have hone := completes_firstOfRules hg hmark hx (fun p hp => hg.mem_rulesOf.1 hp) s hs
    refine ((hone.seq (ih hrest)).congr ?_).mono fun h => List.forall_mem_cons.2 h
    rw [firstRound, hrule]
    rfl

theorem exists_computeFirst (hrules : ∀ x, g.isNonterminal x → g.hasRule x) :
    ∃ first, g.computeFirst = (.ok (), { g with first }) ∧ g.FirstSoFar first ∧
      ∀ p ∈ g.rules, ∀ a, Starts (members first) a p.body → a ∈ members first p.head := by
  have hstart : g.FirstSoFar g.firstStart := by
    have hnone : ∀ x ∈ Assoc.keys g.nonterminals, members g.firstStart x = [] := fun x hx => by
      rw [members, Assoc.getD, get?_firstStart,
        if_pos (show g.isNonterminal x from Assoc.mem_keys.1 hx), Option.getD_some]
    refine ⟨fun _ => rfl, fun _ _ => rfl, fun _ => List.Subset.refl _,
        fun x hx => ?_, fun x hx => ?_⟩ <;>
      rw [hnone x hx]
    · exact List.nodup_nil
    · exact List.forall_mem_nil _
  obtain ⟨first, hrun, hfilled, hdone⟩ := rounds_complete g.roundLimit
    (completes_firstRound hg hmark
    fun x hx => ⟨Assoc.mem_keys.1 hx, hrules x (Assoc.mem_keys.1 hx)⟩)
      (fun s hs => hs.weight_lt fun _ _ h => h.mem_all) hstart (Nat.le_add_right _ _)
  refine ⟨first, ?_, hfilled, fun p hp a ha => ?_⟩
  · rw [computeFirst, hg.blank.1]
    simp only [List.isEmpty_nil, Bool.not_true, Bool.false_eq_true, if_false, hrun]
  · exact hdone p.head (Assoc.mem_keys.2 (hg.head p hp).1) p (hg.mem_rulesOf.2 ⟨hp, rfl⟩) a ha

omit hg in
theorem exactFor_of_starts (hfirst : g.FirstSoFar first)
    (hclosed : ∀ p ∈ g.rules, ∀ a, Starts (members first) a p.body → a ∈ members first p.head)
    (hboth : ∀ x, g.isTerminal x → ¬ g.isNonterminal x) (hsymbols : ∀ x ∈ symbols, g.isSymbol x)
    (hset : ∀ a, a ∈ set ↔ Starts (members first) a symbols) : g.ExactFor symbols set := by
  have hbegins : ∀ a, Starts (members first) a symbols → g.Begins symbols a := fun a =>
    begins_of_starts fun x hx a ha => (hfirst.mayStart hmark (hsymbols x hx) ha).2.2
  refine ⟨fun a ha => ?_, ?_⟩
  · have hne : a ≠ emptyMark := by
      rintro rfl
      rw [hmark] at ha
      cases ha
    rw [hset]
    refine ⟨fun h => ?_, ?_⟩
    · have hb := hbegins a h
      rwa [Begins, if_neg hne] at hb
    · rintro ⟨rest, hd⟩
      refine starts_of_derives hclosed hd (.inl ⟨?_, hne⟩)
      rw [hfirst.fixed a (mt Assoc.mem_keys.1 (hboth a ha)), members, Assoc.getD, get?_firstStart,
        if_neg (hboth a ha), if_pos (.inl ha)]
      exact List.mem_singleton_self a
  · rw [hset]
    exact ⟨hbegins emptyMark, fun hd => starts_of_derives hclosed hd rfl⟩

omit hmark in
theorem isNonterminal_of_derives_nil (h : g.Derives [x] []) : g.isNonterminal x := by
  rcases Relation.ReflTransGen.cases_head h with h | ⟨l, hr, -⟩
  · cases h
  · generalize hl : [x] = l' at hr
    obtain @⟨p, hp, before, after⟩ := hr
    have hmem : p.head ∈ before ++ p.head :: after :=
      List.mem_append_right before List.mem_cons_self
    rw [← hl, List.mem_singleton] at hmem
    exact hmem ▸ (hg.head _ hp).1

omit hg hmark in
theorem hasRule_of_firstRound (h : firstRound g names s = (.ok b, s')) :
    ∀ x ∈ names, g.hasRule x := by
  induction names generalizing s s' b with
  | nil => exact nofun
  | cons x rest ih =>
    cases hx : g.hasRule x with
    | false =>
      rw [firstRound, hx] at h
      cases h
    | true =>
      rw [firstRound, hx] at h
      obtain ⟨_, _, -, h⟩ := bind_eq_ok.1 h
      obtain ⟨_, _, hrest, -⟩ := bind_eq_ok.1 h
      exact List.forall_mem_cons.2 ⟨hx, ih hrest⟩

omit hmark in
theorem hasRule_of_computeFirst (h : g.computeFirst = (.ok (), g')) :
    ∀ x, g.isNonterminal x → g.hasRule x := by
  intro x hx
  rcases hrun : rounds (firstRound g (Assoc.keys g.nonterminals)) g.roundLimit
    g.firstStart with ⟨outcome, first⟩
  have hout : g.computeFirst.1 = outcome := by
    rw [computeFirst, hg.blank.1]
    exact congrArg Prod.fst hrun
  obtain rfl : outcome = .ok () := by rw [← hout, h]
  rw [roundLimit, rounds] at hrun
  obtain ⟨b, s, hround, -⟩ := bind_eq_ok.1 hrun
  exact hasRule_of_firstRound hround x (Assoc.mem_keys.2 hx)

end

theorem hasRule_of_undefinedSymbols (hg : g.Regular) (hdef : g.undefinedSymbols = [])
    (hboth : ∀ x, g.isTerminal x → ¬ g.isNonterminal x) (hx : g.isNonterminal x) : g.hasRule x := by
  obtain ⟨p, hp, rfl | hbody⟩ := hg.used x hx
  · exact hg.hasRule.2 ⟨p, hp, rfl⟩
  · have hall := List.flatMap_eq_nil_iff.1 hdef p
      (List.mem_append_right _ (Array.mem_toList_iff.2 hp))
    have hdefined := List.filter_eq_nil_iff.1 (List.map_eq_nil_iff.1 hall) x hbody
    have hterm : g.isTerminal x = false := Bool.eq_false_iff.2 fun h => hboth x h hx
    have herror : x ≠ errorMark := fun h => hboth x (h ▸ hg.error) hx
    simpa [isUndefined, hterm, herror] using hdefined

/-- First symbols are exact if no symbol is both a terminal and a nonterminal, and only then. -/
theorem firstExact_iff {g : Grammar} (hg : g.Built) (hdef : g.undefinedSymbols = [])
    (hmark : g.isTerminal emptyMark = false) :
    g.FirstExact ↔ ∀ x, g.isTerminal x → ¬ g.isNonterminal x := by
  have hg := hg.regular
  constructor
  · rintro ⟨first, hrun, hsets, -⟩ x hx hn
    obtain ⟨first', hrun', hfilled, -⟩ :=
      exists_computeFirst hg hmark (hasRule_of_computeFirst hg hrun)
    obtain rfl : first = first' := congrArg (fun r => r.2.first) (hrun.symm.trans hrun')
    obtain ⟨set, hset, hexact, -⟩ := hsets x (by simp [isSymbol, hx])
    have hmem : x ∈ members first x := by
      rw [members, Assoc.getD, hset]
      exact (hexact x hx).2 ⟨[], .refl⟩
    obtain rfl := (hfilled.mayStart hmark (by simp [isSymbol, hx]) hmem).2.1 hn
    rw [hmark] at hx
    cases hx
  · intro hboth
    obtain ⟨first, hrun, hfilled, hclosed⟩ := exists_computeFirst hg hmark
      fun x hx => hasRule_of_undefinedSymbols hg hdef hboth hx
    have hexact : ∀ symbols, (∀ x ∈ symbols, g.isSymbol x) → ∀ set,
        (∀ a, a ∈ set ↔ Starts (members first) a symbols) → g.ExactFor symbols set :=
      fun symbols hsymbols set hset => exactFor_of_starts hmark hfilled hclosed hboth hsymbols hset
    have hhas : ∀ x, g.isSymbol x → Assoc.has x first :=
      fun x hx => (hfilled.keys x).trans (has_firstStart.trans hx)
    refine ⟨first, hrun, fun x hx => ?_, fun symbols hsymbols => ?_, fun x => ?_⟩
    · obtain ⟨set, hset⟩ := Option.isSome_iff_exists.1 (hhas x hx)
      refine ⟨set, hset, hexact [x] (List.forall_mem_singleton.2 hx) set fun a => ?_⟩
      rw [starts_singleton, members, Assoc.getD, hset, Option.getD_some]
    · obtain ⟨set, hset, hmem⟩ := firstOf_eq fun x hx => hhas x (hsymbols x hx)
      exact ⟨set, hset, hexact symbols hsymbols set hmem⟩
    · rw [mem_nullable]
      have hempty := fun hx => (hexact [x] (List.forall_mem_singleton.2 hx) (members first x)
        fun a =>
        starts_singleton.symm).2
      refine ⟨fun h => ?_, fun h => (hempty (by simp [isSymbol, h.1])).1 h.2⟩
      have hx := isNonterminal_of_derives_nil hg h
      exact ⟨hx, (hempty (by simp [isSymbol, hx])).2 h⟩

def sums : Grammar :=
  (ofTokens ["PLUS", "NUMBER"]).withRules
    [("sum", ["sum", "PLUS", "item"]), ("sum", ["item"]), ("item", ["NUMBER"]), ("item", [])]

theorem firstExact_iff_sums :
    sums.undefinedSymbols = [] ∧ sums.isTerminal emptyMark = false ∧ sums.FirstExact := by
  have hdef : sums.undefinedSymbols = [] := by decide
  have hmark : sums.isTerminal emptyMark = false := by decide
  have hboth : ∀ x ∈ Assoc.keys sums.terminals, ¬ sums.isNonterminal x := by decide
  exact ⟨hdef, hmark, (firstExact_iff (.withRules (.tokens _) _) hdef hmark).2
    fun x hx => hboth x (Assoc.mem_keys.2 hx)⟩

/-- A quoted character takes the name of a nonterminal that has no rule. -/
def quotedLater : Grammar :=
  (ofTokens []).withRules [("b", ["a"]), ("c", ["'a'"])]

/-- No symbol counts as undefined, but the first symbols are not found. -/
theorem quotedLater_not_firstExact :
    quotedLater.undefinedSymbols = [] ∧ quotedLater.isTerminal emptyMark = false ∧
    quotedLater.isTerminal endMark = false ∧ ¬ quotedLater.FirstExact := by
  refine ⟨by decide, by decide, by decide, ?_⟩
  rintro ⟨first, hrun, -⟩
  have hfault : quotedLater.computeFirst.1.toOption = none := by decide
  rw [hrun] at hfault
  cases hfault

end LangKit.Grammar
