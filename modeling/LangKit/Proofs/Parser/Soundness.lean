import LangKit.Proofs.Parser.Outcome

/-!
# Soundness of the parser

`Derives symbol ws t` says that the words `ws` derive from a symbol by the rules of the grammar, and
that `t` is the value of the derivation tree. The frames of a parse stand for the words that have
been read (`Reads`): each frame for a block of them that derives from its symbol with its value, the
blocks in order and without a gap. Shifts and reductions keep this (`Move.reads`), and dropping a
word starts again with no frames, so whatever the parser returns derives from the words behind the
last one that was dropped: `parse_sound`.
-/

namespace LangKit.Script

variable {ws read : List Word} {parts fs : List Frame}

mutual

inductive Derives : Symbol → List Word → Tree → Prop
  | word (w : Word) : Derives (.token w.kind) [w] w.value.tree
  | rule {n : Nat} {r : Rule} {ws : List Word} {ts : List Tree} (rule : rules[n]? = some r)
      (parts : DerivesAll r.body ws ts) : Derives (.phrase r.head) ws (r.meaning ts)

/-- Words derive from a row of symbols, part by part. -/
inductive DerivesAll : List Symbol → List Word → List Tree → Prop
  | nil : DerivesAll [] [] []
  | cons {x : Symbol} {xs : List Symbol} {ws ws' : List Word} {t : Tree} {ts : List Tree}
      (first : Derives x ws t) (rest : DerivesAll xs ws' ts) :
      DerivesAll (x :: xs) (ws ++ ws') (t :: ts)

end

theorem DerivesAll.append (h : DerivesAll xs ws ts)
    (h' : DerivesAll ys ws' ts') : DerivesAll (xs ++ ys) (ws ++ ws') (ts ++ ts') := by
  induction xs generalizing ws ts with
  | nil =>
    cases h
    exact h'
  | cons x xs ih =>
    cases h with
    | cons first rest =>
      rw [List.append_assoc]
      exact .cons first (ih rest)

theorem DerivesAll.single (h : Derives x ws t) : DerivesAll [x] ws [t] := by
  have := DerivesAll.cons h .nil
  rwa [List.append_nil] at this

inductive Reads : List Frame → List Word → Prop
  | nil : Reads [] []
  | cons {f : Frame} {fs : List Frame} {ws ws' : List Word} (below : Reads fs ws)
      (top : Derives f.sort ws' f.value) : Reads (f :: fs) (ws ++ ws')

theorem Reads.split (h : Reads (parts ++ fs) ws) :
    ∃ ws1 ws2, ws = ws1 ++ ws2 ∧ Reads fs ws1 ∧
      DerivesAll (parts.reverse.map (·.sort)) ws2 (parts.reverse.map (·.value)) := by
  induction parts generalizing ws with
  | nil => exact ⟨ws, [], (List.append_nil ws).symm, h, .nil⟩
  | cons f parts ih =>
    cases h with
    | @cons _ _ ws ws' below top =>
      obtain ⟨ws1, ws2, rfl, hfs, hparts⟩ := ih below
      refine ⟨ws1, ws2 ++ ws', List.append_assoc .., hfs, ?_⟩
      simp only [List.reverse_cons, List.map_append, List.map_cons, List.map_nil]
      exact hparts.append (.single top)

theorem Path.sorts_of_reduction (hp : Path (parts ++ fs))
    (hr : rules[n]? = some r)
    (ha : tables.action (topState (parts ++ fs)) symbol = some (.reduce n))
    (hlen : parts.length = r.body.length) : parts.reverse.map (·.sort) = r.body := by
  obtain ⟨r', parts', below, -, hr', hsplit, hlen', hsorts, -⟩ := hp.reducible ha
  obtain rfl : r = r' := Option.some.inj (hr.symm.trans hr')
  obtain ⟨rfl, _⟩ := List.append_inj hsplit (hlen.trans hlen'.symm)
  exact hsorts

/-- Moves keep the words: what has been read and what is ahead stay the same row. -/
theorem Move.reads (hm : Move k k') (hp : Path k.frames) (hr : Reads k.frames read) :
    ∃ read', Reads k'.frames read' ∧ read' ++ k'.input = read ++ k.input := by
  cases hm with
  | @shift fs s w rest action =>
    exact ⟨read ++ [w], .cons hr (.word w), by simp⟩
  | @reduce parts fs ws n r s action rule length goto =>
    obtain ⟨ws1, ws2, rfl, hfs, hparts⟩ := hr.split
    rw [hp.sorts_of_reduction rule action length] at hparts
    exact ⟨ws1 ++ ws2, .cons hfs (.rule rule hparts), rfl⟩

/-- A tree that a parse returns derives from the last words of its input, and from all of them if no
word was dropped. -/
theorem Outcome.sound (h : Outcome k n (some t)) (hp : Path k.frames)
    (hr : Reads k.frames read) :
    ∃ ws, ws <:+ read ++ k.input ∧ Derives (.phrase .program) ws t ∧
      (n = 0 → ws = read ++ k.input) := by
  generalize hres : some t = result at h
  induction h generalizing read with
  | move hm _ ih =>
    obtain ⟨read', hr', heq⟩ := hm.reads hp hr
    obtain ⟨ws, hsuffix, hws⟩ := ih (hm.path hp) hr' hres
    exact ⟨ws, heq ▸ hsuffix, heq ▸ hws⟩
  | @accept f ha =>
    cases hres
    obtain ⟨f', hf', hsort, _⟩ := hp.accepting ha
    cases hf'
    cases hr with
    | @cons _ _ _ ws below top =>
      cases below
      rw [hsort] at top
      exact ⟨ws, by simp, top, by simp⟩
  | @drop fs w rest n result ha _ ih =>
    -- After a restart nothing is left of what was read before.
    obtain ⟨ws, hsuffix, hws, _⟩ := ih .nil .nil hres
    refine ⟨ws, ?_, hws, fun h => absurd h (by omega)⟩
    exact hsuffix.trans ((List.suffix_cons w rest).trans (List.suffix_append read (w :: rest)))
  | fail ha => cases hres

/-- What the parser returns is the value of a derivation tree of the last tokens of the text, of all
its tokens if the error handler was never called. -/
theorem parse_sound {text : String} {t : Tree} (hscan : (tokenRun text).fault = none)
    (h : (parse false false text).outcome = .ok (some t)) :
    ∃ ts, ts <:+ (tokenRun text).tokens ∧ Derives (.phrase .program) (ts.map Token.word) t ∧
      (errorCalls text = [] → ts = (tokenRun text).tokens) := by
  obtain ⟨n, result, hparse, hout, _, hcalls⟩ := parse_outcome hscan
  rw [hparse] at h
  cases h
  obtain ⟨ws, ⟨dropped, hdropped⟩, hderives, hall⟩ := hout.sound .nil .nil
  obtain ⟨front, ts, htokens, _, rfl⟩ := List.map_eq_append_iff.mp hdropped.symm
  refine ⟨ts, ⟨front, htokens.symm⟩, hderives, fun hnone => ?_⟩
  have hlength := congrArg List.length (hall (hcalls.mp hnone))
  simp only [List.length_map, List.nil_append, wordsOfText, htokens, List.length_append] at hlength
  have hfront : front = [] := List.length_eq_zero_iff.mp (by omega)
  rw [htokens, hfront]
  rfl

/-- A stray word before a program: what is returned derives from the tokens behind it. -/
theorem parse_sound_behind_word :
    ∃ t ts, (parse false false "x func f() { g(); }").outcome = .ok (some t) ∧
      ts <:+ (tokenRun "x func f() { g(); }").tokens ∧
      Derives (.phrase .program) (ts.map Token.word) t := by
  have hsome : ((parse false false "x func f() { g(); }").outcome.toOption.bind id).isSome =
      true := by
    decide +kernel
  cases ho : (parse false false "x func f() { g(); }").outcome with
  | error f => simp [ho, Except.toOption] at hsome
  | ok result =>
    cases result with
    | none => simp [ho, Except.toOption] at hsome
    | some t =>
      obtain ⟨ts, hsuffix, hderives, _⟩ := parse_sound (by decide +kernel) ho
      exact ⟨t, ts, rfl, hsuffix, hderives⟩

end LangKit.Script
