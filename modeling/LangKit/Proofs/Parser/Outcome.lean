import LangKit.Proofs.Parser.Items
import LangKit.Proofs.Parser.Lexemes

/-!
# Outcomes of a parse

`Outcome k n r` says how the parse of a stage ends: with the tree `r` or without one, after `n`
words for which there was no move. A word without a move drops all frames and is dropped itself.

`run_outcome` ties the outcome to the machine. Each step lowers `potential`, which is linear in the
words and frames, so the fuel that a parse is given is enough. The error handler is called at the
first word without a move at the latest, so it is never called exactly if there is no such word.
-/

namespace LangKit.Script

variable {k k' : Stage} {p q : Pose} {fs : List Frame} {events : List Event} {text : String}

/-! ## The length of a parse -/

/-- How many reductions by rules with a single part can follow one another from a phrase on. -/
def phraseRank : Phrase → Nat
  | .variable | .lambda => 3
  | .expression | .function => 2
  | .functions | .statement | .formal => 1
  | _ => 0

/-- How many reductions by rules with a single part can follow one another from a state on. -/
def stateRank (s : Nat) : Nat :=
  match (states[s]?.bind (·.reduction)).bind (rules[·]?) with
  | some r => if r.body.length == 1 then phraseRank r.head + 1 else 0
  | none => 0

theorem phraseRank_le (p : Phrase) : phraseRank p ≤ 3 := by
  cases p <;> decide

theorem stateRank_le (s : Nat) : stateRank s ≤ 4 := by
  unfold stateRank
  split
  · next r _ =>
    have := phraseRank_le r.head
    split <;> omega
  · omega

theorem stateRank_goto {s target : Nat} {p : Phrase} (h : tables.goto s (.phrase p) = some target) :
    stateRank target ≤ phraseRank p := by
  have hall : checkStates (fun _ st => st.gotos.all fun e => stateRank e.2 ≤ phraseRank e.1) =
      true := by
    decide +kernel
  obtain ⟨st, hs, hmem⟩ := exists_goto h
  simpa using List.all_eq_true.mp (of_checkStates hall hs) _ hmem

def potential (k : Stage) : Nat :=
  12 * k.input.length + 6 * k.frames.length + stateRank (topState k.frames)

theorem potential_move (hm : Move k k') : potential k' < potential k := by
  cases hm with
  | @shift fs s w rest action =>
    have := stateRank_le s
    simp only [potential, List.length_cons, Word.frame, topState]
    omega
  | @reduce parts fs ws n r s action rule length goto =>
    have hgoto := stateRank_goto goto
    have hle := phraseRank_le r.head
    simp only [potential, List.length_append, List.length_cons, length, Rule.frame]
    rcases Nat.lt_or_ge 1 r.body.length with hlen | hlen
    · simp only [topState]
      omega
    · have hone : r.body.length = 1 := by
        have := body_length_ne_zero rule
        omega
      have hrank : stateRank (topState (parts ++ fs)) = phraseRank r.head + 1 := by
        generalize ahead ws = symbol at action
        obtain ⟨st, hst, hdue⟩ := exists_due action
        cases hdue with
        | reduce hm =>
          simp only [stateRank, hst, Option.bind_some, hm, rule, hone, beq_self_eq_true, if_true]
      rw [hrank]
      simp only [topState]
      omega

/-! ## The outcome of a stage -/

/-- How the parse of a stage ends, and after how many words without a move. The end of the input
counts as a word here. -/
inductive Outcome : Stage → Nat → Option Tree → Prop
  | move {k k' : Stage} {n : Nat} {result : Option Tree} (move : Move k k')
      (later : Outcome k' n result) : Outcome k n result
  | accept {f : Frame} (action : tables.action f.state .endMark = some .accept) :
      Outcome ⟨[f], []⟩ 0 (some f.value)
  | drop {fs : List Frame} {w : Word} {rest : List Word} {n : Nat} {result : Option Tree}
      (action : tables.action (topState fs) (.token w.kind) = none)
      (later : Outcome ⟨[], rest⟩ n result) : Outcome ⟨fs, w :: rest⟩ (n + 1) result
  | fail {fs : List Frame} (action : tables.action (topState fs) .endMark = none) :
      Outcome ⟨fs, []⟩ 1 none

theorem Move.action_ne_none (hm : Move k k') :
    tables.action (topState k.frames) (ahead k.input) ≠ none := by
  cases hm with
  | shift action => simp [ahead, action]
  | reduce action => simp [action]

/-! ## The machine at a stage -/

/-- Does nothing follow the end of the text or a number that is too long? -/
def closing : List Event → Bool
  | [] => true
  | .token _ _ :: rest => closing rest
  | .illegal _ :: rest => closing rest
  | .overlong _ _ _ :: rest => rest.isEmpty
  | .done _ _ :: rest => rest.isEmpty

/-- A number that is too long is among the events. -/
def HasOverlong (events : List Event) (digits : Nat) : Prop :=
  ∃ line after, .overlong digits line after ∈ events

/-- All that a source prints in the end, as far as the scanner prints it. -/
def Source.eventual (s : Source) : String :=
  s.printed ++ reportOf s.events

/-- The words that come next, the first of them in hand. -/
inductive Faces (p : Pose) : List Word → Prop
  | token {t : Token} (hand : p.hand = .token t) : Faces p (t.word :: wordsOf p.world.events)
  | ended (hand : p.hand = .ended) (atEnd : p.world.events = []) : Faces p []

structure At (p : Pose) (k : Stage) : Prop where
  frames : p.frames = k.frames
  putBack : p.putBack = []
  closes : closing p.world.events = true
  words : (p.hand = .nothing ∧ wordsOf p.world.events = k.input) ∨ Faces p k.input

theorem HasOverlong.mono {digits : Nat} (h : HasOverlong events digits) (hs : events ⊆ events') :
    HasOverlong events' digits := by
  obtain ⟨line, after, hmem⟩ := h
  exact ⟨line, after, hs hmem⟩

theorem pullFrom_closing (events : List Event)
    (line pos : Nat) (printed : String) (h : closing events = true) :
    (∃ digits s, HasOverlong events digits ∧
      pullFrom line pos printed events = (.error (.overlongInteger digits), s)) ∨
    (∃ s, pullFrom line pos printed events = (.ok none, s) ∧ s.events = [] ∧
      eventTokens events = [] ∧
      s.printed = printed ++ reportOf events) ∨
    ∃ t s, pullFrom line pos printed events = (.ok (some t.entry), s) ∧
      eventTokens events = t :: eventTokens s.events ∧ closing s.events = true ∧ s.events ⊆ events ∧
      s.eventual = printed ++ reportOf events := by
  induction events generalizing line pos printed with
  | nil => exact .inr (.inl ⟨_, rfl, rfl, rfl, String.append_empty.symm⟩)
  | cons e rest ih =>
    cases e with
    | token t after => exact .inr (.inr ⟨t, _, rfl, rfl, h, List.subset_cons_self _ _, rfl⟩)
    | overlong digits line after => exact .inl ⟨digits, _, ⟨line, after, List.mem_cons_self⟩, rfl⟩
    | done line after =>
      obtain rfl : rest = [] := by simpa [closing] using h
      exact .inr (.inl ⟨_, rfl, rfl, rfl, String.append_empty.symm⟩)
    | illegal c =>
      have hreport : printed ++ illegalMessage c ++ "\n" ++ reportOf rest =
          printed ++ reportOf (.illegal c :: rest) := by
        simp only [reportOf, String.append_assoc]
      rcases ih line pos (printed ++ illegalMessage c ++ "\n") h with ⟨digits, s, hmem, hpull⟩ |
        ⟨s, hpull, hend, htokens, hprinted⟩ | ⟨t, s, hpull, htokens, hclosing, hsub, hprinted⟩
      · exact .inl ⟨digits, s, hmem.mono (List.subset_cons_self _ _), hpull⟩
      · exact .inr (.inl ⟨s, hpull, hend, htokens, hprinted.trans hreport⟩)
      · exact .inr (.inr ⟨t, s, hpull, htokens, hclosing, List.subset_cons_of_subset _ hsub,
          hprinted.trans hreport⟩)

/-- The next word is taken in hand, or the parse stops at a number that is too long. -/
theorem At.fills (h : At p k) :
    (∃ digits w, HasOverlong p.world.events digits ∧
      ∀ fuel, Runs (fuel + 1) p [] (.error (.overlongInteger digits)) w) ∨
    ∃ q, Fills p q ∧ At q k ∧ Faces q k.input ∧ q.errorOk = p.errorOk ∧
      q.world.events ⊆ p.world.events ∧
      q.world.eventual = p.world.eventual := by
  rcases h.words with ⟨hand, hwords⟩ | hfaces
  · rcases pullFrom_closing p.world.events p.world.line p.world.pos p.world.printed h.closes with
      ⟨digits, w, hmem, hpull⟩ | ⟨w, hpull, hend, htokens, hprinted⟩ | ⟨t, w, hpull, htokens,
        hclosing, hsub, hprinted⟩
    · exact .inl ⟨digits, w, hmem, fun _ => .stop hand h.putBack hpull⟩
    · have hfaces : Faces { p with hand := .ended, world := w } k.input := by
        rw [← hwords, wordsOf, htokens]
        exact .ended rfl hend
      refine .inr ⟨_, .ended hand h.putBack hpull hend, ⟨h.frames, h.putBack, ?_, .inr hfaces⟩,
        hfaces, rfl, ?_, ?_⟩
      · rw [hend]
        rfl
      · rw [hend]
        exact List.nil_subset _
      · rw [Source.eventual, hend, hprinted]
        exact String.append_empty
    · have hfaces : Faces { p with hand := .token t, world := w } k.input := by
        rw [← hwords, wordsOf, htokens]
        exact .token rfl
      exact .inr ⟨_, .token hand h.putBack hpull htokens,
        ⟨h.frames, h.putBack, hclosing, .inr hfaces⟩, hfaces, rfl, hsub, hprinted⟩
  · refine .inr ⟨p, .held fun hand => ?_, h, hfaces, rfl, List.Subset.refl _, rfl⟩
    generalize k.input = ws at hfaces
    cases hfaces with
    | token hand' | ended hand' => cases hand.symm.trans hand'

section

variable (h : At q k) (hfaces : Faces q k.input)

include h hfaces

theorem At.action_eq : q.action = tables.action (topState k.frames) (ahead k.input) := by
  rw [Pose.action, h.frames]
  generalize k.input = ws at hfaces
  cases hfaces with
  | token hand | ended hand =>
    rw [hand]
    rfl

/-- The error handler is called exactly if there is no move and the machine is not recovering. -/
theorem At.call?_eq_none (ha : tables.action (topState k.frames) (ahead k.input) ≠ none) :
    q.call? = none := by
  rw [← h.action_eq hfaces, ← Option.isSome_iff_ne_none, ← Option.not_isNone,
    Bool.not_eq_true'] at ha
  rw [Pose.call?, ha]
  rfl

theorem At.call?_ne_nil (ha : tables.action (topState k.frames) (ahead k.input) = none)
    (hok : q.errorOk = true) :
    q.call?.toList ≠ [] := by
  rw [← h.action_eq hfaces] at ha
  simp [Pose.call?, ha, Pose.reports, hok]

theorem At.turn (hm : Move k k') :
    ∃ p, Change q p ∧ At p k' ∧ p.errorOk = q.errorOk ∧ p.world = q.world := by
  have haction := h.action_eq hfaces
  cases hm with
  | shift action =>
    cases hfaces with
    | token hand =>
      refine ⟨_, .shift hand (haction.trans action), ⟨?_, h.putBack, h.closes, .inl ⟨rfl, rfl⟩⟩,
        rfl, rfl⟩
      rw [h.frames]
  | reduce action rule length goto =>
    refine ⟨_, .reduce h.frames (haction.trans action) rule length goto,
      ⟨rfl, h.putBack, h.closes, .inr ?_⟩, rfl, rfl⟩
    cases hfaces with
    | token hand => exact .token hand
    | ended hand atEnd => exact .ended hand atEnd

end

/-- Where all frames have been popped, the refused token is dropped. Up to then the machine is
silent. -/
theorem Runs.unwind {outcome : Except Fault (Option Tree)}
    (h : Runs fuel ⟨[], .nothing, [], Lr.recoveryLength, false, w⟩ calls outcome w')
    (fs : List Frame) (back : List Token) :
    Runs (fs.length + 1 + fuel) ⟨fs, .error, back, Lr.recoveryLength, false, w⟩ calls
      outcome w' := by
  have hcall : ∀ fs, Pose.call? ⟨fs, .error, back, Lr.recoveryLength, false, w⟩ = none := by
    intro fs
    rw [Pose.call?, show Pose.reports _ = false from rfl, Bool.and_false]
    rfl
  induction fs with
  | nil =>
    have hnext := Runs.next (p := ⟨[], .error, back, Lr.recoveryLength, false, w⟩)
      (.held fun h => by cases h) (.drop rfl (action_errorMark _) fun h => by cases h) h
    rw [hcall] at hnext
    rwa [Nat.add_comm]
  | cons f fs ih =>
    have hnext := Runs.next (p := ⟨f :: fs, .error, back, Lr.recoveryLength, false, w⟩)
      (.held fun h => by cases h) (.pop rfl rfl) ih
    rw [hcall] at hnext
    rw [List.length_cons, Nat.add_right_comm]
    exact hnext

/-- A word without a move is dropped together with all frames, and the parse starts again behind
it. -/
theorem At.refused (h : At q ⟨fs, w :: ws⟩) (hfaces : Faces q (w :: ws))
    (hfills : Fills p q) (ha : tables.action (topState fs) (.token w.kind) = none)
    (hsorts : ∀ f ∈ fs, f.sort ≠ .errorMark) :
    ∃ n ≤ fs.length + 1, ∀ fuel calls outcome w',
      Runs fuel ⟨[], .nothing, [], Lr.recoveryLength, false, q.failed.world⟩ calls outcome w' →
      Runs (n + fuel + 1) p (q.call?.toList ++ calls) outcome w' := by
  have haction : q.action = none := (h.action_eq hfaces).trans ha
  have hframes : q.frames = fs := h.frames
  cases hfaces with
  | @token t hand =>
    cases fs with
    | nil =>
      refine ⟨0, Nat.zero_le _,
        fun fuel calls outcome w' hlater => .next hfills (.drop hframes haction ?_) ?_⟩
      · simp [hand, Hand.entry, Token.entry]
      rw [Nat.zero_add]
      simp only [Pose.failed, hframes]
      exact hlater
    | cons f fs =>
      refine ⟨_, Nat.le_refl _,
        fun fuel calls outcome w' hlater => .next hfills
          (.refuse hframes haction hand (hsorts f List.mem_cons_self)) ?_⟩
      simp only [Pose.failed, hframes]
      exact hlater.unwind (f :: fs) _

/-- A parse stops at a number that is too long, or it ends as the outcome of its stage says. Then
what is printed is what the scanner prints if there is no word without a move, and the handler is
called if there is one. -/
theorem runs_outcome (fuel : Nat) (h : At p k) (hp : Path k.frames) (hfuel : potential k < fuel) :
    (∃ digits calls w, HasOverlong p.world.events digits ∧
      Runs fuel p calls (.error (.overlongInteger digits)) w) ∨
    ∃ n result calls w, Runs fuel p calls (.ok result) w ∧ Outcome k n result ∧
      (n = 0 → w.printed = p.world.eventual ∧ calls = []) ∧
      (n ≠ 0 → p.errorOk = true → calls ≠ []) := by
  induction fuel using Nat.strongRecOn generalizing p k with
  | ind fuel ih =>
    obtain ⟨fs, ws⟩ := k
    obtain ⟨fuel, rfl⟩ : ∃ f, fuel = f + 1 := ⟨fuel - 1, by omega⟩
    rcases h.fills with ⟨digits, w, hmem, hstop⟩ | ⟨q, hfills, hq, hfaces, hok, hsub, hev⟩
    · exact .inl ⟨digits, [], w, hmem, hstop fuel⟩
    · rcases hp.progress ws with ⟨k', hm⟩ | ⟨f, rfl, rfl, ha⟩ | ha
      · have hpot : potential k' < potential ⟨fs, ws⟩ := potential_move hm
        obtain ⟨p', hturn, hp', hok', hworld⟩ := hq.turn hfaces hm
        have hcall := hq.call?_eq_none hfaces hm.action_ne_none
        rcases ih fuel (by omega) hp' (hm.path hp) (by omega) with ⟨digits, calls, w, hmem, hruns⟩ |
          ⟨n, result, calls, w, hruns, hout, hzero, hpos⟩
        · rw [hworld] at hmem
          exact .inl ⟨digits, _, w, hmem.mono hsub, .next hfills hturn hruns⟩
        · refine .inr ⟨n, result, _, w, .next hfills hturn hruns, .move hm hout, ?_, ?_⟩
          · rw [hcall, ← hev, ← hworld]
            exact hzero
          · rw [hcall, ← hok, ← hok']
            exact hpos
      · have haction := (hq.action_eq hfaces).trans ha
        have hcall := hq.call?_eq_none hfaces (by simp [topState, ahead, ha])
        refine .inr ⟨0, _, _, _, .last hfills (.accept hq.frames haction), .accept ha,
          fun _ => ⟨?_, by rw [hcall]; rfl⟩, fun h => absurd rfl h⟩
        cases hfaces with
        | ended hand atEnd =>
          rw [← hev, Source.eventual, atEnd]
          exact String.append_empty.symm
      · -- Without a move the handler is called, and the parse starts again behind the word.
        have hcall (hok' : p.errorOk = true) := hq.call?_ne_nil hfaces ha (hok.trans hok')
        cases ws with
        | nil =>
          have haction := (hq.action_eq hfaces).trans ha
          cases hfaces with
          | ended hand =>
            exact .inr ⟨1, none, _, _, .last hfills (.fail hand haction), .fail ha,
              fun h => absurd h (by omega), fun _ => hcall⟩
        | cons w ws =>
          have hevents : q.failed.world.events = q.world.events := events_reportedIf ..
          have hnext : At ⟨[], .nothing, [], Lr.recoveryLength, false, q.failed.world⟩
              ⟨[], ws⟩ := by
            refine ⟨rfl, rfl, hevents ▸ hq.closes, .inl ⟨rfl, ?_⟩⟩
            cases hfaces with
            | token => rw [hevents]
          have hzero : stateRank 0 = 0 := by decide +kernel
          obtain ⟨n, hn, hback⟩ := hq.refused hfaces hfills ha hp.sort_ne_errorMark
          obtain ⟨fuel', rfl⟩ : ∃ f, fuel = n + f := ⟨fuel - n, by
            simp only [potential, List.length_cons] at hfuel
            omega⟩
          rcases ih fuel' (by omega) hnext .nil (by
            simp only [potential, List.length_cons, List.length_nil, topState, hzero] at hfuel ⊢
            omega) with ⟨digits, calls, w', hmem, hruns⟩ | ⟨m, result, calls, w', hruns, hout, -, -⟩
          · exact .inl ⟨digits, _, w', hmem.mono (hevents ▸ hsub), hback _ _ _ _ hruns⟩
          · exact .inr ⟨m + 1, result, _, w', hback _ _ _ _ hruns, .drop ha hout,
              fun h => absurd h (by omega), fun _ hok' =>
              List.append_ne_nil_of_left_ne_nil (hcall hok') _⟩

/-! ## Outcomes of texts -/

theorem closing_scanFrom (cs : List Char) (line pos : Nat) :
    closing (scanFrom line pos cs) = true := by
  induction cs using lexeme_induction generalizing line pos with
  | nil =>
    rw [scanFrom]
    rfl
  | cons c rest ih =>
    rw [scanFrom]
    cases (lexemeAt c rest).form with
    | number =>
      dsimp only
      split
      · rfl
      · exact ih _ _
    | _ => exact ih _ _

theorem foldl_add_tokens (events : List Event) (r : TokenRun) :
    (events.foldl TokenRun.add r).tokens = (eventTokens events).reverse ++ r.tokens := by
  induction events generalizing r with
  | nil => rfl
  | cons e rest ih =>
    rw [List.foldl_cons, ih]
    cases e <;> simp [TokenRun.add, eventTokens]

theorem tokens_eq (text : String) : (tokenRun text).tokens = eventTokens (scan text) := by
  simp [tokenRun, foldl_add_tokens]

theorem foldl_add_printed (events : List Event) (r : TokenRun) :
    (events.foldl TokenRun.add r).printed = r.printed ++ reportOf events := by
  induction events generalizing r with
  | nil => simp [reportOf]
  | cons e rest ih =>
    rw [List.foldl_cons, ih]
    cases e <;> simp [TokenRun.add, reportOf, String.append_assoc]

theorem printed_eq (text : String) : (tokenRun text).printed = reportOf (scan text) := by
  simp [tokenRun, foldl_add_printed]

/-- A list without a fault has no number that is too long. -/
theorem not_hasOverlong_of_fault (h : (events.foldl TokenRun.add r).fault = none) :
    r.fault = none ∧ ∀ digits, ¬HasOverlong events digits := by
  induction events generalizing r with
  | nil => exact ⟨h, fun _ ⟨_, _, hmem⟩ => by cases hmem⟩
  | cons e rest ih =>
    obtain ⟨hr, hrest⟩ := ih h
    have hcons (he : ∀ digits line after, e ≠ .overlong digits line after) digits :
        ¬HasOverlong (e :: rest) digits := by
      rintro ⟨line, after, hmem⟩
      rcases List.mem_cons.mp hmem with heq | hmem
      · exact he _ _ _ heq.symm
      · exact hrest _ ⟨line, after, hmem⟩
    cases e with
    | overlong => cases hr
    | token | illegal | done => exact ⟨hr, hcons nofun⟩

theorem foldl_add_fault (h : readable events = true) (r : TokenRun) :
    (events.foldl TokenRun.add r).fault = r.fault := by
  induction events generalizing r with
  | nil => rfl
  | cons e rest ih =>
    cases e with
    | token t after => exact ih h _
    | illegal c => exact ih h _
    | overlong _ _ _ => cases h
    | done line after =>
      obtain rfl : rest = [] := by simpa [readable] using h
      rfl

theorem fault_of_readable (h : readable (scan text) = true) : (tokenRun text).fault = none :=
  foldl_add_fault h _

theorem length_eventTokens_le (events : List Event) :
    (eventTokens events).length ≤ events.length := by
  induction events with
  | nil => exact Nat.le_refl 0
  | cons e rest ih =>
    cases e <;> simp only [eventTokens, List.length_cons] <;> omega

theorem potential_start_lt (events : List Event) :
    potential ⟨[], wordsOf events⟩ < fuelFor events.length := by
  have hzero : stateRank 0 = 0 := by decide +kernel
  have hle := length_eventTokens_le events
  simp only [potential, wordsOf, List.length_map, topState, hzero, List.length_nil, fuelFor]
  omega

def wordsOfText (text : String) : List Word :=
  (tokenRun text).tokens.map Token.word

theorem wordsOfText_eq (text : String) : wordsOfText text = wordsOf (scan text) := by
  rw [wordsOfText, tokens_eq]
  rfl

def errorCalls (text : String) : List (Option Entry) :=
  let source := Source.ofText text
  Lr.handlerCalls plain (fuelFor source.events.length) (.start plain true source "")

def Reader.pose (r : Reader) (text : String) : Pose :=
  ⟨[], .nothing, [], 0, r.errorOk, r.source text⟩

def startPose (text : String) : Pose :=
  Reader.new.pose text

/-- The parse of a text stops at a number that is too long, or it ends as the outcome of its words
says. -/
theorem runs_text (text : String) :
    (∃ digits calls w, HasOverlong (scan text) digits ∧
      Runs (fuelFor (scan text).length) (startPose text) calls (.error (.overlongInteger digits))
        w) ∨
    ∃ n result calls w, Runs (fuelFor (scan text).length) (startPose text) calls (.ok result) w ∧
      Outcome ⟨[], wordsOfText text⟩ n result ∧ (n = 0 → w.printed = reportOf (scan text)) ∧
      (calls = [] ↔ n = 0) := by
  have hat : At (startPose text) ⟨[], wordsOfText text⟩ :=
    ⟨rfl, rfl, closing_scanFrom text.toList 1 0, .inl ⟨rfl, (wordsOfText_eq text).symm⟩⟩
  have hfuel : potential ⟨[], wordsOfText text⟩ < fuelFor (scan text).length := by
    rw [wordsOfText_eq]
    exact potential_start_lt (scan text)
  rcases runs_outcome _ hat .nil hfuel with hstop | ⟨n, result, calls, w, hruns, hout, hzero, hpos⟩
  · exact .inl hstop
  · refine .inr ⟨n, result, calls, w, hruns, hout,
      fun hn => (hzero hn).1.trans String.empty_append, ?_, fun hn => (hzero hn).2⟩
    exact fun hnil => Decidable.byContradiction fun hn => hpos hn rfl hnil

section

variable {calls : List (Option Entry)} {outcome : Except Fault (Option Tree)} {w : Source}

theorem Runs.read {r : Reader}
    (h : Runs (fuelFor (r.source text).events.length) (r.pose text) calls outcome w) :
    (r.parse false false text).outcome = outcome ∧
    (r.parse false false text).printed = w.printed := by
  obtain ⟨hends, -⟩ := h.run (shows_start false false r.errorOk (r.source text) "") false
  constructor <;>
  · unfold Reader.parse
    extract_lets source m header
    cases outcome with
    | error f | ok result =>
      obtain ⟨c, hrun, rfl⟩ := hends
      have hrun' : Lr.run m (fuelFor source.events.length) (.start m r.errorOk source header) = _ :=
        hrun
      rw [hrun']

theorem Runs.parse_eq (h : Runs (fuelFor (scan text).length) (startPose text) calls outcome w) :
    (parse false false text).outcome = outcome ∧ (parse false false text).printed = w.printed ∧
      errorCalls text = calls := by
  obtain ⟨houtcome, hprinted⟩ := Runs.read (r := .new) h
  exact ⟨houtcome, hprinted, (h.run (shows_start false false true (Source.ofText text) "") false).2⟩

end

/-- A text that is scanned without a fault is parsed without one, and the parse ends as the outcome
of its words says. -/
theorem parse_outcome (h : (tokenRun text).fault = none) :
    ∃ n result, (parse false false text).outcome = .ok result ∧
      Outcome ⟨[], wordsOfText text⟩ n result ∧
      (n = 0 → (parse false false text).printed = reportOf (scan text)) ∧
      (errorCalls text = [] ↔ n = 0) := by
  rcases runs_text text with ⟨digits, calls, w, hmem, -⟩ | ⟨n, result, calls, w, hruns, hout,
    hprinted, hcalls⟩
  · exact absurd hmem ((not_hasOverlong_of_fault h).2 digits)
  · obtain ⟨hparse, hprint, herr⟩ := hruns.parse_eq
    rw [hprint, herr]
    exact ⟨n, result, hparse, hout, hprinted, hcalls⟩

theorem parse_error (h : (parse false false text).outcome = .error f) :
    ∃ digits, HasOverlong (scan text) digits ∧ f = .overlongInteger digits := by
  rcases runs_text text with ⟨digits, calls, w, hmem, hruns⟩ | ⟨n, result, calls, w, hruns, -⟩
  · exact ⟨digits, hmem, Except.error.inj (h.symm.trans hruns.parse_eq.1)⟩
  · cases h.symm.trans hruns.parse_eq.1

theorem outcome_of_parse (h : (parse false false text).outcome = .ok (some t)) :
    ∃ n, Outcome ⟨[], wordsOfText text⟩ n (some t) := by
  rcases runs_text text with ⟨digits, calls, w, -, hruns⟩ | ⟨n, result, calls, w, hruns, hout, -⟩
  · cases h.symm.trans hruns.parse_eq.1
  · cases h.symm.trans hruns.parse_eq.1
    exact ⟨n, hout⟩

theorem parseProgram_of_some (h : (parse false false text).outcome = .ok (some t)) :
    parseProgram text = (.ok t, (parse false false text).printed) := by
  rw [parseProgram, Parsed.program, h]

theorem parseProgram_of_none (h : (parse false false text).outcome = .ok none) :
    parseProgram text =
      (.error (.syntaxError (some "Syntax error")), (parse false false text).printed) := by
  rw [parseProgram, Parsed.program, h]

/-- A program that cannot be parsed is refused with a syntax error or for a number that is too
long. -/
theorem parseProgram_error {printed : String} (h : parseProgram text = (.error f, printed)) :
    f = .syntaxError (some "Syntax error") ∨
      ∃ digits, HasOverlong (scan text) digits ∧ f = .overlongInteger digits := by
  rcases hparse : (parse false false text).outcome with f' | _ | t
  · right
    rw [parseProgram, Parsed.program, hparse] at h
    obtain ⟨hf, -⟩ := Prod.mk.inj h
    obtain rfl := Except.error.inj hf
    exact parse_error hparse
  · rw [parseProgram_of_none hparse] at h
    obtain ⟨hf, -⟩ := Prod.mk.inj h
    exact .inl (Except.error.inj hf).symm
  · rw [parseProgram_of_some hparse] at h
    cases h

end LangKit.Script
