import LangKit.Proofs.Parser.Outcome
import Mathlib.Data.List.Forall2

/-!
# Readers that have read before

A reader comes to a text in whatever line the texts before have left it, and perhaps without the
parser's leave to report an error while it recovers from one. Neither is ever noticed. The line
stands in the tokens, and no move looks at it. The leave counts only while the parser recovers, and
it is taken away whenever a recovery begins. So a parse goes on alike from two poses that differ in
these (`Runs.alike`), and every reader makes the same of a text and prints the same
(`Reader.program_eq`).
-/

namespace LangKit.Script

variable {p p' q q' : Pose} {events events' : List Event}

/-- Two events that differ at most in places. -/
inductive Event.Alike : Event → Event → Prop
  | token {t t' : Token} (word : t'.word = t.word) (after after' : Nat) :
      Alike (.token t after) (.token t' after')
  | illegal (c : Char) : Alike (.illegal c) (.illegal c)
  | overlong (digits line line' after after' : Nat) :
      Alike (.overlong digits line after) (.overlong digits line' after')
  | done (line line' after after' : Nat) : Alike (.done line after) (.done line' after')

structure Source.Alike (s s' : Source) : Prop where
  events : List.Forall₂ Event.Alike s.events s'.events
  printed : s'.printed = s.printed

inductive Hand.Alike : Hand → Hand → Prop
  | nothing : Alike .nothing .nothing
  | token {t t' : Token} (word : t'.word = t.word) : Alike (.token t) (.token t')
  | ended : Alike .ended .ended
  | error : Alike .error .error

/-- Two poses from which the parse goes on alike. The leave to report an error does not count until
the next recovery begins. -/
structure Pose.Alike (p p' : Pose) : Prop where
  frames : p'.frames = p.frames
  hand : p.hand.Alike p'.hand
  putBack : List.Forall₂ (fun t t' : Token => t'.word = t.word) p.putBack p'.putBack
  recovering : p'.recovering = p.recovering
  errorOk : p.recovering = 0 ∨ p'.errorOk = p.errorOk
  world : p.world.Alike p'.world

/-! ## Scanning -/

theorem scanFrom_alike (cs : List Char) (line line' pos : Nat) :
    List.Forall₂ Event.Alike (scanFrom line pos cs) (scanFrom line' pos cs) := by
  induction cs using lexeme_induction generalizing line line' pos with
  | nil =>
    rw [scanFrom, scanFrom]
    exact .cons (.done ..) .nil
  | cons c rest ih =>
    rw [scanFrom, scanFrom]
    cases (lexemeAt c rest).form with
    | blank | newline | comment => exact ih ..
    | illegal => exact .cons (.illegal c) (ih ..)
    | word | string | operator => exact .cons (.token (by rfl) ..) (ih ..)
    | number =>
      dsimp only
      split
      · exact .cons (.overlong ..) .nil
      · exact .cons (.token (by rfl) ..) (ih ..)

/-- Sources that are alike give the same next, a token up to its place. -/
theorem Source.Alike.pull {s s' w : Source} {r : Except Fault (Option Entry)} (h : s.Alike s')
    (pull : s.pull = (r, w)) :
    ∃ r' w', s'.pull = (r', w') ∧ w.Alike w' ∧ ((r' = r ∧ ∀ e, r ≠ .ok (some e)) ∨
      ∃ t t' : Token, t'.word = t.word ∧ r = .ok (some t.entry) ∧ r' = .ok (some t'.entry) ∧
        eventTokens s.events = t :: eventTokens w.events ∧
        eventTokens s'.events = t' :: eventTokens w'.events) := by
  obtain ⟨events, line, pos, _⟩ := s
  obtain ⟨events', line', pos', printed⟩ := s'
  obtain ⟨hevents, rfl⟩ := h
  dsimp only at hevents
  induction hevents generalizing printed with
  | nil =>
    obtain ⟨rfl, rfl⟩ := Prod.mk.inj pull
    refine ⟨_, _, rfl, ⟨.nil, rfl⟩, .inl ⟨rfl, fun e he => ?_⟩⟩
    cases he
  | cons he hrest ih =>
    cases he with
    | token word =>
      obtain ⟨rfl, rfl⟩ := Prod.mk.inj pull
      exact ⟨_, _, rfl, ⟨hrest, rfl⟩, .inr ⟨_, _, word, rfl, rfl, rfl, rfl⟩⟩
    | illegal c => exact ih _ pull
    | overlong | done =>
      obtain ⟨rfl, rfl⟩ := Prod.mk.inj pull
      refine ⟨_, _, rfl, ⟨hrest, rfl⟩, .inl ⟨rfl, fun e he => ?_⟩⟩
      cases he

/-! ## Moves -/

theorem errorLine_congr (h : e'.value = e.value) : errorLine (some e') = errorLine (some e) := by
  unfold errorLine
  dsimp only
  rw [h]

section

variable (h : Pose.Alike p p')

include h

theorem Pose.Alike.entry :
    p'.hand.entry.sort = p.hand.entry.sort ∧ p'.hand.entry.value = p.hand.entry.value := by
  have hhand := h.hand
  generalize p.hand = hand, p'.hand = hand' at hhand
  cases hhand with
  | nothing | ended | error => exact ⟨rfl, rfl⟩
  | token word =>
    obtain ⟨hkind, hvalue⟩ := Word.mk.inj word
    exact ⟨congrArg Symbol.token hkind, congrArg (some ∘ TokenValue.tree) hvalue⟩

theorem Pose.Alike.action : p'.action = p.action := by
  rw [Pose.action, Pose.action, h.frames, h.entry.1]

theorem Pose.Alike.hand_token (hand : p.hand = .token t) :
    ∃ t', p'.hand = .token t' ∧ t'.word = t.word := by
  have hhand := h.hand
  rw [hand] at hhand
  generalize p'.hand = hand' at hhand
  cases hhand with
  | token word => exact ⟨_, rfl, word⟩

theorem Pose.Alike.hand_eq (hand : ∀ t, p.hand ≠ .token t) : p'.hand = p.hand := by
  have hhand := h.hand
  generalize p.hand = held, p'.hand = held' at hand hhand
  cases hhand with
  | token => exact absurd rfl (hand _)
  | nothing | ended | error => rfl

theorem Pose.Alike.putBack_eq_nil (putBack : p.putBack = []) : p'.putBack = [] := by
  have hputBack := h.putBack
  rw [putBack] at hputBack
  exact List.forall₂_nil_left_iff.1 hputBack

theorem Pose.Alike.failed : p.failed.Alike p'.failed := by
  have hreports : p'.reports = p.reports := by
    rw [Pose.reports, Pose.reports, h.recovering]
    rcases h.errorOk with hzero | heq
    · rw [hzero]
      rfl
    · rw [heq]
  refine { h with recovering := rfl, errorOk := .inr rfl, world := ?_ }
  have hline (b : Bool) : errorLine (if b then none else some p'.hand.entry) =
      errorLine (if b then none else some p.hand.entry) := by
    cases b with
    | true => rfl
    | false => exact errorLine_congr h.entry.2
  simp only [Pose.failed, hreports]
  split
  · exact ⟨h.world.events,
      by rw [Source.reported, Source.reported, h.entry.1, hline, h.world.printed]⟩
  · exact h.world

theorem Fills.alike (hq : Fills p q) : ∃ q', Fills p' q' ∧ q.Alike q' := by
  cases hq with
  | held hand =>
    refine ⟨p', .held fun hand' => hand ?_, h⟩
    have hhand := h.hand
    rw [hand'] at hhand
    generalize p.hand = held at hhand
    cases hhand
    rfl
  | back hand putBack =>
    have hputBack := h.putBack
    rw [putBack] at hputBack
    obtain ⟨t', rest', word, hrest, hback⟩ := List.forall₂_cons_left_iff.1 hputBack
    exact ⟨_, .back (h.hand_eq (by simp [hand]) ▸ hand) hback,
      { h with hand := .token word, putBack := hrest }⟩
  | token hand putBack pull tokens =>
    obtain ⟨r', s', hpull', hs, ⟨-, hr⟩ | ⟨t, t', word, hr, rfl, htokens, htokens'⟩⟩ :=
      h.world.pull pull
    · exact absurd rfl (hr _)
    · obtain rfl := (List.cons.inj (tokens.symm.trans htokens)).1
      exact ⟨_, .token (h.hand_eq (by simp [hand]) ▸ hand) (h.putBack_eq_nil putBack)
        hpull' htokens', { h with hand := .token word, world := hs }⟩
  | ended hand putBack pull atEnd =>
    obtain ⟨r', s', hpull', hs, ⟨rfl, -⟩ | ⟨t, t', -, hr, -⟩⟩ := h.world.pull pull
    · have hend := hs.events
      rw [atEnd] at hend
      exact ⟨_, .ended (h.hand_eq (by simp [hand]) ▸ hand) (h.putBack_eq_nil putBack) hpull'
        (List.forall₂_nil_left_iff.1 hend), { h with hand := .ended, world := hs }⟩
    · cases hr

theorem Change.alike (hq : Change p q) : ∃ q', Change p' q' ∧ q.Alike q' := by
  cases hq with
  | shift hand action =>
    obtain ⟨t', hand', word⟩ := h.hand_token hand
    refine ⟨_, .shift hand' (h.action.trans action), { h with
      frames := by rw [word, h.frames]
      hand := .nothing
      recovering := congrArg (· - 1) h.recovering
      errorOk := h.errorOk.imp_left fun hzero => by rw [hzero] }⟩
  | reduce frames action rule length goto =>
    exact ⟨_, .reduce (h.frames.trans frames) (h.action.trans action) rule length goto,
      { h with frames := rfl }⟩
  | drop frames action hand =>
    exact ⟨_, .drop (h.frames.trans frames) (h.action.trans action) (h.entry.1 ▸ hand),
      { h.failed with hand := .nothing, putBack := .nil }⟩
  | refuse frames action hand sort =>
    obtain ⟨t', hand', word⟩ := h.hand_token hand
    exact ⟨_, .refuse (h.frames.trans frames) (h.action.trans action) hand' sort,
      { h.failed with hand := .error, putBack := .cons word h.putBack }⟩
  | pop frames hand =>
    exact ⟨_, .pop (h.frames.trans frames) ((h.hand_eq (by simp [hand])).trans hand),
      { h.failed with frames := rfl }⟩

theorem Last.alike {result : Option Tree} (hp : Last p result w) :
    ∃ w', Last p' result w' ∧ w'.printed = w.printed := by
  cases hp with
  | accept frames action =>
    exact ⟨_, .accept (h.frames.trans frames) (h.action.trans action), h.world.printed⟩
  | fail hand action =>
    exact ⟨_, .fail ((h.hand_eq (by simp [hand])).trans hand) (h.action.trans action),
      h.failed.world.printed⟩

end

/-! ## Parses -/

theorem Runs.alike {fuel : Nat} {calls : List (Option Entry)} {outcome : Except Fault (Option Tree)}
    {w : Source} (hp : Runs fuel p calls outcome w) (h : p.Alike p') :
    ∃ calls' w', Runs fuel p' calls' outcome w' ∧ w'.printed = w.printed := by
  induction hp generalizing p' with
  | stop hand putBack pull =>
    obtain ⟨r', w', hpull', hw, ⟨rfl, -⟩ | ⟨t, t', -, hr, -⟩⟩ := h.world.pull pull
    · exact ⟨_, w', .stop ((h.hand_eq (by simp [hand])).trans hand) (h.putBack_eq_nil putBack)
        hpull', hw.printed⟩
    · cases hr
  | last fills last =>
    obtain ⟨q', hfills, hq⟩ := fills.alike h
    obtain ⟨w', hlast, hprinted⟩ := last.alike hq
    exact ⟨_, w', .last hfills hlast, hprinted⟩
  | next fills turn _ ih =>
    obtain ⟨q', hfills, hq⟩ := fills.alike h
    obtain ⟨p'', hturn, hp'⟩ := turn.alike hq
    obtain ⟨calls', w', hruns, hprinted⟩ := ih hp'
    exact ⟨_, w', .next hfills hturn hruns, hprinted⟩

/-- Whatever a reader has read before, it makes the same of a text and prints the same. -/
theorem Reader.program_eq (r : Reader) (text : String) :
    (r.parse false false text).program = parseProgram text := by
  have hevents := scanFrom_alike text.toList 1 r.line 0
  have halike : (startPose text).Alike (r.pose text) :=
    ⟨rfl, .nothing, .nil, rfl, .inl rfl, hevents, rfl⟩
  have hlength : (r.source text).events.length = (scan text).length := hevents.length_eq.symm
  obtain ⟨calls, outcome, w, hruns⟩ : ∃ calls outcome w,
      Runs (fuelFor (scan text).length) (startPose text) calls outcome w := by
    rcases runs_text text with ⟨_, calls, w, -, hruns⟩ | ⟨_, _, calls, w, hruns, -⟩
    · exact ⟨calls, _, w, hruns⟩
    · exact ⟨calls, _, w, hruns⟩
  obtain ⟨calls', w', hruns', hprinted⟩ := hruns.alike halike
  rw [← hlength] at hruns'
  obtain ⟨houtcome', hprinted'⟩ := hruns'.read
  obtain ⟨houtcome, hprint, -⟩ := hruns.parse_eq
  rw [parseProgram, Parsed.program, Parsed.program, houtcome', houtcome, hprinted',
    hprint, hprinted]

end LangKit.Script
