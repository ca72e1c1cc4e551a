import LangKit.Proofs.Parser.Steps

/-!
# Moves of the parser

The machine that parses a program carries more than its next move depends on: with tracking the
places of all entries, and a log. A `Pose` keeps what decides the moves. `Change` and `Last` say
what the machine can do from a pose once it has something in hand, and `Runs` puts whole parses
together from that. The machine does what the poses do, whatever is watched (`Change.step`,
`Last.step`), and so it ends as they say and calls the error handler as they say: `Runs.run`.

While there is no error, even less counts: a `Stage` is the frames of the stack and the words still
to come, and a `Move` is a shift or a reduction between stages.
-/

namespace LangKit.Lr

variable {σ ν ω : Type}

def Config.handlerCall? (m : Setup σ ν ω) [BEq σ] (c : Config σ ν ω) :
    Option (Option (Entry σ ν)) :=
  match m.tables.sole c.state, c.fill m with
  | none, (.ok c, _) =>
    match c.look with
    | some look =>
      if (m.tables.action c.state look.sort).isNone && (c.recovering == 0 || c.errorOk) then
        some (if look.sort == m.endSort then none else some look)
      else none
    | none => none
  | _, _ => none

def handlerCalls (m : Setup σ ν ω) [BEq σ] : Nat → Config σ ν ω → List (Option (Entry σ ν))
  | 0, _ => []
  | fuel + 1, c =>
    (c.handlerCall? m).toList ++
      match step m c with
      | .next c' => handlerCalls m fuel c'
      | _ => []

/-- A number of steps of a machine, none of which ends the parse. -/
def After (m : Setup σ ν ω) [BEq σ] : Nat → Config σ ν ω → Config σ ν ω → Prop
  | 0, c, c' => c = c'
  | n + 1, c, c' => ∃ d, step m c = .next d ∧ After m n d c'

end LangKit.Lr

namespace LangKit.Script

/-- What the grammar sees of a token: its kind and its value. -/
structure Word where
  kind : TokenKind
  value : TokenValue
  deriving DecidableEq, Repr

def Token.word (t : Token) : Word := ⟨t.kind, t.value⟩

def eventTokens : List Event → List Token
  | [] => []
  | .token t _ :: rest => t :: eventTokens rest
  | .illegal _ :: rest => eventTokens rest
  | .overlong _ _ _ :: rest => eventTokens rest
  | .done _ _ :: rest => eventTokens rest

def wordsOf (events : List Event) : List Word :=
  (eventTokens events).map Token.word

/-- What the scanner prints at events: a line for each character that starts no token. -/
def reportOf : List Event → String
  | [] => ""
  | .illegal c :: rest => illegalMessage c ++ "\n" ++ reportOf rest
  | .token _ _ :: rest => reportOf rest
  | .overlong _ _ _ :: rest => reportOf rest
  | .done _ _ :: rest => reportOf rest

/-- Is no number among the events too long, and does the end of the text come last? -/
def readable : List Event → Bool
  | [] => true
  | .overlong _ _ _ :: _ => false
  | .token _ _ :: rest => readable rest
  | .illegal _ :: rest => readable rest
  | .done _ _ :: rest => rest.isEmpty

/-- A stack entry: the state that the parser is in above it, its symbol and its value. -/
structure Frame where
  state : Nat
  sort : Symbol
  value : Tree

/-- What decides a parse: the frames, with the top first, and the words still to come. -/
structure Stage where
  frames : List Frame
  input : List Word

def topState : List Frame → Nat
  | [] => 0
  | f :: _ => f.state

def ahead : List Word → Symbol
  | [] => .endMark
  | w :: _ => .token w.kind

def Word.frame (w : Word) (state : Nat) : Frame :=
  ⟨state, .token w.kind, w.value.tree⟩

/-- The frame of a phrase that a rule makes from the frames of its parts, with the last part
first. -/
def Rule.frame (r : Rule) (state : Nat) (parts : List Frame) : Frame :=
  ⟨state, .phrase r.head, r.meaning (parts.reverse.map (·.value))⟩

inductive Move : Stage → Stage → Prop
  | shift (action : tables.action (topState fs) (.token w.kind) = some (.shift s)) :
      Move ⟨fs, w :: rest⟩ ⟨w.frame s :: fs, rest⟩
  | reduce (action : tables.action (topState (parts ++ fs)) (ahead ws) = some (.reduce n))
      (rule : rules[n]? = some r) (length : parts.length = r.body.length)
      (goto : tables.goto (topState fs) (.phrase r.head) = some s) :
      Move ⟨parts ++ fs, ws⟩ ⟨r.frame s parts :: fs, ws⟩

/-! ## Poses -/

/-- What the machine has in hand. -/
inductive Hand
  | nothing
  | token (t : Token)
  | ended
  | error

def Hand.entry : Hand → Entry
  | .token t => t.entry
  | .ended => .bare .endMark none
  | .nothing | .error => .bare .errorMark none

inductive Hand.Holds : Hand → Option Entry → Prop
  | nothing : Holds .nothing none
  | token (t : Token) : Holds (.token t) (some t.entry)
  | ended : Holds .ended (some (.bare .endMark none))
  | error {e : Entry} (sort : e.sort = .errorMark) : Holds .error (some e)

structure Pose where
  frames : List Frame
  hand : Hand
  putBack : List Token
  recovering : Nat
  errorOk : Bool
  world : Source

def Pose.action (p : Pose) : Option Lr.Action :=
  tables.action (topState p.frames) p.hand.entry.sort

/-- Is an error reported now, or is the machine still recovering from the last one? -/
def Pose.reports (p : Pose) : Bool :=
  p.recovering == 0 || p.errorOk

/-- The pose when an error has been met. -/
def Pose.failed (p : Pose) : Pose :=
  { p with
    recovering := Lr.recoveryLength
    errorOk := false
    world := if p.reports = true then p.world.reported p.hand.entry else p.world }

/-- What the error handler is called with. -/
def Pose.call? (p : Pose) : Option (Option Entry) :=
  if p.action.isNone && p.reports then some (if p.hand.entry.sort == .endMark then none
    else some p.hand.entry)
  else none

/-- Something is taken in hand, if there is nothing. -/
inductive Fills (p : Pose) : Pose → Prop
  | held (hand : p.hand ≠ .nothing) : Fills p p
  | back {t : Token} {rest : List Token}
      (hand : p.hand = .nothing) (putBack : p.putBack = t :: rest) :
      Fills p { p with hand := .token t, putBack := rest }
  | token {t : Token} {w : Source} (hand : p.hand = .nothing) (putBack : p.putBack = [])
      (pull : p.world.pull = (.ok (some t.entry), w))
      (tokens : eventTokens p.world.events = t :: eventTokens w.events) :
      Fills p { p with hand := .token t, world := w }
  | ended {w : Source} (hand : p.hand = .nothing)
      (putBack : p.putBack = []) (pull : p.world.pull = (.ok none, w)) (atEnd : w.events = []) :
      Fills p { p with hand := .ended, world := w }

/-- A move of the machine with something in hand. Where there is no move, all frames are popped,
with an error symbol in hand, and the refused token is dropped. -/
inductive Change (p : Pose) : Pose → Prop
  | shift (hand : p.hand = .token t) (action : p.action = some (.shift s)) :
      Change p { p with
        frames := t.word.frame s :: p.frames, hand := .nothing, recovering := p.recovering - 1 }
  | reduce (frames : p.frames = parts ++ below) (action : p.action = some (.reduce n))
      (rule : rules[n]? = some r) (length : parts.length = r.body.length)
      (goto : tables.goto (topState below) (.phrase r.head) = some s) :
      Change p { p with frames := r.frame s parts :: below }
  | drop (frames : p.frames = []) (action : p.action = none) (hand : p.hand.entry.sort ≠ .endMark) :
      Change p { p.failed with hand := .nothing, putBack := [] }
  | refuse (frames : p.frames = f :: fs) (action : p.action = none) (hand : p.hand = .token t)
      (sort : f.sort ≠ .errorMark) :
      Change p { p.failed with hand := .error, putBack := t :: p.putBack }
  | pop (frames : p.frames = f :: fs) (hand : p.hand = .error) :
      Change p { p.failed with frames := fs }

/-- The last move of the machine, which gives the result. -/
inductive Last : Pose → Option Tree → Source → Prop
  | accept {p : Pose} {f : Frame} {fs : List Frame} (frames : p.frames = f :: fs)
      (action : p.action = some .accept) :
      Last p (some f.value) p.world
  | fail {p : Pose} (hand : p.hand = .ended) (action : p.action = none) : Last p none p.failed.world

/-- A parse from a pose, which takes at most some number of moves: what the error handler is called
with, and what the parse leaves. -/
inductive Runs : Nat → Pose → List (Option Entry) → Except Fault (Option Tree) → Source → Prop
  | stop (hand : p.hand = .nothing) (putBack : p.putBack = [])
      (pull : p.world.pull = (.error f, w)) : Runs (fuel + 1) p [] (.error f) w
  | last (fills : Fills p q) (last : Last q result w) :
      Runs (fuel + 1) p q.call?.toList (.ok result) w
  | next (fills : Fills p q) (turn : Change q p') (later : Runs fuel p' calls outcome w) :
      Runs (fuel + 1) p (q.call?.toList ++ calls) outcome w

/-! ## The machine in a pose -/

/-- The machine is in a pose. With tracking the entries of its stack have places. -/
structure Shows (tracking : Bool) (c : PlainConfig) (p : Pose) : Prop where
  state : c.state = topState p.frames
  states : c.states = p.frames.map (·.state) ++ [0]
  stack : ∃ es : List Entry, c.stack = es ++ [.bare .endMark none] ∧
    es.map (fun e => (e.sort, e.value)) = p.frames.map (fun f => (f.sort, some f.value)) ∧
    (tracking = true → ∀ e ∈ es, Placed e)
  hand : p.hand.Holds c.look
  putBack : c.putBack = p.putBack.map fun t => some t.entry
  recovering : c.recovering = p.recovering
  errorOk : c.errorOk = p.errorOk
  world : c.world = p.world
  busy : p.hand = .error → p.reports = false

variable {tracking : Bool} {c d : PlainConfig} {p q : Pose} {e : Entry} {fs : List Frame}

theorem shows_start (tracking logging errorOk : Bool) (s : Source) (log : String) :
    Shows tracking (.start (setup tracking logging) errorOk s log) ⟨[], .nothing, [], 0,
      errorOk, s⟩ where
  state := rfl
  states := rfl
  stack := ⟨[], rfl, rfl, fun _ => List.forall_mem_nil _⟩
  hand := .nothing
  putBack := rfl
  recovering := rfl
  errorOk := rfl
  world := rfl
  busy := nofun

theorem exists_states_eq (fs : List Frame) :
    ∃ rest, fs.map (·.state) ++ [0] = topState fs :: rest := by
  cases fs with
  | nil => exact ⟨[], rfl⟩
  | cons f fs => exact ⟨_, rfl⟩

theorem entries_split {es : List Entry} {parts : List Frame}
    (h : es.map (fun e => (e.sort, e.value)) = (parts ++ fs).map fun f => (f.sort, some f.value)) :
    ∃ es1 es2, es = es1 ++ es2 ∧ es1.length = parts.length ∧ (∀ e ∈ es1, e.value.isSome = true) ∧
      (es1.reverse.map fun e => e.value.getD .null) = parts.reverse.map (·.value) ∧
      es2.map (fun e => (e.sort, e.value)) = fs.map fun f => (f.sort, some f.value) := by
  rw [List.map_append] at h
  obtain ⟨es1, es2, rfl, h1, h2⟩ := List.map_eq_append_iff.mp h
  refine ⟨es1, es2, rfl, by simpa using congrArg List.length h1, fun e he => ?_, ?_, h2⟩
  · have hmem : (e.sort, e.value) ∈ parts.map fun f => (f.sort, some f.value) :=
      h1 ▸ List.mem_map_of_mem he
    obtain ⟨f, -, hf⟩ := List.mem_map.mp hmem
    rw [← (Prod.mk.inj hf).2]
    rfl
  · have hvalues := congrArg (List.map fun p : Symbol × Option Tree => p.2.getD .null) h1
    rw [List.map_map, List.map_map] at hvalues
    rw [List.map_reverse, List.map_reverse]
    exact congrArg List.reverse hvalues

theorem Hand.Holds.sort {hand : Hand} (h : hand.Holds (some e)) : e.sort = hand.entry.sort := by
  cases h with
  | token | ended => rfl
  | error sort => exact sort

theorem Shows.look_eq_none (hc : Shows tracking c p) (hand : p.hand = .nothing) :
    c.look = none := by
  have hhand := hc.hand
  rw [hand] at hhand
  generalize c.look = look at hhand
  cases hhand
  rfl

theorem Shows.starved (hc : Shows tracking c p) (hand : p.hand = .nothing)
    (putBack : p.putBack = []) (pull : p.world.pull = (.error f, w)) :
    c.fill plain = (.error f, { c with world := w }) := by
  have hpull : plain.pull c.world = (.error f, w) := hc.world ▸ pull
  simp only [Lr.Config.fill, hc.look_eq_none hand, hc.putBack, putBack, List.map_nil, hpull]

theorem placed_token (t : Token) : Placed t.entry :=
  ⟨_, _, rfl, rfl⟩

theorem Fills.fill (h : Fills p q) (hc : Shows tracking c p) :
    ∃ d e, c.fill plain = (.ok d, d) ∧ d.look = some e ∧ Shows tracking d q := by
  cases h with
  | held hand =>
    cases hlook : c.look with
    | some e => exact ⟨c, e, by simp only [Lr.Config.fill, hlook], hlook, hc⟩
    | none =>
      have hhand := hc.hand
      rw [hlook] at hhand
      generalize p.hand = held at hand hhand
      cases hhand
      exact absurd rfl hand
  | @back t rest hand putBack =>
    refine ⟨{ c with look := some t.entry, putBack := rest.map fun t => some t.entry },
      t.entry, ?_, rfl, { hc with hand := .token t, putBack := rfl, busy := Hand.noConfusion }⟩
    simp only [Lr.Config.fill, hc.look_eq_none hand, hc.putBack, putBack, List.map_cons]
    rfl
  | @token t w hand putBack pull =>
    have hpull : plain.pull c.world = (.ok (some t.entry), w) := hc.world ▸ pull
    refine ⟨{ c with look := some t.entry, world := w }, t.entry, ?_, rfl,
      { hc with hand := .token t, world := rfl, busy := Hand.noConfusion }⟩
    simp only [Lr.Config.fill, hc.look_eq_none hand, hc.putBack, putBack, List.map_nil, hpull]
    rfl
  | @ended w hand putBack pull =>
    have hpull : plain.pull c.world = (.ok none, w) := hc.world ▸ pull
    refine ⟨{ c with look := some (.bare .endMark none), world := w }, .bare .endMark none, ?_, rfl,
      { hc with hand := .ended, world := rfl, busy := Hand.noConfusion }⟩
    simp only [Lr.Config.fill, hc.look_eq_none hand, hc.putBack, putBack, List.map_nil, hpull]
    rfl

section

variable (hd : Shows tracking d q) (hlook : d.look = some e)

include hd hlook

theorem Shows.action_eq : tables.action d.state e.sort = q.action := by
  have hhand := hd.hand
  rw [hlook] at hhand
  rw [hd.state, hhand.sort]
  rfl

theorem Shows.eq_token (hand : q.hand = .token t) : e = t.entry := by
  have hhand := hd.hand
  rw [hlook, hand] at hhand
  cases hhand
  rfl

theorem Shows.failed (log : String) :
    Shows tracking { d with
      recovering := Lr.recoveryLength, errorOk := false, log
      world := if (d.recovering == 0 || d.errorOk) = true then d.world.reported e else d.world }
        q.failed := by
  refine { hd with recovering := rfl, errorOk := rfl, world := ?_, busy := fun _ => rfl }
  have hhand := hd.hand
  have hbusy := hd.busy
  rw [hlook] at hhand
  rw [hd.recovering, hd.errorOk, hd.world]
  obtain ⟨frames, hand, putBack, recovering, errorOk, world⟩ := q
  cases hhand with
  | token | ended => rfl
  | error =>
    have hsilent : (recovering == 0 || errorOk) = false := hbusy rfl
    simp only [Pose.failed, Pose.reports, hsilent]
    rfl

variable (hfill : c.fill plain = (.ok d, d)) (logging : Bool)

include hfill

theorem Shows.perform :
    ∃ log, Lr.step (setup tracking logging) c = Lr.Config.perform (setup tracking logging)
      { d with log } q.action :=
  step_watched tracking logging hfill hlook (hd.action_eq hlook)

theorem Shows.recover (action : q.action = none) :
    ∃ d', Lr.step (setup tracking logging) c = Lr.Config.recover (setup tracking logging) e d' ∧
      d'.look = some e ∧ Shows tracking d' q.failed := by
  obtain ⟨log, hstep⟩ := hd.perform hlook hfill logging
  rw [action] at hstep
  obtain ⟨log', hfailure⟩ := failure_watched tracking logging (c := { d with log }) hlook
  exact ⟨_, hstep.trans hfailure, hlook, hd.failed hlook log'⟩

theorem Shows.reduce {parts below : List Frame}
    {n s : Nat} {r : Rule} (frames : q.frames = parts ++ below)
    (action : q.action = some (.reduce n)) (rule : rules[n]? = some r)
    (length : parts.length = r.body.length)
    (goto : tables.goto (topState below) (.phrase r.head) = some s) :
    ∃ c', Lr.step (setup tracking logging) c = .next c' ∧
      Shows tracking c' { q with frames := r.frame s parts :: below } := by
  obtain ⟨log, hstep⟩ := hd.perform hlook hfill logging
  obtain ⟨es, hstack, hes, hplaced⟩ := hd.stack
  rw [frames] at hes
  obtain ⟨es1, es2, rfl, hlen, hsome, hvalues, hes2⟩ := entries_split hes
  obtain ⟨rest, hrest⟩ := exists_states_eq below
  have hdrop : d.states.drop r.body.length = topState below :: rest := by
    rw [hd.states, frames, List.map_append, ← length, List.append_assoc, List.drop_left' (by simp),
      hrest]
  obtain ⟨e', log', hreduce, hsort, hvalue, hplace⟩ :=
    reduce_watched tracking logging { d with log } es1 (es2 ++ [.bare .endMark none]) rule
    (hstack.trans (List.append_assoc ..)) (hlen.trans length)
    (by simp) hsome (fun ht e he => hplaced ht e (List.mem_append_left _ he)) hdrop goto
  rw [action] at hstep
  refine ⟨_, hstep.trans hreduce, { hd with
    state := rfl
    states := by simp [Rule.frame, hrest]
    stack := ⟨e' :: es2, rfl, ?_, fun ht => List.forall_mem_cons.mpr
      ⟨hplace ht, fun e he => hplaced ht e (List.mem_append_right _ he)⟩⟩ }⟩
  rw [List.map_cons, List.map_cons, hes2, hsort, hvalue, hvalues]
  rfl

theorem Change.step (h : Change q p) :
    ∃ c', Lr.step (setup tracking logging) c = .next c' ∧ Shows tracking c' p := by
  obtain ⟨es, hstack, hes, hplaced⟩ := hd.stack
  cases h with
  | @shift t s hand action =>
    obtain ⟨log, hstep⟩ := hd.perform hlook hfill logging
    obtain rfl := hd.eq_token hlook hand
    rw [action] at hstep
    simp only [Lr.Config.perform, hlook] at hstep
    refine ⟨_, hstep, { hd with
      state := rfl
      states := by simp [hd.states, Word.frame]
      stack := ⟨t.entry :: es, by simp [hstack], by simp [hes, Word.frame, Token.entry, Token.word],
        fun ht =>
        List.forall_mem_cons.mpr ⟨placed_token t, hplaced ht⟩⟩
      hand := .nothing
      recovering := by rw [hd.recovering]
      busy := Hand.noConfusion }⟩
  | reduce frames action rule length goto =>
    exact hd.reduce hlook hfill logging frames action rule length goto
  | drop frames action hand =>
    obtain ⟨d', hstep, hlook', hd'⟩ := hd.recover hlook hfill logging action
    have hhand := hd.hand
    rw [hlook] at hhand
    have hframes : q.failed.frames = [] := frames
    have hstates : d'.states = [0] := by rw [hd'.states, hframes]; rfl
    rw [recover_empty hstates (hhand.sort ▸ hand)] at hstep
    exact ⟨_, hstep, { hd' with
      state := by rw [hframes]; rfl
      hand := .nothing
      putBack := rfl
      busy := Hand.noConfusion }⟩
  | @refuse f fs t frames action hand sort =>
    obtain ⟨d', hstep, hlook', hd'⟩ := hd.recover hlook hfill logging action
    obtain rfl := hd.eq_token hlook hand
    have hframes : q.failed.frames = f :: fs := frames
    obtain ⟨es, hstack, hes, -⟩ := hd'.stack
    rw [hframes] at hes
    cases es with
    | nil => cases hes
    | cons top rest =>
      obtain ⟨htop, -⟩ := Prod.mk.inj (List.cons.inj hes).1
      rw [recover_at_token t hstack (htop ▸ sort) (by simp [hd'.states, hframes])] at hstep
      exact ⟨_, hstep, { hd' with
        hand := .error rfl
        putBack := by rw [hd'.putBack]; rfl
        busy := fun _ => rfl }⟩
  | @pop f fs frames hand =>
    have hsort : e.sort = .errorMark := by
      have hhand := hd.hand
      rw [hlook] at hhand
      rw [hhand.sort, hand]
      rfl
    have action : q.action = none := by
      rw [← hd.action_eq hlook, hsort]
      exact action_errorMark d.state
    obtain ⟨d', hstep, hlook', hd'⟩ := hd.recover hlook hfill logging action
    have hframes : q.failed.frames = f :: fs := frames
    obtain ⟨es, hstack, hes, hplaced⟩ := hd'.stack
    obtain ⟨rest, hrest⟩ := exists_states_eq fs
    have hstates : d'.states = f.state :: topState fs :: rest := by
      rw [hd'.states, hframes, List.map_cons, List.cons_append, hrest]
    rw [hframes] at hes
    cases es with
    | nil => cases hes
    | cons top es =>
      obtain ⟨e', hrecover, hsort'⟩ := recover_at_error logging hsort hstack
        (fun ht => hplaced ht top List.mem_cons_self) hstates
      refine ⟨_, hstep.trans hrecover, { hd' with
        state := rfl
        states := hrest.symm
        stack := ⟨es, rfl, (List.cons.inj hes).2,
          fun ht e he => hplaced ht e (List.mem_cons_of_mem top he)⟩
        hand := ?_
        busy := fun _ => rfl }⟩
      have hhand : q.failed.hand = .error := hand
      rw [hhand]
      exact .error hsort'

theorem Last.step {result : Option Tree} {w : Source} (h : Last q result w) :
    ∃ c', Lr.step (setup tracking logging) c = .done result c' ∧ c'.world = w := by
  cases h with
  | @accept f fs frames action =>
    obtain ⟨log, hstep⟩ := hd.perform hlook hfill logging
    obtain ⟨es, hstack, hes, -⟩ := hd.stack
    rw [action] at hstep
    rw [frames] at hes
    cases es with
    | nil => cases hes
    | cons top es =>
      obtain ⟨-, hvalue⟩ := Prod.mk.inj (List.cons.inj hes).1
      have hresult : d.stack.head?.bind (·.value) = some f.value := by
        rw [hstack]
        exact hvalue
      exact ⟨_, hstep.trans (congrArg (Lr.Step.done · _) hresult), hd.world⟩
  | fail hand action =>
    obtain ⟨d', hstep, -, hd'⟩ := hd.recover hlook hfill logging action
    have hhand := hd.hand
    rw [hlook, hand] at hhand
    exact ⟨_, hstep.trans (recover_at_end hhand.sort), hd'.world⟩

theorem Shows.handlerCall?_eq : c.handlerCall? (setup tracking logging) = q.call? := by
  have hsole : (setup tracking logging).tables.sole c.state = none := sole_eq_none c.state
  have hfill' : c.fill (setup tracking logging) = (.ok d, d) := hfill
  have haction : (setup tracking logging).tables.action d.state e.sort = q.action :=
    hd.action_eq hlook
  have hhand := hd.hand
  have hbusy := hd.busy
  rw [hlook] at hhand
  simp only [Lr.Config.handlerCall?, hsole, hfill', hlook, haction, hd.recovering, hd.errorOk]
  rw [Pose.call?, ← Pose.reports]
  generalize q.hand = hand at hhand hbusy
  cases hhand with
  | token | ended => rfl
  | error sort => simp [hbusy rfl]

end

/-- How a run of the machine ends. -/
def EndsWith (x : Lr.Step Symbol Tree Source) (w : Source) : Except Fault (Option Tree) → Prop
  | .ok result => ∃ c, x = .done result c ∧ c.world = w
  | .error f => ∃ c, x = .fault f c ∧ c.world = w

/-- A parse of the machine goes as the run of its pose says, with and without tracking and a log. -/
theorem Runs.run {outcome : Except Fault (Option Tree)}
    (h : Runs fuel p calls outcome w) (hc : Shows tracking c p) (logging : Bool) :
    EndsWith (Lr.run (setup tracking logging) fuel c) w outcome ∧
      Lr.handlerCalls (setup tracking logging) fuel c = calls := by
  induction h generalizing c with
  | stop hand putBack pull =>
    have hfill := hc.starved hand putBack pull
    have hfill' : c.fill (setup tracking logging) = _ := hfill
    have hsole : (setup tracking logging).tables.sole c.state = none := sole_eq_none c.state
    obtain ⟨log', hstep⟩ := step_faulted tracking logging hfill
    rw [Lr.run, Lr.handlerCalls, hstep]
    refine ⟨⟨_, rfl, rfl⟩, ?_⟩
    simp only [Lr.Config.handlerCall?, hsole, hfill', Option.toList_none, List.nil_append]
  | last fills last =>
    obtain ⟨d, e, hfill, hlook, hd⟩ := fills.fill hc
    obtain ⟨c', hstep, hw⟩ := last.step hd hlook hfill logging
    rw [Lr.run, Lr.handlerCalls, hstep, hd.handlerCall?_eq hlook hfill, List.append_nil]
    exact ⟨⟨c', rfl, hw⟩, rfl⟩
  | next fills turn _ ih =>
    obtain ⟨d, e, hfill, hlook, hd⟩ := fills.fill hc
    obtain ⟨c', hstep, hc'⟩ := turn.step hd hlook hfill logging
    obtain ⟨hrun, hcalls⟩ := ih hc'
    rw [Lr.run, Lr.handlerCalls, hstep, hd.handlerCall?_eq hlook hfill]
    exact ⟨hrun, congrArg _ hcalls⟩

end LangKit.Script
