import LangKit.Proofs.Ast.Shape
import LangKit.Proofs.Ast.Writable

/-!
# Tracking and logging only watch

The machine that parses a program can keep track of places and can write a log. Neither of them can
fail because of what the stack looks like at any time of a parse: `Grounded` says that its frames
are on a path of the parser and that every value is one of its symbol's, which a run keeps
(`Runs.after`). A parse goes as the run of its poses says, and they know nothing of places and logs,
so it goes the same way whatever is watched: `parse_same_course`.
-/

namespace LangKit.Script

open Ast (Means MeansAll means_of_sound means_of_rule)

variable {s n : Nat} {parts : List Frame}
  {tracking logging : Bool} {c c' : PlainConfig} {p q : Pose} {text : String}

/-! ## The frames during a parse -/

/-- The value of a token fits its kind, unless it is a quote that opens no text. -/
def Token.Proper (t : Token) : Prop :=
  t.kind ≠ .quote → Sound t.word

/-- The frames are on a path and have values of their symbols, and the tokens that are yet to be
shifted have values of their kinds. -/
structure Grounded (p : Pose) : Prop where
  path : Path p.frames
  means : ∀ f ∈ p.frames, Means f.sort f.value
  hand : ∀ t, p.hand = .token t → t.Proper
  putBack : ∀ t ∈ p.putBack, t.Proper
  events : ∀ t ∈ eventTokens p.world.events, t.Proper

theorem Fills.grounded (h : Fills p q) (hp : Grounded p) : Grounded q := by
  cases h with
  | held => exact hp
  | back hand putBack =>
    obtain ⟨ht, hrest⟩ := List.forall_mem_cons.mp (putBack ▸ hp.putBack)
    refine { hp with hand := ?_, putBack := hrest }
    rintro t ⟨⟩
    exact ht
  | token hand putBack pull tokens =>
    obtain ⟨ht, hrest⟩ := List.forall_mem_cons.mp (tokens ▸ hp.events)
    refine { hp with hand := ?_, events := hrest }
    rintro t ⟨⟩
    exact ht
  | ended hand putBack pull atEnd =>
    refine { hp with hand := fun _ => Hand.noConfusion, events := ?_ }
    rw [atEnd]
    exact List.forall_mem_nil _

theorem Grounded.failed (h : Grounded p) : Grounded p.failed := by
  have hevents : p.failed.world.events = p.world.events := events_reportedIf ..
  exact { h with events := hevents ▸ h.events }

theorem kind_ne_quote_of_shift {target : Nat} {kind : TokenKind}
    (h : tables.action s (.token kind) = some (.shift target)) : kind ≠ .quote := by
  have hall : checkStates (fun _ st => st.shifts.all fun e => e.1 != .quote) = true := by
    decide +kernel
  obtain ⟨st, hst, hdue⟩ := exists_due h
  cases hdue with
  | shift hmem => simpa using List.all_eq_true.mp (of_checkStates hall hst) _ hmem

/-- Values of the frames under a rule are what the rule's parts stand for. -/
theorem meansAll_of_frames {body : List Symbol} (h : ∀ f ∈ parts, Means f.sort f.value)
    (hsorts : parts.map (·.sort) = body) : MeansAll body (parts.map (·.value)) := by
  induction parts generalizing body with
  | nil =>
    cases hsorts
    exact .nil
  | cons f parts ih =>
    cases hsorts
    obtain ⟨hf, hparts⟩ := List.forall_mem_cons.mp h
    exact .cons hf (ih hparts rfl)

theorem Change.grounded (h : Change q p) (hq : Grounded q) : Grounded p := by
  cases h with
  | @shift t s hand action =>
    have hshift : tables.action (topState q.frames) (.token t.kind) = some (.shift s) := by
      rw [Pose.action, hand] at action
      exact action
    have hmeans := means_of_sound (hq.hand t hand (kind_ne_quote_of_shift hshift))
    exact { hq with
      path := .cons hq.path (leads_of_shift hshift)
      means := List.forall_mem_cons.mpr ⟨hmeans, hq.means⟩
      hand := fun _ => Hand.noConfusion }
  | @reduce parts below n r s frames action rule length goto =>
    have hpath := hq.path
    have hall := hq.means
    rw [frames] at hpath hall
    rw [Pose.action, frames] at action
    have hmeans := means_of_rule rule (meansAll_of_frames
      (fun f hf => hall f (List.mem_append_left _ (List.mem_reverse.mp hf)))
      (hpath.sorts_of_reduction rule action length))
    exact { hq with
      path := .cons hpath.drop (leads_of_goto goto)
      means := List.forall_mem_cons.mpr ⟨hmeans, fun f hf => hall f (List.mem_append_right _ hf)⟩ }
  | drop =>
    exact { hq.failed with hand := fun _ => Hand.noConfusion, putBack := List.forall_mem_nil _ }
  | refuse frames action hand =>
    exact { hq.failed with
      hand := fun _ => Hand.noConfusion
      putBack := List.forall_mem_cons.mpr ⟨hq.hand _ hand, hq.putBack⟩ }
  | @pop f fs frames =>
    have hpath := hq.path
    have hall := hq.means
    rw [frames] at hpath hall
    exact { hq.failed with
      path := hpath.tail
      means := fun g hg => hall g (List.mem_cons_of_mem f hg) }

/-- Wherever the machine comes on its way, it is in a pose of the run, and its frames are in
order. -/
theorem Runs.after {outcome : Except Fault (Option Tree)}
    (h : Runs fuel p calls outcome w) (hp : Grounded p) (hc : Shows tracking c p)
    (hafter : Lr.After (setup tracking logging) n c c') :
    ∃ q, Grounded q ∧ Shows tracking c' q := by
  induction n generalizing fuel p calls c with
  | zero =>
    cases hafter
    exact ⟨p, hp, hc⟩
  | succ n ih =>
    obtain ⟨d, hnext, hafter⟩ := hafter
    cases h with
    | stop hand putBack pull =>
      obtain ⟨log, hstep⟩ := step_faulted tracking logging (hc.starved hand putBack pull)
      cases hnext.symm.trans hstep
    | last fills last =>
      obtain ⟨d', e, hfill, hlook, hd⟩ := fills.fill hc
      obtain ⟨c1, hstep, -⟩ := last.step hd hlook hfill logging
      cases hnext.symm.trans hstep
    | next fills turn later =>
      obtain ⟨d', e, hfill, hlook, hd⟩ := fills.fill hc
      obtain ⟨c1, hstep, hc1⟩ := turn.step hd hlook hfill logging
      cases hnext.symm.trans hstep
      exact ih later (turn.grounded (fills.grounded hp)) hc1 hafter

/-! ## Values in the log -/

namespace Ast

theorem exists_displayAll (nodeText : String)
    (h : ∀ t ∈ ts, ∃ kind fields, t = .node kind fields) :
    ∃ ss, Tree.displayAll? nodeText ts = some ss := by
  induction ts with
  | nil => exact ⟨[], rfl⟩
  | cons t ts ih =>
    obtain ⟨⟨kind, fields, rfl⟩, hts⟩ := List.forall_mem_cons.mp h
    obtain ⟨ss, hss⟩ := ih hts
    exact ⟨nodeText :: ss, by simp [Tree.displayAll?, Tree.display?, hss]⟩

theorem Expr.tree_eq_node (e : Expr) : ∃ kind fields, e.tree = .node kind fields := by
  cases e <;> exact ⟨_, _, by rw [Expr.tree]⟩

theorem Stmt.tree_eq_node (s : Stmt) : ∃ kind fields, s.tree = .node kind fields := by
  cases s with
  | expr e =>
    rw [Stmt.tree]
    exact e.tree_eq_node
  | _ => exact ⟨_, _, by rw [Stmt.tree]⟩

theorem Args.trees_eq_nodes (args : Args) :
    ∀ t ∈ args.trees, ∃ kind fields, t = .node kind fields := by
  cases args with
  | nil => simp [Args.trees]
  | cons e rest =>
    rw [Args.trees]
    exact List.forall_mem_cons.mpr ⟨e.tree_eq_node, rest.trees_eq_nodes⟩

theorem Block.trees_eq_nodes (b : Block) : ∀ t ∈ b.trees, ∃ kind fields, t = .node kind fields := by
  cases b with
  | last s =>
    rw [Block.trees]
    exact List.forall_mem_cons.mpr ⟨s.tree_eq_node, List.forall_mem_nil _⟩
  | cons s rest =>
    rw [Block.trees]
    exact List.forall_mem_cons.mpr ⟨s.tree_eq_node, rest.trees_eq_nodes⟩

theorem Means.exists_display (h : Means x t) :
    ∃ s, t.display? Lr.placedNode = some s := by
  have hnode : ∀ {t}, (∃ kind fields, t = Tree.node kind fields) →
      ∃ s, t.display? Lr.placedNode = some s := by
    rintro t ⟨kind, fields, rfl⟩
    exact ⟨_, rfl⟩
  have hlist : ∀ {ts}, (∀ t ∈ ts, ∃ kind fields, t = Tree.node kind fields) →
      ∃ s, (Tree.list ts).display? Lr.placedNode = some s := by
    intro ts hts
    obtain ⟨ss, hss⟩ := exists_displayAll Lr.placedNode hts
    rw [Tree.display?, hss]
    exact ⟨_, rfl⟩
  have htext : ∀ s, ∃ shown, (Tree.text s).display? Lr.placedNode = some shown := fun _ => ⟨_, rfl⟩
  cases x with
  | endMark | errorMark => exact h.elim
  | token kind =>
    cases kind with
    | name =>
      obtain ⟨x, rfl⟩ := h
      exact htext x.text
    | number =>
      obtain ⟨n, rfl⟩ := h
      exact n.exists_write
    | string =>
      obtain ⟨s, rfl⟩ := h
      exact htext s.text
    | _ =>
      cases h
      exact htext _
  | phrase p =>
    cases p with
    | start | program =>
      obtain ⟨p, rfl⟩ := h
      exact hnode ⟨_, _, rfl⟩
    | functions =>
      obtain ⟨f, fs, rfl⟩ := h
      refine hlist fun t ht => ?_
      obtain ⟨g, -, rfl⟩ := List.mem_map.mp ht
      exact ⟨_, _, rfl⟩
    | function | formal =>
      obtain ⟨f, rfl⟩ := h
      exact hnode ⟨_, _, rfl⟩
    | lambda | expression =>
      obtain ⟨e, rfl⟩ := h
      exact hnode e.tree_eq_node
    | formals =>
      obtain ⟨fs, rfl⟩ := h
      refine hlist fun t ht => ?_
      obtain ⟨g, -, rfl⟩ := List.mem_map.mp ht
      exact ⟨_, _, rfl⟩
    | statements =>
      obtain ⟨b, rfl⟩ := h
      exact hlist b.trees_eq_nodes
    | statement =>
      obtain ⟨s, rfl⟩ := h
      exact hnode s.tree_eq_node
    | «variable» =>
      obtain ⟨x, rfl⟩ := h
      exact htext x.text
    | arguments =>
      obtain ⟨args, rfl⟩ := h
      exact hlist args.trees_eq_nodes

end Ast

theorem Shows.exists_display (hc : Shows tracking c p) (hp : Grounded p) (he : e ∈ c.stack)
    (ht : e.value = some t) : ∃ s, t.display? Lr.placedNode = some s := by
  obtain ⟨es, hstack, hes, -⟩ := hc.stack
  rw [hstack, List.mem_append, List.mem_singleton] at he
  rcases he with he | rfl
  · have hmem : (e.sort, e.value) ∈ p.frames.map fun f => (f.sort, some f.value) :=
      hes ▸ List.mem_map_of_mem he
    obtain ⟨f, hf, heq⟩ := List.mem_map.mp hmem
    obtain rfl : f.value = t := by
      rw [ht] at heq
      exact Option.some.inj (Prod.mk.inj heq).2
    exact (hp.means f hf).exists_display
  · cases ht

/-! ## Parsing a text -/

def parseStart (tracking logging : Bool) (text : String) : PlainConfig :=
  .start (setup tracking logging) true (Source.ofText text) (if logging then Lr.logHeader else "")

def parseEnd (tracking logging : Bool) (text : String) : Lr.Step Symbol Tree Source :=
  Lr.run (setup tracking logging) (fuelFor (scan text).length) (parseStart tracking logging text)

/-- What the error handler is called with while a text is parsed. -/
def watchedCalls (tracking logging : Bool) (text : String) : List (Option Entry) :=
  Lr.handlerCalls (setup tracking logging) (fuelFor (scan text).length)
    (parseStart tracking logging text)

/-- The source as a step leaves it: what has not been read, and what has been printed. -/
def sourceAfter : Lr.Step Symbol Tree Source → Source
  | .next c => c.world
  | .done _ c => c.world
  | .fault _ c => c.world

/-- What a parse gives when the machine ends with a step. -/
def outcomeOf : Lr.Step Symbol Tree Source → Except Fault (Option Tree)
  | .next _ => .ok none
  | .done result _ => .ok result
  | .fault f _ => .error f

theorem parse_eq (tracking logging : Bool) (text : String) :
    (parse tracking logging text).outcome = outcomeOf (parseEnd tracking logging text) ∧
      (parse tracking logging text).printed =
        (sourceAfter (parseEnd tracking logging text)).printed := by
  unfold parse Reader.parse
  extract_lets source m header
  have hend : Lr.run m (fuelFor source.events.length) (.start m Reader.new.errorOk source header) =
    parseEnd tracking logging text := rfl
  rw [hend]
  cases parseEnd tracking logging text <;> exact ⟨rfl, rfl⟩

theorem grounded_startPose (text : String) : Grounded (startPose text) := by
  refine ⟨.nil, List.forall_mem_nil _, nofun, List.forall_mem_nil _, fun t ht hkind => ?_⟩
  have hword : t.word ∈ wordsOfText text := by
    rw [wordsOfText_eq]
    exact List.mem_map_of_mem ht
  exact sound_of_scanned hword hkind

theorem shows_parseStart (tracking logging : Bool) (text : String) :
    Shows tracking (parseStart tracking logging text) (startPose text) :=
  shows_start tracking logging true (Source.ofText text) _

/-- The parse of a text comes to an end, and the only fault is a number that is too long. -/
theorem exists_runs (text : String) :
    ∃ calls outcome w, Runs (fuelFor (scan text).length) (startPose text) calls outcome w ∧
      ∀ f, outcome = .error f → ∃ digits, HasOverlong (scan text) digits ∧
        f = .overlongInteger digits := by
  rcases runs_text text with ⟨digits, calls, w, hmem, hruns⟩ | ⟨_, result, calls, w, hruns, -⟩
  · refine ⟨calls, _, w, hruns, ?_⟩
    rintro f ⟨⟩
    exact ⟨digits, hmem, rfl⟩
  · exact ⟨calls, _, w, hruns, nofun⟩

theorem EndsWith.eq {outcome : Except Fault (Option Tree)}
    (h : EndsWith x w outcome) : outcomeOf x = outcome ∧ sourceAfter x = w ∧ ∀ c, x ≠ .next c := by
  cases outcome with
  | error | ok =>
    obtain ⟨c, rfl, rfl⟩ := h
    exact ⟨rfl, rfl, fun _ hc => by cases hc⟩

structure SameCourse (tracking logging : Bool) (text : String) : Prop where
  outcome : (parse tracking logging text).outcome = (parse false false text).outcome
  printed : (parse tracking logging text).printed = (parse false false text).printed
  calls : watchedCalls tracking logging text = watchedCalls false false text
  source : sourceAfter (parseEnd tracking logging text) = sourceAfter (parseEnd false false text)
  ends : ∀ c, parseEnd tracking logging text ≠ .next c
  fault : ∀ f c, parseEnd tracking logging text = .fault f c →
    ∃ digits, HasOverlong (scan text) digits ∧ f = .overlongInteger digits
  shown : ∀ n c, Lr.After (setup tracking logging) n (parseStart tracking logging text) c →
    ∀ e ∈ c.stack, ∀ t, e.value = some t → ∃ s, Lr.displayTree t = .ok s

/-- Tracking and logging only watch: with any of them the parse of a text goes the same way. -/
theorem parse_same_course (tracking logging : Bool) (text : String) :
    SameCourse tracking logging text := by
  obtain ⟨calls, outcome, w, hruns, hfault⟩ := exists_runs text
  have hshows := shows_parseStart tracking logging text
  obtain ⟨hend, hcalls⟩ := hruns.run hshows logging
  obtain ⟨hend', hcalls'⟩ := hruns.run (shows_parseStart false false text) false
  obtain ⟨houtcome, hsource, hne⟩ := EndsWith.eq hend
  obtain ⟨houtcome', hsource', -⟩ := EndsWith.eq hend'
  refine ⟨?_, ?_, hcalls.trans hcalls'.symm, hsource.trans hsource'.symm, hne, ?_, ?_⟩
  · rw [(parse_eq tracking logging text).1, (parse_eq false false text).1]
    exact houtcome.trans houtcome'.symm
  · rw [(parse_eq tracking logging text).2, (parse_eq false false text).2]
    exact congrArg Source.printed (hsource.trans hsource'.symm)
  · intro f c hc
    refine hfault f (houtcome.symm.trans ?_)
    exact congrArg outcomeOf hc
  · intro n c hafter e he t ht
    obtain ⟨q, hq, hc⟩ := hruns.after (grounded_startPose text) hshows hafter
    obtain ⟨s, hs⟩ := hc.exists_display hq he ht
    exact ⟨s, by rw [Lr.displayTree, hs]⟩

end LangKit.Script
