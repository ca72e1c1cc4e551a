import LangKit.Proofs.Parallel.Diagnostics

/-!
# Activities of a run with closures

A single run goes in step with itself, and so what two runs side by side keep up is kept up by one.
An activity of a run with closures begins in a sane state and with a scope of values (`Ready`), and
so does every activity that it starts (`Starts.ready`), hence all that are under way
(`Running.ready`).
-/

namespace LangKit.Script.Closures

open Run Store Parallel

variable {s : Store} {x f kind title text : String} {ds statements : List Datum}
  {a : Activity} {go byRef : Bool} {row : Row} {rest : List Activity}

def Bound (g : Region) (s : Store) (scope : Scope) : Prop :=
  ∀ e ∈ scope, IsValue g s e.2

structure Goes (g : Region) (m m1 : Machine) : Prop where
  sane : Sane g m1
  onward : Onward g m m1

def code : Job → Datum
  | .eval _ _ node => node
  | .exec _ node => node
  | .call _ _ args => args

def Callable : Job → Prop
  | .call _ name args => (∃ x, name = .text x) ∧ Shown args
  | _ => True

structure Ready (g : Region) (a : Activity) : Prop where
  sane : Sane g a.machine
  scope : Bound g a.machine.store a.scope
  code : Known g a.machine.store (code a.job)
  call : Callable a.job

def itself (g : Region) (m : Machine) : Bridge g :=
  still g m.console.inputs false

def anyBlame : Blame :=
  ⟨fun _ _ => True, fun _ _ => True⟩

variable {g : Region} {b : Bridge g} {B : Blame} {m m' m1 m2 : Machine} {scope scope' : Scope}
  {node d v name args : Datum} {fuel : Nat}

theorem covers_anyBlame (B : Blame) : anyBlame.Covers B :=
  ⟨fun _ _ _ => trivial, fun _ _ _ => trivial⟩

/-! ## Going on -/

theorem Goes.refl (h : Sane g m) : Goes g m m :=
  ⟨h, ⟨.refl _ _, .refl h.furnished.formed⟩⟩

theorem Goes.trans (h : Goes g m m1) (h' : Goes g m1 m2) : Goes g m m2 :=
  ⟨h'.sane, h.onward.trans h'.onward⟩

theorem Bound.later (h : Bound g m.store scope) (hg : Goes g m m1) : Bound g m1.store scope :=
  fun e he => (h e he).later hg.onward.later

theorem Known.later (h : Known g m.store d) (hg : Goes g m m1) : Known g m1.store d :=
  h.mono hg.onward.later.size

theorem Bound.value (h : Bound g s scope) (hx : Assoc.get? x scope = some v) : IsValue g s v :=
  h _ (Assoc.mem_of_get? hx)

/-! ## One run -/

theorem joined_of_sane (h : Sane g m) : Joined (itself g m) m m :=
  ⟨h, rfl, .refl _, .refl _, .refl _⟩

theorem Bound.scopes (h : Bound g s scope) : Scopes (itself g m) s scope scope :=
  ⟨h, .refl _⟩

theorem pair_of_known (h : Known g s d) : Pair (itself g m) s d d :=
  ⟨h, .refl _⟩

theorem pairs_of_known (h : ∀ d ∈ ds, Known g s d) : Pairs (itself g m) s ds ds :=
  ⟨h, .refl _⟩

theorem RowLike.itself {s : Store} {row row' : Row} (h : RowLike b s row row') :
    RowLike (itself g m) s row row := by
  cases h with
  | block => exact .block
  | body scopes title => exact .body ⟨scopes.values, .refl _⟩ title
  | main => exact .main

theorem Matches.goes {α β : Type} {x : Run α} {y : Run β} {Q : α → β → Machine → Prop} {a : α}
    (h : Matches b B m m' x y Q) (hx : x m = (.ok a, m1)) : Goes g m m1 ∧ ∃ c, Q a c m1 := by
  obtain ⟨c, m1', -, hjoined, honward, hq⟩ := h.ok a m1 hx
  exact ⟨⟨hjoined.sane, honward⟩, c, hq⟩

/-! ## Nodes of the program -/

theorem own_of_field (hd : Known g m.store d) (hv : field d f m = (.ok v, m)) :
    ∃ r, d = .node r ∧ g.Own m.store r ∧ Assoc.get? f (m.store.fields r) = some v := by
  obtain ⟨r, rfl, hfield⟩ := exists_node_of_field hv
  exact ⟨r, rfl, known_node.1 hd, hfield⟩

theorem known_field {f : String} (h : Sane g m) (hd : Known g m.store d)
    (hv : field d f m = (.ok v, m)) :
    Known g m.store v := by
  obtain ⟨r, -, hr, hfield⟩ := own_of_field hd hv
  exact h.furnished.known_field hr hfield

theorem name_of_field (h : Sane g m) (hd : Known g m.store d) (hv : field d "name" m = (.ok v, m)) :
    ∃ x, v = .text x ∧ g.names x := by
  obtain ⟨r, -, hr, hfield⟩ := own_of_field hd hv
  exact (h.furnished.fit r hr).named v hfield

theorem known_items (hd : Known g m.store d) (hds : items d m = (.ok ds, m)) :
    ∀ x ∈ ds, Known g m.store x :=
  fun x hx r hr => hd r (mem_refs_of_items hds x hx r hr)

theorem callable_of_fields (h : Sane g m) (hd : Known g m.store d)
    (hname : field d "name" m = (.ok name, m)) (hargs : field d "args" m = (.ok args, m)) :
    (∃ x, name = .text x) ∧ Shown args := by
  obtain ⟨x, hx, -⟩ := name_of_field h hd hname
  obtain ⟨r, -, hr, hfield⟩ := own_of_field hd hargs
  exact ⟨⟨x, hx⟩, (h.furnished.fit r hr).shown args hfield⟩

theorem exprForm_closures_ne_object :
    Dialect.closures.exprForm kind ≠ .object ∧ Dialect.closures.exprForm kind ≠ .methodCall := by
  unfold Dialect.exprForm
  simp only [Dialect.hasObjects, Bool.and_false, Bool.false_eq_true, if_false]
  constructor
  all_goals
    repeat' split
    all_goals exact fun h => by cases h

/-! ## What comes before a start -/

theorem matches_closures (b : Bridge g) (hg : g.closures = true) (fuel : Nat) :
    EvalMatches b .closures fuel ∧ ExecMatches b .closures fuel ∧ CallMatches b .closures fuel := by
  have hall : g.closures = Dialect.closures.hasClosures := hg
  exact matches_all b hall fuel

theorem goes_conditionTruth (h : Sane g m) (hv : IsValue g m.store v)
    (hgo : conditionTruth .closures title v m = (.ok go, m1)) : Goes g m m1 :=
  (Matches.goes (matches_conditionTruth (B := .none) title (joined_of_sane h) ⟨hv, .refl v⟩) hgo).1

theorem goes_announce (hrow : RowLike (itself g m) m.store row row) (h : Sane g m)
    (hs : Bound g m.store scope) (ha : row.announce .closures scope m = (.ok (), m1)) :
    Goes g m m1 :=
  (Matches.goes (matches_announce (B := .none) (joined_of_sane h) hs.scopes hrow) ha).1

section

variable (hg : g.closures = true)

include hg

theorem goes_eval (h : Sane g m) (hs : Bound g m.store scope) (hn : Known g m.store node)
    (hv : eval .closures fuel byRef scope node m = (.ok v, m1)) :
    Goes g m m1 ∧ IsValue g m1.store v := by
  obtain ⟨heval, -, -⟩ := matches_closures (itself g m) hg fuel
  have hsettled : Settled .closures m.store scope node := fun hobjects => by cases hobjects
  obtain ⟨hgoes, v', hvalues, -⟩ := Matches.goes
    (heval byRef (joined_of_sane h) hs.scopes (pair_of_known hn) fun _ => hsettled) hv
  exact ⟨hgoes, hvalues.value⟩

section

variable (hrow : RowLike (itself g m) m.store row row) (h : Sane g m) (hs : Bound g m.store scope)
  (hds : ∀ d ∈ ds, Known g m.store d)

include hrow h hs hds

theorem goes_block {r : Scope × Datum}
    (hr : block (row.step .closures fuel) ds scope m = (.ok r, m1)) :
    Goes g m m1 ∧ Bound g m1.store r.1 := by
  obtain ⟨-, hexec, -⟩ := matches_closures (itself g m) hg fuel
  have hblock : Matches (itself g m) anyBlame m m (block (row.step .closures fuel) ds scope)
      (block (row.step .closures fuel) ds scope) (After (Ends (itself g m))) := by
    refine matches_block (joined_of_sane h) hs.scopes (pairs_of_known hds) ?_
    intro s s' scope1 scope1' m2 m2' _ hj ho hscopes hpair
    refine matches_step (hrow.later ho) hj hscopes (fun m3 m3' _ hj3 ho3 => ?_) ?_
    · exact (hexec hj3 (hscopes.later ho3) (hpair.later ho3)).blame (covers_anyBlame _)
    · exact fun _ _ _ _ _ _ _ _ _ _ _ hplain => by cases hplain
  obtain ⟨hgoes, r', hends⟩ := Matches.goes hblock hr
  exact ⟨hgoes, hends.scopes.values⟩

theorem goes_reached {s : Datum} (hr : Reached (row.step .closures fuel) ds scope m s scope' m1) :
    Goes g m m1 ∧ Bound g m1.store scope' ∧ Known g m1.store s := by
  obtain ⟨before, after, rfl, hbefore⟩ := hr
  obtain ⟨hgoes, hscope⟩ :=
    goes_block hg hrow h hs (fun d hd => hds d (List.mem_append_left _ hd)) hbefore
  exact ⟨hgoes, hscope, Known.later (hds s (List.mem_append_right before List.mem_cons_self)) hgoes⟩

end

section

variable (h : Sane g m) (hs : Bound g m.store scope)

include h hs

theorem goes_reachedBlock {body s : Datum} (hbody : Known g m.store body)
    (hds : items body m = (.ok ds, m)) (hr : Reached (exec .closures fuel) ds scope m s scope' m1) :
    Goes g m m1 ∧ Bound g m1.store scope' ∧ Known g m1.store s := by
  rw [← Row.step_block] at hr
  exact goes_reached hg .block h hs (known_items hbody hds) hr

theorem goes_loopTest (hn : Known g m.store node)
    (hgo : loopTest .closures fuel scope node m = (.ok go, m1)) :
    Goes g m m1 := by
  obtain ⟨d, hd, hgo⟩ := look_eq_ok hgo
  obtain ⟨v, m3, hv, hgo⟩ := bind_eq_ok.1 hgo
  obtain ⟨hgoes, hvalue⟩ := goes_eval hg h hs (known_field h hn hd) hv
  exact hgoes.trans (goes_conditionTruth hgoes.sane hvalue hgo)

theorem goes_loopBody (hn : Known g m.store node)
    (hv : loopBody .closures fuel scope node m = (.ok v, m1)) :
    Goes g m m1 := by
  obtain ⟨body, hbody, hv⟩ := look_eq_ok hv
  obtain ⟨ds, hds, hv⟩ := look_eq_ok hv
  obtain ⟨r, m4, hr, hv⟩ := bind_eq_ok.1 hv
  obtain ⟨-, rfl⟩ := pure_eq_ok.1 hv
  rw [← Row.step_block] at hr
  exact (goes_block hg .block h hs (known_items (known_field h hn hbody) hds) hr).1

theorem goes_rounds {rounds : Nat} (hn : Known g m.store node)
    (hr : Rounds (loopTest .closures fuel scope node) (loopBody .closures fuel scope node)
      rounds m m1) :
    Goes g m m1 := by
  induction hr with
  | first => exact .refl h
  | next go round _ ih =>
    have hgo := goes_loopTest hg h hs hn go
    have hround := hgo.trans (goes_loopBody hg hgo.sane (hs.later hgo) (Known.later hn hgo) round)
    exact hround.trans (ih hround.sane (hs.later hround) (Known.later hn hround))

theorem goes_outputLine (hds : ∀ d ∈ ds, Known g m.store d) {line line' : String}
    (hl : outputLine (eval .closures fuel false scope) ds line m = (.ok line', m1)) :
    Goes g m m1 := by
  obtain ⟨heval, -, -⟩ := matches_closures (itself g m) hg fuel
  have hline : Matches (itself g m) anyBlame m m
      (outputLine (eval .closures fuel false scope) ds line)
      (outputLine (eval .closures fuel false scope) ds line) (fun t t' _ => t' = t) := by
    refine matches_outputLine (joined_of_sane h) (pairs_of_known hds)
      fun arg arg' m2 m2' _ hj ho hpair => ?_
    refine ((heval false hj (hs.scopes.later ho) hpair nofun).mono fun _ _ _ _ hq => hq.1).blame ?_
    exact covers_anyBlame _
  exact (Matches.goes hline hl).1

theorem goes_argValues {values : List Datum} (hds : ∀ d ∈ ds, Known g m.store d)
    {formals : Option (List Datum)} (hmodes : Modes (itself g m) m.store formals formals) {i : Nat}
    (hv : argValues .closures (argument .closures fuel scope) formals i ds m = (.ok values, m1)) :
    Goes g m m1 := by
  obtain ⟨heval, -, -⟩ := matches_closures (itself g m) hg fuel
  have hvalues : Matches (itself g m) anyBlame m m
      (argValues .closures (argument .closures fuel scope) formals i ds)
      (argValues .closures (argument .closures fuel scope) formals i ds) (fun vs vs' m2 =>
        ValueRows (itself g m) m2.store vs vs' ∧
        ∀ arg ∈ ds, Settled .closures m2.store scope arg) := by
    refine matches_argValues (joined_of_sane h) hmodes (pairs_of_known hds) ?_
    intro before arg after arg' values byRef m2 m2' _ _ _ hj ho hpair
    have hsettled : Settled .closures m2.store scope arg := fun hobjects => by cases hobjects
    exact (heval byRef hj (hs.scopes.later ho) hpair fun _ => hsettled).blame (covers_anyBlame _)
  exact (Matches.goes hvalues hv).1

theorem goes_findCalled (hargs : Known g m.store args) (hown : Builtin.ofName? (.text x) = none)
    {r : Datum × List Datum × Bool}
    (hr : findCalled .closures fuel scope (.text x) args m = (.ok r, m1)) :
    Goes g m m1 ∧ Known g m1.store r.1 := by
  obtain ⟨heval, -, -⟩ := matches_closures (itself g m) hg fuel
  obtain ⟨hgoes, r', hchosen, -⟩ := Matches.goes
    (matches_findCalled heval (joined_of_sane h) hs.scopes hown (pair_of_known hargs)) hr
  exact ⟨hgoes, hchosen.callable.known⟩

theorem goes_enterCall (hargs : Known g m.store args) (hown : Builtin.ofName? (.text x) = none)
    {inner : Scope} (hr : enterCall .closures fuel scope (.text x) args m =
      (.ok (row, statements, inner), m1)) :
    Goes g m m1 ∧ RowLike (itself g m1) m1.store row row ∧ (∀ s ∈ statements, Known g m1.store s) ∧
      Bound g m1.store inner := by
  obtain ⟨heval, -, -⟩ := matches_closures (itself g m) hg fuel
  obtain ⟨hgoes, r', hentered⟩ := Matches.goes
    (matches_enterCall heval (joined_of_sane h) hs.scopes hown (pair_of_known hargs)) hr
  exact ⟨hgoes, RowLike.itself hentered.row, hentered.statements.known, hentered.inner.values⟩

end

end

/-! ## Activities that are started -/

theorem Goes.ready_eval (hgoes : Goes g m m1) (hs : Bound g m.store scope)
    (hd : Known g m1.store d) :
    Ready g ⟨fuel, .eval byRef scope d, m1⟩ ∧ Goes g m m1 :=
  ⟨⟨hgoes.sane, hs.later hgoes, hd, trivial⟩, hgoes⟩

theorem Starts.ready {c : Activity} (hg : g.closures = true) (h : Starts .closures a c)
    (ha : Ready g a) :
    Ready g c ∧ Goes g a.machine c.machine := by
  obtain ⟨hsane, hs, hcode, hcall⟩ := ha
  have hrefl := Goes.refl hsane
  cases h with
  | left _ operand => exact hrefl.ready_eval hs (known_field hsane hcode operand)
  | right _ first left operand =>
    obtain ⟨hgoes, -⟩ := goes_eval hg hsane hs (known_field hsane hcode first) left
    exact hgoes.ready_eval hs (known_field hgoes.sane (Known.later hcode hgoes) operand)
  | operand _ operand => exact hrefl.ready_eval hs (known_field hsane hcode operand)
  | invoke _ called given =>
    exact ⟨⟨hsane, hs, known_field hsane hcode given, callable_of_fields hsane hcode called given⟩,
      hrefl⟩
  | invokeMember form _ _ _ =>
    obtain ⟨kind, -, hform⟩ := form
    exact absurd hform exprForm_closures_ne_object.2
  | assigned _ _ _ right => exact hrefl.ready_eval hs (known_field hsane hcode right)
  | condition _ asked => exact hrefl.ready_eval hs (known_field hsane hcode asked)
  | branch _ asked answer truth chosen row reached =>
    obtain ⟨hgoes1, hvalue⟩ := goes_eval hg hsane hs (known_field hsane hcode asked) answer
    have hgoes := hgoes1.trans (goes_conditionTruth hgoes1.sane hvalue truth)
    have hbody := known_field hgoes.sane (Known.later hcode hgoes) chosen
    obtain ⟨hgoes3, hscope, hknown⟩ :=
      goes_reachedBlock hg hgoes.sane (hs.later hgoes) hbody row reached
    exact ⟨⟨hgoes3.sane, hscope, hknown, trivial⟩, hgoes.trans hgoes3⟩
  | test _ rounds asked =>
    have hgoes := goes_rounds hg hsane hs hcode rounds
    exact hgoes.ready_eval hs (known_field hgoes.sane (Known.later hcode hgoes) asked)
  | round _ rounds go repeated row reached =>
    have hgoes1 := goes_rounds hg hsane hs hcode rounds
    have hgoes := hgoes1.trans (goes_loopTest hg hgoes1.sane (hs.later hgoes1)
      (Known.later hcode hgoes1) go)
    have hbody := known_field hgoes.sane (Known.later hcode hgoes) repeated
    obtain ⟨hgoes3, hscope, hknown⟩ :=
      goes_reachedBlock hg hgoes.sane (hs.later hgoes) hbody row reached
    exact ⟨⟨hgoes3.sane, hscope, hknown, trivial⟩, hgoes.trans hgoes3⟩
  | result _ right _ => exact hrefl.ready_eval hs (known_field hsane hcode right)
  | perform _ called given =>
    exact ⟨⟨hsane, hs, known_field hsane hcode given, callable_of_fields hsane hcode called given⟩,
      hrefl⟩
  | prompt _ _ row => exact hrefl.ready_eval hs (known_items hcode row _ List.mem_cons_self)
  | @piece _ _ _ _ _ before _ _ _ _ _ _ header row earlier =>
    obtain ⟨hgoes1, -⟩ := Matches.goes
      (matches_printHeader (B := anyBlame) (joined_of_sane hsane) hs.scopes (pair_of_known hcode)
        hcall.2) header
    have hknown := known_items (Known.later hcode hgoes1) row
    have hgoes2 := goes_outputLine hg hgoes1.sane (hs.later hgoes1)
      (fun d hd => hknown d (List.mem_append_left _ hd)) earlier
    exact (hgoes1.trans hgoes2).ready_eval hs
      (Known.later (hknown _ (List.mem_append_right before List.mem_cons_self)) hgoes2)
  | @argument _ _ _ before _ _ _ _ _ _ _ row earlier =>
    have hknown := known_items hcode row
    have hgoes := goes_argValues hg hsane hs (fun d hd => hknown d (List.mem_append_left _ hd))
      .none earlier
    exact hgoes.ready_eval hs
      (Known.later (hknown _ (List.mem_append_right before List.mem_cons_self)) hgoes)
  | @pass _ _ _ _ _ _ _ _ _ _ _ before _ _ _ _ _ _ own _ found declared parameters row
      earlier _ _ =>
    obtain ⟨⟨x, rfl⟩, -⟩ := hcall
    obtain ⟨hgoes1, hf⟩ := goes_findCalled hg hsane hs hcode own found
    have hformals := known_items (known_field hgoes1.sane hf declared) parameters
    have hknown := known_items (Known.later hcode hgoes1) row
    have hgoes2 := goes_argValues hg hgoes1.sane (hs.later hgoes1)
      (fun d hd => hknown d (List.mem_append_left _ hd)) (.some (pairs_of_known hformals)) earlier
    exact (hgoes1.trans hgoes2).ready_eval hs
      (Known.later (hknown _ (List.mem_append_right before List.mem_cons_self)) hgoes2)
  | body own entered reached announced =>
    obtain ⟨⟨x, rfl⟩, -⟩ := hcall
    obtain ⟨hgoes1, hrow, hstatements, hinner⟩ := goes_enterCall hg hsane hs hcode own entered
    obtain ⟨hgoes2, hscope, hknown⟩ := goes_reached hg hrow hgoes1.sane hinner hstatements reached
    have hgoes3 := goes_announce (RowLike.itself (hrow.later hgoes2.onward)) hgoes2.sane
      hscope announced
    exact ⟨⟨hgoes3.sane, hscope.later hgoes3, Known.later hknown hgoes3, trivial⟩,
      (hgoes1.trans hgoes2).trans hgoes3⟩

/-! ## Whole runs -/

section

variable (hg : g.closures = true) (hbegun : Begun (itself g m) m m) (hallows : g.AllowsText text)

include hg hbegun hallows

theorem MainStarts.ready (h : MainStarts .closures limit text m a) : Ready g a := by
  cases h with
  | statement entered reached announced =>
    obtain ⟨hgoes, ds', hpairs⟩ :=
      Matches.goes (matches_enterMain (B := .none) hbegun nofun hallows) entered
    obtain ⟨hgoes1, hscope, hknown⟩ :=
      goes_reached hg .main hgoes.sane (List.forall_mem_nil _) hpairs.known reached
    have hgoes2 := goes_announce .main hgoes1.sane hscope announced
    exact ⟨hgoes2.sane, hscope.later hgoes2, Known.later hknown hgoes2, trivial⟩

/-- Whatever is under way has begun with all nodes in shape, and all live scopes are scopes of
values. -/
theorem Running.ready (h : Running .closures limit text m (a :: rest)) :
    Ready g a ∧ ∀ c ∈ rest, Bound g a.machine.store c.scope := by
  generalize hrow : a :: rest = row at h
  induction h generalizing a rest with
  | main starts =>
    obtain ⟨rfl, rfl⟩ := List.cons.inj hrow
    exact ⟨MainStarts.ready hg hbegun hallows starts, nofun⟩
  | inner _ starts ih =>
    obtain ⟨rfl, rfl⟩ := List.cons.inj hrow
    obtain ⟨ha, hrest⟩ := ih rfl
    obtain ⟨hc, hgoes⟩ := Starts.ready hg starts ha
    exact ⟨hc, List.forall_mem_cons.2 ⟨ha.scope.later hgoes,
      fun c hmem => (hrest c hmem).later hgoes⟩⟩

end

theorem Running.ready_start {echo trace : Bool}
    (h : Running .closures limit text (Machine.start echo trace inputs typed) (a :: rest)) :
    Ready (regionOf (.scoped .closures) (Machine.start echo trace inputs typed)) a ∧ ∀ c ∈ rest,
      Bound (regionOf (.scoped .closures) (Machine.start echo trace inputs typed))
        a.machine.store c.scope :=
  Running.ready rfl ⟨rfl, rfl, (separate_start echo trace inputs typed).formed, rfl, .refl _⟩
    (allowsText_of_objects rfl text) h

end LangKit.Script.Closures
