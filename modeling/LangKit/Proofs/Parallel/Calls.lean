import LangKit.Proofs.Parallel.Variables
import LangKit.Proofs.Safety.Mishaps

/-!
# Calls in two runs

What a call does before the body of its function: built-in functions print and read, other functions
are looked up, their arguments are evaluated and bound to the formals. What the evaluation of
arguments does is a matter of the evaluators, so that it is taken as given here.
-/

namespace LangKit.Script.Parallel

open Run Store
open Closures (valueKinds madeKinds)

variable {ev ev' : Bool → Datum → Run Datum} {ds ds' fs fs' vs vs' : List Datum}
  {line p kind : String} {s : Store}

variable {g : Region} {b : Bridge g} {B : Blame} {m m' m1 : Machine} {dialect : Dialect}
  {scope scope' : Scope} {v v' name f f' args args' : Datum}

structure ValueRows (b : Bridge g) (s : Store) (vs vs' : List Datum) : Prop where
  values : ∀ v ∈ vs, IsValue g s v
  like : Datum.LikeAll b.rel vs vs'

/-- What a call gives: nothing, or values that correspond. -/
inductive Results (b : Bridge g) (s : Store) : Datum → Datum → Prop
  | none : Results b s .null .null
  | some {d d' : Datum} (values : Values b s d d') : Results b s d d'

theorem Results.later (h : Results b m.store d d') (ho : Onward g m m1) :
    Results b m1.store d d' := by
  cases h with
  | none => exact .none
  | some values => exact .some (values.later ho)

theorem Pairs.cons {s : Store} {d d' : Datum} {ds ds' : List Datum}
    (h : Pairs b s (d :: ds) (d' :: ds')) :
    Pair b s d d' ∧ Pairs b s ds ds' := by
  obtain ⟨hknown, hlike⟩ := h
  obtain ⟨hd, hds⟩ := List.forall_mem_cons.1 hknown
  cases hlike with
  | cons first rest => exact ⟨⟨hd, first⟩, hds, rest⟩

/-! ## Printing and reading -/

theorem matches_outputPiece (h : Joined b m m') (hv : Values b m.store v v') :
    Matches b B m m' (outputPiece v) (outputPiece v') (fun t t' _ => t' = t) := by
  have hpiece : Matches b B m m'
      (do
        let s ← textOf (← contents v)
        if (← kindOf v) == "bool" then return (Text.lower s) else return s)
      (do
        let s ← textOf (← contents v')
        if (← kindOf v') == "bool" then return (Text.lower s) else return s)
      (fun t t' _ => t' = t) := by
    refine .contents h hv fun x hx _ => ?_
    refine .textOf h (h.text_eq ⟨known_of_isAtom hx, like_of_isAtom hx⟩) fun t _ => ?_
    exact .kindOf h hv.pair fun kind _ => matches_ite (fun _ => .pure h rfl) fun _ => .pure h rfl
  obtain ⟨r, r', rfl, rfl, -⟩ := hv.exists_node
  exact hpiece

theorem matches_outputLine {ev ev' : Datum → Run Datum} [∀ arg, Has GoesOn (ev' arg)]
    (h : Joined b m m') (hds : Pairs b m.store ds ds')
    (hev : ∀ arg arg' m1 m1', Pieced ev ds line m arg m1 → Joined b m1 m1' → Onward g m m1 →
      Pair b m1.store arg arg' →
      Matches b B m1 m1' (ev arg) (ev' arg') (After (Values b))) :
    Matches b B m m' (outputLine ev ds line) (outputLine ev' ds' line) (fun t t' _ => t' = t) := by
  induction ds generalizing ds' m m' line with
  | nil =>
    obtain ⟨-, hlike⟩ := hds
    cases hlike
    exact .pure h rfl
  | cons arg rest ih =>
    have hlike := hds.like
    cases hlike with
    | @cons _ arg' _ rest' _ _ =>
      obtain ⟨harg, hrest⟩ := hds.cons
      refine .bind (hev arg arg' m m' ⟨[], rest, line, rfl, rfl⟩ h (.refl h) harg) ?_
      intro v v' m1 m1' hv hj ho hvalues
      refine .next (matches_outputPiece hj hvalues) ?_
      rintro _ piece m2 m2' hpiece hj2 ho2 rfl
      refine ih hj2 ((hrest.later ho).later ho2) fun arg1 arg1' m3 m3' hreached hj3 ho3 => ?_
      exact hev arg1 arg1' m3 m3' (hreached.cons hv hpiece) hj3 ((ho.trans ho2).trans ho3)

theorem Matches.contentsOf {γ δ : Type} {k : Datum → Run γ} {k' : Datum → Run δ}
    {R : γ → δ → Machine → Prop} (h : Joined b m m') (hv : Results b m.store v v')
    (hk : ∀ x, x.isAtom = true → Script.contents v m = (.ok x, m) →
      Matches b B m m' (k x) (k' x) R) :
    Matches b B m m' (Script.contents v >>= k) (Script.contents v' >>= k') R := by
  cases hv with
  | some values => exact .contents h values hk
  | none => exact .refuse h rfl rfl fun _ => Fault.noConfusion

/-- The prompt of an input function. It is put out as it is, so that an integer may be too long for
a console that echoes. -/
theorem matches_promptWith {ev ev' : Datum → Run Datum} (h : Joined b m m')
    (hargs : Pair b m.store args args') (title : String)
    (hev : ∀ arg arg', items args m = (.ok [arg], m) → Pair b m.store arg arg' →
      Matches b B m m' (ev arg) (ev' arg') (After (Results b)))
    (hcut : ∀ arg v z m1 φ, items args m = (.ok [arg], m) → ev arg m = (.ok v, m1) →
      contents v m1 = (.ok z, m1) → z.isAtom = true → m1.console.echo = true →
      m1.store.textOf z = .error φ → B.cut (.fault φ) m1) :
    Matches b B m m' (promptWith title ev args) (promptWith title ev' args')
      (fun _ _ _ => True) := by
  refine .size h hargs fun n hn => matches_ite (fun hone => ?_) fun _ =>
    matches_ite (fun _ => ?_) fun _ => ?_
  · refine .items h hargs fun ds ds' hds hpairs => ?_
    have hlength : ds.length = 1 := by
      have hsize := size_of_items hds
      rw [hn] at hsize
      rw [← (ok_inj hsize).1]
      exact eq_of_beq hone
    obtain ⟨arg, rfl⟩ := List.length_eq_one_iff.1 hlength
    have hlike := hpairs.like
    cases hlike with
    | @cons _ arg' _ _ first rest =>
      cases rest
      refine .bind (hev arg arg' hds hpairs.cons.1) ?_
      intro v v' m1 m1' hv hj ho hresult
      refine .contentsOf hj hresult fun z hz hcontents => ?_
      exact matches_output hj hz fun φ hecho htext => hcut arg v z m1 φ hds hv hcontents
        hz hecho htext
  · exact matches_report h _ _
  · exact .pure h trivial

theorem matches_readInput (h : Joined b m m') (builtin : Builtin) :
    Matches b B m m' (readInput builtin) (readInput builtin) (After (Results b)) := by
  cases builtin with
  | readInt =>
    refine .next (matches_input h) ?_
    rintro _ z m1 m1' - hj - ⟨rfl, -⟩
    refine .lift hj (plain_toInteger z) fun n _ => ?_
    exact (matches_makeInt hj n).mono fun _ _ _ _ hv => .some hv
  | readText =>
    refine .next (matches_input h) ?_
    rintro _ z m1 m1' - hj - ⟨rfl, hgiven⟩
    refine .textOf hj (hgiven.text_eq hj) fun t _ => ?_
    exact (matches_makeWith hj (by decide) rfl fun _ => Closures.suits_text t).mono
      fun _ _ _ _ hv => .some hv
  | print => exact .pure h .none

theorem Scopes.exists_show (hs : Scopes b s scope scope') :
    ∃ t, ∀ m, showScope scope m = (.ok t, m) :=
  exists_showScope_of_nodes fun e he => (hs.values e he).imp fun _ h => h.1

theorem matches_printHeader (h : Joined b m m') (hs : Scopes b m.store scope scope')
    (hargs : Pair b m.store args args') (hshown : Shown args) :
    Matches b B m m' (printHeader scope args) (printHeader scope' args') (fun _ _ _ => True) := by
  obtain ⟨shown, hdisplay⟩ := hshown
  obtain ⟨text, htext⟩ := hs.exists_show
  have hleft : (do
      print ("handle_print " ++ (← lift args.display) ++ " " ++ (← showScope scope)) : Run Unit) =
      print ("handle_print " ++ shown ++ " " ++ text) := by
    funext m
    rw [hdisplay]
    change (showScope scope >>= _) m = _
    rw [bind_of_ok (htext m)]
  have hright : (do
      print ("handle_print " ++ (← lift args'.display) ++ " " ++ (← showScope scope')) : Run Unit) =
      print ("handle_print " ++ shown ++ " " ++ text) := by
    rw [hargs.like.display_eq, showScope_eq hs.like]
    exact hleft
  unfold printHeader
  rw [hleft, hright]
  refine matches_traced h (fun _ => matches_print h _) fun e m1 _ _ hfail => ?_
  cases hfail

theorem matches_putLine (h : Joined b m m') (line : String) :
    Matches b B m m' (putLine line) (putLine line) (After (Results b)) := by
  refine .next (matches_traced h (fun _ => matches_print h line)
    fun e m1 _ _ hfail => by cases hfail) fun _ _ m1 m1' _ hj _ _ => ?_
  refine .next (matches_output hj rfl fun φ _ htext => by cases htext)
    fun _ _ m2 m2' _ hj2 _ _ => ?_
  exact .pure hj2 .none

/-! ## Arguments -/

/-- What the formals of a function are known to be when arguments are evaluated: at first
nothing. -/
inductive Modes (b : Bridge g) (s : Store) : Option (List Datum) → Option (List Datum) → Prop
  | none : Modes b s none none
  | some {fs fs' : List Datum} (pairs : Pairs b s fs fs') : Modes b s (some fs) (some fs')

theorem Modes.later {formals formals' : Option (List Datum)} (h : Modes b m.store formals formals')
    (ho : Onward g m m1) : Modes b m1.store formals formals' := by
  cases h with
  | none => exact .none
  | some pairs => exact .some (pairs.later ho)

inductive PassedAs (m : Machine) (i : Nat) : Option (List Datum) → Bool → Prop
  | value : PassedAs m i none false
  | formal {fs : List Datum} {formal : Datum} {kind : String} (meant : fs[i]? = some formal)
      (mode : kindOf formal m = (.ok kind, m)) : PassedAs m i (some fs) (kind == "refarg")

theorem LikeAll.getElem? {R : Nat → Nat → Prop} (h : Datum.LikeAll R ds ds') (i : Nat) :
    (ds[i]? = none ∧ ds'[i]? = none) ∨ ∃ d d', ds[i]? = some d ∧ ds'[i]? = some d' ∧
      Datum.Like R d d' := by
  induction ds generalizing ds' i with
  | nil =>
    cases h
    exact .inl ⟨rfl, rfl⟩
  | cons d rest ih =>
    cases h with
    | cons first more =>
      cases i with
      | zero => exact .inr ⟨_, _, rfl, rfl, first⟩
      | succ i => exact ih more i

theorem matches_argValue {formals formals' : Option (List Datum)} (h : Joined b m m')
    (hmodes : Modes b m.store formals formals')
    (hev : ∀ byRef, PassedAs m i formals byRef → Matches b B m m' (ev byRef arg) (ev' byRef arg')
      fun v v' m1 => Values b m1.store v v' ∧ Settled dialect m1.store scope arg)
        (harg : Known g m.store arg) :
    Matches b B m m' (argValue dialect ev formals i arg) (argValue dialect ev' formals' i arg')
      (fun v v' m1 => Values b m1.store v v' ∧ Settled dialect m1.store scope arg) := by
  have hcopy : ∀ {v v' : Datum} {m1 m1' : Machine}, Joined b m1 m1' → Onward g m m1 →
    Values b m1.store v v' →
      Settled dialect m1.store scope arg → Matches b B m1 m1' (copy v) (copy v')
        (fun v v' m2 => Values b m2.store v v' ∧ Settled dialect m2.store scope arg) := by
    intro v v' m1 m1' hj ho hv hsettled
    refine (matches_copy hj hv).mono fun _ _ m2 ho2 hq => ⟨hq.1, ?_⟩
    exact hsettled.later (harg.mono ho.later.size) ho2.later
  cases hmodes with
  | none =>
    refine .bind (hev false .value) ?_
    rintro v v' m1 m1' - hj ho ⟨hv, hsettled⟩
    exact matches_ite (fun _ => hcopy hj ho hv hsettled) fun _ => .pure hj ⟨hv, hsettled⟩
  | @some fs fs' pairs =>
    rcases LikeAll.getElem? pairs.like i with ⟨h1, h2⟩ | ⟨formal, formal', h1, h2, hlike⟩
    · simp only [argValue, h1, h2]
      exact matches_throw h (not_isRead_of_fault fun _ => Fault.noConfusion)
    · simp only [argValue, h1, h2]
      have hformal : Pair b m.store formal formal' :=
        ⟨pairs.known formal (List.mem_of_getElem? h1), hlike⟩
      refine .kindOf h hformal fun kind hkind => ?_
      refine .bind (hev _ (.formal h1 hkind)) ?_
      rintro v v' m1 m1' - hj ho ⟨hv, hsettled⟩
      exact matches_ite (fun _ => .pure hj ⟨hv, hsettled⟩) fun _ => hcopy hj ho hv hsettled

theorem matches_argValues [∀ byRef arg, Has GoesOn (ev' byRef arg)]
    {formals formals' : Option (List Datum)} (h : Joined b m m')
    (hmodes : Modes b m.store formals formals') (hds : Pairs b m.store ds ds')
    (hev : ∀ before arg after arg' values byRef m1 m1', ds = before ++ arg :: after →
      argValues dialect ev formals i before m = (.ok values, m1) →
      PassedAs m1 (i + before.length) formals byRef → Joined b m1 m1' → Onward g m m1 →
      Pair b m1.store arg arg' → Matches b B m1 m1' (ev byRef arg) (ev' byRef arg')
        fun v v' m2 => Values b m2.store v v' ∧ Settled dialect m2.store scope arg) :
    Matches b B m m' (argValues dialect ev formals i ds) (argValues dialect ev' formals' i ds')
      (fun vs vs' m1 => ValueRows b m1.store vs vs' ∧
        ∀ arg ∈ ds, Settled dialect m1.store scope arg) := by
  induction ds generalizing ds' m m' i with
  | nil =>
    obtain ⟨-, hlike⟩ := hds
    cases hlike
    exact .pure h ⟨⟨List.forall_mem_nil _, .nil⟩, List.forall_mem_nil _⟩
  | cons arg rest ih =>
    have hlike := hds.like
    cases hlike with
    | @cons _ arg' _ rest' _ _ =>
      obtain ⟨harg, hrest⟩ := hds.cons
      rw [argValues_cons, argValues_cons]
      have hfirst : Matches b B m m' (argValue dialect ev formals i arg)
          (argValue dialect ev' formals' i arg') (fun v v' m1 => Values b m1.store v v' ∧
            Settled dialect m1.store scope arg) :=
        matches_argValue h hmodes
          (fun byRef hpassed => hev [] arg rest arg' [] byRef m m' rfl rfl hpassed h (.refl h) harg)
            harg.known
      refine .bind hfirst ?_
      rintro v v' m1 m1' hv hj ho ⟨hvalues, hsettled⟩
      have hmore := ih (i := i + 1) hj (hmodes.later ho) (hrest.later ho)
        fun before arg1 after arg1' values byRef m2 m2' hsplit hbefore hpassed hj2 ho2 => by
          refine hev (arg :: before) arg1 after arg1' (v :: values) byRef m2 m2'
            (by rw [hsplit]; rfl) ?_ ?_ hj2 (ho.trans ho2)
          · rw [argValues_cons, bind_of_ok hv, bind_of_ok hbefore, pure_apply]
          · rwa [List.length_cons, Nat.add_comm before.length, ← Nat.add_assoc]
      refine .bind hmore ?_
      rintro vs vs' m2 m2' - hj2 ho2 ⟨hrows, hsettled2⟩
      refine .pure hj2 ⟨⟨List.forall_mem_cons.2 ⟨(hvalues.later ho2).value, hrows.values⟩,
        .cons hvalues.like hrows.like⟩, List.forall_mem_cons.2 ⟨?_, hsettled2⟩⟩
      exact hsettled.later (harg.later ho).known ho2.later

/-! ## Functions -/

/-- What can be called: a value with the formals and the statements of a function. -/
def IsCallable (g : Region) (s : Store) (d : Datum) : Prop :=
  ∃ r, d = .node r ∧ g.Own s r ∧ s.kind r ∈ valueKinds ∧
    ∀ p ∈ ["args", "statements"], (s.field? r p).isSome

theorem IsCallable.later (h : IsCallable g s f) (hl : Later g s s1) : IsCallable g s1 f := by
  obtain ⟨r, rfl, hr, hk, hparts⟩ := h
  refine ⟨r, rfl, hr.mono hl.size, hl.value r hr hk, fun p hp => ?_⟩
  exact hl.parts r hr hk p (List.mem_cons_of_mem _ hp) (hparts p hp)

theorem IsCallable.known (h : IsCallable g s f) : Known g s f := by
  obtain ⟨r, rfl, hr, -⟩ := h
  exact known_node.2 hr

theorem IsCallable.present (h : IsCallable g s f) (hp : p ∈ ["args", "statements"]) :
    ∀ r, f = .node r → (s.field? r p).isSome := by
  obtain ⟨q, rfl, -, -, hparts⟩ := h
  rintro r heq
  obtain rfl := Datum.node.inj heq
  exact hparts p hp

theorem IsFunction.callable (h : IsFunction g s f) : IsCallable g s f := by
  obtain ⟨r, rfl, hr, hk, -, hparts⟩ := h
  exact ⟨r, rfl, hr, hk, fun p hp => hparts p (List.mem_cons_of_mem _ hp)⟩

theorem isCallable_of_kind (h : Furnished g m.store) (hv : IsValue g m.store v)
    (hkind : kindOf v m = (.ok kind, m)) (hk : kind = "func" ∨ kind = "lambda") :
    IsCallable g m.store v := by
  obtain ⟨r, rfl, hr, hvalue, -⟩ := hv
  obtain rfl : m.store.kind r = kind := (ok_inj hkind).1
  refine ⟨r, rfl, hr, mem_valueKinds_of_kinds hvalue, fun p hp => (h.fit r hr).required p ?_⟩
  rcases hk with hk | hk <;> rw [hk]
  · exact List.mem_cons_of_mem _ hp
  · exact hp

theorem Matches.formals {γ δ : Type} {k : List Datum → Run γ} {k' : List Datum → Run δ}
    {R : γ → δ → Machine → Prop} (h : Joined b m m') (hf : IsCallable g m.store f)
    (hl : Datum.Like b.rel f f')
    (hk : ∀ fs fs', Run.field f "args" m = (.ok (.list fs), m) → (∀ d ∈ fs, IsFormal g m.store d) →
      Datum.LikeAll b.rel fs fs' → Matches b B m m' (k fs) (k' fs') R) :
    Matches b B m m' (do k (← Run.items (← Run.field f "args")))
      (do k' (← Run.items (← Run.field f' "args"))) R := by
  refine .present h ⟨hf.known, hl⟩ (hf.present (by decide)) fun d d' hd hpair => ?_
  obtain ⟨r, rfl, hr, hvalue, -⟩ := hf
  obtain ⟨fs, rfl, hfs⟩ : AreFormals g m.store d :=
    (h.sane.furnished.fit r hr).formals hvalue d (ok_inj (field?_of_field hd)).1
  refine .items h hpair fun ds ds' hds hpairs => ?_
  obtain ⟨rfl, -⟩ := pure_eq_ok.1 hds
  exact hk fs ds' hd hfs hpairs.like

theorem matches_bindFormals (h : Joined b m m') (hs : Scopes b m.store scope scope')
    (hfs : ∀ d ∈ fs, IsFormal g m.store d) (hl : Datum.LikeAll b.rel fs fs')
    (hvs : ValueRows b m.store vs vs') :
    Matches b B m m' (bindFormals scope fs vs) (bindFormals scope' fs' vs')
      (fun sc sc' m1 => Scopes b m1.store sc sc' ∧ m1 = m) := by
  induction fs generalizing fs' vs vs' scope scope' with
  | nil =>
    cases hl
    exact .pure h ⟨hs, rfl⟩
  | cons d rest ih =>
    obtain ⟨hd, hrest⟩ := List.forall_mem_cons.1 hfs
    obtain ⟨hvalues, hlike⟩ := hvs
    cases hl with
    | cons first more =>
      cases hlike with
      | nil => exact matches_throw h (not_isRead_of_fault fun _ => Fault.noConfusion)
      | cons value values =>
        obtain ⟨hv, hvs⟩ := List.forall_mem_cons.1 hvalues
        refine .nameOf h ⟨hd.known, first⟩ (hd.present h.sane.furnished) fun x _ => .bind_pure ?_
        exact ih (hs.put x ⟨hv, value⟩) hrest more ⟨hvs, values⟩

inductive Callees (b : Bridge g) (s : Store) : Option Datum → Option Datum → Prop
  | none : Callees b s none none
  | some {d d' : Datum} (callable : IsCallable g s d) (like : Datum.Like b.rel d d') :
      Callees b s (some d) (some d')

theorem matches_findCallee (h : Joined b m m')
    (x : String) (arity : Nat) (hfs : ∀ d ∈ fs, IsFunction g m.store d)
    (hl : Datum.LikeAll b.rel fs fs') :
    Matches b B m m' (findCallee (.text x) arity fs) (findCallee (.text x) arity fs')
      (fun r r' m1 => Callees b m1.store r r' ∧ m1 = m) := by
  induction fs generalizing fs' with
  | nil =>
    cases hl
    exact .pure h ⟨.none, rfl⟩
  | cons d rest ih =>
    obtain ⟨hd, hrest⟩ := List.forall_mem_cons.1 hfs
    cases hl with
    | cons first more =>
      refine .nameOf h ⟨hd.known, first⟩ (hd.present (by decide)) fun y _ => ?_
      refine matches_ite (fun _ => ?_) fun _ => ih hrest more
      refine .present h ⟨hd.known, first⟩ (hd.present (by decide)) fun a a' _ hpair => ?_
      refine .size h hpair fun n _ => matches_ite (fun _ => ?_) fun _ => ih hrest more
      exact .pure h ⟨.some hd.callable first, rfl⟩

/-- A function that has been chosen, and the values for its formals. -/
structure Chosen (b : Bridge g) (s : Store) (r r' : Datum × List Datum × Bool) : Prop where
  callable : IsCallable g s r.1
  like : Datum.Like b.rel r.1 r'.1
  values : ValueRows b s r.2.1 r'.2.1
  named : r'.2.2 = r.2.2

theorem matches_chooseCalled (h : Joined b m m') (hs : Scopes b m.store scope scope') (x : String)
    (hvs : ValueRows b m.store vs vs') :
    Matches b B m m' (chooseCalled dialect scope (.text x) vs)
      (chooseCalled dialect scope' (.text x) vs') (fun r r' m1 => Chosen b m1.store r r' ∧
        m1 = m) := by
  have hlength := LikeAll.length_eq hvs.like
  unfold chooseCalled
  rw [hlength]
  refine .look rfl rfl (.next (matches_findCallee h x _ h.sane.functions h.functions) ?_)
  rintro r r' m1 m1' - hj - ⟨hcallees, rfl⟩
  cases hcallees with
  | some callable like => exact .pure hj ⟨⟨callable, like, hvs, rfl⟩, rfl⟩
  | none =>
    have htext : m1'.store.textOf (.text x) = m1.store.textOf (.text x) := rfl
    have hnot : Matches b B m1 m1'
        (do report .name ("No " ++ (← textOf (.text x)) ++ " function found that takes " ++
          toString vs.length ++ " parameters") : Run (Datum × List Datum × Bool))
        (do report .name ("No " ++ (← textOf (.text x)) ++ " function found that takes " ++
          toString vs.length ++ " parameters") : Run (Datum × List Datum × Bool))
        (fun r r' m2 => Chosen b m2.store r r' ∧ m2 = m1) :=
      .textOf hj htext fun t _ => matches_report hj _ _
    cases dialect.hasClosures with
    | false => exact hnot
    | true =>
      rcases hs.get? x with ⟨h1, h2⟩ | ⟨d, d', h1, h2, hd⟩
      · simp only [if_true, Scope.value?, h1, h2]
        exact hnot
      · simp only [if_true, Scope.value?, h1, h2]
        refine .kindOf hj hd.pair fun kind hkind => matches_ite (fun _ => ?_) fun hcallable => ?_
        · refine .textOf hj htext fun t _ => ?_
          exact .stop (matches_report hj _ _)
        · have hkinds : kind = "func" ∨ kind = "lambda" := by
            by_contra hne
            rw [not_or] at hne
            exact hcallable (by rw [Bool.and_eq_true, bne_iff_ne, bne_iff_ne]; exact hne)
          have hcall := isCallable_of_kind hj.sane.furnished hd.value hkind hkinds
          refine .present hj hd.pair (hcall.present (by decide)) fun a a' _ hpair => ?_
          refine .size hj hpair fun n _ => matches_ite (fun _ => ?_) fun _ => ?_
          · exact .pure hj ⟨⟨hcall, hd.like, hvs, rfl⟩, rfl⟩
          · exact .textOf hj htext fun t _ => matches_report hj _ _

/-! ## Entering a function -/

inductive RowLike (b : Bridge g) (s : Store) : Row → Row → Prop
  | block : RowLike b s .block .block
  | body {outer outer' : Scope} (scopes : Scopes b s outer outer') (title : String) :
      RowLike b s (.body outer title) (.body outer' title)
  | main : RowLike b s .main .main

structure Entered (b : Bridge g) (s : Store) (r r' : Row × List Datum × Scope) : Prop where
  row : RowLike b s r.1 r'.1
  statements : Pairs b s r.2.1 r'.2.1
  inner : Scopes b s r.2.2 r'.2.2

theorem matches_bindCaptured (h : Joined b m m') (hs : Scopes b m.store scope scope')
    (hknown : Known g m.store (.mapping es))
    (hvalues : ∀ e ∈ es, e.2 = .null ∨ IsValue g m.store e.2)
    (hl : Datum.LikeEntries b.rel es es') :
    Matches b B m m' (bindCaptured scope es) (bindCaptured scope' es')
      (After (Scopes b)) := by
  induction es generalizing es' scope scope' with
  | nil =>
    cases hl
    exact .pure h hs
  | cons e rest ih =>
    obtain ⟨k, w⟩ := e
    obtain ⟨hw, hrest⟩ := List.forall_mem_cons.1 hvalues
    obtain ⟨hk, hmore⟩ := List.forall_mem_append.1 hknown
    obtain ⟨-, hmore⟩ := List.forall_mem_append.1 hmore
    cases hl with
    | @cons _ k' _ w' _ rest' key value more =>
      rcases hw with hnull | hvalue
      · obtain rfl : w = .null := hnull
        cases value
        change Matches b B m m' (bindCaptured scope rest) (bindCaptured scope' rest') _
        exact ih hs hmore hrest more
      · have hvalues' : Values b m.store w w' := ⟨hvalue, value⟩
        have hbind : Matches b B m m'
            (do bindCaptured (Assoc.put (← nameText k) w scope) rest)
            (do bindCaptured (Assoc.put (← nameText k') w' scope') rest')
            (After (Scopes b)) :=
          .nameText h ⟨hk, key⟩ fun x _ => ih (hs.put x hvalues') hmore hrest more
        obtain ⟨r, r', rfl, rfl, -⟩ := hvalues'.exists_node
        exact hbind

theorem matches_enterBody (h : Joined b m m') (hs : Scopes b m.store scope scope') (x : String)
    (hf : IsCallable g m.store f) (hl : Datum.Like b.rel f f')
    (named : Bool) (hvs : ValueRows b m.store vs vs') :
    Matches b B m m' (enterBody scope (.text x) f named vs)
      (enterBody scope' (.text x) f' named vs') (After (Entered b)) := by
  refine .formals h hf hl fun fs fs' _ hfs hlike => .next (matches_bindFormals h hs hfs hlike hvs)
    ?_
  rintro inner inner' m1 m1' - hj ho ⟨hinner, rfl⟩
  have hstatements : ∀ {row row' : Row} {sc sc' : Scope} {m2 m2' : Machine}, Joined b m2 m2' →
    Onward g m1 m2 →
      RowLike b m2.store row row' → Scopes b m2.store sc sc' → Matches b B m2 m2'
        (do return (row, ← items (← field f "statements"), sc))
        (do return (row', ← items (← field f' "statements"), sc'))
        (After (Entered b)) := by
    intro row row' sc sc' m2 m2' hj2 ho2 hrow hsc
    have hf2 := hf.later ho2.later
    refine .present hj2 ⟨hf2.known, hl⟩ (hf2.present (by decide)) fun d d' _ hpair => ?_
    exact .items hj2 hpair fun ds ds' _ hpairs => .pure hj2 ⟨hrow, hpairs, hsc⟩
  refine matches_ite (fun _ => .bind_pure ?_) fun _ => .kindOf hj ⟨hf.known, hl⟩ fun kind _ => ?_
  · exact hstatements hj ho (.body hs x) hinner
  refine matches_ite (fun _ => ?_) fun _ => .bind_pure (hstatements hj ho .block hinner)
  refine .field hj ⟨hf.known, hl⟩ (fun _ _ _ => not_isRead_missingField (by decide))
    fun d d' hd hpair => ?_
  obtain ⟨es, rfl, hes⟩ : AreCaptured g m1.store d := by
    obtain ⟨r, rfl, hr, hvalue, -⟩ := hf
    exact (hj.sane.furnished.fit r hr).captured d (ok_inj (field?_of_field hd)).1
  have hlike := hpair.like
  cases hlike with
  | @mapping _ es' entries =>
    refine .bind_pure (.next (matches_bindCaptured hj hinner hpair.known hes entries) ?_)
    exact fun sc sc' m2 m2' _ hj2 ho2 hsc => hstatements hj2 ho2 .block hsc

end LangKit.Script.Parallel
