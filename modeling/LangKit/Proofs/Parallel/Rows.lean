import LangKit.Proofs.Parallel.Calls

/-!
# Rows of statements in two runs

An activity of a run can fail because a field is read that is not there (`ReadMishap`), and because
a diagnostic cannot be printed (`CutMishap`). A failure of an activity comes from a mishap of the
activity itself or of one that it has started (`Fails`). Rows of statements and loops go in step if
their parts do.
-/

namespace LangKit.Script.Parallel

open Run
open Closures (valueKinds madeKinds)

variable {α β : Type} {row row' : Row}

/-! ## Mishaps -/

section

variable (dialect : Dialect)

inductive Lacks : Activity → Prop
  | object (form : IsExpression dialect m node .object)
      (missing : field node "name" m = (.error (.fault (Fault.missingField "name")), m)) :
      Lacks ⟨fuel + 1, .eval byRef scope node, m⟩
  | member (objects : dialect.hasObjects = true) (form : IsStatement m node .assign)
      (called : field node "name" m = (.ok (.text x), m)) (dotted : isDotted x = true)
      (right : field node "expression" m = (.ok d, m))
      (value : eval dialect fuel false scope d m = (.ok v, m1)) (kept : m2.store = m1.store)
      (missing : boundMember scope x m2 = (.error e, m2)) : Lacks ⟨fuel + 1, .exec scope node, m⟩

/-- An activity fails, and it asks a node for a field that is not there. -/
def ReadMishap (a : Activity) (e : Stop) (m1 : Machine) : Prop :=
  Lacks dialect a ∧ a.run dialect a.machine = (.error e, m1)

/-- An activity fails because a diagnostic cannot be printed. -/
inductive CutMishap : Activity → Stop → Machine → Prop
  | trace (plain : dialect.hasClosures = false) (own : Builtin.ofName? name = none)
      (entered : enterCall dialect fuel scope name args m =
      (.ok (.body outer title, statements, scope0), m1)) (reached :
      Reached ((Row.body outer title).step dialect fuel) statements scope0 m1 s scope1 m2)
      (announced : (Row.body outer title).announce dialect scope1 m2 = (.ok (), m3))
      (done : exec dialect fuel s scope1 m3 = (.ok (scope2, result), m4))
      (traced : m4.console.trace = true) (failed : traceCall scope2 outer m4 = (.error e, m5)) :
      CutMishap ⟨fuel + 1, .call scope name args, m⟩ e m5
  | echo (known : Builtin.ofName? name = some builtin) (reads : builtin ≠ .print)
      (row : items args m = (.ok [arg], m))
      (value : eval dialect fuel false scope arg m = (.ok v, m1))
      (prompt : contents v m1 = (.ok z, m1)) (echo : m1.console.echo = true)
      (failed : m1.store.textOf z = .error φ) :
      CutMishap ⟨fuel + 1, .call scope name args, m⟩ (.fault φ) m1

inductive Fails (mishap : Activity → Stop → Machine → Prop) : Activity → Stop → Machine → Prop
  | here (own : mishap a e m) : Fails mishap a e m
  | inner (starts : Starts dialect a c) (failure : Fails mishap c e m) : Fails mishap a e m

def blame (a : Activity) : Blame where
  reads := Fails dialect (ReadMishap dialect) a
  cut := Fails dialect (CutMishap dialect) a

end

variable {g : Region} {b : Bridge g}
  {B : Blame} {m m' m1 : Machine} {dialect : Dialect} {fuel : Nat} {scope scope' : Scope}
  {node node' : Datum} {kind : String}

theorem covers_of_starts (h : Starts dialect a c) : (blame dialect a).Covers (blame dialect c) :=
  ⟨fun _ _ => .inner h, fun _ _ => .inner h⟩

theorem Matches.because {Q : α → β → Machine → Prop} {B' : Blame}
    (h : Matches b B' m m' x y Q)
    (hreads : ∀ e m1, x m = (.error e, m1) → B'.reads e m1 → B.reads e m1)
    (hcut : ∀ e m1, x m = (.error e, m1) → B'.cut e m1 → B.cut e m1) : Matches b B m m' x y Q where
  ok := h.ok
  error e m1 hx := by
    obtain ⟨hspares, hread, hend⟩ := h.error e m1 hx
    exact ⟨hspares, fun he => hreads e m1 hx (hread he),
      hend.imp_left fun hc => ⟨hc.hushed, hcut e m1 hx hc.cause, hc.further⟩⟩

/-! ## Code -/

def IsCode (g : Region) (s : Store) (node : Datum) (kind : String) : Prop :=
  ∃ r, node = .node r ∧ g.Own s r ∧ s.kind r = kind ∧ kind ∉ valueKinds

theorem IsCode.later (h : IsCode g s node kind) (hl : Later g s s1) :
    IsCode g s1 node kind := by
  obtain ⟨r, rfl, hr, rfl, hk⟩ := h
  exact ⟨r, rfl, hr.mono hl.size, congrArg Prod.fst (hl.code r hr hk), hk⟩

theorem IsCode.present (h : IsCode g m.store node kind) (hm : Furnished g m.store)
    (hf : f ∈ required kind) : ∀ r, node = .node r → (m.store.field? r f).isSome := by
  obtain ⟨q, rfl, hq, rfl, -⟩ := h
  rintro r heq
  obtain rfl := Datum.node.inj heq
  exact (hm.fit q hq).required f hf

theorem IsCode.shown (h : IsCode g m.store node kind) (hm : Furnished g m.store) {args : Datum}
    (hargs : field node "args" m = (.ok args, m)) : Shown args := by
  obtain ⟨q, rfl, hq, -⟩ := h
  exact (hm.fit q hq).shown args (ok_inj (field?_of_field hargs)).1

/-- Like nodes of code, whose kind says which fields they have. -/
structure CodePair (b : Bridge g) (s : Store) (kind : String) (node node' : Datum) : Prop where
  pair : Pair b s node node'
  code : IsCode g s node kind

theorem CodePair.later (h : CodePair b m.store kind node node') (ho : Onward g m m1) :
    CodePair b m1.store kind node node' :=
  ⟨h.pair.later ho, h.code.later ho.later⟩

section

variable {γ δ : Type} {R : γ → δ → Machine → Prop} (h : Joined b m m')
  (hn : CodePair b m.store kind node node')
include h hn

theorem Matches.part (hp : p ∈ required kind)
    (hk : ∀ d d', Run.field node p m = (.ok d, m) → Pair b m.store d d' →
      Matches b B m m' (f d) (k d') R) :
    Matches b B m m' (Run.field node p >>= f) (Run.field node' p >>= k) R :=
  .present h hn.pair (hn.code.present h.sane.furnished hp) hk

theorem Matches.name (hp : "name" ∈ required kind)
    (hk : ∀ x : String, Run.field node "name" m = (.ok (.text x), m) →
      Matches b B m m' (f (.text x)) (k (.text x)) R) :
    Matches b B m m' (Run.field node "name" >>= f) (Run.field node' "name" >>= k) R :=
  .nameOf h hn.pair (hn.code.present h.sane.furnished hp) hk

theorem Matches.invocation {f : Datum → Datum → Run γ} {k : Datum → Datum → Run δ}
    (hp : ∀ p ∈ ["name", "args"], p ∈ required kind)
    (hk : ∀ x args args', Run.field node "name" m = (.ok (.text x), m) →
      Run.field node "args" m = (.ok args, m) →
      Pair b m.store args args' → Shown args → Matches b B m m' (f (.text x) args)
        (k (.text x) args') R) :
    Matches b B m m' (do f (← Run.field node "name") (← Run.field node "args"))
      (do k (← Run.field node' "name") (← Run.field node' "args")) R := by
  refine .name h hn (hp _ (by decide)) fun x hx => .part h hn (hp _ (by decide))
    fun args args' hargs hpair => ?_
  exact hk x args args' hx hargs hpair (hn.code.shown h.sane.furnished hargs)

end

theorem kindOf_cases (h : Joined b m m') (hn : Pair b m.store node node') :
    (∃ e, kindOf node m = (.error e, m) ∧ kindOf node' m' = (.error e, m') ∧ ¬ IsRead e) ∨
      ∃ r, node = .node r ∧ g.Own m.store r ∧ kindOf node m = (.ok (m.store.kind r), m) ∧
        kindOf node' m' = (.ok (m.store.kind r), m') := by
  obtain ⟨hknown, hlike⟩ := hn
  cases hlike with
  | @node r r' related =>
    have hr := known_node.1 hknown
    refine .inr ⟨r, rfl, hr, rfl, ?_⟩
    rw [← b.kind h.stores hr related]
    rfl
  | _ =>
    exact .inl ⟨_, rfl, rfl, not_isRead_of_fault fun _ => Fault.noConfusion⟩

/-! ## Statements of a row -/

theorem RowLike.later {row row' : Row} (h : RowLike b m.store row row') (ho : Onward g m m1) :
    RowLike b m1.store row row' := by
  cases h with
  | block => exact .block
  | body scopes title => exact .body (scopes.later ho) title
  | main => exact .main

section

variable (h : Joined b m m') (hs : Scopes b m.store scope scope')

include h hs

theorem matches_announce (hrow : RowLike b m.store row row') :
    Matches b B m m' (row.announce dialect scope) (row'.announce dialect scope')
      (fun _ _ _ => True) := by
  have hprint : ∀ {sc sc' : Scope} (title : String), Scopes b m.store sc sc' → Matches b B m m'
      (do
        if dialect.hasClosures then
          print (← showScope sc)
          print title)
      (do
        if dialect.hasClosures then
          print (← showScope sc')
          print title) (fun _ _ _ => True) := by
    intro sc sc' title hsc
    obtain ⟨text, htext⟩ := hsc.exists_show
    refine matches_ite (fun _ => ?_) fun _ => .pure h trivial
    rw [showScope_eq hsc.like]
    refine .look (htext m) (htext m') ?_
    exact .next (matches_print h text) fun _ _ m1 m1' _ hj _ _ => matches_print hj title
  cases hrow with
  | block => exact .pure h trivial
  | body scopes title => exact hprint title scopes
  | main => exact hprint "main" hs

theorem matches_traceScope :
    Matches b B m m' (traceScope scope) (traceScope scope') (fun _ _ _ => True) := by
  obtain ⟨hvalues, hlike⟩ := hs
  induction hlike generalizing m m' with
  | nil => exact .pure h trivial
  | @cons name d d' rest rest' first more ih =>
    obtain ⟨hd, hrest⟩ := List.forall_mem_cons.1 hvalues
    refine .contents h ⟨hd, first⟩ fun x hx _ => ?_
    refine .textOf h (h.text_eq ⟨known_of_isAtom hx, like_of_isAtom hx⟩) fun t _ => ?_
    refine .next (matches_print h _) fun _ _ m1 m1' _ hj ho _ => ?_
    exact ih hj fun e he => (hrest e he).later ho.later

theorem matches_traceCall (ho : Scopes b m.store outer outer') :
    Matches b B m m' (traceCall scope outer) (traceCall scope' outer') (fun _ _ _ => True) := by
  obtain ⟨text, htext⟩ := hs.exists_show
  refine .look (htext m) ((congrFun (showScope_eq hs.like) m').trans (htext m')) ?_
  refine .next (matches_print h text) fun _ _ m1 m1' _ h1 ho1 _ => ?_
  refine .next (matches_print h1 _) fun _ _ m2 m2' _ h2 ho2 _ => ?_
  have ho2 := ho1.trans ho2
  refine .next (matches_traceScope h2 (hs.later ho2)) fun _ _ m3 m3' _ h3 ho3 _ => ?_
  have ho3 := ho2.trans ho3
  refine .next (matches_print h3 _) fun _ _ m4 m4' _ h4 ho4 _ => ?_
  refine .next (matches_print h4 _) fun _ _ m5 m5' _ h5 ho5 _ => ?_
  have ho5 := (ho3.trans ho4).trans ho5
  refine .next (matches_traceScope h5 (ho.later ho5)) fun _ _ m6 m6' _ h6 _ _ => ?_
  exact .next (matches_print h6 _) fun _ _ m7 m7' _ h7 _ _ => matches_print h7 _

theorem matches_finish (hrow : RowLike b m.store row row')
    (hcut : ∀ outer title e m1, row = .body outer title → dialect.hasClosures = false →
      m.console.trace = true → traceCall scope outer m = (.error e, m1) → B.cut e m1) :
    Matches b B m m' (row.finish dialect scope) (row'.finish dialect scope')
      (fun _ _ _ => True) := by
  cases hrow with
  | block | main => exact .pure h trivial
  | @body outer outer' scopes title =>
    refine matches_ite (fun hclosures => ?_) fun _ => .pure h trivial
    refine matches_traced h (fun _ => matches_traceCall h hs scopes) ?_
    intro e m1 _ htrace hfail
    have hcall := (matches_traceCall (B := .none) h hs scopes).error e m1 hfail
    refine ⟨hcut outer title e m1 rfl ?_ htrace hfail, hcall.2.1⟩
    rwa [Bool.not_eq_true'] at hclosures

end

/-- What statements leave: a scope, and a result or none. -/
structure Ends (b : Bridge g) (s : Store) (r r' : Scope × Datum) : Prop where
  scopes : Scopes b s r.1 r'.1
  result : Results b s r.2 r'.2

theorem matches_step (hrow : RowLike b m.store row row') (h : Joined b m m')
    (hs : Scopes b m.store scope scope')
    (hexec : ∀ m1 m1', row.announce dialect scope m = (.ok (), m1) → Joined b m1 m1' →
      Onward g m m1 →
      Matches b B m1 m1' (exec dialect fuel s scope) (exec dialect fuel s' scope')
        (After (Ends b))) (hcut : ∀ outer title m1 scope1 d m2 e m3, row = .body outer title →
      row.announce dialect scope m = (.ok (), m1) →
      exec dialect fuel s scope m1 = (.ok (scope1, d), m2) → dialect.hasClosures = false →
      m2.console.trace = true → traceCall scope1 outer m2 = (.error e, m3) → B.cut e m3) :
    Matches b B m m' (row.step dialect fuel s scope) (row'.step dialect fuel s' scope')
      (After (Ends b)) := by
  refine .next (matches_announce h hs hrow) fun _ _ m1 m1' hsaid hj ho _ => ?_
  refine .bind (hexec m1 m1' hsaid hj ho) ?_
  rintro ⟨scope1, d⟩ ⟨scope1', d'⟩ m2 m2' hdone hj2 ho2 ⟨hscopes, hresult⟩
  have hfinish : Matches b B m2 m2' (row.finish dialect scope1) (row'.finish dialect scope1')
      (fun _ _ _ => True) :=
    matches_finish hj2 hscopes (hrow.later (ho.trans ho2)) fun outer title e m3 hbody hclosures =>
      hcut outer title m1 scope1 d m2 e m3 hbody hsaid hdone hclosures
  refine .bind hfinish fun _ _ m3 m3' _ hj3 ho3 _ => ?_
  exact .pure hj3 ⟨hscopes.later ho3, hresult.later ho3⟩

/-! ## Rows and loops -/

section

variable {step step' : Datum → Scope → Run (Scope × Datum)}

theorem matches_block [∀ s scope, Has GoesOn (step' s scope)] (h : Joined b m m')
    (hs : Scopes b m.store scope scope') (hds : Pairs b m.store ds ds')
    (hstep : ∀ s s' scope1 scope1' m1 m1', Reached step ds scope m s scope1 m1 → Joined b m1 m1' →
      Onward g m m1 → Scopes b m1.store scope1 scope1' → Pair b m1.store s s' →
      Matches b B m1 m1' (step s scope1) (step' s' scope1') (After (Ends b))) :
    Matches b B m m' (block step ds scope) (block step' ds' scope') (After (Ends b)) := by
  induction ds generalizing ds' scope scope' m m' with
  | nil =>
    obtain ⟨-, hlike⟩ := hds
    cases hlike
    exact .pure h ⟨hs, .none⟩
  | cons s rest ih =>
    have hlike := hds.like
    cases hlike with
    | @cons _ s' _ rest' _ _ =>
      obtain ⟨hfirst, hrest⟩ := hds.cons
      refine .bind (i := fun r => inferInstanceAs (Has GoesOn (resume step' rest' r)))
        (hstep s s' scope scope' m m' ⟨[], rest, rfl, rfl⟩ h (.refl h) hs hfirst) ?_
      rintro ⟨scope1, d⟩ ⟨scope1', d'⟩ m1 m1' hdone hj ho ⟨hscopes, hresult⟩
      cases hresult with
      | none =>
        refine ih hj hscopes (hrest.later ho) fun t t' scope2 scope2' m2 m2' hreached hj2 ho2 => ?_
        exact hstep t t' scope2 scope2' m2 m2' (hreached.cons hdone) hj2 (ho.trans ho2)
      | some values =>
        obtain ⟨r, r', rfl, rfl, -⟩ := values.exists_node
        exact .pure hj ⟨hscopes, .some values⟩

end

theorem matches_repeatWhile {body body' : Run Datum} [Has GoesOn test']
    [Has GoesOn body'] (h : Joined b m m')
    (htest : ∀ m1 m1', Rounds test body fuel m m1 → Joined b m1 m1' → Onward g m m1 →
      Matches b B m1 m1' test test' fun z z' _ => z' = z)
    (hbody : ∀ m1 m2 m2', Rounds test body fuel m m1 → test m1 = (.ok true, m2) → Joined b m2 m2' →
      Onward g m m2 → Matches b B m2 m2' body body' (After (Results b))) :
    Matches b B m m' (repeatWhile test body fuel) (repeatWhile test' body' fuel)
      (After (Results b)) := by
  induction fuel generalizing m m' with
  | zero => exact matches_throw h not_isRead_outOfFuel
  | succ fuel ih =>
    rw [repeatWhile_succ, repeatWhile_succ]
    refine .bind (htest m m' .first h (.refl h)) ?_
    rintro _ z m1 m1' hz hj ho rfl
    refine matches_ite (fun hgo => ?_) fun _ => .pure hj .none
    obtain rfl : z = true := hgo
    refine .bind (hbody m m1 m1' .first hz hj ho) ?_
    intro d d' m2 m2' hd hj2 ho2 hresult
    have ho2 := ho.trans ho2
    cases hresult with
    | none =>
      refine ih hj2 (fun m3 m3' hrounds hj3 ho3 => ?_) fun m3 m4 m4' hrounds hgo hj4 ho4 => ?_
      · exact htest m3 m3' (.next hz hd hrounds) hj3 (ho2.trans ho3)
      · exact hbody m3 m4 m4' (.next hz hd hrounds) hgo hj4 (ho2.trans ho4)
    | some values =>
      obtain ⟨r, r', rfl, rfl, -⟩ := values.exists_node
      exact .pure hj2 (.some values)

end LangKit.Script.Parallel
