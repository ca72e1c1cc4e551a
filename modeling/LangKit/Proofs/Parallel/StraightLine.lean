import LangKit.Proofs.Parallel.Evaluators

/-!
# The straight-line dialect in two runs

A program of the straight-line dialect has one scope, which is part of the state. A variable may
hold nothing, and a trace of the variables fails at such a variable.
-/

namespace LangKit.Script.Parallel

open Run
open Closures (valueKinds madeKinds)

variable {ds ds' : List Datum} {kind : String}

/-! ## What is under way -/

/-- What a straight-line run can be at: the statements that are left, an expression, a call, and the
arguments that are left of a call that prints. -/
inductive StraightTask
  | statements (nodes : List Datum)
  | eval (node : Datum)
  | call (name args : Datum)
  | pieces (args : List Datum)

section

variable (limit : Nat) (text : String) (start : Machine)

/-- What is under way in a straight-line run of a program from a state, with the fuel that is left
and the state at that point. -/
inductive Underway : Nat → StraightTask → Machine → Prop
  | main (entered : enterMain text start = (.ok nodes, m)) :
      Underway limit (.statements nodes) m
  | next (here : Underway fuel (.statements (s :: rest)) m)
      (done : StraightLine.exec fuel s m = (.ok (), m1)) :
      Underway fuel (.statements rest) m1
  | assigned (here : Underway (fuel + 1) (.statements (s :: rest)) m)
      (form : kindOf s m = (.ok "=", m)) (right : field s "expression" m = (.ok d, m)) :
      Underway fuel (.eval d) m
  | called (here : Underway (fuel + 1) (.statements (s :: rest)) m)
      (form : kindOf s m = (.ok "fcall", m)) (named : field s "name" m = (.ok name, m))
      (given : field s "args" m = (.ok args, m)) : Underway fuel (.call name args) m
  | left (here : Underway (fuel + 1) (.eval node) m)
      (form : kindOf node m = (.ok op, m)) (sum : op ∈ ["+", "-"])
      (operand : field node "op1" m = (.ok d, m)) : Underway fuel (.eval d) m
  | right (here : Underway (fuel + 1) (.eval node) m)
      (form : kindOf node m = (.ok op, m)) (sum : op ∈ ["+", "-"])
      (left : field node "op1" m = (.ok d, m)) (done : StraightLine.eval fuel d m = (.ok v, m1))
      (operand : field node "op2" m1 = (.ok d1, m1)) : Underway fuel (.eval d1) m1
  | inner (here : Underway (fuel + 1) (.eval node) m)
      (form : kindOf node m = (.ok "fcall", m)) (named : field node "name" m = (.ok name, m))
      (given : field node "args" m = (.ok args, m)) : Underway fuel (.call name args) m
  | prompt (here : Underway (fuel + 1) (.call name args) m)
      (known : Builtin.ofName? name = some .readInt) (row : items args m = (.ok [arg], m)) :
      Underway fuel (.eval arg) m
  | print {ds : List Datum} {shown : String}
      (here : Underway (fuel + 1) (.call name args) m)
      (known : Builtin.ofName? name = some .print)
      (said : (do if ← tracing then Run.print ("handle_print " ++ shown) : Run Unit)
      m = (.ok (), m1)) (row : items args m1 = (.ok ds, m1)) : Underway fuel (.pieces ds) m1
  | piece (here : Underway fuel (.pieces (arg :: rest)) m) :
      Underway fuel (.eval arg) m
  | more (here : Underway fuel (.pieces (arg :: rest)) m)
      (done : StraightLine.eval fuel arg m = (.ok v, m1)) (content : contents v m1 = (.ok z, m1))
      (shown : textOf z m1 = (.ok t, m1)) : Underway fuel (.pieces rest) m1

/-- A run fails because a diagnostic cannot be printed: a variable without contents is to be shown,
or the prompt of a call that is under way is an integer that is too long to be echoed. -/
inductive Unshown : Stop → Machine → Prop
  | trace (traced : m.console.trace = true) (held : entry ∈ m.globals)
      (failed : (contents entry.2 >>= textOf) m = (.error e, m)) : Unshown e m
  | echo (here : Underway limit text start (fuel + 1) (.call name args) m)
      (known : Builtin.ofName? name = some .readInt) (row : items args m = (.ok [arg], m))
      (value : StraightLine.eval fuel arg m = (.ok v, m1)) (prompt : contents v m1 = (.ok z, m1))
      (echo : m1.console.echo = true) (failed : m1.store.textOf z = .error φ) :
      Unshown (.fault φ) m1

/-- What accounts for the failures of a run. No field that is read of code is missing. -/
def straightBlame : Blame where
  reads _ _ := False
  cut := Unshown limit text start

end

variable {limit : Nat} {text : String} {start : Machine}

variable {g : Region} {b : Bridge g} {B : Blame} {m m' m1 : Machine} {fuel : Nat}
  {scope scope' : Scope} {node node' args args' v v' w w' : Datum}

/-! ## Traces -/

theorem Results.pair (h : Results b s v v') : Pair b s v v' := by
  cases h with
  | none => exact ⟨List.forall_mem_nil _, .null⟩
  | some values => exact values.pair

theorem Results.values {kind : String} (h : Results b m.store v v')
    (hk : kindOf v m = (.ok kind, m)) :
    Values b m.store v v' := by
  cases h with
  | none => cases hk
  | some values => exact values

theorem results_of_global (h : v = .null ∨ IsValue g s v) (hl : Datum.Like b.rel v v') :
    Results b s v v' := by
  rcases h with rfl | hvalue
  · cases hl
    exact .none
  · exact .some ⟨hvalue, hl⟩

theorem matches_traceVariables (h : Joined b m m')
    (hs : ∀ e ∈ scope, e.2 = .null ∨ IsValue g m.store e.2)
    (hl : Datum.LikeFields b.rel scope scope') :
    Matches b B m m' (StraightLine.traceVariables scope) (StraightLine.traceVariables scope')
      (fun _ _ _ => True) := by
  induction hl generalizing m m' with
  | nil => exact .pure h trivial
  | @cons name d d' rest rest' first more ih =>
    obtain ⟨hd, hrest⟩ := List.forall_mem_cons.1 hs
    refine .contentsOf h (results_of_global hd first) fun z hz _ => ?_
    refine .textOf h (h.text_eq ⟨known_of_isAtom hz, like_of_isAtom hz⟩) fun t _ => ?_
    refine .next (matches_print h _) fun _ _ m1 m1' _ hj ho _ => ?_
    exact ih hj fun e he => (hrest e he).imp_right fun hv => hv.later ho.later

theorem unshown_of_traceVariables (htrace : m.console.trace = true)
    (hs : ∀ entry ∈ scope, entry ∈ m.globals)
    (h : StraightLine.traceVariables scope m = (.error e, m1)) : Unshown limit text start e m1 := by
  induction scope generalizing m with
  | nil => cases h
  | cons entry rest ih =>
    obtain ⟨hentry, hrest⟩ := List.forall_mem_cons.1 hs
    have hshow : StraightLine.traceVariables (entry :: rest) = (do
        let t ← contents entry.2 >>= textOf
        print (entry.1 ++ ": " ++ t)
        StraightLine.traceVariables rest) := by
      rw [bind_assoc]
      rfl
    have hobserves : Observes (contents entry.2 >>= textOf) :=
      (observes_field entry.2 "val").bind observes_textOf
    rw [hshow] at h
    rcases bind_eq_error.1 h with hfail | ⟨t, m2, ht, h⟩
    · obtain rfl := hobserves.eq hfail
      exact .trace htrace hentry hfail
    · obtain rfl := hobserves.eq ht
      rcases bind_eq_error.1 h with hprint | ⟨_, m3, hprint, h⟩
      · cases hprint
      obtain ⟨-, rfl⟩ := Prod.mk.inj hprint
      refine ih ?_ ?_ h
      · exact htrace
      · exact hrest

theorem matches_trace (h : Joined b m m') (title : String) :
    Matches b (straightBlame limit text start) m m' (StraightLine.trace title)
      (StraightLine.trace title) (fun _ _ _ => True) := by
  have hshow : ∀ {B : Blame} {m m' : Machine}, Joined b m m' → Matches b B m m'
      (do
        print (title ++ "\x7b")
        StraightLine.traceVariables (← StraightLine.globals)
        print "\x7d")
      (do
        print (title ++ "\x7b")
        StraightLine.traceVariables (← StraightLine.globals)
        print "\x7d") (fun _ _ _ => True) := by
    intro B m m' h
    refine .next (matches_print h _) fun _ _ m1 m1' _ hj _ _ => ?_
    refine .look rfl rfl (.next (matches_traceVariables hj hj.sane.globals hj.globals) ?_)
    exact fun _ _ m2 m2' _ hj2 _ _ => matches_print hj2 _
  refine matches_traced h (fun _ => hshow h) fun e m1 _ htrace hfail => ⟨?_, ?_⟩
  · rcases bind_eq_error.1 hfail with hprint | ⟨_, m2, hprint, hfail⟩
    · cases hprint
    obtain ⟨-, rfl⟩ := Prod.mk.inj hprint
    rcases bind_eq_error.1 hfail with hglobals | ⟨sc, m3, hglobals, hfail⟩
    · cases hglobals
    obtain ⟨rfl, rfl⟩ := ok_inj hglobals
    rcases bind_eq_error.1 hfail with hvariables | ⟨_, m4, -, hfail⟩
    · refine unshown_of_traceVariables ?_ (fun _ h => h) hvariables
      exact htrace
    · cases hfail
  · exact ((hshow (B := .none) h).error e m1 hfail).2.1

/-! ## Expressions -/

theorem matches_refuseTexts (h : Joined b m m') (op : BinaryOp) (hv : Results b m.store v v')
    (hw : Results b m.store w w') :
    Matches b B m m' (StraightLine.refuseTexts op v w) (StraightLine.refuseTexts op v' w')
      (fun _ _ m1 => Values b m1.store v v' ∧ Values b m1.store w w') := by
  refine .kindOf h hv.pair fun kind hkind => matches_ite (fun _ => ?_) fun _ => ?_
  · exact .stop (matches_misfit h _)
  refine .kindOf h hw.pair fun kind' hkind' => matches_ite (fun _ => matches_misfit h _) fun _ => ?_
  exact .pure h ⟨hv.values hkind, hw.values hkind'⟩

section

variable (hg : g.closures = false) (h : Joined b m m') (hv : Results b m.store v v')
  (hw : Results b m.store w w')
include hg h hv hw

theorem matches_add :
      Matches b (straightBlame limit text start) m m' (StraightLine.add v w)
        (StraightLine.add v' w') (After (Results b)) := by
  refine .bind (matches_trace h _) fun _ _ m1 m1' _ hj ho _ => ?_
  refine .next (matches_refuseTexts hj .add (hv.later ho) (hw.later ho)) ?_
  rintro _ _ m2 m2' - hj2 - ⟨hv2, hw2⟩
  have hplain : ¬ g.closures = true := Bool.not_eq_true _ ▸ hg
  refine .next (matches_amend sober_add hj2 hv2 hw2 hplain.elim) fun d d' m3 m3' _ hj3 _ hd => ?_
  refine .bind (matches_trace hj3 _) fun _ _ m4 m4' _ hj4 ho4 _ => ?_
  exact .pure hj4 (.some (hd.later ho4))

theorem matches_subtract :
      Matches b B m m' (StraightLine.subtract v w) (StraightLine.subtract v' w')
        (After (Results b)) := by
  refine .next (matches_refuseTexts h .subtract hv hw) ?_
  rintro _ _ m1 m1' - hj - ⟨hv1, hw1⟩
  have hplain : ¬ g.closures = true := Bool.not_eq_true _ ▸ hg
  exact (matches_amend sober_subtract hj hv1 hw1 hplain.elim).mono fun _ _ _ _ hd => .some hd

end

/-- The value of a name. One that holds nothing counts as undefined. -/
def globalValue (name : Datum) : Run Datum := do
  match (← StraightLine.globals).value? name with
  | some .null | none => report .name ("Variable " ++ (← textOf name) ++ " has not been defined")
  | some v => copy v

theorem globalValue_eq (node : Datum) :
    StraightLine.variableValue node = field? node "name" >>=
      fun name => globalValue (name.getD .null) := rfl

theorem matches_globalValue (h : Joined b m m') (hn : Pair b m.store node node') :
    Matches b B m m' (StraightLine.variableValue node) (StraightLine.variableValue node')
      (After (Results b)) := by
  have hname : ∀ {name : Datum}, IsName name → Matches b B m m' (globalValue name)
      (globalValue name) (After (Results b)) := by
    intro name hname
    have hreport : Matches b B m m'
        (do report .name ("Variable " ++ (← textOf name) ++ " has not been defined") : Run Datum)
        (do report .name ("Variable " ++ (← textOf name) ++ " has not been defined") : Run Datum)
        (After (Results b)) :=
      .textOf h (hname.text_eq _ _) fun t _ => matches_report h _ _
    refine .look rfl rfl ?_
    rcases hname with rfl | ⟨x, rfl⟩
    · exact hreport
    rcases h.globals.get? x with ⟨h1, h2⟩ | ⟨d, d', h1, h2, hlike⟩
    · simp only [Scope.value?, h1, h2]
      exact hreport
    · have hresult := results_of_global (h.sane.globals _ (Assoc.mem_of_get? h1)) hlike
      simp only [Scope.value?, h1, h2]
      cases hresult with
      | none => exact hreport
      | some values =>
        obtain ⟨r, r', rfl, rfl, -⟩ := values.exists_node
        exact (matches_copy h values).mono fun _ _ _ _ hq => .some hq.1
  rw [globalValue_eq, globalValue_eq]
  refine .field? h hn (fun _ => hname (.inl rfl)) fun d d' hd hpair => ?_
  obtain ⟨x, rfl, rfl⟩ := exists_name h hn hd hpair
  exact hname (.inr ⟨x, rfl⟩)

def StraightEvalMatches (b : Bridge g) (limit : Nat) (text : String) (start : Machine)
    (fuel : Nat) : Prop :=
  ∀ {m m' : Machine} {node node' : Datum}, Underway limit text start fuel (.eval node) m →
    Joined b m m' →
    Pair b m.store node node' →
    Matches b (straightBlame limit text start) m m' (StraightLine.eval fuel node)
      (StraightLine.eval fuel node') (After (Results b))

def StraightCallMatches (b : Bridge g) (limit : Nat) (text : String) (start : Machine)
    (fuel : Nat) : Prop :=
  ∀ {m m' : Machine} {args args' : Datum} {x : String}, Underway limit text start fuel
    (.call (.text x) args) m →
    Joined b m m' → Pair b m.store args args' → Shown args →
    Matches b (straightBlame limit text start) m m' (StraightLine.call fuel (.text x) args)
      (StraightLine.call fuel (.text x) args') (After (Results b))

theorem matches_globalLine (hev : StraightEvalMatches b limit text start fuel)
    (hhere : Underway limit text start fuel (.pieces ds) m) (h : Joined b m m')
    (hds : Pairs b m.store ds ds') (line : String) :
    Matches b (straightBlame limit text start) m m'
      (StraightLine.outputLine (StraightLine.eval fuel) ds line)
      (StraightLine.outputLine (StraightLine.eval fuel) ds' line) (fun t t' _ => t' = t) := by
  induction ds generalizing ds' m m' line with
  | nil =>
    obtain ⟨-, hlike⟩ := hds
    cases hlike
    exact .pure h rfl
  | cons arg rest ih =>
    have hlike := hds.like
    cases hlike with
    | @cons _ arg' _ rest' _ _ =>
      obtain ⟨harg, hrest⟩ := hds.cons
      refine .bind (i := fun v => by cases v <;> infer_instance) (hev hhere.piece h harg)
        fun v v' m1 m1' hv hj ho hresult => ?_
      cases hresult with
      | none => exact matches_report hj _ _
      | some values =>
        have hpiece : Matches b (straightBlame limit text start) m1 m1'
            (do
              let piece ← textOf (← contents v)
              StraightLine.outputLine (StraightLine.eval fuel) rest (line ++ piece))
            (do
              let piece ← textOf (← contents v')
              StraightLine.outputLine (StraightLine.eval fuel) rest' (line ++ piece))
                (fun t t' _ => t' = t) := by
          refine .contents hj values fun z hz hcontents => ?_
          refine .textOf hj (hj.text_eq ⟨known_of_isAtom hz, like_of_isAtom hz⟩) fun t ht => ?_
          exact ih (hhere.more hv hcontents ht) hj (hrest.later ho) (line ++ t)
        obtain ⟨r, r', rfl, rfl, -⟩ := values.exists_node
        exact hpiece

theorem matches_callWith (hev : StraightEvalMatches b limit text start fuel) :
    StraightCallMatches b limit text start (fuel + 1) := by
  intro m m' args args' x hhere h hargs hshown
  rw [StraightLine.call, StraightLine.call]
  have hunknown : Matches b (straightBlame limit text start) m m'
      (do report .name ("Unknown function " ++ (← textOf (.text x))) : Run Datum)
      (do report .name ("Unknown function " ++ (← textOf (.text x))) : Run Datum)
      (After (Results b)) :=
    .textOf h rfl fun t _ => matches_report h _ _
  cases hname : Builtin.ofName? (.text x) with
  | none =>
    simp only [StraightLine.callWith, hname]
    exact hunknown
  | some builtin =>
    cases builtin with
    | readText =>
      simp only [StraightLine.callWith, hname]
      exact hunknown
    | readInt =>
      simp only [StraightLine.callWith, hname]
      have hprompt : Matches b (straightBlame limit text start) m m'
          (promptWith "inputi" (StraightLine.eval fuel) args)
          (promptWith "inputi" (StraightLine.eval fuel) args') (fun _ _ _ => True) := by
        refine matches_promptWith h hargs "inputi"
          (fun arg arg' hrow => hev (hhere.prompt hname hrow) h) ?_
        intro arg v z m1 φ hrow hv hz _ hecho hφ
        exact .echo hhere hname hrow hv hz hecho hφ
      refine .bind hprompt fun _ _ m1 m1' _ hj _ _ => ?_
      exact matches_readInput hj .readInt
    | print =>
      obtain ⟨shown, hdisplay⟩ := hshown
      simp only [StraightLine.callWith, hname, StraightLine.printHeader, hargs.like.display_eq,
        hdisplay]
      refine .next (matches_traced h (fun _ => matches_print h _)
        fun e m1 _ _ hfail => by cases hfail) fun _ _ m1 m1' hsaid hj ho _ => ?_
      refine .items hj (hargs.later ho) fun ds ds' hds hpairs => ?_
      refine .bind (matches_globalLine hev (hhere.print hname hsaid hds) hj hpairs "") ?_
      rintro _ t m2 m2' - hj2 - rfl
      exact matches_putLine hj2 t

theorem exists_node_of_kind (hn : Pair b m.store node node') (hk : kindOf node m = (.ok kind, m)) :
    ∃ r, node = .node r ∧ g.Own m.store r ∧ m.store.kind r = kind := by
  obtain ⟨r, rfl, hkind⟩ := exists_node_of_kindOf hk
  exact ⟨r, rfl, known_node.1 hn.known, hkind⟩

theorem codePair (hn : Pair b m.store node node') (hk : kindOf node m = (.ok kind, m))
    (hcode : kind ∉ valueKinds) : CodePair b m.store kind node node' := by
  obtain ⟨r, rfl, hr, hkind⟩ := exists_node_of_kind hn hk
  exact ⟨hn, r, rfl, hr, hkind, hcode⟩

theorem matches_operands {f : Datum → Datum → Run Datum} [∀ v w, Has GoesOn (f v w)]
    (hev : StraightEvalMatches b limit text start fuel)
    (hhere : Underway limit text start (fuel + 1) (.eval node) m) (h : Joined b m m')
    (hn : Pair b m.store node node') (hkind : kindOf node m = (.ok kind, m))
    (hsum : kind ∈ ["+", "-"]) (hf : ∀ {m m' : Machine} {v v' w w' : Datum}, Joined b m m' →
      Results b m.store v v' →
      Results b m.store w w' →
      Matches b (straightBlame limit text start) m m' (f v w) (f v' w') (After (Results b))) :
    Matches b (straightBlame limit text start) m m'
      (do
        let v ← StraightLine.eval fuel (← field node "op1")
        let w ← StraightLine.eval fuel (← field node "op2")
        f v w)
      (do
        let v ← StraightLine.eval fuel (← field node' "op1")
        let w ← StraightLine.eval fuel (← field node' "op2")
        f v w) (After (Results b)) := by
  have hsums : ∀ kind ∈ ["+", "-"], kind ∉ valueKinds ∧ "op1" ∈ required kind ∧
      "op2" ∈ required kind := by
    decide
  obtain ⟨hcode, hfirst, hsecond⟩ := hsums kind hsum
  have hn := codePair hn hkind hcode
  refine .part h hn hfirst fun d1 d1' hd1 hpair1 => ?_
  refine .bind (hev (hhere.left hkind hsum hd1) h hpair1) fun v v' m1 m1' hv hj ho hresult => ?_
  refine .part hj (hn.later ho) hsecond fun d2 d2' hd2 hpair2 => ?_
  refine .bind (hev (hhere.right hkind hsum hd1 hv hd2) hj hpair2)
    fun w w' m2 m2' _ hj2 ho2 hw => ?_
  exact hf hj2 (hresult.later ho2) hw

theorem matches_callNode (hcall : StraightCallMatches b limit text start fuel)
    (hhere : ∀ name args, field node "name" m = (.ok name, m) →
      field node "args" m = (.ok args, m) →
      Underway limit text start fuel (.call name args) m) (h : Joined b m m')
    (hn : CodePair b m.store "fcall" node node') :
    Matches b (straightBlame limit text start) m m'
      (do
        let name ← field node "name"
        let args ← field node "args"
        StraightLine.call fuel name args)
      (do
        let name ← field node' "name"
        let args ← field node' "args"
        StraightLine.call fuel name args) (After (Results b)) :=
  .invocation h hn (by decide) fun _ _ _ hname hargs hpair hshown =>
    hcall (hhere _ _ hname hargs) h hpair hshown

theorem matches_straight (hg : g.closures = false) (fuel : Nat) :
    StraightEvalMatches b limit text start fuel ∧ StraightCallMatches b limit text start fuel := by
  induction fuel with
  | zero =>
    exact ⟨fun _ h _ => matches_throw h not_isRead_outOfFuel,
      fun _ h _ _ => matches_throw h not_isRead_outOfFuel⟩
  | succ fuel ih =>
    obtain ⟨heval, hcalls⟩ := ih
    refine ⟨fun {m m' node node'} hhere h hn => ?_, matches_callWith heval⟩
    refine .kindOf h hn fun kind hkind => matches_ite (fun hliteral => ?_) fun _ => ?_
    · obtain ⟨r, rfl, hr, rfl⟩ := exists_node_of_kind hn hkind
      have hmade : m.store.kind r ∈ madeKinds := by
        rw [Bool.or_eq_true, beq_iff_eq, beq_iff_eq] at hliteral
        rcases hliteral with hk | hk <;> rw [hk] <;> decide
      have hladen : Laden m.store r :=
        laden_of_ne (ne_lambda_of_loose (mem_looseKinds_of_made hmade))
      have hvalue : Values b m.store (.node r) node' :=
        ⟨⟨r, rfl, hr, mem_kinds_of_made hmade, hladen⟩, hn.like⟩
      exact (matches_copy h hvalue).mono fun _ _ _ _ hq => .some hq.1
    refine matches_ite (fun _ => matches_globalValue h hn) fun _ => ?_
    refine matches_ite (fun hadd => ?_) fun _ => matches_ite (fun hsubtract => ?_) fun _ => ?_
    · obtain rfl := eq_of_beq hadd
      exact matches_operands heval hhere h hn hkind (by decide) (matches_add hg)
    · obtain rfl := eq_of_beq hsubtract
      exact matches_operands heval hhere h hn hkind (by decide) (matches_subtract hg)
    refine matches_ite (fun hcall => ?_) fun _ => ?_
    · obtain rfl := eq_of_beq hcall
      exact matches_callNode hcalls (fun _ _ => hhere.inner hkind) h (codePair hn hkind (by decide))
    · exact .textOf h (h.text_eq hn) fun t _ => matches_report h _ _

/-! ## Statements -/

theorem matches_assignGlobal (h : Joined b m m') (name : String) (hv : Results b m.store v v') :
    Matches b B m m' (StraightLine.assign name v) (StraightLine.assign name v')
      (fun _ _ _ => True) where
  ok _ m1 hx := by
    obtain ⟨-, rfl⟩ := Prod.mk.inj hx
    have hsane : Sane g { m with globals := Assoc.put name v m.globals } := by
      refine ⟨h.sane.furnished, h.sane.functions, fun e he => ?_⟩
      rcases Assoc.mem_put he with hold | rfl
      · exact h.sane.globals e hold
      · cases hv with
        | none => exact .inl rfl
        | some values => exact .inr values.value
    refine ⟨(), _, rfl, ⟨hsane, h.stores, h.consoles, h.functions, ?_⟩,
      ⟨.refl _ _, .refl h.sane.furnished.formed⟩, trivial⟩
    exact LikeFields.put h.globals name hv.pair.like
  error e m1 hx := by cases hx

theorem matches_perform (hg : g.closures = false)
    (hhere : Underway limit text start (fuel + 1) (.statements (node :: ds)) m) (h : Joined b m m')
    (hn : Pair b m.store node node') (hkind : kindOf node m = (.ok kind, m)) :
    Matches b (straightBlame limit text start) m m' (StraightLine.perform fuel node kind)
      (StraightLine.perform fuel node' kind) (fun _ _ _ => True) := by
  refine matches_ite (fun hassign => ?_) fun _ => matches_ite (fun hcall => ?_) fun _ =>
    .pure h trivial
  · obtain rfl := eq_of_beq hassign
    have hn := codePair hn hkind (by decide)
    refine .name h hn (by decide) fun x _ => .bind_pure ?_
    refine .part h hn (by decide) fun d d' hright hpair => ?_
    refine .bind ((matches_straight hg fuel).1 (hhere.assigned hkind hright) h hpair)
      fun v v' m1 m1' _ hj _ hv => ?_
    exact matches_assignGlobal hj x hv
  · obtain rfl := eq_of_beq hcall
    have hvalue := matches_callNode (matches_straight hg fuel).2 (fun _ _ => hhere.called hkind) h
      (codePair hn hkind (by decide))
    have hforget : ∀ node : Datum, (do
        let name ← field node "name"
        let args ← field node "args"
        let _ ← StraightLine.call fuel name args : Run Unit) = (do
        let _ ← (do
          let name ← field node "name"
          let args ← field node "args"
          StraightLine.call fuel name args : Run Datum)) := by
      intro node
      simp only [bind_assoc]
    rw [hforget, hforget]
    exact .bind hvalue fun _ _ m1 m1' _ hj _ _ => .pure hj trivial

theorem matches_execAll (hg : g.closures = false)
    (hhere : Underway limit text start fuel (.statements ds) m) (h : Joined b m m')
    (hds : Pairs b m.store ds ds') :
    Matches b (straightBlame limit text start) m m' (StraightLine.execAll fuel ds)
      (StraightLine.execAll fuel ds') (fun _ _ _ => True) := by
  induction ds generalizing ds' m m' with
  | nil =>
    obtain ⟨-, hlike⟩ := hds
    cases hlike
    exact .pure h trivial
  | cons s rest ih =>
    have hlike := hds.like
    cases hlike with
    | @cons _ s' _ rest' _ _ =>
      obtain ⟨hfirst, hrest⟩ := hds.cons
      have hstatement : Matches b (straightBlame limit text start) m m' (StraightLine.exec fuel s)
          (StraightLine.exec fuel s') (fun _ _ _ => True) := by
        cases fuel with
        | zero => exact matches_throw h not_isRead_outOfFuel
        | succ fuel =>
          rw [StraightLine.exec, StraightLine.exec]
          refine .kindOf h hfirst fun kind hkind => ?_
          refine .bind (matches_perform hg hhere h hfirst hkind) fun _ _ m1 m1' _ hj _ _ => ?_
          exact matches_trace hj _
      refine .bind hstatement fun _ _ m1 m1' hdone hj ho _ => ?_
      exact ih (hhere.next hdone) hj (hrest.later ho)

end LangKit.Script.Parallel
