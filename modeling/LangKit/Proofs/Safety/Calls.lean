import LangKit.Proofs.Safety.Mishaps

/-!
# Rows, loops and calls

What rows of statements, loops and calls meet, if the evaluators that they are made of meet what
they should. Each rule asks for this only where the row, the loop or the call comes to: a statement
that is reached, a round that is made, an argument whose turn it is. So every fault is traced to the
activity that has it.
-/

namespace LangKit.Script

open Run Store
open Stacked (Setting Value Held)

variable {d s : Datum} {statements ds : List Datum} {line name : String} {builtin : Builtin}

variable {c : Setting} {m : Machine} {E : Fault → Prop} {scope : Scope} {outer : List Scope}
  {fuel : Nat}

/-! ## Rows of statements -/

theorem Leaves.mono {m m1 m' : Machine} (h : Leaves c outer m1 r m')
    (hl : m.store.size ≤ m1.store.size) : Leaves c outer m r m' :=
  ⟨h.1, h.2.mono hl⟩

section

variable {step : Datum → Scope → Run (Scope × Datum)}

theorem meets_block (hm : Intact c m) (hs : Unshared c m.store (scope :: outer))
    (hstep : ∀ s scope' m', Reached step statements scope m s scope' m' → Intact c m' →
      Unshared c m'.store (scope' :: outer) → Meets c m' (step s scope') (Leaves c outer m') E) :
    Meets c m (block step statements scope) (Leaves c outer m) E := by
  induction statements generalizing scope m with
  | nil => exact .pure hm ⟨hs, .inl rfl⟩
  | cons s rest ih =>
    refine (hstep s scope m ⟨[], rest, rfl, rfl⟩ hm hs).bind ?_
    rintro ⟨scope1, r⟩ m1 hrun hm1 hl ⟨hs1, hr⟩
    rcases hr with hr | ⟨ref, hr, hnew⟩
    · -- Without a result the row goes on, and what the rest reaches the whole row reaches.
      dsimp only at hr
      subst hr
      refine (ih hm1 hs1 fun s' scope' m' hreached => ?_).weaken fun _ _ h => h.mono hl.size
      exact hstep s' scope' m' (hreached.cons hrun)
    · dsimp only at hr
      subst hr
      exact .pure hm1 ⟨hs1, .inr ⟨ref, rfl, hnew⟩⟩

end

theorem announce_scoped (row : Row) (scope : Scope) (m : Machine) :
    row.announce .scoped scope m = (.ok (), m) := by
  cases row <;> rfl

theorem meets_step (hexec : ExecMeets c fuel) (row : Row) (hm : Intact c m)
    (hs : Unshared c m.store (scope :: outer)) (hd : IsStmt c d) :
    Meets c m (row.step .scoped fuel d scope) (Leaves c outer m)
      (Blames ⟨fuel, .exec scope d, m⟩) := by
  refine .step (announce_scoped row scope m) ((hexec hm hs hd).bind ?_)
  rintro ⟨scope', r⟩ m1 - hm1 hl hleaves
  have hfinish : Meets c m1 (row.finish .scoped scope') (fun _ m' => m'.store = m1.store)
      (Blames ⟨fuel, .exec scope d, m⟩) := by
    cases row with
    | block | main => exact .pure hm1 rfl
    | body caller title => exact meets_traced hm1
  refine hfinish.map fun _ m2 _ _ hstore => ?_
  unfold Leaves
  rw [hstore]
  exact hleaves

theorem Reached.intact {row : Row}
    (h : Reached (row.step .scoped fuel) statements scope m s scope' m') (hexec : ExecMeets c fuel)
    (hm : Intact c m) (hs : Unshared c m.store (scope :: outer))
    (hrow : ∀ s ∈ statements, IsStmt c s) :
    Intact c m' ∧ Unshared c m'.store (scope' :: outer) ∧ Later m m' ∧ IsStmt c s := by
  obtain ⟨before, after, rfl, hbefore⟩ := h
  have hrow' := List.forall_mem_append.1 hrow
  have hblock : Meets c m (block (row.step .scoped fuel) before scope) (Leaves c outer m)
      fun _ => True := by
    refine meets_block hm hs fun s' scope1 m1 hreached hm1 hs1 => ?_
    obtain ⟨front, rest, hsplit, -⟩ := hreached
    have hs' : IsStmt c s' := hrow'.1 s' (by rw [hsplit]; simp)
    exact (meets_step hexec row hm1 hs1 hs').blame fun _ _ => trivial
  obtain ⟨hm', hl, hs', -⟩ := hblock.of_run hbefore
  exact ⟨hm', hs', hl, (List.forall_mem_cons.1 hrow'.2).1⟩

theorem meets_row (hexec : ExecMeets c fuel) (row : Row) (hm : Intact c m)
    (hs : Unshared c m.store (scope :: outer)) (hrow : ∀ s ∈ statements, IsStmt c s)
    (hE : ∀ s scope' m' f, Reached (row.step .scoped fuel) statements scope m s scope' m' →
      Blames ⟨fuel, .exec scope' s, m'⟩ f → E f) :
    Meets c m (block (row.step .scoped fuel) statements scope) (Leaves c outer m) E := by
  refine meets_block hm hs fun s scope' m' hreached hm' hs' => ?_
  obtain ⟨-, -, -, hs⟩ := hreached.intact hexec hm hs hrow
  exact (meets_step hexec row hm' hs' hs).blame fun f => hE s scope' m' f hreached

/-! ## Loops -/

theorem meets_loop {body : Run Datum} (hm : Intact c m)
    (htest : ∀ m', Rounds test body fuel m m' → Intact c m' → Later m m' →
      Meets c m' test (fun _ _ => True) E)
    (hbody : ∀ m1 m2, Rounds test body fuel m m1 → test m1 = (.ok true, m2) →
      Intact c m2 → Later m m2 →
      Meets c m2 body (fun d m' => IsResult m2.store m'.store d) E) :
    Meets c m (repeatWhile test body fuel) (fun d m' => IsResult m.store m'.store d) E := by
  induction fuel generalizing m with
  | zero => exact meets_outOfFuel hm
  | succ fuel ih =>
    refine (htest m .first hm (.refl m)).bind fun go m1 hgo hm1 hl1 _ => ?_
    cases go with
    | false => exact .pure hm1 (.inl rfl)
    | true =>
      refine (hbody m m1 .first hgo hm1 hl1).bind fun d m2 hd hm2 hl2 hr => ?_
      have hl := hl1.trans hl2
      rcases hr with rfl | ⟨ref, rfl, hlow, hhigh⟩
      · refine (ih hm2 (fun m' hr hm' hl' => ?_) fun m3 m4 hr hgo' hm4 hl' => ?_).weaken ?_
        · exact htest m' (.next hgo hd hr) hm' (hl.trans hl')
        · exact hbody m3 m4 (.next hgo hd hr) hgo' hm4 (hl.trans hl')
        · exact fun d m' h => h.mono hl.size
      · exact .pure hm2 (.inr ⟨ref, rfl, Nat.le_trans hl1.size hlow, hhigh⟩)

/-! ## Built-in functions -/

section

variable {ev : Datum → Run Datum}

theorem meets_prompt {title : String} (hm : Intact c m)
    (hev : ∀ arg, ds = [arg] → Meets c m (ev arg) (fun d m' => IsNew m.store m'.store d) E)
    (hnil : ∀ arg d m', ds = [arg] → ev arg m = (.ok d, m') → Held m'.store d .nil →
      E (Fault.missingField "val")) :
    Meets c m (promptWith title ev (.list ds)) (fun _ _ => True) E := by
  match ds with
  | [] => exact .pure hm trivial
  | [arg] =>
    refine .step rfl (.step rfl ((hev arg rfl).bind fun d m1 hd hm1 hl hnew => ?_))
    obtain ⟨v, hv⟩ := hnew.held hm1 hm.base.size
    refine (meets_contents hm1 hv fun h => hnil arg d m1 rfl hd (h ▸ hv)).bind ?_
    rintro x _ - - - ⟨rfl, -⟩
    exact (meets_output hm1 x).weaken fun _ _ _ => trivial
  | _ :: _ :: rest =>
    refine .step (a := rest.length + 2) rfl ?_
    rw [if_neg (by simp), if_pos (by simp)]
    exact meets_report hm .name _

/-- A printed line. It fails at an argument whose value has no text. -/
theorem meets_line (hm : Intact c m)
    (hev : ∀ arg m', Pieced ev ds line m arg m' → Intact c m' → Later m m' →
      Meets c m' (ev arg) (fun d m'' => IsNew m'.store m''.store d) E)
    (hnil : ∀ arg m' d m'', Pieced ev ds line m arg m' → ev arg m' = (.ok d, m'') →
      Held m''.store d .nil → E (Fault.missingField "val"))
    (hlong : ∀ arg m' d m'' n, Pieced ev ds line m arg m' → ev arg m' = (.ok d, m'') →
      Held m''.store d (.int n) → Text.Decimal.write? n = none → E .unprintableInteger) :
    Meets c m (outputLine ev ds line) (fun _ _ => True) E := by
  induction ds generalizing m line with
  | nil => exact .pure hm trivial
  | cons arg rest ih =>
    have hhere : Pieced ev (arg :: rest) line m arg m := ⟨[], rest, line, rfl, rfl⟩
    refine (hev arg m hhere hm (.refl m)).bind fun d m1 hd hm1 hl hnew => ?_
    obtain ⟨v, hv⟩ := hnew.held hm1 hm.base.size
    have hpiece : Meets c m1 (outputPiece d) (fun _ m' => m1 = m') E := by
      refine meets_piece hm1 hv (fun h => ?_) fun n h hw => ?_
      · exact hnil arg m d m1 hhere hd (h ▸ hv)
      · exact hlong arg m d m1 n hhere hd (h ▸ hv) hw
    refine hpiece.bind ?_
    rintro piece _ hrun - - rfl
    refine ih hm1 (fun arg' m' h hm' hl' => ?_) (fun arg' m' d' m'' h => ?_)
      fun arg' m' d' m'' n h => ?_
    · exact hev arg' m' (h.cons hd hrun) hm' (hl.trans hl')
    · exact hnil arg' m' d' m'' (h.cons hd hrun)
    · exact hlong arg' m' d' m'' n (h.cons hd hrun)

theorem meets_printHeader (hm : Intact c m) (scope : Scope) (args : Datum) :
    Meets c m (printHeader scope args) (fun _ m' => m'.store = m.store) E :=
  meets_traced hm

end

def Builtin.title : Builtin → String
  | .readInt => "inputi"
  | .readText => "inputs"
  | .print => "print"

theorem eq_title_of_ofName (h : Builtin.ofName? (.text name) = some builtin) :
    name = builtin.title := by
  unfold Builtin.ofName? at h
  split at h
  · next heq =>
    cases h
    exact Datum.text.inj heq
  · next heq =>
    cases h
    exact Datum.text.inj heq
  · next heq =>
    cases h
    exact Datum.text.inj heq
  · cases h

theorem observes_toInteger (d : Datum) : Observes (lift d.toInteger) :=
  observes_lift _

theorem notInteger_of_error (h : d.toInteger = .error f) (hd : (∃ s, d = .text s) ∨ d = .null) :
    NotInteger d f := by
  rcases hd with ⟨s, rfl⟩ | rfl
  · simp only [Datum.toInteger, Datum.number?] at h
    split at h
    · cases h
    · next hread =>
      obtain rfl := Except.error.inj h
      exact .malformed hread
    · next hread =>
      obtain rfl := Except.error.inj h
      exact .overlong hread
  · obtain rfl := Except.error.inj h
    exact .usedUp

section

variable (heval : EvalMeets c fuel) (hm : Intact c m) (hs : Unshared c m.store (scope :: outer))
  (hds : ∀ d ∈ ds, IsExpr c d) (hname : Builtin.ofName? (.text name) = some builtin)

include heval hm hs hds hname

theorem meets_prompted (hreads : builtin ≠ .print) {f : Datum → Run Datum}
    (hf : ∀ d m1 m2, promptWith name (eval .scoped fuel false scope) (.list ds) m = (.ok (), m1) →
      input m1 = (.ok d, m2) → Intact c m2 → Later m m2 →
      (Quiet m2.console → (∃ s, d = .text s) ∨ d = .null) →
      Meets c m2 (f d) (fun d m' => IsResult m.store m'.store d)
        (Blames ⟨fuel + 1, .call scope (.text name) (.list ds), m⟩)) :
    Meets c m (do
        promptWith name (eval .scoped fuel false scope) (.list ds)
        f (← input))
      (fun d m' => IsResult m.store m'.store d)
      (Blames ⟨fuel + 1, .call scope (.text name) (.list ds), m⟩) := by
  refine (meets_prompt hm (fun arg h => ?_) fun arg d m' h hd hnil => ?_).bind
    fun _ m1 hprompt hm1 hl1 _ => ?_
  · subst h
    exact heval.started hm hs (hds arg List.mem_cons_self) (.prompt hname hreads rfl)
  · subst h
    exact .here (.nilPrompt hname hreads rfl hd hnil)
  · refine (meets_input hm1 fun m' hend => .here (.noInput hname hreads hprompt hend)).bind ?_
    rintro d m2 hinput hm2 hl2 ⟨-, hd⟩
    exact hf d m1 m2 hprompt hinput hm2 (hl1.trans hl2) fun hq => hd (hl2.quiet.2 hq)

/-- A built-in function gives a new node or nothing. -/
theorem meets_builtin :
    Meets c m (callBuiltin (eval .scoped fuel false scope) scope (.list ds) builtin)
      (fun d m' => IsResult m.store m'.store d)
      (Blames ⟨fuel + 1, .call scope (.text name) (.list ds), m⟩) := by
  have heq := eq_title_of_ofName hname
  cases builtin with
  | readInt =>
    dsimp only [Builtin.title] at heq
    subst heq
    refine meets_prompted heval hm hs hds hname (by decide)
      fun d m1 m2 hprompt hinput hm2 hl hd => ?_
    refine (meets_observes hm2 (observes_toInteger d) fun f hf hquiet => ?_).bind ?_
    · have herror : d.toInteger = .error f := by
        cases h : d.toInteger with
        | ok n =>
          rw [h] at hf
          cases hf
        | error g =>
          rw [h] at hf
          obtain ⟨he, -⟩ := Prod.mk.inj hf
          rw [Stop.fault.inj (Except.error.inj he)]
      exact .here (.noNumber hprompt hinput (notInteger_of_error herror (hd hquiet)))
    · rintro n _ - - - ⟨rfl, -⟩
      exact (meets_make hm2 (.int n)).weaken fun d m' h => .inr (h.1.mono hl.size)
  | readText =>
    dsimp only [Builtin.title] at heq
    subst heq
    refine meets_prompted heval hm hs hds hname (by decide)
      fun d m1 m2 hprompt hinput hm2 hl hd => ?_
    refine (meets_observes hm2 (observes_textOf d) fun f hf hquiet => ?_).bind ?_
    · rcases hd hquiet with ⟨s, rfl⟩ | rfl <;> cases hf
    · rintro s _ - - - ⟨rfl, -⟩
      exact (meets_make hm2 (.string s)).weaken fun d m' h => .inr (h.1.mono hl.size)
  | print =>
    dsimp only [Builtin.title] at heq
    subst heq
    rw [callBuiltin]
    refine (meets_printHeader hm scope (.list ds)).bind fun _ m1 hprint hm1 hl1 _ => .step rfl ?_
    have hs1 : Unshared c m1.store (scope :: outer) := hs.mono hl1.size
    refine (meets_line hm1 (fun arg m' h hm' hl' => ?_) (fun arg m' d m'' h hd hnil => ?_)
      fun arg m' d m'' n h hd hint hlong => ?_).bind fun line m2 _ hm2 hl2 _ => ?_
    · obtain ⟨before, after, line, rfl, hbefore⟩ := h
      refine heval.started hm' (hs1.mono hl'.size) (hds arg (by simp)) ?_
      exact .piece hname hprint rfl hbefore
    · exact .here (.nilPrinted ⟨ds, arg, m1, m', hprint, rfl, h, hd⟩ hnil)
    · exact .here (.longPrinted ⟨ds, arg, m1, m', hprint, rfl, h, hd⟩ hint hlong)
    · refine (meets_traced hm2).bind fun _ m3 _ hm3 _ _ => ?_
      exact (meets_output hm3 (.text line)).map fun _ _ _ _ _ => .inl rfl

end

/-! ## Calls of the program's functions -/

def NewNodes (s s' : Store) (values : List Datum) : Prop :=
  ∃ rs : List Nat, values = rs.map .node ∧ rs.Nodup ∧ ∀ r ∈ rs, s.size ≤ r ∧ r < s'.size

theorem meets_arguments (hm : Intact c m)
    (hev : ∀ arg m', Passed ev i ds m arg m' → Intact c m' → Later m m' →
      Meets c m' (ev false arg) (fun d m'' => IsNew m'.store m''.store d) E) :
    Meets c m (argValues .scoped ev none i ds)
      (fun values m' => NewNodes m.store m'.store values ∧ values.length = ds.length) E := by
  induction ds generalizing m i with
  | nil => exact .pure hm ⟨⟨[], rfl, .nil, nofun⟩, rfl⟩
  | cons arg rest ih =>
    refine (hev arg m ⟨[], rest, [], rfl, rfl⟩ hm (.refl m)).bind
      fun d m1 hd hm1 hl hnew => .step rfl ?_
    refine (ih (i := i + 1) hm1 fun arg' m' h hm' hl' => ?_).map ?_
    · obtain ⟨before, after, values, rfl, hbefore⟩ := h
      refine hev arg' m' ⟨arg :: before, after, d :: values, rfl, ?_⟩ hm' (hl.trans hl')
      have hstep : argValues .scoped ev none i (arg :: before) m =
          (do return d :: (← argValues .scoped ev none (i + 1) before)) m1 := bind_of_ok hd
      rw [hstep, bind_of_ok hbefore, pure_apply]
    · rintro values m2 - hl2 ⟨⟨rs, rfl, hnodup, hrange⟩, hlength⟩
      obtain ⟨r, rfl, hlow, hhigh⟩ := hnew
      refine ⟨⟨r :: rs, rfl, List.nodup_cons.2 ⟨fun hmem => ?_, hnodup⟩,
        List.forall_mem_cons.2 ⟨?_, ?_⟩⟩, ?_⟩
      · exact Nat.not_le_of_lt hhigh (hrange r hmem).1
      · exact ⟨hlow, Nat.lt_of_lt_of_le hhigh hl2.size⟩
      · exact fun r' hr' => ⟨Nat.le_trans hl.size (hrange r' hr').1, (hrange r' hr').2⟩
      · rw [List.length_cons, List.length_cons, hlength]

section

variable {f : String}

section

variable (heval : EvalMeets c fuel) (hm : Intact c m) (hs : Unshared c m.store (scope :: outer))
  (hds : ∀ d ∈ ds, IsExpr c d) (hname : Builtin.ofName? (.text f) = none)

include heval hm hs hds hname

theorem meets_findCalled :
    Meets c m (findCalled .scoped fuel scope (.text f) (.list ds))
      (fun r m' => ∃ g : Ast.Function, c.Code r.1 g.tree ∧ r.2.2 = true ∧
        g.formals.length = r.2.1.length ∧ NewNodes m.store m'.store r.2.1)
      (Blames ⟨fuel + 1, .call scope (.text f) (.list ds), m⟩) := by
  refine .step rfl ((meets_arguments hm fun arg m' h hm' hl => ?_).bind ?_)
  · obtain ⟨before, after, values, rfl, hbefore⟩ := h
    refine heval.started hm' (hs.mono hl.size) (hds arg (by simp)) ?_
    exact .argument hname rfl hbefore
  · rintro values m1 - hm1 hl ⟨hnew, -⟩
    have hfunctions : functions m1 = (.ok c.loaded, m1) := by rw [functions, hm1.functions]
    obtain ⟨found, hfound, hrel⟩ := Stacked.findCallee_apply f values.length c.holds_functions
    refine .step hfunctions (.step (hfound hm1.base) ?_)
    generalize hg : c.functions.find? (fun g =>
      g.name.text == f && g.formals.length == values.length) = callee at hrel
    cases hrel with
    | none => exact .step rfl (meets_report hm1 .name _)
    | @some d g hd =>
      have hfits := List.find?_some hg
      simp only [Bool.and_eq_true, beq_iff_eq] at hfits
      exact .pure hm1 ⟨g, hd, rfl, hfits.2, hnew⟩

/-- What a call does before the body of its function: it binds the formals to new nodes. -/
theorem meets_enterCall :
    Meets c m (enterCall .scoped fuel scope (.text f) (.list ds))
      (fun r m' => (∀ s ∈ r.2.1, IsStmt c s) ∧ Unshared c m'.store (r.2.2 :: scope :: outer))
      (Blames ⟨fuel + 1, .call scope (.text f) (.list ds), m⟩) := by
  refine (meets_findCalled heval hm hs hds hname).bind ?_
  rintro ⟨d, values, named⟩ m1 - hm1 hl ⟨g, hd, hnamed, hlength, rs, hvalues, hnodup, hrange⟩
  dsimp only at hd hnamed hlength hvalues
  subst hnamed
  obtain ⟨formals, hformals, hd1⟩ := hd.list_field "args" rfl
  obtain ⟨body, hbody, hd2⟩ := hd.list_field "statements" rfl
  have hbind := Stacked.bindFormals_apply hm1.base hformals hlength scope
  refine .step (hd1 hm1.base)
    (.step rfl (.step hbind (.step rfl (.step (hd2 hm1.base) (.step rfl ?_)))))
  refine .pure hm1 ⟨isStmt_of_block hbody, ?_⟩
  -- The nodes of the arguments are newer than everything that is bound so far.
  have hs1 : Unshared c m1.store (scope :: scope :: outer) := hs.push.mono hl.size
  rw [hvalues]
  refine hs1.bindAll hnodup (fun r hr => ?_) (fun r hr => hs.push.ne_of_le (hrange r hr).1) _
  exact ⟨Nat.le_trans hm.base.size (hrange r hr).1, (hrange r hr).2⟩

end

end

theorem callMeets_succ (heval : EvalMeets c fuel) (hexec : ExecMeets c fuel) :
    CallMeets c (fuel + 1) := by
  intro scope outer m f ds hm hs hds
  cases hname : Builtin.ofName? (.text f) with
  | some builtin =>
    rw [call_builtin hname]
    exact meets_builtin heval hm hs hds hname
  | none =>
    rw [call_own hname]
    refine (meets_enterCall heval hm hs hds hname).bind ?_
    rintro ⟨row, statements, inner⟩ m1 hentered hm1 hl ⟨hstmts, hinner⟩
    refine (meets_row hexec row hm1 hinner hstmts fun s scope' m' f hreached hblames => ?_).map ?_
    · exact .inner (.body hname hentered hreached (announce_scoped row scope' m')) hblames
    · exact fun r m' _ _ h => h.2.mono hl.size

end LangKit.Script
