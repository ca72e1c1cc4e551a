import LangKit.Proofs.Closures.Readiness

/-!
# Kinds and contents in every moment of a run with closures

All activities of a run with closures begin with all nodes in shape and with scopes of values
(`Ready`). Hence at every moment of a run what is bound or taken along by a lambda has the fields
that its kind calls for, and contents of the right type as long as no two nodes share a table:
`kinds_agree_with_contents`.
-/

namespace LangKit.Script.Closures

open Run Store Parallel

variable {g : Region} {m : Machine}

/-! ## Kinds and contents -/

/-- A node has the fields that its kind calls for, and plain values have plain contents. -/
structure Complete (s : Store) (ref : Nat) : Prop where
  kind : s.kind ref ∈ valueKinds
  plain : s.kind ref ∈ ["int", "bool", "string"] → ∃ d, s.field? ref "val" = some d ∧
    d.isAtom = true
  function : s.kind ref = "func" → ∀ f ∈ ["name", "args", "statements"], (s.field? ref f).isSome
  lambda : s.kind ref = "lambda" → ∀ f ∈ ["args", "statements", "free_vars"],
    (s.field? ref f).isSome

/-- A node has contents of the type that its kind names. -/
structure Typed (s : Store) (ref : Nat) : Prop where
  int : s.kind ref = "int" → ∃ n, s.field? ref "val" = some (.int n)
  bool : s.kind ref = "bool" → ∃ b, s.field? ref "val" = some (.bool b)
  string : s.kind ref = "string" → ∃ x, s.field? ref "val" = some (.text x)

/-- A value is bound in a live scope, or a lambda has taken it along. The nodes below a bound are
those of the host. -/
inductive InUse (host : Nat) (scopes : List Scope) (s : Store) (d : Datum) : Prop
  | bound (live : scope ∈ scopes) (bound : Assoc.get? x scope = some d)
  | captured (own : host ≤ ref) (lt : ref < s.size)
      (free : s.field? ref "free_vars" = some (.mapping es)) (taken : (name, d) ∈ es)
      (given : d ≠ .null)

section

variable {s : Store} {d : Datum} {ref : Nat} {scopes : List Scope}

theorem complete_of_isValue (h : IsValue g s (.node ref)) (hs : Furnished g s)
    (hg : g.closures = true) :
    Complete s ref ∧ (s.OwnTables → Typed s ref) := by
  obtain ⟨r, heq, hown, hkind, hladen⟩ := h
  obtain rfl := Datum.node.inj heq
  have hfit := hs.fit ref hown
  have hcontents : ∀ k ∈ ["int", "bool", "string"], s.kind ref = k →
      ∃ d, s.field? ref "val" = some d ∧ d.isAtom = true := by
    have hval : ∀ k ∈ ["int", "bool", "string"], "val" ∈ required k := by decide
    intro k hk hkind
    obtain ⟨d, hd⟩ := Option.isSome_iff_exists.1 (hfit.required "val" (hkind ▸ hval k hk))
    exact ⟨d, hd, hfit.contents d hd⟩
  refine ⟨⟨mem_valueKinds_of_kinds hkind, fun hk => hcontents _ hk rfl,
    fun hk f hf => ?_, fun hk f hf => ?_⟩, fun htables => ?_⟩
  · exact hfit.required f (hk ▸ hf)
  · simp only [List.mem_cons, List.not_mem_nil, or_false] at hf
    rcases hf with rfl | rfl | rfl
    · exact hfit.required "args" (hk ▸ by decide)
    · exact hfit.required "statements" (hk ▸ by decide)
    · exact hladen hk
  · have hsuits := hs.typed hg htables ref hown
    refine ⟨fun hk => ?_, fun hk => ?_, fun hk => ?_⟩
    · obtain ⟨d, hd, -⟩ := hcontents "int" (by decide) hk
      obtain ⟨n, rfl⟩ := hsuits.int hk d hd
      exact ⟨n, hd⟩
    · obtain ⟨d, hd, -⟩ := hcontents "bool" (by decide) hk
      obtain ⟨b, rfl⟩ := hsuits.bool hk d hd
      exact ⟨b, hd⟩
    · obtain ⟨d, hd, -⟩ := hcontents "string" (by decide) hk
      obtain ⟨x, rfl⟩ := hsuits.string hk d hd
      exact ⟨x, hd⟩

theorem InUse.value (h : InUse g.cells scopes s d) (hs : Furnished g s)
    (hscopes : ∀ scope ∈ scopes, Bound g s scope) : IsValue g s d := by
  cases h with
  | bound live bound => exact (hscopes _ live).value bound
  | captured own lt free taken given =>
    obtain ⟨es, hes, hvalues⟩ := (hs.fit _ ⟨own, lt⟩).captured _ free
    obtain rfl := Datum.mapping.inj hes
    exact (hvalues _ taken).resolve_left given

theorem InUse.of_setKind {kind : String} (h : InUse host scopes (s.setKind r kind) d) :
    InUse host scopes s d := by
  cases h with
  | bound live bound => exact .bound live bound
  | captured own lt free taken given =>
    rw [size_setKind] at lt
    rw [Store.field?, fields_setKind] at free
    exact .captured own lt free taken given

theorem Complete.setKind {kind : String} (h : Complete s ref) (hne : ref ≠ r) :
    Complete (s.setKind r kind) ref := by
  have hkind : (s.setKind r kind).kind ref = s.kind ref := kind_setKind_of_ne hne
  have hfield : ∀ f, (s.setKind r kind).field? ref f = s.field? ref f := fun f => by
    rw [Store.field?, fields_setKind, Store.field?]
  refine ⟨?_, ?_, ?_, ?_⟩ <;> rw [hkind]
  · exact h.kind
  · simp only [hfield]
    exact h.plain
  · simp only [hfield]
    exact h.function
  · simp only [hfield]
    exact h.lambda

theorem Typed.setKind {kind : String} (h : Typed s ref) (hne : ref ≠ r) :
    Typed (s.setKind r kind) ref := by
  have hkind : (s.setKind r kind).kind ref = s.kind ref := kind_setKind_of_ne hne
  have hfield : (s.setKind r kind).field? ref "val" = s.field? ref "val" := by
    rw [Store.field?, fields_setKind, Store.field?]
  refine ⟨?_, ?_, ?_⟩ <;> rw [hkind, hfield]
  · exact h.int
  · exact h.bool
  · exact h.string

end

/-- What an activity leaves: all nodes in shape, or an assignment of a lambda that has failed
half-way. -/
theorem Ready.outcome (hg : g.closures = true) (h : Ready g a) :
    ∃ s1, Advance g a.machine.store s1 ∧ Bound g s1 (a.outcome .closures).1 ∧
      ((a.outcome .closures).2.store = s1 ∨ Parallel.Broken g s1 (a.outcome .closures).2.store ∧
        a.run .closures a.machine =
          (.error (.fault (Fault.missingField "val")), (a.outcome .closures).2)) := by
  obtain ⟨fuel, job, m⟩ := a
  obtain ⟨hsane, hscope, hcode, hcall⟩ := h
  obtain ⟨heval, hexec, hcalls⟩ := matches_closures (itself g m) hg fuel
  have hjoined := joined_of_sane hsane
  have hvalues : ∀ {s : Store} {scope : Scope}, Bound g m.store scope → Advance g m.store s →
      Bound g s scope :=
    fun hscope hadvance e he => (hscope e he).later hadvance.later
  cases job with
  | eval byRef scope node =>
    have hsettled : Settled .closures m.store scope node := fun hobjects => by cases hobjects
    have hmatches := heval byRef hjoined hscope.scopes (pair_of_known hcode) fun _ => hsettled
    rcases hrun : eval .closures fuel byRef scope node m with ⟨e | v, m'⟩
    · obtain ⟨s1, hadvance, hstop⟩ := (hmatches.error e m' hrun).1
      refine ⟨s1, hadvance, hvalues hscope hadvance, ?_⟩
      simp only [Activity.outcome, Activity.run, hrun, bind_apply]
      exact hstop.imp_right fun h => ⟨h.1, by rw [h.2]⟩
    · obtain ⟨hgoes, -⟩ := Matches.goes hmatches hrun
      refine ⟨m'.store, ⟨hgoes.sane.furnished, hgoes.onward.later, hgoes.onward.spares⟩,
        hscope.later hgoes, .inl ?_⟩
      simp only [Activity.outcome, hrun]
  | exec scope node =>
    have hmatches := hexec hjoined hscope.scopes (pair_of_known hcode)
    rcases hrun : exec .closures fuel node scope m with ⟨e | ⟨scope', v⟩, m'⟩
    · obtain ⟨s1, hadvance, hstop⟩ := (hmatches.error e m' hrun).1
      refine ⟨s1, hadvance, ?_⟩
      simp only [Activity.outcome, Activity.run, hrun]
      exact ⟨hvalues hscope hadvance, hstop.imp_right fun h => ⟨h.1, by rw [h.2]⟩⟩
    · obtain ⟨hgoes, r', hends⟩ := Matches.goes hmatches hrun
      refine ⟨m'.store, ⟨hgoes.sane.furnished, hgoes.onward.later, hgoes.onward.spares⟩, ?_,
        .inl ?_⟩
      · simp only [Activity.outcome, hrun]
        exact hends.scopes.values
      · simp only [Activity.outcome, hrun]
  | call scope name args =>
    obtain ⟨⟨x, rfl⟩, hshown⟩ := hcall
    have hmatches := hcalls x hjoined hscope.scopes (pair_of_known hcode) hshown
    rcases hrun : Script.call .closures fuel scope (.text x) args m with ⟨e | v, m'⟩
    · obtain ⟨s1, hadvance, hstop⟩ := (hmatches.error e m' hrun).1
      refine ⟨s1, hadvance, hvalues hscope hadvance, ?_⟩
      simp only [Activity.outcome, Activity.run, hrun, bind_apply]
      exact hstop.imp_right fun h => ⟨h.1, by rw [h.2]⟩
    · obtain ⟨hgoes, -⟩ := Matches.goes hmatches hrun
      refine ⟨m'.store, ⟨hgoes.sane.furnished, hgoes.onward.later, hgoes.onward.spares⟩,
        hscope.later hgoes, .inl ?_⟩
      simp only [Activity.outcome, hrun]

/-- A node is what its kind says: it has the fields that the kind calls for, and contents of the
right type as long as no two nodes share a table. -/
def Agrees (s : Store) (ref : Nat) : Prop :=
  Complete s ref ∧ (s.OwnTables → Typed s ref)

/-- At every moment of a run with closures, what is bound in a live scope or taken along by a lambda
is a value whose kind calls for certain fields, and it has these fields; integers, truth values and
texts have plain contents, and contents of their own type as long as no two nodes share a table. The
one exception is the end of a run that fails because a lambda `q` was to be assigned to a value `r`:
the kind of `r` has been set and nothing else, so that all but `r` agree with their kinds, and `r`
did so before. -/
theorem kinds_agree_with_contents {limit : Nat} {text typed : String} {echo trace : Bool}
    {inputs : List Tree} {scopes : List Scope} {m : Machine}
    (moment : Moment .closures limit text (Machine.start echo trace inputs typed) scopes m) :
    (∀ d, InUse (Machine.start echo trace inputs typed).store.size scopes m.store d →
      ∃ ref, d = .node ref ∧ Agrees m.store ref) ∨
    ∃ s r q, m.store = s.setKind r "lambda" ∧ r < s.size ∧ s.kind r ∈ valueKinds ∧ q < s.size ∧
      s.kind q = "lambda" ∧
      runProgram limit (.scoped .closures) text (Machine.start echo trace inputs typed) =
        (.error (.fault (Fault.missingField "val")), m) ∧
      ∀ d, InUse (Machine.start echo trace inputs typed).store.size scopes m.store d →
        ∃ ref, d = .node ref ∧ Agrees s ref ∧ (ref ≠ r → Agrees m.store ref) := by
  generalize hstart : Machine.start echo trace inputs typed = start at moment ⊢
  have hformed : start.store.Formed := (hstart ▸ separate_start echo trace inputs typed :
    start.store.Separate).formed
  let g := regionOf (.scoped .closures) start
  have hvalue : ∀ {s : Store} {d : Datum}, Furnished g s → IsValue g s d →
      ∃ ref, d = .node ref ∧ Agrees s ref := by
    intro s d hs hv
    obtain ⟨ref, rfl, -⟩ := id hv
    exact ⟨ref, rfl, complete_of_isValue hv hs rfl⟩
  have hready : ∀ {a : Activity} {rest : List Activity}, Running .closures limit text
    start (a :: rest) →
      Ready g a ∧ ∀ c ∈ rest, Bound g a.machine.store c.scope :=
    fun running => Running.ready rfl ⟨rfl, rfl, hformed, rfl, .refl _⟩
      (allowsText_of_objects rfl text) running
  cases moment with
  | @begins a rest running =>
    obtain ⟨hready, hrest⟩ := hready running
    have hscopes : ∀ scope ∈ a.scope :: rest.map Activity.scope, Bound g a.machine.store scope :=
      List.forall_mem_cons.2 ⟨hready.scope, List.forall_mem_map.2 hrest⟩
    have hfurnished := hready.sane.furnished
    exact .inl fun d use => hvalue hfurnished (use.value hfurnished hscopes)
  | @ends a rest running =>
    obtain ⟨hready, hrest⟩ := hready running
    obtain ⟨s1, hadvance, hscope, hm⟩ := hready.outcome rfl
    have hscopes : ∀ scope ∈ (a.outcome .closures).1 :: rest.map Activity.scope, Bound g s1 scope :=
      List.forall_mem_cons.2 ⟨hscope, List.forall_mem_map.2 fun c hc e he =>
        (hrest c hc e he).later hadvance.later⟩
    have hfurnished := hadvance.furnished
    rcases hm with hm | ⟨⟨r, q, hr, hkind, hq, hlambda, hbroken⟩, hrun⟩
    · rw [hm]
      exact .inl fun d use => hvalue hfurnished (use.value hfurnished hscopes)
    · -- The kind of one node has been changed, and with this the run has come to its end.
      refine .inr ⟨s1, r, q, hbroken, hr.2, hkind, hq.2, hlambda, running.runProgram_eq_error hrun,
        fun d use => ?_⟩
      rw [hbroken] at use ⊢
      obtain ⟨ref, rfl, hcomplete, htyped⟩ :=
        hvalue hfurnished (use.of_setKind.value hfurnished hscopes)
      refine ⟨ref, rfl, ⟨hcomplete, htyped⟩, fun href => ?_⟩
      exact ⟨hcomplete.setKind href, fun hown => (htyped (ownTables_setKind.1 hown)).setKind href⟩

/-- Two variables take over the same function and are then set to an integer and to a text. -/
def crossed : String :=
  "func f() \x7b return 1; \x7d func main() \x7b a = 1; b = 2; a = f; b = f; a = 5; b = \"x\"; print(a < 9); \x7d"

theorem crossed_moment : ∃ scope m ref,
    Moment .closures 1000 crossed (Machine.start false false [] "") [scope] m ∧
      Assoc.get? "a" scope = some (.node ref) ∧ m.store.kind ref = "int" ∧
      m.store.field? ref "val" = some (.text "x") := by
  have hrun : (path? .closures 1000 (enterMain crossed) (Machine.start false false [] "") 6 []).any
    fun r =>
      r.2.isEmpty && (Assoc.get? "a" r.1.scope).any fun d => (nodeRef? d).any fun ref =>
        r.1.machine.store.kind ref == "int" &&
          (r.1.machine.store.field? ref "val").any (Datum.same · (.text "x")) := by decide +kernel
  simp only [Option.any_eq_true, Bool.and_eq_true, beq_iff_eq, List.isEmpty_iff] at hrun
  obtain ⟨⟨a, _⟩, hpath, rfl, d, hget, ref, href, hkind, v, hfield, hsame⟩ := hrun
  obtain rfl := eq_node_of_nodeRef? href
  rw [eq_text_of_same hsame] at hfield
  exact ⟨a.scope, a.machine, ref, .begins (running_of_path? hpath), hget, hkind, hfield⟩

/-- A variable that is an integer by its kind has a text for its contents, once it has had the table
of a function that another variable has taken over too. -/
theorem kind_disagrees_with_contents : ∃ scopes m scope ref,
    Moment .closures 1000 crossed (Machine.start false false [] "") scopes m ∧ scope ∈ scopes ∧
      Assoc.get? "a" scope = some (.node ref) ∧ m.store.kind ref = "int" ∧
      m.store.field? ref "val" = some (.text "x") := by
  obtain ⟨scope, m, ref, moment, hget, hkind, hval⟩ := crossed_moment
  exact ⟨[scope], m, scope, ref, moment, List.mem_cons_self, hget, hkind, hval⟩

/-- Even so the variable has contents, and they are plain. -/
theorem kinds_agree_with_contents_crossed : ∃ scope m ref,
    Moment .closures 1000 crossed (Machine.start false false [] "") [scope] m ∧
      InUse (Machine.start false false [] "").store.size [scope] m.store (.node ref) ∧
      Complete m.store ref ∧ ¬ m.store.OwnTables := by
  obtain ⟨scope, m, ref, moment, hget, hkind, hval⟩ := crossed_moment
  have use : InUse (Machine.start false false [] "").store.size [scope] m.store (.node ref) :=
    .bound List.mem_cons_self hget
  have hagrees : Agrees m.store ref := by
    rcases kinds_agree_with_contents moment with hall | ⟨s, r, q, hstore, hlt, -, -, -, -, hall⟩
    · obtain ⟨_, hr, hagrees⟩ := hall _ use
      exact Datum.node.inj hr ▸ hagrees
    · obtain ⟨_, hr, -, hagrees⟩ := hall _ use
      obtain rfl := Datum.node.inj hr
      refine hagrees fun heq => ?_
      rw [hstore, heq, kind_setKind_self hlt] at hkind
      exact absurd hkind (by decide)
  refine ⟨scope, m, ref, moment, use, hagrees.1, fun hown => ?_⟩
  obtain ⟨n, hn⟩ := (hagrees.2 hown).int hkind
  rw [hval] at hn
  cases hn

end LangKit.Script.Closures
