import LangKit.Proofs.Parser.Watching

/-!
# The parse of a text halts

A run that ends well has come to a last step, and every step before that one leads on
(`After.next_or_last`). On the frames of a path a reduction finds all its parts, an entry below them
and a state to go to (`Path.reducible`). So the parse of a text that can be scanned ends after
finitely many steps, whatever errors there are in it, and on the way no step fails: `parse_halts`.
-/

namespace LangKit.Lr

variable {σ ν ω : Type} [BEq σ] {m : Setup σ ν ω} {c d e x : Config σ ν ω}
  {result : Option ν} {n k : Nat}

theorem exists_last_step (h : run m fuel c = .done result x) :
    ∃ n e, n < fuel ∧ After m n c e ∧ step m e = .done result x := by
  induction fuel generalizing c with
  | zero => cases h
  | succ fuel ih =>
    rw [run] at h
    split at h
    · next c' hstep =>
      obtain ⟨n, e, hn, hafter, hlast⟩ := ih h
      exact ⟨n + 1, e, Nat.succ_lt_succ hn, ⟨c', hstep, hafter⟩, hlast⟩
    · exact ⟨0, c, Nat.succ_pos fuel, rfl, h⟩

theorem After.next_or_last (h : After m n c d) (hlast : After m k c e)
    (hdone : step m e = .done result x) :
    (∃ d', step m d = .next d') ∨ d = e := by
  induction n generalizing c k with
  | zero =>
    cases h
    cases k with
    | zero => exact .inr hlast
    | succ k =>
      obtain ⟨c', hstep, -⟩ := hlast
      exact .inl ⟨c', hstep⟩
  | succ n ih =>
    obtain ⟨c', hstep, h⟩ := h
    cases k with
    | zero =>
      cases hlast
      rw [hstep] at hdone
      cases hdone
    | succ k =>
      obtain ⟨c'', hstep', hlast⟩ := hlast
      obtain rfl := Step.next.inj (hstep.symm.trans hstep')
      exact ih h hlast

end LangKit.Lr

namespace LangKit.Script

/-- The machine stands where the next move is a reduction by a rule. -/
def Reduces (c : PlainConfig) (number : Nat) : Prop :=
  ∃ d e, c.fill plain = (.ok d, d) ∧ d.look = some e ∧
    tables.action d.state e.sort = some (.reduce number)

/-- The machine is not stuck: its stacks are of the same height, the next step does not fail, and if
it is a reduction then the parts of the rule are on the stacks, above a state that the head of the
rule leads on from. -/
structure Unstuck (tracking logging : Bool) (c : PlainConfig) : Prop where
  level : c.states.length = c.stack.length
  sound : ∀ f d, Lr.step (setup tracking logging) c ≠ .fault f d
  reduces : ∀ number, Reduces c number → ∃ r, rules[number]? = some r ∧
    r.body.length < c.stack.length ∧
    ∃ s t, (c.states.drop r.body.length).head? = some s ∧ tables.goto s (.phrase r.head) = some t

theorem state_of_fill {c d : PlainConfig} (h : c.fill plain = (.ok d, d)) : d.state = c.state := by
  unfold Lr.Config.fill at h
  split at h
  · cases h
    rfl
  · split at h
    · cases h
      rfl
    · split at h
      · cases h
      · cases h
        rfl

section

variable {tracking : Bool} {c : PlainConfig} {p : Pose} (hc : Shows tracking c p)

include hc

theorem Shows.level :
    c.states.length = p.frames.length + 1 ∧ c.stack.length = p.frames.length + 1 := by
  obtain ⟨es, hstack, hes, -⟩ := hc.stack
  have hlength : es.length = p.frames.length := by simpa using congrArg List.length hes
  rw [hc.states, hstack]
  simp [hlength]

theorem Shows.reduces (hp : Grounded p) {number : Nat} (hreduces : Reduces c number) :
    ∃ r, rules[number]? = some r ∧ r.body.length < c.stack.length ∧
      ∃ s t, (c.states.drop r.body.length).head? = some s ∧
        tables.goto s (.phrase r.head) = some t := by
  obtain ⟨d, e, hfill, hlook, ha⟩ := hreduces
  rw [state_of_fill hfill, hc.state] at ha
  obtain ⟨r, parts, below, t, hr, hframes, hlen, -, hgoto⟩ := hp.path.reducible ha
  obtain ⟨rest, hrest⟩ := exists_states_eq below
  refine ⟨r, hr, ?_, topState below, t, ?_, hgoto⟩
  · rw [hc.level.2, hframes, List.length_append]
    omega
  · rw [hc.states, hframes, List.map_append, ← hlen, List.append_assoc, List.drop_left' (by simp),
      hrest]
    rfl

end

/-- A text that can be scanned is parsed to an end. With tracking or a log or without them, the
machine comes to a last step, which gives the outcome of the parse, and it is not stuck at any step
up to there. -/
theorem parse_halts (tracking logging : Bool) {text : String}
    (hscan : (tokenRun text).fault = none) :
    (∃ n c result d, n < fuelFor (scan text).length ∧
      Lr.After (setup tracking logging) n (parseStart tracking logging text) c ∧
      Lr.step (setup tracking logging) c = .done result d ∧
      (parse tracking logging text).outcome = .ok result) ∧
    ∀ n c, Lr.After (setup tracking logging) n (parseStart tracking logging text) c →
      Unstuck tracking logging c := by
  have hshows := shows_parseStart tracking logging text
  obtain ⟨calls, outcome, w, hruns, hfault⟩ := exists_runs text
  obtain ⟨result, d, hend⟩ : ∃ result d, parseEnd tracking logging text = .done result d := by
    cases outcome with
    | error f =>
      obtain ⟨digits, hmem, -⟩ := hfault f rfl
      exact absurd hmem ((not_hasOverlong_of_fault hscan).2 digits)
    | ok result =>
      obtain ⟨d, hdone, -⟩ := (hruns.run hshows logging).1
      exact ⟨result, d, hdone⟩
  obtain ⟨k, e, hk, hlast, hdone⟩ := Lr.exists_last_step hend
  refine ⟨⟨k, e, result, d, hk, hlast, hdone, ?_⟩, fun n c hafter => ?_⟩
  · rw [(parse_eq tracking logging text).1, hend]
    rfl
  · obtain ⟨q, hq, hc⟩ := hruns.after (grounded_startPose text) hshows hafter
    refine ⟨hc.level.1.trans hc.level.2.symm, fun f d' hfault => ?_, fun _ => hc.reduces hq⟩
    rcases hafter.next_or_last hlast hdone with ⟨c', hnext⟩ | rfl
    · cases hnext.symm.trans hfault
    · cases hdone.symm.trans hfault

/-- There are three errors in the text, the last one at its end. -/
theorem parse_halts_faulty :
    (tokenRun "x func f() \x7b g() y(; \x7d )").fault = none ∧
    ∃ result, (parse true true "x func f() \x7b g() y(; \x7d )").outcome = .ok result := by
  have hscan : (tokenRun "x func f() \x7b g() y(; \x7d )").fault = none := by decide +kernel
  obtain ⟨⟨_, _, result, _, -, -, -, hparse⟩, -⟩ := parse_halts true true hscan
  exact ⟨hscan, result, hparse⟩

end LangKit.Script
