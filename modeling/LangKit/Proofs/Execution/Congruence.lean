import LangKit.Proofs.Execution.Continuation

/-!
# Steps that follow others

One step follows another if it gives the same result and leaves the same state, unless it stops in
one of the ways that are allowed. Rows of statements, loops, printed lines and lists of arguments
follow others if their parts do so wherever both have come to them. So one has to look only at
states that are really reached, and whatever is reached in the row, loop or list that follows is
reached in the other.
-/

namespace LangKit.Script

open Run

variable {m' m1 m : Machine} {scope' scope : Scope} {P Q : Stop → Machine → Prop}
  {statements args : List Datum}

/-- A step does in a state what another one does, unless it stops as it may. -/
def Follows (P : Stop → Machine → Prop) {α : Type} (m : Machine) (x y : Run α) : Prop :=
  x m = y m ∨ ∃ e m', y m = (.error e, m') ∧ P e m'

section

variable {α β : Type} {x y : Run α}

theorem Follows.refl (x : Run α) : Follows P m x x :=
  .inl rfl

theorem Follows.stop (h : y m = (.error e, m')) (hP : P e m') : Follows P m x y :=
  .inr ⟨e, m', h, hP⟩

theorem Follows.mono (h : Follows P m x y) (hPQ : ∀ e m', P e m' → Q e m') : Follows Q m x y := by
  rcases h with heq | ⟨e, m', hy, hP⟩
  · exact .inl heq
  · exact .stop hy (hPQ e m' hP)

theorem Follows.ok (h : Follows P m x y) {m' : Machine} (hy : y m = (.ok a, m')) :
    x m = (.ok a, m') := by
  rcases h with heq | ⟨e, m1, he, -⟩
  · rw [heq, hy]
  · rw [hy] at he
    cases (Prod.mk.inj he).1

theorem Follows.ok_or (h : Follows P m x y) (hx : x m = (.ok a, m')) :
    y m = (.ok a, m') ∨ ∃ e m', P e m' := by
  rcases h with heq | ⟨e, m1, -, hP⟩
  · exact .inl (heq ▸ hx)
  · exact .inr ⟨e, m1, hP⟩

theorem bind_of_error (h : x m = (.error e, m1)) : (x >>= f) m = (.error e, m1) := by
  rw [bind_apply, h]

theorem bind_congr_at (hx : x m = y m)
    (hf : ∀ a m1, x m = (.ok a, m1) → f a m1 = g a m1) : (x >>= f) m = (y >>= g) m := by
  rw [bind_apply, bind_apply, ← hx]
  rcases h : x m with ⟨e | a, m1⟩
  · rfl
  · exact hf a m1 h

theorem Follows.bind (hx : Follows P m x y)
    (hf : ∀ a m1, x m = (.ok a, m1) → y m = (.ok a, m1) → Follows P m1 (f a) (g a)) :
    Follows P m (x >>= f) (y >>= g) := by
  rcases hx with heq | ⟨e, m', hy, hP⟩
  · rcases h : x m with ⟨e | a, m1⟩
    · exact .inl ((bind_of_error h).trans (bind_of_error (heq ▸ h)).symm)
    · have h' : y m = (.ok a, m1) := heq ▸ h
      unfold Follows
      rw [bind_of_ok h, bind_of_ok h']
      exact hf a m1 h h'
  · exact .stop (bind_of_error hy) hP

theorem Follows.after (hf : ∀ a m1, x m = (.ok a, m1) → Follows P m1 (f a) (g a)) :
    Follows P m (x >>= f) (x >>= g) :=
  (Follows.refl x).bind fun a m1 h _ => hf a m1 h

/-- A step that only looks at the state, before two others. -/
theorem Follows.look [Has Observes x]
    (hf : ∀ a, x m = (.ok a, m) → Follows P m (f a) (g a)) : Follows P m (x >>= f) (x >>= g) := by
  refine .after fun a m1 h => ?_
  obtain rfl := Has.eq h
  exact hf a h

theorem Follows.before (hx : Follows P m x y) : Follows P m (x >>= f) (y >>= f) :=
  hx.bind fun a _ _ _ => .refl (f a)

theorem Follows.unwrap {wrap : α → β} (hwrap : ∀ a b, wrap a = wrap b → a = b)
    (h : Follows P m (x >>= fun a => pure (wrap a)) (y >>= fun a => pure (wrap a))) :
    Follows P m x y := by
  unfold Follows at h ⊢
  rw [bind_apply, bind_apply] at h
  generalize x m = r, y m = r' at h ⊢
  rcases r' with ⟨e' | b, m2⟩
  · rcases h with heq | ⟨e, m', he, hP⟩
    · rcases r with ⟨e | a, m1⟩
      · obtain ⟨he, rfl⟩ := Prod.mk.inj heq
        exact .inl (by rw [Except.error.inj he])
      · cases (Prod.mk.inj heq).1
    · obtain ⟨rfl, rfl⟩ := error_inj he
      exact .inr ⟨e', m2, rfl, hP⟩
  · rcases h with heq | ⟨e, m', he, -⟩
    · rcases r with ⟨e | a, m1⟩
      · cases (Prod.mk.inj heq).1
      · obtain ⟨hab, rfl⟩ := Prod.mk.inj heq
        exact .inl (by rw [hwrap a b (Except.ok.inj hab)])
    · cases (Prod.mk.inj he).1

end

/-! ## Rows of statements -/

section

variable {step step' : Datum → Scope → Run (Scope × Datum)}

/-- The statements of a row follow those of another one wherever both come to them. -/
def RowFollows (P : Stop → Machine → Prop) (step step' : Datum → Scope → Run (Scope × Datum))
    (statements : List Datum) (scope : Scope) (m : Machine) : Prop :=
  ∀ s scope' m', Reached step statements scope m s scope' m' →
    Reached step' statements scope m s scope' m' → Follows P m' (step s scope') (step' s scope')

theorem RowFollows.block (h : RowFollows P step step' statements scope m) :
    Follows P m (block step statements scope) (block step' statements scope) := by
  induction statements generalizing scope m with
  | nil => exact .refl _
  | cons s rest ih =>
    refine (h s scope m ⟨[], rest, rfl, rfl⟩ ⟨[], rest, rfl, rfl⟩).bind fun r m1 hr hr' => ?_
    obtain ⟨scope1, d⟩ := r
    cases d with
    | null =>
      refine ih fun t scope2 m2 hreached hreached' => ?_
      exact h t scope2 m2 (hreached.cons hr) (hreached'.cons hr')
    | _ => exact .refl _

theorem RowFollows.front {before after : List Datum}
    (h : RowFollows P step step' (before ++ after) scope m) :
    RowFollows P step step' before scope m := by
  have hmore : ∀ {step : Datum → Scope → Run (Scope × Datum)}
      {t : Datum} {scope1 : Scope} {m1 : Machine}, Reached step before scope m t scope1 m1 →
      Reached step (before ++ after) scope m t scope1 m1 := by
    rintro step t scope1 m1 ⟨l1, l2, rfl, hl⟩
    exact ⟨l1, l2 ++ after, by rw [List.append_assoc, List.cons_append], hl⟩
  exact fun t scope1 m1 hr hr' => h t scope1 m1 (hmore hr) (hmore hr')

theorem RowFollows.reached (h : RowFollows P step step' statements scope m)
    (hr : Reached step' statements scope m s scope' m') :
    Reached step statements scope m s scope' m' := by
  obtain ⟨before, after, rfl, hbefore⟩ := hr
  exact ⟨before, after, rfl, h.front.block.ok hbefore⟩

theorem RowFollows.reached_or (h : RowFollows P step step' statements scope m)
    (hr : Reached step statements scope m s scope' m') :
    Reached step' statements scope m s scope' m' ∨ ∃ e m', P e m' := by
  obtain ⟨before, after, rfl, hbefore⟩ := hr
  exact (h.front.block.ok_or hbefore).imp_left fun hb => ⟨before, after, rfl, hb⟩

end

/-! ## Loops -/

section

variable {test test' : Run Bool} {body body' : Run Datum} {fuel : Nat}

/-- A loop follows another one in the states that both come to. -/
structure RoundsFollow (P : Stop → Machine → Prop) (test test' : Run Bool) (body body' : Run Datum)
    (fuel : Nat) (m : Machine) : Prop where
  tests : ∀ m1, Rounds test body fuel m m1 → Rounds test' body' fuel m m1 → Follows P m1 test test'
  bodies : ∀ m1 m2, Rounds test body fuel m m1 → Rounds test' body' fuel m m1 →
    test m1 = (.ok true, m2) → test' m1 = (.ok true, m2) → Follows P m2 body body'

theorem RoundsFollow.later (h : RoundsFollow P test test' body body' (fuel + 1) m)
    (go : test m = (.ok true, m1)) (go' : test' m = (.ok true, m1))
    (round : body m1 = (.ok .null, m2)) (round' : body' m1 = (.ok .null, m2)) :
    RoundsFollow P test test' body body' fuel m2 := by
  constructor
  · intro m3 hr hr'
    exact h.tests m3 (.next go round hr) (.next go' round' hr')
  · intro m3 m4 hr hr'
    exact h.bodies m3 m4 (.next go round hr) (.next go' round' hr')

section

variable (h : RoundsFollow P test test' body body' fuel m)
include h

theorem RoundsFollow.repeatWhile :
    Follows P m (repeatWhile test body fuel) (repeatWhile test' body' fuel) := by
  induction fuel generalizing m with
  | zero => exact .refl _
  | succ fuel ih =>
    refine (h.tests m .first .first).bind fun go m1 hgo hgo' => ?_
    cases go with
    | false => exact .refl _
    | true =>
      rw [if_pos rfl, if_pos rfl]
      refine (h.bodies m m1 .first .first hgo hgo').bind fun d m2 hround hround' => ?_
      cases d with
      | null => exact ih (h.later hgo hgo' hround hround')
      | _ => exact .refl _

theorem RoundsFollow.rounds (hr : Rounds test' body' fuel m m1) : Rounds test body fuel m m1 := by
  induction hr with
  | first => exact .first
  | @next fuel m m2 m3 m4 go' round' _ ih =>
    have go := (h.tests m .first .first).ok go'
    have round := (h.bodies m m2 .first .first go go').ok round'
    exact .next go round (ih (h.later go go' round round'))

theorem RoundsFollow.rounds_or (hr : Rounds test body fuel m m1) :
    Rounds test' body' fuel m m1 ∨ ∃ e m', P e m' := by
  induction hr with
  | first => exact .inl .first
  | @next fuel m m2 m3 m4 go round _ ih =>
    rcases (h.tests m .first .first).ok_or go with go' | hP
    · rcases (h.bodies m m2 .first .first go go').ok_or round with round' | hP
      · exact (ih (h.later go go' round round')).imp_left fun hr => .next go' round' hr
      · exact .inr hP
    · exact .inr hP

end

end

/-! ## Printed lines and arguments -/

section

theorem follows_outputLine {line : String}
    (h : ∀ before arg after line' m', args = before ++ arg :: after →
      outputLine ev before line m = (.ok line', m') →
      outputLine ev' before line m = (.ok line', m') →
      Follows P m' (ev arg) (ev' arg)) :
    Follows P m (outputLine ev args line) (outputLine ev' args line) := by
  induction args generalizing line m with
  | nil => exact .refl _
  | cons arg rest ih =>
    refine (h [] arg rest line m rfl rfl rfl).bind
      fun v m1 hv hv' => .after fun piece m2 hpiece => ?_
    refine ih fun before arg' after line' m' hrest hb hb' => ?_
    refine h (arg :: before) arg' after line' m' (congrArg _ hrest) ?_ ?_
    · rw [outputLine, bind_of_ok hv, bind_of_ok hpiece]
      exact hb
    · rw [outputLine, bind_of_ok hv', bind_of_ok hpiece]
      exact hb'

variable {dialect dialect' : Dialect} {ev ev' : Bool → Datum → Run Datum}
  {formals : Option (List Datum)} {i : Nat}

theorem follows_argValues
    (h : ∀ before arg after values m', args = before ++ arg :: after →
      argValues dialect ev formals i before m = (.ok values, m') →
      argValues dialect' ev' formals i before m = (.ok values, m') →
      Follows P m' (argValue dialect ev formals (i + before.length) arg)
        (argValue dialect' ev' formals (i + before.length) arg)) :
    Follows P m (argValues dialect ev formals i args) (argValues dialect' ev' formals i args) := by
  induction args generalizing i m with
  | nil => exact .refl _
  | cons arg rest ih =>
    rw [argValues_cons, argValues_cons]
    have hfirst : Follows P m (argValue dialect ev formals i arg)
        (argValue dialect' ev' formals i arg) :=
      h [] arg rest [] m rfl rfl rfl
    refine hfirst.bind fun v m1 hv hv' => Follows.before (ih ?_)
    refine fun before arg' after values m' hrest hb hb' => ?_
    have hvalues := h (arg :: before) arg' after (v :: values) m' (congrArg _ hrest) ?_ ?_
    · rwa [List.length_cons, ← Nat.add_assoc, Nat.add_right_comm] at hvalues
    · rw [argValues_cons, bind_of_ok hv, bind_of_ok hb]
      rfl
    · rw [argValues_cons, bind_of_ok hv', bind_of_ok hb']
      rfl

end

end LangKit.Script
