/-!
# Steps that may fail

A step takes a state to a result or an error, and to a state. These lemmas take one step after
another apart, whatever the errors and the states are: what it means that both end well
(`bind_eq_ok`) or that one of them stops (`bind_eq_error`).
-/

namespace LangKit

variable {ε σ α β : Type}

theorem bind_apply (x : ExceptT ε (StateM σ) α) (f : α → ExceptT ε (StateM σ) β) (s : σ) :
    (x >>= f) s = match x s with
      | (.ok a, s') => f a s'
      | (.error e, s') => (.error e, s') := by
  change (match x s with
    | (a, s') => ExceptT.bindCont f a s') = _
  rcases x s with ⟨_ | a, s'⟩ <;> rfl

theorem pure_apply (a : α) (s : σ) : (pure a : ExceptT ε (StateM σ) α) s = (.ok a, s) := rfl

variable {x : ExceptT ε (StateM σ) α} {f : α → ExceptT ε (StateM σ) β} {s s' : σ}

theorem bind_eq_ok :
    (x >>= f) s = (.ok b, s') ↔ ∃ a s1, x s = (.ok a, s1) ∧ f a s1 = (.ok b, s') := by
  rw [bind_apply]
  rcases x s with ⟨e | a, s1⟩
  · exact ⟨nofun, by rintro ⟨a, s2, h, -⟩; cases h⟩
  · refine ⟨fun h => ⟨a, s1, rfl, h⟩, ?_⟩
    rintro ⟨_, _, h, hf⟩
    cases h
    exact hf

theorem bind_eq_error :
    (x >>= f) s = (.error e, s') ↔
      x s = (.error e, s') ∨ ∃ a s1, x s = (.ok a, s1) ∧ f a s1 = (.error e, s') := by
  rw [bind_apply]
  rcases x s with ⟨e | a, s1⟩
  · constructor
    · intro h
      cases h
      exact .inl rfl
    · rintro (h | ⟨a, s2, h, -⟩)
      · cases h
        rfl
      · cases h
  · refine ⟨fun h => .inr ⟨a, s1, rfl, h⟩, ?_⟩
    rintro (h | ⟨_, _, h, hf⟩)
    · cases h
    · cases h
      exact hf

theorem bind_of_ok (h : x s = (.ok a, s1)) : (x >>= f) s = f a s1 := by
  rw [bind_apply, h]

theorem ok_inj (h : ((.ok a : Except ε α), s) = (.ok b, s')) : a = b ∧ s = s' := by
  rwa [Prod.mk.injEq, Except.ok.injEq] at h

theorem error_inj (h : ((.error e : Except ε α), s) = (.error e', s')) : e = e' ∧ s = s' := by
  rwa [Prod.mk.injEq, Except.error.injEq] at h

theorem pure_eq_ok : (pure a : ExceptT ε (StateM σ) α) s = (.ok b, s') ↔ a = b ∧ s = s' := by
  rw [pure_apply, Prod.mk.injEq, Except.ok.injEq]

end LangKit
