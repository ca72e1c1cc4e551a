import LangKit.Proofs.Store.Sharing
import LangKit.Script.Variable

/-!
# Kinds of nodes

The kinds of the nodes of a program: those of values, those that operators make and those that have
to do with objects. The kind of a plain value says of which type its contents are (`Suits`).
-/

namespace LangKit.Script.Closures

variable {R : Nat → Nat → Prop}

def madeKinds : List String := ["int", "bool", "string", "nil"]

def valueKinds : List String := ["int", "bool", "string", "nil", "func", "lambda"]

def objectKinds : List String := ["@", "mcall", "obj"]

/-- The contents of a node are of the type that its kind says. -/
structure Suits (kind : String) (fs : Fields) : Prop where
  int : kind = "int" → ∀ d, Assoc.get? "val" fs = some d → ∃ n, d = .int n
  bool : kind = "bool" → ∀ d, Assoc.get? "val" fs = some d → ∃ b, d = .bool b
  string : kind = "string" → ∀ d, Assoc.get? "val" fs = some d → ∃ x, d = .text x

variable {kind : String} {fs fs' : Fields} {d : Datum}

theorem isSome_of_like (h : Datum.LikeFields R fs fs') (f : String) :
    (Assoc.get? f fs').isSome = (Assoc.get? f fs).isSome := by
  rcases h.get? f with ⟨h1, h2⟩ | ⟨d, d', h1, h2, -⟩
  · rw [h1, h2]
  · rw [h1, h2]
    rfl

theorem get?_of_like (h : Datum.LikeFields R fs fs')
    (hatom : ∀ d, Assoc.get? f fs = some d → d.isAtom = true) :
    Assoc.get? f fs' = Assoc.get? f fs := by
  rcases h.get? f with ⟨h1, h2⟩ | ⟨d, d', h1, h2, hlike⟩
  · rw [h1, h2]
  · rw [h1, h2, hlike.eq_of_isAtom (hatom d h1)]

theorem isSome_put (f name : String) (d : Datum) (fs : Fields) (h : (Assoc.get? f fs).isSome) :
    (Assoc.get? f (Assoc.put name d fs)).isSome := by
  by_cases hf : f = name
  · rw [hf, Assoc.get?_put_self]
    rfl
  · rw [Assoc.get?_put_of_ne hf]
    exact h

theorem LikeEntries.mem (h : Datum.LikeEntries R es es') :
    ∀ e' ∈ es', ∃ e ∈ es, Datum.Like R e.2 e'.2 := by
  induction es generalizing es' with
  | nil =>
    cases h with
    | nil => exact nofun
  | cons e rest ih =>
    cases h with
    | cons key value more =>
      intro e' he'
      rcases List.mem_cons.1 he' with rfl | he'
      · exact ⟨_, List.mem_cons_self, value⟩
      · obtain ⟨e, he, hlike⟩ := ih more e' he'
        exact ⟨e, List.mem_cons_of_mem _ he, hlike⟩

/-! ## Types of contents -/

theorem Suits.congr (h : Suits kind fs) (hget : Assoc.get? "val" fs' = Assoc.get? "val" fs) :
    Suits kind fs' := by
  refine ⟨fun hk => ?_, fun hk => ?_, fun hk => ?_⟩ <;> rw [hget]
  · exact h.int hk
  · exact h.bool hk
  · exact h.string hk

/-- Only the contents of numbers, truth values and texts have a type. -/
theorem suits_of_notMem (h : kind ∉ ["int", "bool", "string"]) : Suits kind fs := by
  refine ⟨?_, ?_, ?_⟩ <;> rintro rfl <;> exact absurd h (by decide)

theorem suits_int (n : Int) : Suits "int" [("val", .int n)] :=
  ⟨fun _ _ hd => ⟨n, (Option.some.inj hd).symm⟩, fun hk => absurd hk (by decide),
    fun hk => absurd hk (by decide)⟩

theorem suits_bool (b : Bool) : Suits "bool" [("val", .bool b)] :=
  ⟨fun hk => absurd hk (by decide), fun _ _ hd => ⟨b, (Option.some.inj hd).symm⟩,
    fun hk => absurd hk (by decide)⟩

theorem suits_text (x : String) : Suits "string" [("val", .text x)] :=
  ⟨fun hk => absurd hk (by decide), fun hk => absurd hk (by decide),
    fun _ _ hd => ⟨x, (Option.some.inj hd).symm⟩⟩

end LangKit.Script.Closures
