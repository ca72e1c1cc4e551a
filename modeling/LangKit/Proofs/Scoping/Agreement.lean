import LangKit.Proofs.Execution.Steps
import LangKit.Proofs.Scoping.Frames
import LangKit.Proofs.Store.Trees

/-!
# Runs that agree

Rules for comparing a run over a store with a run over a stack of frames, step by step. `Agree m w x
y Q` says that from the states `m` and `w` the two steps end in the same way, with the same console
if they stop and else with results and states that `Q` relates; it says nothing if nil is assigned
to a bound name on the way. That nothing takes such an assignment back (`Latches`) is what lets
agreement go through `bind`.

`Linked` relates the states. What holds of every step is that the nodes of the frames are the only
ones from before that it can change (`Grows`), so the program's own nodes and the values that are
already computed stay as they are.
-/

namespace LangKit.Script.Stacked

open Ast Store

variable {m' m : Machine} {w' w : World}

/-! ## Steps and their results -/

section

variable {α β γ δ : Type}

/-- Two runs have ended in the same way. -/
inductive Ends (Q : α → β → Machine → World → Prop) :
    Except Stop α × Machine → Except Stop β × World → Prop
  | ok {a : α} {b : β} {m : Machine} {w : World} (related : Q a b m w) :
      Ends Q (.ok a, m) (.ok b, w)
  | error (e : Stop) {m : Machine} {w : World} (console : m.console = w.console) :
      Ends Q (.error e, m) (.error e, w)

/-- Two steps end in the same way, unless nil is assigned to a bound name. -/
def Agree (m : Machine) (w : World) (x : Run α) (y : Act β) (Q : α → β → Machine → World → Prop) :
    Prop :=
  (y w).2.nilAssigned = false → Ends Q (x m) (y w)

/-- A step does not forget that nil was assigned to a bound name. -/
def Latches (y : Act β) : Prop :=
  ∀ w, w.nilAssigned = true → (y w).2.nilAssigned = true

@[simp] theorem latches_pure (b : β) : Latches (pure b : Act β) :=
  fun _ h => h

@[simp] theorem latches_throw (e : Stop) : Latches (throw e : Act β) :=
  fun _ h => h

@[simp] theorem latches_bind (hy : Latches y) (hg : ∀ b, Latches (g b)) :
    Latches (y >>= g) := by
  intro w hw
  have hw' := hy w hw
  rw [bind_apply]
  rcases hyw : y w with ⟨_ | b, w'⟩
  · rwa [hyw] at hw'
  · rw [hyw] at hw'
    exact hg b w' hw'

@[simp] theorem latches_map (h : β → δ) (hy : Latches y) : Latches (h <$> y) := by
  rw [← bind_pure_comp]
  exact latches_bind hy fun b => latches_pure (h b)

section

variable {x : Run α} {y : Act β} {f : α → Run γ} {g : β → Act δ}
  {Q : α → β → Machine → World → Prop} {R : γ → δ → Machine → World → Prop}

theorem Agree.bind (hx : Agree m w x y Q) (hg : ∀ b, Latches (g b))
    (hf : ∀ a b m' w', Q a b m' w' → Agree m' w' (f a) (g b) R) :
    Agree m w (x >>= f) (y >>= g) R := by
  intro hnil
  -- Had the first step assigned nil to a bound name, this would still be known after the second.
  have hnil' : (y w).2.nilAssigned = false := by
    cases h : (y w).2.nilAssigned with
    | false => rfl
    | true =>
      have hlatch : ((y >>= g) w).2.nilAssigned = true := by
        rw [bind_apply]
        rcases hy : y w with ⟨e | b, w'⟩
        · rw [hy] at h
          exact h
        · rw [hy] at h
          exact hg b w' h
      rw [hlatch] at hnil
      exact absurd hnil Bool.noConfusion
  have hends := hx hnil'
  rw [bind_apply] at hnil
  rw [bind_apply, bind_apply]
  generalize x m = r at hends
  generalize y w = r' at hends hnil
  cases hends with
  | ok related => exact hf _ _ _ _ related hnil
  | error e console => exact .error e console

theorem Agree.step {a : α} {y : Act δ} (hx : x m = (.ok a, m')) (hf : Agree m' w (f a) y R) :
    Agree m w (x >>= f) y R := by
  intro hnil
  rw [bind_apply, hx]
  exact hf hnil

theorem Agree.step_right {x : Run γ} (hy : y w = (.ok b, w')) (hg : Agree m w' x (g b) R) :
    Agree m w x (y >>= g) R := by
  intro hnil
  rw [bind_apply, hy] at hnil
  rw [bind_apply, hy]
  exact hg hnil

theorem Agree.congr (hx : x m = x' m) (hy : y w = y' w)
    (h : Agree m w x' y' Q) : Agree m w x y Q := by
  intro hnil
  rw [hx, hy]
  exact h (hy ▸ hnil)

theorem Agree.pure (h : Q a b m w) : Agree m w (pure a) (pure b) Q :=
  fun _ => .ok h

theorem Agree.throw (e : Stop) (h : m.console = w.console) :
    Agree m w (throw e : Run α) (throw e : Act β) Q :=
  fun _ => .error e h

theorem Agree.mono {Q' : α → β → Machine → World → Prop} (h : Agree m w x y Q)
    (hQ : ∀ a b m w, Q a b m w → Q' a b m w) : Agree m w x y Q' := by
  intro hnil
  have hends := h hnil
  generalize x m = r at hends ⊢
  generalize y w = r' at hends ⊢
  cases hends with
  | ok related => exact .ok (hQ _ _ _ _ related)
  | error e console => exact .error e console

/-- A step of the machine whose result is passed on in another form. -/
theorem Agree.map_left {y : Act δ} {Q : α → δ → Machine → World → Prop} {h : α → γ}
    (hx : Agree m w x y Q) (hQ : ∀ a b m w, Q a b m w → R (h a) b m w) :
    Agree m w (x >>= fun a => Pure.pure (h a)) y R := by
  intro hnil
  have hends := hx hnil
  rw [bind_apply]
  generalize x m = r at hends
  generalize y w = r' at hends
  cases hends with
  | ok related => exact .ok (hQ _ _ _ _ related)
  | error e console => exact .error e console

end

end

/-! ## States -/

/-- What stays the same during a run: the program, the nodes that it was loaded to, and the host's
inputs. -/
structure Setting where
  functions : List Function
  host : Store
  base : Store
  loaded : List Datum
  inputs : List Datum
  holds_functions : HoldsAll base base.size loaded (functions.map Function.tree)
  holds_inputs : ∀ d ∈ inputs, ∃ t, Holds base base.size d t ∧ Holds host host.size d t

variable (c : Setting)

def Setting.Code (d : Datum) (t : Tree) : Prop :=
  Holds c.base c.base.size d t

/-- A value has the same tree among the inputs as in the host's store. -/
def Setting.Given (d : Datum) : Prop :=
  ∃ t, Holds c.base c.base.size d t ∧ Holds c.host c.host.size d t

/-- The state of a run over a store, with the given places, shows the state of a run over frames. -/
structure Linked (places : Places) (m : Machine) (w : World) : Prop where
  base : Extends c.base m.store
  functions : m.functions = c.loaded
  console : m.console = w.console
  trace : m.console.trace = false
  inputs : m.console.inputs = c.inputs
  nodup : (refs places).Nodup
  range : ∀ r ∈ refs places, c.base.size ≤ r ∧ r < m.store.size
  frames : Frames m.store places w.env

/-- A step from one store to another changes no nodes from before but those of the places. -/
structure Grows (places : Places) (s s' : Store) : Prop where
  size : s.size ≤ s'.size
  node : ∀ ref < s.size, ref ∉ refs places → s'.node ref = s.node ref

def Fresh (s s' : Store) (d : Datum) (v : Value) : Prop :=
  ∃ ref, d = .node ref ∧ s.size ≤ ref ∧ ref < s'.size ∧ s'.node ref = v.node

/-- The result of a function or a statement: none, or a value in a new node. -/
inductive Result (s s' : Store) : Datum → Option Value → Prop
  | none : Result s s' .null none
  | some {d : Datum} {v : Value} (fresh : Fresh s s' d v) : Result s s' d (some v)

section

variable {places places' : Places} {s s' s'' : Store}

theorem Grows.refl : Grows places s s :=
  ⟨Nat.le_refl _, fun _ _ _ => rfl⟩

theorem Grows.of_extends (h : Extends s s') : Grows places s s' :=
  ⟨h.size, fun ref hr _ => h.node ref hr⟩

/-- One step after another, if the places of the second one are those of the first or new. -/
theorem Grows.trans (h : Grows places s s') (hp : ∀ r ∈ refs places', r ∈ refs places ∨ s.size ≤ r)
    (h' : Grows places' s' s'') : Grows places s s'' where
  size := Nat.le_trans h.size h'.size
  node ref hr hmem := by
    have hmem' : ref ∉ refs places' := fun hm => (hp ref hm).elim hmem (Nat.not_le_of_lt hr)
    exact (h'.node ref (Nat.lt_of_lt_of_le hr h.size) hmem').trans (h.node ref hr hmem)

theorem Grows.trans_same (h : Grows places s s') (h' : Grows places s' s'') : Grows places s s'' :=
  h.trans (fun _ hr => .inl hr) h'

theorem Fresh.keep (h : Fresh s s' d v) (hp : ∀ r ∈ refs places, r < s.size)
    (hg : Grows places s' s'') : Fresh s s'' d v := by
  obtain ⟨ref, rfl, hlow, hhigh, hnode⟩ := h
  refine ⟨ref, rfl, hlow, Nat.lt_of_lt_of_le hhigh hg.size, ?_⟩
  rw [hg.node ref hhigh fun hm => Nat.not_le_of_lt (hp ref hm) hlow]
  exact hnode

/-- A value that is new since a later store is new since an earlier one. -/
theorem Fresh.of_le (h : Fresh s' s'' d v) (hs : s.size ≤ s'.size) :
    Fresh s s'' d v := by
  obtain ⟨ref, hd, hlow, hrest⟩ := h
  exact ⟨ref, hd, Nat.le_trans hs hlow, hrest⟩

theorem Result.of_le (h : Result s' s'' d v) (hs : s.size ≤ s'.size) :
    Result s s'' d v := by
  cases h with
  | none => exact .none
  | some fresh => exact .some (fresh.of_le hs)

end

section

variable {c} {places : Places}

/-- The state after a step that only adds nodes. -/
theorem Linked.extend (h : Linked c places m w) (hs : Extends m.store s') :
    Linked c places { m with store := s' } w :=
  { h with
    base := h.base.trans hs
    range := fun r hr => ⟨(h.range r hr).1, Nat.lt_of_lt_of_le (h.range r hr).2 hs.size⟩
    frames := h.frames.congr fun r hr => hs.node r (h.range r hr).2 }

theorem Linked.setConsole (h : Linked c places m w) {console : Console} (ht : console.trace = false)
    (hi : console.inputs = c.inputs) :
    Linked c places { m with console } { w with console } :=
  { h with console := rfl, trace := ht, inputs := hi }

theorem Linked.tracing (h : Linked c places m w) : Run.tracing m = (.ok false, m) := by
  simp only [Run.tracing, h.trace]

theorem Linked.untraced (h : Linked c places m w) (x : Run Unit) :
    (do if ← Run.tracing then x : Run Unit) m = (.ok (), m) := by
  rw [bind_of_ok h.tracing]
  rfl

theorem Linked.lt_size (h : Linked c places m w) : ∀ r ∈ refs places, r < m.store.size :=
  fun r hr => (h.range r hr).2

end

end LangKit.Script.Stacked
