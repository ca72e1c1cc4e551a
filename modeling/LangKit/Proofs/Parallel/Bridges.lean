import LangKit.Proofs.Execution.Continuation
import LangKit.Proofs.Parallel.Loading

/-!
# Two runs side by side

Two runs of the same program go in step if their states correspond. A `Bridge` says how: which node
of the second run stands for which node of the first, what the stores and the consoles have in
common, and that all primitive steps keep this up. The second run may be one that prints no
diagnostics; then a line that only the first one prints does not count, and the first run may fail
where the second one goes on.

`Matches b B m m' x y Q` says of two steps, begun in states that correspond: if the first one ends
well then so does the second one, in states that correspond again, and `Q` holds of the results; and
if the first one fails then the second one fails with the same fault, unless the failure is one of a
diagnostic that only the first run makes; then the second one has gone on from there. Two kinds of
failures are accounted for, in a `Blame`: those of diagnostics, and those of reading a field that a
node does not have.
-/

namespace LangKit.Script.Parallel

open Run Store
open Closures (valueKinds madeKinds)

variable {scope scope' : Scope} {s1 s : Store}

/-! ## Values that are alike -/

section

variable {R : Nat → Nat → Prop} {d d' : Datum}

/-- Scopes with the same names, bound to values that are alike, look the same. -/
theorem showScope_eq (h : Datum.LikeFields R scope scope') :
    showScope scope' = showScope scope := by
  have hentries : Datum.LikeEntries R (scope.map fun e => (.text e.1, e.2))
      (scope'.map fun e => (.text e.1, e.2)) := by
    induction h with
    | nil => exact .nil
    | cons first _ ih => exact .cons (.text _) first ih
  rw [showScope, Datum.Like.display_eq (.mapping hentries), showScope]

theorem LikeFields.put (h : Datum.LikeFields R fs fs') (x : String)
    (hd : Datum.Like R d d') : Datum.LikeFields R (Assoc.put x d fs) (Assoc.put x d' fs') := by
  induction h with
  | nil => exact .cons hd .nil
  | cons first rest ih =>
    simp only [Assoc.put]
    split
    · exact .cons hd rest
    · exact .cons first ih

theorem LikeFields.has_eq (h : Datum.LikeFields R fs fs') (x : String) :
    Assoc.has x fs' = Assoc.has x fs :=
  Closures.isSome_of_like h x

end

/-! ## Consoles that go on -/

/-- What one console has logged, and the input it has used, come first in those of the other. -/
structure Precedes (c c' : Console) : Prop where
  log : ∃ new, c'.log = c.log ++ new
  cursor : c.cursor ≤ c'.cursor
  typed : c'.typed <:+ c.typed

theorem Precedes.refl (c : Console) : Precedes c c :=
  ⟨⟨#[], by simp⟩, Nat.le_refl _, List.suffix_refl _⟩

theorem Precedes.trans (h : Precedes c1 c2) (h' : Precedes c2 c3) :
    Precedes c1 c3 := by
  obtain ⟨new, hnew⟩ := h.log
  obtain ⟨new', hnew'⟩ := h'.log
  refine ⟨⟨new ++ new', ?_⟩, Nat.le_trans h.cursor h'.cursor, h'.typed.trans h.typed⟩
  rw [hnew', hnew, Array.append_assoc]

theorem precedes_of_before (h : c.Before c') (hcursor : c'.cursor = c.cursor)
    (htyped : c'.typed = c.typed) : Precedes c c' :=
  ⟨h.log, Nat.le_of_eq hcursor.symm, htyped ▸ List.suffix_refl _⟩

theorem precedes_input (c : Console) : Precedes c c.input.2 := by
  refine ⟨c.before_input.log, ?_, ?_⟩
  · unfold Console.input
    split
    · split <;> exact Nat.le_refl _
    · split
      · exact Nat.le_succ _
      · exact Nat.le_refl _
  · unfold Console.input
    split
    · split
      · rename_i line rest hsplit
        obtain ⟨-, rfl⟩ : String.ofList (c.typed.takeWhile (· != '\n')) = line ∧
            (c.typed.dropWhile (· != '\n')).drop 1 = rest := by
          rw [Console.splitLine] at hsplit
          split at hsplit
          · cases hsplit
          · exact Prod.mk.inj (Option.some.inj hsplit)
        exact (List.drop_suffix _ _).trans (List.dropWhile_suffix _)
      · exact List.suffix_refl _
    · split <;> exact List.suffix_refl _

/-- A step only adds to the log and takes from the input. -/
def GoesOn {α : Type} (x : Run α) : Prop :=
  ∀ m : Machine, Precedes m.console (x m).2.console

theorem precedes_output (c : Console) (s : Store) (d : Datum) : Precedes c (c.output s d).2 := by
  refine precedes_of_before (c.before_output s d) ?_ ?_
  · unfold Console.output
    split
    · split <;> rfl
    · rfl
  · unfold Console.output
    split
    · split <;> rfl
    · rfl

instance : InheritsWhole GoesOn :=
  inherits_of_console .refl .trans
    (fun c text => precedes_of_before (c.before_printed text) rfl rfl)
    (fun _ _ _ _ => precedes_of_before (Console.before_of_eq rfl rfl) rfl rfl) precedes_input
      precedes_output

theorem goesOn_after {α β : Type} {x : Run α} {f : α → Run β} [hf : ∀ a, Has GoesOn (f a)]
    (m : Machine) :
    Precedes (x m).2.console ((x >>= f) m).2.console := by
  rw [bind_apply]
  rcases x m with ⟨e | a, m'⟩
  · exact .refl _
  · exact (hf a).holds m'

/-! ## Bridges -/

/-- How the states of two runs correspond. -/
structure Bridge (g : Region) where
  rel : Nat → Nat → Prop
  stores : Store → Store → Prop
  consoles : Console → Console → Prop
  hushed : Bool
  given : List Datum
  same : ∀ {r r' q q'}, rel r r' → rel q q' → (r = q ↔ r' = q')
  inside : ∀ {s s' r r'}, stores s s' → g.Own s r → rel r r' → r' < s'.size
  kind : ∀ {s s' r r'}, stores s s' → g.Own s r → rel r r' → s'.kind r' = s.kind r
  fields : ∀ {s s' r r'}, stores s s' → g.Own s r → rel r r' →
    Datum.LikeFields rel (s.fields r) (s'.fields r')
  text : ∀ {s s' d d'}, Furnished g s → stores s s' → Known g s d → Datum.Like rel d d' →
    s'.textOf d' = s.textOf d
  givenText : ∀ {s s' d}, stores s s' → d ∈ given → s'.textOf d = s.textOf d
  alloc : ∀ {s s' kind fs fs'}, stores s s' → Datum.LikeFields rel fs fs' →
    stores (s.alloc kind fs).2 (s'.alloc kind fs').2 ∧ rel s.size s'.size
  copy : ∀ {s s' d d'}, Furnished g s → stores s s' → Known g s d → Datum.Like rel d d' →
    stores (s.copy d).2 (s'.copy d').2 ∧ Datum.Like rel (s.copy d).1 (s'.copy d').1
  copyFields : ∀ {s s' fs fs'}, Furnished g s → stores s s' → (∀ e ∈ fs, Known g s e.2) →
    Datum.LikeFields rel fs fs' →
    stores (s.copyFields fs).2 (s'.copyFields fs').2 ∧
      Datum.LikeFields rel (s.copyFields fs).1 (s'.copyFields fs').1
  setKind : ∀ {s s' r r' kind}, stores s s' → g.Own s r → rel r r' →
    stores (s.setKind r kind) (s'.setKind r' kind)
  setField : ∀ {s s' r r' name d d'}, stores s s' → g.Own s r → rel r r' → Datum.Like rel d d' →
    stores (s.setField r name d) (s'.setField r' name d')
  shareTable : ∀ {s s' r r' q q'}, stores s s' → g.Own s r → rel r r' → g.Own s q → rel q q' →
    stores (s.shareTable r q) (s'.shareTable r' q')
  input : ∀ {c c'}, consoles c c' → c.inputs = given ∧ c'.input.1 = c.input.1 ∧
    consoles c.input.2 c'.input.2
  trace : ∀ {c c'}, consoles c c' → c'.trace = (c.trace && !hushed)
  echo : ∀ {c c'}, consoles c c' → c'.echo = (c.echo && !hushed)
  printed : ∀ {c c'}, consoles c c' → ∀ more : String,
    consoles { c with printed := c.printed ++ more } { c' with printed := c'.printed ++ more }
  hush : hushed = true → ∀ {c c'}, consoles c c' →
    ∀ text : String, consoles { c with printed := text } c'
  log : ∀ {c c'}, consoles c c' → ∀ d : Datum, d.isAtom = true →
    consoles { c with log := c.log.push d } { c' with log := c'.log.push d }
  report : ∀ {c c'}, consoles c c' → ∀ kind text line,
    consoles (c.report kind text line).2 (c'.report kind text line).2

def readFields : List String :=
  ["functions", "name", "args", "statements", "expression", "condition", "else_statements", "op1",
    "op2", "objref"]

/-- A run stops because a node lacks a field that is read of code. -/
def IsRead (e : Stop) : Prop :=
  ∃ f ∈ readFields, e = .fault (Fault.missingField f)

/-- What accounts for a failure: of reading a field that is not there, and of a diagnostic. -/
structure Blame where
  reads : Stop → Machine → Prop
  cut : Stop → Machine → Prop

def Blame.none : Blame :=
  ⟨fun _ _ => False, fun _ _ => False⟩

/-- What accounts for the failures that another blame accounts for. -/
structure Blame.Covers (B B' : Blame) : Prop where
  reads : ∀ e m, B'.reads e m → B.reads e m
  cut : ∀ e m, B'.cut e m → B.cut e m

/-- The nodes of a program, its functions and its variables are as they should be. -/
structure Sane (g : Region) (m : Machine) : Prop where
  furnished : Furnished g m.store
  functions : ∀ f ∈ m.functions, IsFunction g m.store f
  globals : ∀ e ∈ m.globals, e.2 = .null ∨ IsValue g m.store e.2

section

variable {g : Region} (b : Bridge g)

structure Joined (m m' : Machine) : Prop where
  sane : Sane g m
  stores : b.stores m.store m'.store
  consoles : b.consoles m.console m'.console
  functions : Datum.LikeAll b.rel m.functions m'.functions
  globals : Datum.LikeFields b.rel m.globals m'.globals

/-- Data of the two programs that correspond. -/
structure Pair (s : Store) (d d' : Datum) : Prop where
  known : Known g s d
  like : Datum.Like b.rel d d'

structure Pairs (s : Store) (ds ds' : List Datum) : Prop where
  known : ∀ d ∈ ds, Known g s d
  like : Datum.LikeAll b.rel ds ds'

structure Values (s : Store) (d d' : Datum) : Prop where
  value : IsValue g s d
  like : Datum.Like b.rel d d'

structure Scopes (s : Store) (scope scope' : Scope) : Prop where
  values : ∀ e ∈ scope, IsValue g s e.2
  like : Datum.LikeFields b.rel scope scope'

structure Onward (g : Region) (m m1 : Machine) : Prop where
  later : Later g m.store m1.store
  spares : Spares g m.store m1.store

/-- Results are related in the store that a step leaves. -/
abbrev After {α β : Type} (P : Store → α → β → Prop) (a : α) (c : β) (m : Machine) : Prop :=
  P m.store a c

/-- The store when a run has stopped: as it may be at any time, unless a lambda was to be assigned
to a name that is bound. -/
def Halts (g : Region) (e : Stop) (s s1 : Store) : Prop :=
  ∃ s', Advance g s s' ∧ (s1 = s' ∨ Broken g s' s1 ∧ e = .fault (Fault.missingField "val"))

/-- The first run has failed with a diagnostic, and the second one has gone on from there. -/
structure Cut (B : Blame) (e : Stop) (m1 m1' : Machine) : Prop where
  hushed : b.hushed = true
  cause : B.cut e m1
  further : ∃ c', b.consoles m1.console c' ∧ Precedes c' m1'.console

/-- Two steps, begun in two states, go in step. -/
structure Matches {α β : Type} (B : Blame) (m m' : Machine) (x : Run α) (y : Run β)
    (Q : α → β → Machine → Prop) : Prop where
  ok : ∀ a m1, x m = (.ok a, m1) →
    ∃ c m1', y m' = (.ok c, m1') ∧ Joined b m1 m1' ∧ Onward g m m1 ∧ Q a c m1
  error : ∀ e m1, x m = (.error e, m1) → Halts g e m.store m1.store ∧ (IsRead e → B.reads e m1) ∧
    (Cut b B e m1 (y m').2 ∨ ∃ m1', y m' = (.error e, m1') ∧ b.consoles m1.console m1'.console)

end

variable {g : Region} {b : Bridge g} {B B' : Blame} {m m' m1 m1' m2 : Machine}
  {α β γ δ : Type} {x : Run α} {y : Run β} {f : α → Run γ} {k : β → Run δ}
  {Q Q' : α → β → Machine → Prop} {R : γ → δ → Machine → Prop} {d d' v v' : Datum}

/-! ## Going on -/

theorem Halts.refl (h : Joined b m m') : Halts g e m.store m.store :=
  ⟨m.store, .refl h.sane.furnished, .inl rfl⟩

theorem Halts.spares {s s1 : Store} (h : Halts g e s s1) : Spares g s s1 := by
  obtain ⟨s', hadvance, rfl | ⟨⟨r, -, hr, -, -, -, rfl⟩, -⟩⟩ := h
  · exact hadvance.spares
  · exact hadvance.spares.trans (spares_setKind hadvance.furnished hr)

theorem Onward.halts (ho : Onward g m m1) (h : Halts g e m1.store s1) (hj : Joined b m1 m1') :
    Halts g e m.store s1 := by
  obtain ⟨s', hadvance, hstop⟩ := h
  exact ⟨s', .trans ⟨hj.sane.furnished, ho.later, ho.spares⟩ hadvance, hstop⟩

theorem Onward.refl (h : Joined b m m') : Onward g m m :=
  ⟨.refl _ _, .refl h.sane.furnished.formed⟩

theorem Onward.trans (h : Onward g m m1) (h' : Onward g m1 m2) : Onward g m m2 :=
  ⟨h.later.trans h'.later, h.spares.trans h'.spares⟩

theorem Pair.later (h : Pair b m.store d d') (ho : Onward g m m1) : Pair b m1.store d d' :=
  ⟨h.known.mono ho.later.size, h.like⟩

theorem Pairs.later (h : Pairs b m.store ds ds') (ho : Onward g m m1) :
    Pairs b m1.store ds ds' :=
  ⟨fun d hd => (h.known d hd).mono ho.later.size, h.like⟩

theorem Values.later (h : Values b m.store d d') (ho : Onward g m m1) : Values b m1.store d d' :=
  ⟨h.value.later ho.later, h.like⟩

theorem Values.pair (h : Values b s d d') : Pair b s d d' :=
  ⟨h.value.known, h.like⟩

theorem Scopes.later (h : Scopes b m.store scope scope') (ho : Onward g m m1) :
    Scopes b m1.store scope scope' :=
  ⟨fun e he => (h.values e he).later ho.later, h.like⟩

theorem Scopes.put {s : Store} (h : Scopes b s scope scope')
    (name : String) (hv : Values b s v v') :
    Scopes b s (Assoc.put name v scope) (Assoc.put name v' scope') := by
  refine ⟨fun e he => ?_, LikeFields.put h.like name hv.like⟩
  rcases Assoc.mem_put he with hold | rfl
  · exact h.values e hold
  · exact hv.value

theorem Scopes.get? {s : Store} (h : Scopes b s scope scope') (name : String) :
    (Assoc.get? name scope = none ∧ Assoc.get? name scope' = none) ∨
      ∃ v v', Assoc.get? name scope = some v ∧ Assoc.get? name scope' = some v' ∧
        Values b s v v' := by
  rcases h.like.get? name with hnone | ⟨v, v', hv, hv', hlike⟩
  · exact .inl hnone
  · exact .inr ⟨v, v', hv, hv', h.values _ (Assoc.mem_of_get? hv), hlike⟩

theorem Values.exists_node (h : Values b s v v') :
    ∃ r r', v = .node r ∧ v' = .node r' ∧ b.rel r r' ∧ g.Own s r ∧ s.kind r ∈ g.kinds := by
  obtain ⟨⟨r, rfl, hr, hk, -⟩, hlike⟩ := h
  cases hlike with
  | node related => exact ⟨r, _, rfl, rfl, related, hr, hk⟩

theorem Blame.covers_none (B : Blame) : B.Covers .none :=
  ⟨fun _ _ => False.elim, fun _ _ => False.elim⟩

/-! ## Rules -/

theorem Matches.pure (h : Joined b m m') (hQ : Q a c m) :
    Matches b B m m' (pure a) (pure c) Q where
  ok a1 m1 hx := by
    obtain ⟨rfl, rfl⟩ := pure_eq_ok.1 hx
    exact ⟨c, m', rfl, h, .refl h, hQ⟩
  error e m1 hx := by cases hx

theorem Matches.mono (h : Matches b B m m' x y Q)
    (hQ : ∀ a c m1, Onward g m m1 → Q a c m1 → Q' a c m1) : Matches b B m m' x y Q' where
  ok a m1 hx := by
    obtain ⟨c, m1', hy, hj, ho, hq⟩ := h.ok a m1 hx
    exact ⟨c, m1', hy, hj, ho, hQ a c m1 ho hq⟩
  error := h.error

theorem Matches.blame (h : Matches b B' m m' x y Q) (hB : B.Covers B') :
    Matches b B m m' x y Q where
  ok := h.ok
  error e m1 hx := by
    obtain ⟨hhalts, hreads, hend⟩ := h.error e m1 hx
    exact ⟨hhalts, fun he => hB.reads e m1 (hreads he),
      hend.imp_left fun hcut => ⟨hcut.hushed, hB.cut e m1 hcut.cause, hcut.further⟩⟩

/-- One pair of steps after another. If the first run fails with a diagnostic, then the second one
does its second step too, of which it has to be known that it only adds to the console. -/
theorem Matches.seq (hx : Matches b B' m m' x y Q) (hB : B.Covers B')
    (hcut : ∀ e m1, B'.cut e m1 → Precedes (y m').2.console ((y >>= k) m').2.console)
    (hf : ∀ a c m1 m1', x m = (.ok a, m1) → Joined b m1 m1' → Onward g m m1 → Q a c m1 →
      Matches b B m1 m1' (f a) (k c) R) :
    Matches b B m m' (x >>= f) (y >>= k) R where
  ok a m2 h := by
    obtain ⟨a1, m1, hx1, h⟩ := bind_eq_ok.1 h
    obtain ⟨c1, m1', hy1, hj, ho, hq⟩ := hx.ok a1 m1 hx1
    obtain ⟨c, m2', hk, hj2, ho2, hr⟩ := (hf a1 c1 m1 m1' hx1 hj ho hq).ok a m2 h
    exact ⟨c, m2', bind_eq_ok.2 ⟨c1, m1', hy1, hk⟩, hj2, ho.trans ho2, hr⟩
  error e m2 h := by
    rcases bind_eq_error.1 h with h | ⟨a1, m1, hx1, h⟩
    · obtain ⟨hhalts, hreads, hend⟩ := hx.error e m2 h
      refine ⟨hhalts, fun he => hB.reads e m2 (hreads he), ?_⟩
      rcases hend with ⟨hhushed, hcause, c', hconsoles, hfurther⟩ | ⟨m1', hy, hconsoles⟩
      · exact .inl ⟨hhushed, hB.cut e m2 hcause, c', hconsoles, hfurther.trans (hcut e m2 hcause)⟩
      · exact .inr ⟨m1', bind_eq_error.2 (.inl hy), hconsoles⟩
    · obtain ⟨c1, m1', hy1, hj, ho, hq⟩ := hx.ok a1 m1 hx1
      obtain ⟨hhalts, hreads, hend⟩ := (hf a1 c1 m1 m1' hx1 hj ho hq).error e m2 h
      refine ⟨ho.halts hhalts hj, hreads, ?_⟩
      rcases hend with hcut | ⟨m2', hk, hconsoles⟩
      · left
        rwa [bind_of_ok hy1]
      · exact .inr ⟨m2', bind_eq_error.2 (.inr ⟨c1, m1', hy1, hk⟩), hconsoles⟩

theorem Matches.bind [i : ∀ c, Has GoesOn (k c)] (hx : Matches b B m m' x y Q)
    (hf : ∀ a c m1 m1', x m = (.ok a, m1) → Joined b m1 m1' → Onward g m m1 → Q a c m1 →
      Matches b B m1 m1' (f a) (k c) R) :
    Matches b B m m' (x >>= f) (y >>= k) R :=
  hx.seq ⟨fun _ _ => id, fun _ _ => id⟩ (fun _ _ _ => goesOn_after m') hf

/-- A pair of steps without failures of diagnostics, and another one behind it. -/
theorem Matches.next (hx : Matches b .none m m' x y Q)
    (hf : ∀ a c m1 m1', x m = (.ok a, m1) → Joined b m1 m1' → Onward g m m1 → Q a c m1 →
      Matches b B m1 m1' (f a) (k c) R) :
    Matches b B m m' (x >>= f) (y >>= k) R :=
  hx.seq B.covers_none (fun _ _ => False.elim) hf

theorem matches_ite {p : Prop} [Decidable p] {x x' : Run α} {y y' : Run β}
    (ht : p → Matches b B m m' x y Q) (hf : ¬ p → Matches b B m m' x' y' Q) :
    Matches b B m m' (if p then x else x') (if p then y else y') Q := by
  by_cases hp : p
  · rw [if_pos hp, if_pos hp]
    exact ht hp
  · rw [if_neg hp, if_neg hp]
    exact hf hp

theorem Matches.bind_pure (h : Matches b B m m' (f a) (k c) R) :
    Matches b B m m' ((Pure.pure a : Run α) >>= f) ((Pure.pure c : Run β) >>= k) R := by
  simpa only [pure_bind] using h

theorem matches_of_error (h : Joined b m m') (hx : x m = (.error e, m)) (hy : y m' = (.error e, m'))
    (hread : IsRead e → B.reads e m) : Matches b B m m' x y Q where
  ok a m1 hok := by
    rw [hx] at hok
    cases hok
  error e' m1 herror := by
    rw [hx] at herror
    obtain ⟨rfl, rfl⟩ := error_inj herror
    exact ⟨.refl h, hread, .inr ⟨m', hy, h.consoles⟩⟩

theorem matches_throw (h : Joined b m m') (he : ¬ IsRead e) :
    Matches b B m m' (throw e : Run α) (throw e : Run β) Q :=
  matches_of_error h rfl rfl fun hr => absurd hr he

theorem not_isRead_of_fault {φ : Fault} (h : ∀ shown, φ ≠ .missingKey shown) :
    ¬ IsRead (.fault φ) := by
  rintro ⟨name, -, heq⟩
  exact h _ (Stop.fault.inj heq)

theorem Matches.congr (h : Matches b B m m' x1 y1 Q) (hx : x m = x1 m)
    (hy : y m' = y1 m') : Matches b B m m' x y Q where
  ok a m1 hok := by
    rw [hy]
    exact h.ok a m1 (hx.symm.trans hok)
  error e m1 herror := by
    rw [hy]
    exact h.error e m1 (hx.symm.trans herror)

/-- Two steps that only look at the states, and others behind them. -/
theorem Matches.look (hx : x m = (.ok a, m)) (hy : y m' = (.ok c, m'))
    (h : Matches b B m m' (f a) (k c) R) : Matches b B m m' (x >>= f) (y >>= k) R :=
  .congr h (bind_of_ok hx) (bind_of_ok hy)

theorem Matches.refuse {φ : Fault} (h : Joined b m m') (hx : x m = (.error (.fault φ), m))
    (hy : y m' = (.error (.fault φ), m')) (hφ : ∀ shown, φ ≠ .missingKey shown) :
    Matches b B m m' (x >>= f) (y >>= k) R :=
  .congr (matches_throw h (not_isRead_of_fault hφ)) (by rw [bind_apply, hx]; rfl)
    (by rw [bind_apply, hy]; rfl)

/-- Two steps that both fail. -/
theorem Matches.stop (hx : Matches b .none m m' x y fun _ _ _ => False) :
    Matches b B m m' (x >>= f) (y >>= k) R :=
  hx.next fun _ _ _ _ _ _ _ hq => hq.elim

theorem not_isRead_outOfFuel : ¬ IsRead .outOfFuel := by
  rintro ⟨_, -, h⟩
  cases h

end LangKit.Script.Parallel
