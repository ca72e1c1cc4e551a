import LangKit.Proofs.Parallel.Bridges
import LangKit.Proofs.Safety.Invariant

/-!
# Primitive steps of two runs

The steps that evaluators are made of go in step: reading kinds and fields, adding, copying and
changing nodes, printing, reading input and putting values out.
-/

namespace LangKit.Script.Parallel

open Run Store
open Closures (valueKinds madeKinds Suits)

variable {r : Nat} {nodeText : Nat → Except Fault String} {d z : Datum} {name kind t : String}
  {ds : List Datum} {s : Store} {c c' : Console}

/-! ## Faults of computations -/

/-- A computation does not fail for want of a field. -/
def Plain {α : Type} (r : Except Fault α) : Prop :=
  ∀ shown, r ≠ .error (.missingKey shown)

section

variable {α β : Type}

theorem plain_ok (a : α) : Plain (.ok a : Except Fault α) :=
  fun _ h => by cases h

theorem plain_bind {r : Except Fault α} (h : Plain r) (hf : ∀ a, Plain (f a)) :
    Plain (r >>= f) := by
  cases r with
  | error φ =>
    intro shown heq
    obtain rfl : φ = .missingKey shown := Except.error.inj heq
    exact h shown rfl
  | ok a => exact hf a

theorem plain_display (d : Datum) : Plain d.display := by
  unfold Datum.display
  intro shown h
  split at h
  · cases h
  · cases h

theorem lasting_plain : Datum.Lasting fun _ x _ => Plain x :=
  ⟨plain_ok, plain_bind, plain_display⟩

theorem plain_nodeText (s : Store) (fuel r : Nat) : Plain (s.nodeText fuel r) := by
  induction fuel generalizing r with
  | zero => exact fun _ h => by cases h
  | succ fuel ih =>
    exact plain_bind (lasting_plain.fieldTexts (q := s.nodeText fuel) (fun r _ _ => ih r) (.refl _))
      fun _ => plain_ok _

theorem plain_textOf (s : Store) (d : Datum) : Plain (s.textOf d) :=
  lasting_plain.text (q := s.nodeText 0) (fun r _ _ => plain_nodeText s _ r) (.refl d)

theorem plain_toInteger (d : Datum) : Plain d.toInteger := by
  intro shown h
  unfold Datum.toInteger at h
  split at h
  · cases h
  · split at h <;> cases h
  · cases h

theorem plain_negate (d : Datum) : Plain d.negate := by
  intro shown h
  unfold Datum.negate at h
  split at h <;> cases h

end

/-- An operation on two plain values: it gives plain values, numbers for numbers, and does not fail
for want of a field. -/
structure Sober (f : Datum → Datum → Except Fault Datum) : Prop where
  plain : ∀ x y, Plain (f x y)
  atom : ∀ {x y d}, x.isAtom = true → y.isAtom = true → f x y = .ok d → d.isAtom = true
  int : ∀ {n k d}, f (.int n) (.int k) = .ok d → ∃ i, d = .int i

theorem sober_add : Sober Datum.add where
  plain x y shown h := by
    unfold Datum.add at h
    split at h
    · cases h
    · split at h <;> cases h
  atom hx hy h := by
    unfold Datum.add at h
    split at h
    · cases h
      rfl
    · split at h
      · cases h
        rfl
      · cases hx
      · cases hx
      · cases h
      · cases h
      · cases h
      · cases h
  int h := ⟨_, (Except.ok.inj h).symm⟩

theorem sober_subtract : Sober Datum.subtract where
  plain x y shown h := by
    unfold Datum.subtract at h
    split at h <;> cases h
  atom hx hy h := by
    unfold Datum.subtract at h
    split at h
    · cases h
      rfl
    · cases h
  int h := ⟨_, (Except.ok.inj h).symm⟩

theorem isAtom_of_repeated (hx : x.isAtom = true) (h : Datum.repeated? n x = some d) :
    d.isAtom = true := by
  cases x with
  | text s =>
    cases h
    rfl
  | bool | int => cases h
  | _ => cases hx

theorem sober_multiply : Sober Datum.multiply where
  plain x y shown h := by
    unfold Datum.multiply at h
    split at h
    · cases h
    · split at h <;> cases h
    · split at h <;> cases h
    · split at h
      · cases h
      · split at h <;> cases h
  atom hx hy h := by
    unfold Datum.multiply at h
    split at h
    · cases h
      rfl
    · split at h
      · rename_i hrep
        cases h
        exact isAtom_of_repeated hy hrep
      · cases h
    · split at h
      · rename_i hrep
        cases h
        exact isAtom_of_repeated hx hrep
      · cases h
    · split at h
      · cases h
      · split at h <;> cases h
  int h := ⟨_, (Except.ok.inj h).symm⟩

theorem sober_divide : Sober Datum.divide where
  plain x y shown h := by
    unfold Datum.divide at h
    split at h
    · split at h <;> cases h
    · cases h
  atom hx hy h := by
    unfold Datum.divide at h
    split at h
    · split at h
      · cases h
      · cases h
        rfl
    · cases h
  int h := by
    simp only [Datum.divide, Datum.number?] at h
    split at h
    · cases h
    · exact ⟨_, (Except.ok.inj h).symm⟩

theorem plain_compare (hx : x.isAtom = true) :
    Plain (Datum.compare order x y) := by
  intro shown h
  cases x with
  | bool | int =>
    simp only [Datum.compare] at h
    split at h <;> cases h
  | text s =>
    cases y with
    | text t => cases h
    | _ =>
      simp only [Datum.compare] at h
      split at h <;> cases h
  | _ => cases hx

variable {g : Region} {b : Bridge g} {B : Blame} {m m' : Machine} {α β γ δ : Type} {x : Run α}
  {y : Run β} {f : α → Run γ} {k : α → Run δ} {R : γ → δ → Machine → Prop} {d' v v' : Datum}
  {scope scope' : Scope}

/-! ## Reading -/

theorem Matches.lift (h : Joined b m m') {r : Except Fault α} (hr : Plain r)
    (hk : ∀ a, r = .ok a → Matches b B m m' (f a) (k a) R) :
    Matches b B m m' (lift r >>= f) (lift r >>= k) R := by
  cases r with
  | ok a => exact .look rfl rfl (hk a rfl)
  | error φ => exact .refuse h rfl rfl fun shown heq => hr shown (congrArg _ heq)

section

variable (h : Joined b m m') (hd : Pair b m.store d d')
include h hd

theorem Matches.kindOf {f : String → Run γ} {k : String → Run δ}
    (hk : ∀ kind, kindOf d m = (.ok kind, m) → Matches b B m m' (f kind) (k kind) R) :
    Matches b B m m' (kindOf d >>= f) (kindOf d' >>= k) R := by
  obtain ⟨hknown, hlike⟩ := hd
  cases hlike with
  | node related =>
    have hsame := b.kind h.stores (known_node.1 hknown) related
    exact .look rfl (congrArg (fun kind => (Except.ok kind, m')) hsame) (hk _ rfl)
  | _ => exact .refuse h rfl rfl fun _ => Fault.noConfusion

theorem Matches.field? {name : String} {f : Option Datum → Run γ} {k : Option Datum → Run δ}
    (hnone : field? d name m = (.ok none, m) → Matches b B m m' (f none) (k none) R)
    (hsome : ∀ v v', field? d name m = (.ok (some v), m) → Pair b m.store v v' →
      Matches b B m m' (f (some v)) (k (some v')) R) :
    Matches b B m m' (field? d name >>= f) (field? d' name >>= k) R := by
  obtain ⟨hknown, hlike⟩ := hd
  cases hlike with
  | node related =>
    have hown := known_node.1 hknown
    have hread {m : Machine} {r : Nat} {v : Option Datum}
      (hv : Assoc.get? name (m.store.fields r) = v) :
        Run.field? (.node r) name m = (.ok v, m) := congrArg (fun v => (Except.ok v, m)) hv
    rcases (b.fields h.stores hown related).get? name with ⟨h1, h2⟩ | ⟨v, v', h1, h2, hlike⟩
    · exact .look (hread h1) (hread h2) (hnone (hread h1))
    · refine .look (hread h1) (hread h2) (hsome v v' (hread h1) ?_)
      exact ⟨h.sane.furnished.known_field hown h1, hlike⟩
  | _ => exact .refuse h rfl rfl fun _ => Fault.noConfusion

theorem Matches.field {name : String} {f : Datum → Run γ} {k : Datum → Run δ}
    (hmissing : ∀ r, d = .node r → m.store.field? r name = none →
      ¬ IsRead (.fault (Fault.missingField name)))
    (hk : ∀ v v', field d name m = (.ok v, m) → Pair b m.store v v' →
      Matches b B m m' (f v) (k v') R) :
    Matches b B m m' (field d name >>= f) (field d' name >>= k) R := by
  simp only [Run.field, bind_assoc]
  refine .field? h hd (fun hnone => ?_) fun v v' hsome hv => ?_
  · obtain ⟨r, rfl, hmiss⟩ := exists_node_of_field? hnone
    exact .stop (matches_throw h (hmissing r rfl hmiss))
  · simp only [pure_bind]
    refine hk v v' ?_ hv
    rw [Run.field, bind_of_ok hsome]
    rfl

theorem Matches.present {f : Datum → Run γ} {k : Datum → Run δ}
    (hpresent : ∀ r, d = .node r → (m.store.field? r name).isSome)
    (hk : ∀ v v', Run.field d name m = (.ok v, m) → Pair b m.store v v' →
      Matches b B m m' (f v) (k v') R) :
    Matches b B m m' (Run.field d name >>= f) (Run.field d' name >>= k) R := by
  refine .field h hd (fun r hr hnone => ?_) hk
  have := hpresent r hr
  rw [hnone] at this
  cases this

end

theorem not_isRead_missingField (h : ∀ f ∈ readFields, Text.quoted name ≠ Text.quoted f) :
    ¬ IsRead (.fault (Fault.missingField name)) := by
  rintro ⟨f, hf, heq⟩
  exact h f hf (Fault.missingKey.inj (Stop.fault.inj heq))

theorem val_of_contents {x : Datum} (h : contents (.node r) m = (.ok x, m)) :
    m.store.field? r "val" = some x :=
  (ok_inj (field?_of_field h)).1

theorem Matches.contents {f : Datum → Run γ} {k : Datum → Run δ} (h : Joined b m m')
    (hv : Values b m.store v v')
    (hk : ∀ x, x.isAtom = true → contents v m = (.ok x, m) → Matches b B m m' (f x) (k x) R) :
    Matches b B m m' (contents v >>= f) (contents v' >>= k) R := by
  refine .field h hv.pair (fun _ _ _ => not_isRead_missingField (by decide)) fun x x' hx hpair => ?_
  obtain ⟨r, r', rfl, rfl, -, hr, -⟩ := hv.exists_node
  have hatom := (h.sane.furnished.fit r hr).contents x (val_of_contents hx)
  rw [hpair.like.eq_of_isAtom hatom]
  exact hk x hatom hx

theorem ne_lambda_of_contents (h : Joined b m m') {x : Datum} (hr : g.Own m.store r)
    (hx : Script.contents (.node r) m = (.ok x, m)) : m.store.kind r ≠ "lambda" := by
  intro hk
  have hempty : m.store.field? r "val" = none := (h.sane.furnished.fit r hr).empty hk
  rw [Script.contents, field_node, hempty] at hx
  cases hx

theorem mem_refs_of_items (h : items d m = (.ok ds, m)) : ∀ x ∈ ds, ∀ r ∈ x.refs, r ∈ d.refs := by
  have hall : ∀ ds : List Datum, ∀ x ∈ ds, ∀ r ∈ x.refs, r ∈ Datum.refsAll ds := by
    intro ds
    induction ds with
    | nil => exact List.forall_mem_nil _
    | cons y rest ih =>
      refine List.forall_mem_cons.2 ⟨fun r hr => List.mem_append_left _ hr, fun x hx r hr => ?_⟩
      exact List.mem_append_right _ (ih x hx r hr)
  have hkeys : ∀ es : List (Datum × Datum), ∀ x ∈ es.map (·.1), ∀ r ∈ x.refs,
      r ∈ Datum.refsEntries es := by
    intro es
    induction es with
    | nil => exact List.forall_mem_nil _
    | cons e rest ih =>
      refine List.forall_mem_cons.2 ⟨fun r hr => List.mem_append_left _ hr, fun x hx r hr => ?_⟩
      exact List.mem_append_right _ (List.mem_append_right _ (ih x hx r hr))
  cases d with
  | list xs =>
    obtain ⟨rfl, -⟩ := pure_eq_ok.1 h
    exact hall xs
  | tuple xs =>
    obtain ⟨rfl, -⟩ := pure_eq_ok.1 h
    exact hall xs
  | text s =>
    obtain ⟨rfl, -⟩ := pure_eq_ok.1 h
    intro x hx
    obtain ⟨c, -, rfl⟩ := List.mem_map.1 hx
    exact List.forall_mem_nil _
  | mapping es =>
    obtain ⟨rfl, -⟩ := pure_eq_ok.1 h
    exact hkeys es
  | _ => cases h

theorem items_of_like {R : Nat → Nat → Prop} (hl : Datum.Like R d d') (h : items d m = (.ok ds, m))
    (m' : Machine) :
    ∃ ds', items d' m' = (.ok ds', m') ∧ Datum.LikeAll R ds ds' := by
  cases hl with
  | @list xs xs' hitems =>
    obtain ⟨rfl, -⟩ := pure_eq_ok.1 h
    exact ⟨xs', rfl, hitems⟩
  | @tuple xs xs' hitems =>
    obtain ⟨rfl, -⟩ := pure_eq_ok.1 h
    exact ⟨xs', rfl, hitems⟩
  | text t =>
    obtain ⟨rfl, -⟩ := pure_eq_ok.1 h
    refine ⟨_, rfl, ?_⟩
    induction t.toList with
    | nil => exact .nil
    | cons c rest ih => exact .cons (.text _) ih
  | @mapping es es' hentries =>
    obtain ⟨rfl, -⟩ := pure_eq_ok.1 h
    refine ⟨_, rfl, ?_⟩
    clear h
    induction es generalizing es' with
    | nil =>
      cases hentries
      exact .nil
    | cons e rest ih =>
      cases hentries with
      | cons key value more => exact .cons key (ih more)
  | _ => cases h

theorem Matches.items {f : List Datum → Run γ} {k : List Datum → Run δ} (h : Joined b m m')
    (hd : Pair b m.store d d')
    (hk : ∀ ds ds', items d m = (.ok ds, m) → Pairs b m.store ds ds' →
      Matches b B m m' (f ds) (k ds') R) :
    Matches b B m m' (items d >>= f) (items d' >>= k) R := by
  have hgiven : ∀ ds, Run.items d m = (.ok ds, m) →
      Matches b B m m' (Run.items d >>= f) (Run.items d' >>= k) R := by
    intro ds hds
    obtain ⟨ds', hds', hlike⟩ := items_of_like hd.like hds m'
    refine .look hds hds' (hk ds ds' hds ⟨fun x hx r hr => ?_, hlike⟩)
    exact hd.known r (mem_refs_of_items hds x hx r hr)
  have hlike := hd.like
  cases hlike with
  | list | tuple | text | mapping => exact hgiven _ rfl
  | _ => exact .refuse h rfl rfl fun _ => Fault.noConfusion

theorem Matches.size {f : Nat → Run γ} {k : Nat → Run δ} (h : Joined b m m')
    (hd : Pair b m.store d d') (hk : ∀ n, size d m = (.ok n, m) → Matches b B m m' (f n) (k n) R) :
    Matches b B m m' (size d >>= f) (size d' >>= k) R := by
  have hlike := hd.like
  cases hlike with
  | list hitems | tuple hitems =>
    exact .look rfl (congrArg (fun n => (Except.ok n, m')) (LikeAll.length_eq hitems)) (hk _ rfl)
  | text t => exact .bind_pure (hk t.length rfl)
  | mapping hentries =>
    exact .look rfl (congrArg (fun n => (Except.ok n, m')) (LikeEntries.length_eq hentries))
      (hk _ rfl)
  | _ => exact .refuse h rfl rfl fun _ => Fault.noConfusion

theorem Matches.textOf {f : String → Run γ} {k : String → Run δ} (h : Joined b m m')
    (htext : m'.store.textOf d' = m.store.textOf d)
    (hk : ∀ t, textOf d m = (.ok t, m) → Matches b B m m' (f t) (k t) R) :
    Matches b B m m' (textOf d >>= f) (textOf d' >>= k) R := by
  cases ht : m.store.textOf d with
  | ok t =>
    have hleft : Run.textOf d m = (.ok t, m) := by rw [Run.textOf, ht]
    exact .look hleft (by rw [Run.textOf, htext, ht]) (hk t hleft)
  | error φ =>
    refine .refuse h (φ := φ) (by rw [Run.textOf, ht]) (by rw [Run.textOf, htext, ht])
      fun shown heq => ?_
    exact plain_textOf m.store d shown (heq ▸ ht)

theorem Joined.text_eq (h : Joined b m m') (hd : Pair b m.store d d') :
    m'.store.textOf d' = m.store.textOf d :=
  b.text h.sane.furnished h.stores hd.known hd.like

theorem Matches.nameText {f : String → Run γ} {k : String → Run δ} (h : Joined b m m')
    (hd : Pair b m.store d d')
    (hk : ∀ t, nameText d m = (.ok t, m) → Matches b B m m' (f t) (k t) R) :
    Matches b B m m' (nameText d >>= f) (nameText d' >>= k) R := by
  have hlike := hd.like
  cases hlike with
  | text t => exact .bind_pure (hk t rfl)
  | _ => exact .textOf h (h.text_eq hd) hk

/-! ## Changing the store -/

section

variable (h : Joined b m m')

include h

theorem Joined.onStore (ha : Advance g m.store s) (hs : b.stores s s') :
    Joined b { m with store := s } { m' with store := s' } ∧ Onward g m { m with store := s } := by
  have hsane : Sane g { m with store := s } := by
    refine ⟨ha.furnished, fun f hf => (h.sane.functions f hf).later ha.later, fun e he => ?_⟩
    exact (h.sane.globals e he).imp_right fun hv => hv.later ha.later
  exact ⟨⟨hsane, hs, h.consoles, h.functions, h.globals⟩, ha.later, ha.spares⟩

theorem matches_onStore {F : Store → α × Store} {G : Store → β × Store} {Q : α → β → Machine → Prop}
    (ha : Advance g m.store (F m.store).2) (hs : b.stores (F m.store).2 (G m'.store).2)
    (hQ : Q (F m.store).1 (G m'.store).1 { m with store := (F m.store).2 }) :
    Matches b B m m' (onStore F) (onStore G) Q where
  ok a m1 hx := by
    obtain ⟨rfl, rfl⟩ := ok_inj hx
    obtain ⟨hjoined, honward⟩ := h.onStore ha hs
    exact ⟨_, _, rfl, hjoined, honward, hQ⟩
  error e m1 hx := by cases hx

theorem matches_make (hl : Datum.LikeFields b.rel fs fs') (hfit : Fit g m.store kind fs)
    (hk : kind ∈ madeKinds) (hsuits : g.closures = true → Suits kind fs) :
    Matches b B m m' (make kind fs) (make kind fs') (After (Values b)) := by
  obtain ⟨hstores, hrel⟩ := b.alloc h.stores hl
  refine matches_onStore h (advance_alloc h.sane.furnished hfit hsuits) hstores ⟨?_, .node hrel⟩
  exact isValue_alloc h.sane.furnished.cells hk

theorem matches_makeWith (hk : kind ∈ madeKinds) (hz : z.isAtom = true)
    (hsuits : g.closures = true → Suits kind [("val", z)]) :
    Matches b B m m' (make kind [("val", z)]) (make kind [("val", z)])
      (After (Values b)) :=
  matches_make h (.cons (like_of_isAtom hz) .nil) (fit_made hk hz) hk hsuits

theorem matches_makeBool (z : Bool) :
    Matches b B m m' (makeBool z) (makeBool z) (After (Values b)) :=
  matches_makeWith h (by decide) rfl fun _ => Closures.suits_bool z

theorem matches_makeInt (n : Int) :
    Matches b B m m' (makeInt n) (makeInt n) (After (Values b)) :=
  matches_makeWith h (by decide) rfl fun _ => Closures.suits_int n

theorem matches_makeNil : Matches b B m m' makeNil makeNil (After (Values b)) :=
  matches_make h .nil fit_nil (by decide) fun _ => Closures.suits_of_notMem (by decide)

end

def SameKind (s : Store) (v c : Datum) : Prop :=
  ∀ r q, v = .node r → c = .node q → s.kind q = s.kind r

section

variable (h : Joined b m m')

include h

theorem matches_copy (hv : Values b m.store v v') :
    Matches b B m m' (copy v) (copy v')
      (fun c c' m1 => Values b m1.store c c' ∧ SameKind m1.store v c) := by
  have hfurnished := h.sane.furnished
  obtain ⟨R, hcopied, hlike⟩ := copied_copy hfurnished.formed hfurnished.closed hv.value.known
  have hboth := b.copy hfurnished h.stores hv.value.known hv.like
  refine matches_onStore h (advance_copied hfurnished hcopied) hboth.1 ⟨⟨?_, hboth.2⟩, ?_⟩
  · exact hv.value.copied hfurnished hcopied hlike
  · rintro r q rfl hq
    have hr := known_node.1 hv.value.known
    rw [hq] at hlike
    cases hlike with
    | node hR => exact (hcopied.kind _ _ hR).trans (hcopied.grown.kind_eq hr.2).symm

theorem matches_copyNode (hv : Pair b m.store (.node r) v') :
    Matches b B m m' (copy (.node r)) (copy v') (fun c c' m1 => ∃ q q', c = .node q ∧
      c' = .node q' ∧
      g.Own m1.store q ∧ b.rel q q' ∧ m1.store.kind q = m.store.kind r) := by
  have hfurnished := h.sane.furnished
  obtain ⟨R, hcopied, hlike⟩ := copied_copy hfurnished.formed hfurnished.closed hv.known
  obtain ⟨hstores, hboth⟩ := b.copy hfurnished h.stores hv.known hv.like
  refine matches_onStore h (advance_copied hfurnished hcopied) hstores ?_
  generalize (m.store.copy (.node r)).1 = c at hlike hboth ⊢
  generalize (m'.store.copy v').1 = c' at hboth ⊢
  cases hlike with
  | @node _ q hR =>
    cases hboth with
    | node hrel =>
      exact ⟨q, _, rfl, rfl, own_of_copied hfurnished hcopied hR, hrel, hcopied.kind _ _ hR⟩

theorem matches_copyFields (hs : Scopes b m.store scope scope') :
    Matches b B m m' (onStore fun s => s.copyFields scope) (onStore fun s => s.copyFields scope')
      (After (Scopes b)) := by
  have hfurnished := h.sane.furnished
  have hknown : ∀ e ∈ scope, Known g m.store e.2 := fun e he => (hs.values e he).known
  obtain ⟨R, hcopied, hlike⟩ := copied_copyFields hfurnished.formed hfurnished.closed hknown
  have hboth := b.copyFields hfurnished h.stores hknown hs.like
  refine matches_onStore h (advance_copied hfurnished hcopied) hboth.1 ⟨fun e' he' => ?_, hboth.2⟩
  obtain ⟨e, he, hlike⟩ := LikeFields.mem hlike e' he'
  exact (hs.values e he).copied hfurnished hcopied hlike

theorem matches_setVal (hv : Values b m.store v v')
    (hlambda : ∀ r, v = .node r → m.store.kind r ≠ "lambda")
    (hz : z.isAtom = true) (hsuits : g.closures = true → m.store.OwnTables → ∀ r, v = .node r →
      Suits (m.store.kind r) [("val", z)]) :
    Matches b B m m' (setField v "val" z) (setField v' "val" z) (fun _ _ _ => True) := by
  obtain ⟨r, r', rfl, rfl, hrel, hr, hk⟩ := hv.exists_node
  change Matches b B m m' (onStore fun s => ((), s.setField r "val" z))
    (onStore fun s => ((), s.setField r' "val" z)) fun _ _ _ => True
  exact matches_onStore h (advance_setVal h.sane.furnished hr (mem_valueKinds_of_kinds hk)
      (hlambda r rfl) hz fun hclosures htables => hsuits hclosures htables r rfl)
    (b.setField h.stores hr hrel (like_of_isAtom hz)) trivial

/-! ## The console -/

theorem Joined.onConsole (hc : b.consoles c c') :
    Joined b { m with console := c } { m' with console := c' } ∧
    Onward g m { m with console := c } :=
  ⟨⟨⟨h.sane.furnished, h.sane.functions, h.sane.globals⟩, h.stores, hc, h.functions, h.globals⟩,
    .refl _ _, .refl h.sane.furnished.formed⟩

theorem matches_onConsole {F : Store → Console → α × Console} {G : Store → Console → β × Console}
    {Q : α → β → Machine → Prop} (hc : b.consoles (F m.store m.console).2 (G m'.store m'.console).2)
    (hQ : Q (F m.store m.console).1 (G m'.store m'.console).1
      { m with console := (F m.store m.console).2 }) : Matches b B m m' (onConsole F)
        (onConsole G) Q where
  ok a m1 hx := by
    obtain ⟨rfl, rfl⟩ := ok_inj hx
    obtain ⟨hjoined, honward⟩ := h.onConsole hc
    exact ⟨_, _, rfl, hjoined, honward, hQ⟩
  error e m1 hx := by cases hx

end

theorem Bridge.print (b : Bridge g) {c c' : Console} (h : b.consoles c c') (line : String) :
    b.consoles (c.print line) (c'.print line) := by
  rw [Console.print_eq, Console.print_eq]
  exact b.printed h _

theorem matches_print (h : Joined b m m') (line : String) :
    Matches b B m m' (print line) (print line) (fun _ _ _ => True) :=
  matches_onConsole h (b.print h.consoles line) trivial

theorem matches_report {Q : α → β → Machine → Prop} (h : Joined b m m')
    (kind : ErrorKind) (text : String) :
    Matches b B m m' (report kind text) (report kind text) Q := by
  refine .next (matches_onConsole (Q := fun f f' _ => f = f' ∧ ∀ shown, f ≠ .missingKey shown) h
    (b.report h.consoles kind (some text) none) ⟨rfl, fun _ => Fault.noConfusion⟩) ?_
  rintro f _ m1 m1' - hj - ⟨rfl, hf⟩
  exact matches_throw hj (not_isRead_of_fault hf)

def Given (b : Bridge g) (d : Datum) : Prop :=
  d ∈ b.given ∨ d.isAtom = true ∨ d = .null

theorem given_of_input (h : b.consoles c c') (hz : c.input.1 = .ok z) : Given b z := by
  have hgiven := (b.input h).1
  rw [Console.input] at hz
  split at hz
  · split at hz
    · obtain rfl := Except.ok.inj hz
      exact .inr (.inl rfl)
    · cases hz
  · split at hz
    · rename_i z' hget
      obtain rfl := Except.ok.inj hz
      rw [hgiven] at hget
      exact .inl (List.mem_of_getElem? hget)
    · obtain rfl := Except.ok.inj hz
      exact .inr (.inr rfl)

theorem matches_input (h : Joined b m m') :
    Matches b B m m' input input (fun z z' _ => z' = z ∧ Given b z) := by
  obtain ⟨-, hsame, hconsoles⟩ := b.input h.consoles
  refine .next (matches_onConsole (Q := fun r r' _ => r' = r ∧ Plain r ∧ ∀ z, r = .ok z →
    Given b z) h hconsoles ⟨hsame, ?_, fun z hz => given_of_input h.consoles hz⟩) ?_
  · intro shown hshown
    rw [Console.input] at hshown
    split at hshown
    · split at hshown <;> cases hshown
    · split at hshown <;> cases hshown
  · rintro r _ m1 m1' - hj - ⟨rfl, hplain, hgiven⟩
    have hlift : ∀ r : Except Fault Datum, Run.lift r = Run.lift r >>= pure :=
      fun r => (bind_pure _).symm
    rw [hlift]
    exact .lift hj hplain fun z hz => .pure hj ⟨rfl, hgiven z hz⟩

theorem Given.text_eq {z : Datum} (hz : Given b z) (h : Joined b m m') :
    m'.store.textOf z = m.store.textOf z := by
  rcases hz with hz | hz | rfl
  · exact b.givenText h.stores hz
  · exact h.text_eq ⟨known_of_isAtom hz, like_of_isAtom hz⟩
  · rfl

theorem output_eq {r : Except Fault Unit} (h : m.console.output m.store z = (r, c)) :
    output z m = lift r { m with console := c } := by
  rw [output_apply, h, lift_apply]

theorem output_of_silent (h : c.echo = false) (s : Store) (z : Datum) :
    c.output s z = (.ok (), { c with log := c.log.push z }) := by
  rw [Console.output, h]
  rfl

theorem output_of_text (h : c.echo = true) (ht : s.textOf z = .ok t) :
    c.output s z = (.ok (), { c.print t with log := c.log.push z }) := by
  rw [Console.output, if_pos h, ht]

theorem output_of_error {φ : Fault} (h : c.echo = true) (ht : s.textOf z = .error φ) :
    c.output s z = (.error φ, c) := by
  rw [Console.output, if_pos h, ht]

theorem matches_output_ok (h : Joined b m m') (hleft : m.console.output m.store z = (.ok (), c))
    (hright : m'.console.output m'.store z = (.ok (), c')) (hc : b.consoles c c') :
    Matches b B m m' (output z) (output z) (fun _ _ _ => True) where
  ok a m1 hx := by
    rw [output_eq hleft] at hx
    obtain ⟨-, rfl⟩ := pure_eq_ok.1 hx
    obtain ⟨hjoined, honward⟩ := h.onConsole hc
    exact ⟨(), _, output_eq hright, hjoined, honward, trivial⟩
  error e m1 hx := by
    rw [output_eq hleft] at hx
    cases hx

/-- Putting a plain value out. Only a run that echoes may fail to do it. -/
theorem matches_output (h : Joined b m m') (hz : z.isAtom = true)
    (hcut : ∀ φ, m.console.echo = true → m.store.textOf z = .error φ → B.cut (.fault φ) m) :
    Matches b B m m' (output z) (output z) (fun _ _ _ => True) := by
  have hecho := b.echo h.consoles
  have htext : m'.store.textOf z = m.store.textOf z :=
    h.text_eq ⟨known_of_isAtom hz, like_of_isAtom hz⟩
  cases he : m.console.echo with
  | false =>
    rw [he, Bool.false_and] at hecho
    exact matches_output_ok h (output_of_silent he _ z) (output_of_silent hecho _ z)
      (b.log h.consoles z hz)
  | true =>
    rw [he, Bool.true_and] at hecho
    cases ht : m.store.textOf z with
    | ok t =>
      rw [ht] at htext
      cases hh : b.hushed with
      | false =>
        rw [hh] at hecho
        exact matches_output_ok h (output_of_text he ht) (output_of_text hecho htext)
          (b.log (b.print h.consoles t) z hz)
      | true =>
        rw [hh] at hecho
        exact matches_output_ok h (output_of_text he ht) (output_of_silent hecho _ z)
          (b.hush hh (b.log h.consoles z hz) _)
    | error φ =>
      rw [ht] at htext
      have hread : ¬ IsRead (.fault φ) :=
        not_isRead_of_fault fun shown heq => plain_textOf m.store z shown (heq ▸ ht)
      refine ⟨fun a m1 hx => ?_, fun e m1 hx => ?_⟩
      · rw [output_eq (output_of_error he ht)] at hx
        cases hx
      · rw [output_eq (output_of_error he ht)] at hx
        obtain ⟨rfl, rfl⟩ := error_inj hx
        refine ⟨.refl h, fun hr => absurd hr hread, ?_⟩
        cases hh : b.hushed with
        | false =>
          rw [hh] at hecho
          exact .inr ⟨_, output_eq (output_of_error hecho htext), h.consoles⟩
        | true =>
          exact .inl ⟨hh, hcut φ he ht, m'.console, h.consoles, (Has.holds : GoesOn (output z)) m'⟩

theorem matches_traced {t t' : Run Unit} [ht : Has OnlyPrints t] (h : Joined b m m')
    (hsame : b.hushed = false → Matches b B m m' t t' fun _ _ _ => True)
    (hcut : ∀ e m1, b.hushed = true → m.console.trace = true → t m = (.error e, m1) →
      B.cut e m1 ∧ ¬ IsRead e) :
    Matches b B m m' (do if ← tracing then t) (do if ← tracing then t') (fun _ _ _ => True) := by
  have htrace := b.trace h.consoles
  have hleft : (do if ← tracing then t : Run Unit) m = (if m.console.trace then t else pure ()) m :=
    rfl
  have hright : (do if ← tracing then t' : Run Unit) m' =
    (if m'.console.trace then t' else pure ()) m' := rfl
  cases hc : m.console.trace with
  | false =>
    rw [hc] at hleft htrace
    rw [htrace] at hright
    exact .congr (.pure h trivial) hleft hright
  | true =>
    rw [hc, Bool.true_and] at htrace
    rw [hc] at hleft
    rw [htrace] at hright
    cases hh : b.hushed with
    | false =>
      rw [hh] at hright
      exact .congr (hsame hh) hleft hright
    | true =>
      rw [hh] at hright
      obtain ⟨printed, hprinted⟩ := ht.holds m
      have hhush := b.hush hh h.consoles printed
      suffices hhushed : Matches b B m m' t (pure ()) fun _ _ _ => True from .congr
        hhushed hleft hright
      refine ⟨fun a m1 hx => ?_, fun e m1 hx => ?_⟩
      · rw [hx] at hprinted
        obtain rfl : m1 = _ := hprinted
        obtain ⟨hjoined, honward⟩ := h.onConsole hhush
        exact ⟨(), m', rfl, hjoined, honward, trivial⟩
      · obtain ⟨hcause, hread⟩ := hcut e m1 hh hc hx
        rw [hx] at hprinted
        obtain rfl : m1 = _ := hprinted
        exact ⟨.refl h, fun hr => absurd hr hread, .inl ⟨hh, hcause, m'.console, hhush, .refl _⟩⟩

end LangKit.Script.Parallel
