import LangKit.Proofs.Parallel.Operators

/-!
# Variables of two runs

A name gives values that correspond, and an assignment changes values that correspond in the same
way. In the dialect with objects a dotted name never gives a value of its own: no value is an
object, so that looking for a member fails, or finds something that is no node. The one thing to be
careful about is an argument that is passed by reference, since then what is found is not looked at.
But all arguments are evaluated a first time before that, and a name for which this has gone well is
`Settled`.
-/

namespace LangKit.Script.Parallel

open Run Store
open Closures (valueKinds madeKinds Suits)

variable {α β : Type} {s : Store} {fs fs' : List Datum} {es es' : List (Datum × Datum)}

variable {g : Region} {b : Bridge g} {B : Blame} {m m' m1 : Machine} {dialect : Dialect}
  {byRef : Bool} {scope scope' : Scope} {node node' v v' name : Datum}

inductive Options (b : Bridge g) (s : Store) : Option Datum → Option Datum → Prop
  | none : Options b s none none
  | some {d d' : Datum} (values : Values b s d d') : Options b s (some d) (some d')

section

variable (h : Joined b m m')
include h

theorem matches_of_ok {Q : α → β → Machine → Prop}
    (hx : x m = (.ok a, { m with store := s })) (hy : y m' = (.ok c, { m' with store := s' }))
    (ha : Advance g m.store s) (hs : b.stores s s') (hQ : Q a c { m with store := s }) :
    Matches b B m m' x y Q :=
  .congr (matches_onStore h (F := fun _ => (a, s)) (G := fun _ => (c, s')) ha hs hQ) hx hy

/-! ## Reading a variable -/

theorem matches_deliver (hv : Values b m.store v v') :
    Matches b B m m' (deliver dialect byRef v) (deliver dialect byRef v')
      (After (Values b)) := by
  have hcopy : Matches b B m m' (copy v) (copy v') (After (Values b)) :=
    (matches_copy h hv).mono fun _ _ _ _ hq => hq.1
  refine matches_ite (fun _ => .pure h hv) fun _ => matches_ite (fun _ => ?_) fun _ => hcopy
  exact .kindOf h hv.pair fun kind _ => matches_ite (fun _ => .pure h hv) fun _ => hcopy

theorem exists_name (hn : Pair b m.store node node')
    (hd : field? node "name" m = (.ok (some d), m)) (hpair : Pair b m.store d d') :
    ∃ x, d = .text x ∧ d' = .text x := by
  obtain ⟨r, rfl, hfield⟩ := exists_node_of_field? hd
  have hfit := h.sane.furnished.fit r (known_node.1 hn.known)
  obtain ⟨x, rfl, -⟩ := hfit.named d hfield
  exact ⟨x, rfl, hpair.like.eq_of_isAtom rfl⟩

theorem Matches.nameOf {γ δ : Type} {f : Datum → Run γ} {k : Datum → Run δ}
    {R : γ → δ → Machine → Prop} (hn : Pair b m.store node node')
    (hpresent : ∀ r, node = .node r → (m.store.field? r "name").isSome)
    (hk : ∀ x : String, Run.field node "name" m = (.ok (.text x), m) →
      Matches b B m m' (f (.text x)) (k (.text x)) R) :
    Matches b B m m' (Run.field node "name" >>= f) (Run.field node' "name" >>= k) R := by
  refine .present h hn hpresent fun d d' hd hpair => ?_
  obtain ⟨x, rfl, rfl⟩ := exists_name h hn (field?_of_field hd) hpair
  exact hk x hd

end

theorem IsFunction.present (h : IsFunction g s v) (hf : f ∈ ["name", "args", "statements"]) :
    ∀ r, v = .node r → (s.field? r f).isSome := by
  obtain ⟨q, rfl, -, -, -, hparts⟩ := h
  rintro r heq
  obtain rfl := Datum.node.inj heq
  exact hparts f hf

def IsName (name : Datum) : Prop :=
  name = .null ∨ ∃ x, name = .text x

theorem IsName.text_eq (h : IsName name) (s s' : Store) : s'.textOf name = s.textOf name := by
  rcases h with rfl | ⟨x, rfl⟩ <;> rfl

theorem matches_findFunction (hg : g.closures = true) (h : Joined b m m') (hname : IsName name)
    (hfs : ∀ f ∈ fs, IsFunction g m.store f) (hl : Datum.LikeAll b.rel fs fs')
    {found found' : Option Datum} (hfound : Options b m.store found found') :
    Matches b B m m' (findFunction name fs found) (findFunction name fs' found')
      (fun r r' m1 => Options b m1.store r r' ∧ m1 = m) := by
  induction fs generalizing fs' found found' with
  | nil =>
    cases hl
    exact .pure h ⟨hfound, rfl⟩
  | cons f rest ih =>
    obtain ⟨hf, hrest⟩ := List.forall_mem_cons.1 hfs
    cases hl with
    | cons first more =>
      refine .nameOf h ⟨hf.known, first⟩ (hf.present (by decide))
        fun x _ => matches_ite (fun _ => ?_) fun _ => ih hrest more hfound
      cases hfound with
      | none => exact ih hrest more (.some ⟨hf.value hg, first⟩)
      | some => exact .textOf h (hname.text_eq _ _) fun t _ => matches_report h _ _

/-! ## Names with dots -/

def FirstBound (scope : Scope) (x : String) : Prop :=
  Assoc.has ((nameParts x).headD "") scope = true → Assoc.has x scope = true

/-- In the dialect with objects, a variable can be passed by reference. -/
def Settled (dialect : Dialect) (s : Store) (scope : Scope) (node : Datum) : Prop :=
  dialect.hasObjects = true → ∀ r x, node = .node r → s.kind r = "var" →
    s.field? r "name" = some (.text x) → FirstBound scope x

theorem Settled.later (h : Settled dialect s scope node) (hn : Known g s node) (hl : Later g s s1) :
    Settled dialect s1 scope node := by
  rintro hobjects r x rfl hk hname
  have hr := known_node.1 hn
  have hcode : s.kind r ∉ valueKinds := by
    intro hvalue
    have hstill := hl.value r hr hvalue
    rw [hk] at hstill
    exact absurd hstill (by decide)
  have hnode := hl.code r hr hcode
  refine h hobjects r x rfl ?_ ?_
  · exact (congrArg Prod.fst hnode).symm.trans hk
  · rw [Store.field?, show s.fields r = s1.fields r from (congrArg Prod.snd hnode).symm]
    exact hname

/-- Values hold no nodes and are no objects. So a dotted name whose first part is bound gives
nothing, and any other name is not found. -/
theorem matches_memberValue (h : Joined b m m') (hs : Scopes b m.store scope scope') (x : String)
    (hunbound : Assoc.get? x scope = none) (hsettled : byRef = true → FirstBound scope x) :
    Matches b B m m' (memberValue byRef scope (.text x)) (memberValue byRef scope' (.text x))
      (fun r r' m1 => r = none ∧ r' = none ∧ m1 = m ∧ FirstBound scope x) := by
  simp only [memberValue]
  split
  · rename_i object member rest hparts
    rcases hs.get? object with ⟨h1, h2⟩ | ⟨o, o', h1, h2, ho⟩
    · rw [h1, h2]
      refine .pure h ⟨rfl, rfl, rfl, fun hhas => ?_⟩
      rw [hparts, List.headD_cons, Assoc.has, h1] at hhas
      cases hhas
    · have hfirst : FirstBound scope x → False := by
        intro hfirst
        have hhas := hfirst (by rw [hparts, List.headD_cons, Assoc.has, h1]; rfl)
        rw [Assoc.has, hunbound] at hhas
        cases hhas
      rw [h1, h2]
      obtain ⟨r, r', rfl, rfl, hrel, hr, hk⟩ := ho.exists_node
      have hfit := h.sane.furnished.fit r hr
      have hvalue := mem_valueKinds_of_kinds hk
      refine .field? h ho.pair (fun _ => ?_) fun w w' hw hpair => ?_
      · refine .field h ho.pair (fun _ _ _ => not_isRead_missingField (by decide))
          fun p _ hp _ => ?_
        rw [field_node, show m.store.field? r "proto" = none from hfit.plain hvalue] at hp
        cases hp
      · have hflat := hfit.flat hvalue member w (ok_inj hw).1
        cases byRef with
        | true => exact absurd (hsettled rfl) hfirst
        | false =>
          have hdeliver : Matches b .none m m' (deliver .objects false w)
              (deliver .objects false w') (fun _ _ _ => False) := by
            refine .kindOf h hpair fun kind hkind => ?_
            cases w with
            | node q => exact absurd rfl (hflat q)
            | _ => cases hkind
          exact .stop hdeliver
  · exact matches_throw h (not_isRead_of_fault fun _ => Fault.noConfusion)

/-! ## Variables -/

/-- What is done about a name that is not bound, when a member may have been found. -/
def unboundValue (dialect : Dialect) (name : Datum) (found : Option Datum) : Run Datum := do
  match found with
  | some v => return v
  | none =>
    let function ← if dialect.hasClosures then findFunction name (← functions) none else pure none
    match function with
    | some f => return f
    | none => report .name ("Variable " ++ (← textOf name) ++ " has not been defined")

def namedValue (dialect : Dialect) (byRef : Bool) (scope : Scope) (name : Datum) : Run Datum :=
  match scope.value? name with
  | some v => deliver dialect byRef v
  | none =>
    if dialect.hasObjects then memberValue byRef scope name >>= unboundValue dialect name
    else unboundValue dialect name none

theorem variableValue_eq :
    variableValue dialect byRef scope node =
      field? node "name" >>= fun name => namedValue dialect byRef scope (name.getD .null) := rfl

section

variable (hg : g.closures = dialect.hasClosures) (h : Joined b m m')

include hg h

theorem matches_unboundValue (hname : IsName name) :
    Matches b B m m' (unboundValue dialect name none) (unboundValue dialect name none)
      (After (Values b)) := by
  have hreport : ∀ {m m' : Machine}, Joined b m m' → Matches b B m m'
      (do report .name ("Variable " ++ (← textOf name) ++ " has not been defined") : Run Datum)
      (do report .name ("Variable " ++ (← textOf name) ++ " has not been defined") : Run Datum)
      (After (Values b)) := fun h =>
    .textOf h (hname.text_eq _ _) fun t _ => matches_report h _ _
  refine matches_ite (fun hc => ?_) fun _ => .bind_pure (hreport h)
  refine .look rfl rfl (.next (matches_findFunction (hg.trans hc) h hname h.sane.functions
    h.functions .none) ?_)
  rintro r r' m1 m1' - hj - ⟨hoptions, rfl⟩
  cases hoptions with
  | none => exact hreport hj
  | some values => exact .pure hj values

theorem matches_namedValue (hs : Scopes b m.store scope scope') (hname : IsName name)
    (hsettled : byRef = true → dialect.hasObjects = true → ∀ x, name = .text x →
      FirstBound scope x) :
    Matches b B m m' (namedValue dialect byRef scope name) (namedValue dialect byRef scope' name)
      (fun v v' m1 => Values b m1.store v v' ∧
        (dialect.hasObjects = true → ∀ x, name = .text x → FirstBound scope x)) := by
  rcases hname with rfl | ⟨x, rfl⟩
  · refine matches_ite (fun _ => ?_) fun _ => ?_
    · exact .refuse h rfl rfl fun _ => Fault.noConfusion
    · exact (matches_unboundValue hg h (.inl rfl)).mono
        fun _ _ _ _ hv => ⟨hv, fun _ _ => Datum.noConfusion⟩
  · rcases hs.get? x with ⟨h1, h2⟩ | ⟨v, v', h1, h2, hv⟩
    · simp only [namedValue, Scope.value?, h1, h2]
      refine matches_ite (fun hobjects => ?_) fun hplain => ?_
      · refine .next (matches_memberValue h hs x h1 fun hb => hsettled hb hobjects x rfl) ?_
        rintro _ _ m1 m1' - hj - ⟨rfl, rfl, rfl, hfirst⟩
        refine (matches_unboundValue hg hj (.inr ⟨x, rfl⟩)).mono fun _ _ _ _ hv =>
          ⟨hv, fun _ y hy => ?_⟩
        obtain rfl := Datum.text.inj hy
        exact hfirst
      · exact (matches_unboundValue hg h (.inr ⟨x, rfl⟩)).mono fun _ _ _ _ hv =>
          ⟨hv, fun hobjects => absurd hobjects hplain⟩
    · simp only [namedValue, Scope.value?, h1, h2]
      refine (matches_deliver h hv).mono fun _ _ _ _ hv => ⟨hv, fun _ y hy _ => ?_⟩
      obtain rfl := Datum.text.inj hy
      rw [Assoc.has, h1]
      rfl

theorem matches_variableValue (hs : Scopes b m.store scope scope') (hn : Pair b m.store node node')
    (hkind : ∀ r, node = .node r → m.store.kind r = "var")
    (hsettled : byRef = true → Settled dialect m.store scope node) :
    Matches b B m m' (variableValue dialect byRef scope node)
      (variableValue dialect byRef scope' node') (fun v v' m1 => Values b m1.store v v' ∧
        Settled dialect m1.store scope node) := by
  rw [variableValue_eq, variableValue_eq]
  refine .field? h hn (fun hnone => ?_) fun d d' hd hpair => ?_
  · refine (matches_namedValue hg h hs (.inl rfl) fun _ _ _ => Datum.noConfusion).mono
      fun _ _ m1 ho hv => ?_
    refine ⟨hv.1, Settled.later ?_ hn.known ho.later⟩
    rintro - r x rfl - hx
    rw [show m.store.field? r "name" = none from (ok_inj hnone).1] at hx
    cases hx
  · obtain ⟨x, rfl, rfl⟩ := exists_name h hn hd hpair
    obtain ⟨r, rfl, hfield⟩ := exists_node_of_field? hd
    refine (matches_namedValue hg h hs (.inr ⟨x, rfl⟩) fun hb hobjects y hy => ?_).mono
      fun _ _ m1 ho hv => ?_
    · obtain rfl := Datum.text.inj hy
      exact hsettled hb hobjects r x rfl (hkind r rfl) hfield
    · refine ⟨hv.1, Settled.later ?_ hn.known ho.later⟩
      rintro hobjects q y heq - hy
      obtain rfl := Datum.node.inj heq
      rw [hfield] at hy
      obtain rfl := Datum.text.inj (Option.some.inj hy)
      exact hv.2 hobjects x rfl

end

/-! ## Lambda expressions -/

def IsFormal (g : Region) (s : Store) (d : Datum) : Prop :=
  ∃ r, d = .node r ∧ g.Own s r ∧ s.kind r ∈ formalKinds

theorem IsFormal.known (h : IsFormal g s v) : Known g s v := by
  obtain ⟨r, rfl, hr, -⟩ := h
  exact known_node.2 hr

theorem IsFormal.present (h : Furnished g m.store) (hv : IsFormal g m.store v) :
    ∀ r, v = .node r → (m.store.field? r "name").isSome := by
  have hname : ∀ k ∈ formalKinds, "name" ∈ required k := by decide
  obtain ⟨q, rfl, hq, hk⟩ := hv
  rintro r heq
  obtain rfl := Datum.node.inj heq
  exact (h.fit q hq).required "name" (hname _ hk)

theorem matches_formalNames (h : Joined b m m') (hfs : ∀ f ∈ fs, IsFormal g m.store f)
    (hl : Datum.LikeAll b.rel fs fs') :
    Matches b B m m' (formalNames fs) (formalNames fs') (fun ns ns' m1 => ns' = ns ∧ m1 = m) := by
  induction fs generalizing B fs' m' with
  | nil =>
    cases hl
    exact .pure h ⟨rfl, rfl⟩
  | cons f rest ih =>
    obtain ⟨hf, hrest⟩ := List.forall_mem_cons.1 hfs
    cases hl with
    | cons first more =>
      refine .nameOf h ⟨hf.known, first⟩ (hf.present h.sane.furnished)
        fun x _ => .next (ih h hrest more) ?_
      rintro _ ns m1 m1' - hj - ⟨rfl, rfl⟩
      exact .pure hj ⟨rfl, rfl⟩

structure Taken (b : Bridge g) (s : Store) (es es' : List (Datum × Datum)) : Prop where
  names : ∀ e ∈ es, ∃ x, e.1 = .text x
  values : ∀ e ∈ es, e.2 = .null ∨ IsValue g s e.2
  like : Datum.LikeEntries b.rel es es'

theorem Taken.captured (h : Taken b s es es') : AreCaptured g s (.mapping es) :=
  ⟨es, rfl, h.values⟩

theorem Taken.known (h : Taken b s es es') :
    Known g s (.mapping es) := by
  obtain ⟨hnames, hvalues, -⟩ := h
  induction es with
  | nil => exact List.forall_mem_nil _
  | cons e rest ih =>
    obtain ⟨k, w⟩ := e
    obtain ⟨⟨x, hx⟩, hnames'⟩ := List.forall_mem_cons.1 hnames
    obtain ⟨hw, hvalues'⟩ := List.forall_mem_cons.1 hvalues
    obtain rfl : k = .text x := hx
    refine List.forall_mem_append.2 ⟨List.forall_mem_nil _,
      List.forall_mem_append.2 ⟨?_, ih hnames' hvalues'⟩⟩
    rcases hw with rfl | hw
    · exact List.forall_mem_nil _
    · exact hw.known

theorem Taken.later (h : Taken b m.store es es') (ho : Onward g m m1) :
    Taken b m1.store es es' :=
  ⟨h.names, fun e he => (h.values e he).imp_right fun hv => hv.later ho.later, h.like⟩

theorem matches_setFree (h : Joined b m m') (hr : g.Own m.store r) (hk : m.store.kind r ∈ g.kinds)
    (hrel : b.rel r r') (ht : Taken b m.store es es') :
    Matches b B m m' (setField (.node r) "free_vars" (.mapping es))
      (setField (.node r') "free_vars" (.mapping es'))
      (fun _ _ m1 => Values b m1.store (.node r) (.node r')) := by
  have hadvance := advance_setFree h.sane.furnished hr (mem_valueKinds_of_kinds hk)
    ht.known ht.captured
  change Matches b B m m' (onStore fun s => ((), s.setField r "free_vars" (.mapping es)))
    (onStore fun s => ((), s.setField r' "free_vars" (.mapping es'))) fun _ _ m1 => _
  refine matches_onStore h hadvance (b.setField h.stores hr hrel (.mapping ht.like))
    ⟨?_, .node hrel⟩
  refine ⟨r, rfl, hr.mono hadvance.later.size, hadvance.later.kept r hr hk, fun _ => ?_⟩
  rw [Store.field?, fields_setField h.sane.furnished.formed hr.2, if_pos rfl, Assoc.get?_put_self]
  rfl

theorem matches_captured (h : Joined b m m') (hs : Scopes b m.store scope scope')
    (formals : List Datum) (hc : Scopes b m.store copies copies') :
    Matches b B m m' (captured dialect formals scope copies)
      (captured dialect formals scope' copies') (fun es es' m1 => Taken b m.store es es' ∧
        m1 = m) := by
  obtain ⟨hvalues, hlike⟩ := hc
  induction hlike generalizing B m' with
  | nil => exact .pure h ⟨⟨List.forall_mem_nil _, List.forall_mem_nil _, .nil⟩, rfl⟩
  | @cons name d d' rest rest' first more ih =>
    obtain ⟨hd, hrest⟩ := List.forall_mem_cons.1 hvalues
    have hkept : ∀ kept kept' : Datum, kept = .null ∨ IsValue g m.store kept →
      Datum.Like b.rel kept kept' →
        Matches b B m m' (do return (Datum.text name, kept) ::
          (← captured dialect formals scope rest)) (do return (Datum.text name, kept') ::
          (← captured dialect formals scope' rest')) (fun es es' m1 => Taken b m.store es es' ∧
            m1 = m) := by
      intro kept kept' hvalue hl
      refine .next (ih h hrest) ?_
      rintro es es' m1 m1' - hj - ⟨htaken, rfl⟩
      refine .pure hj ⟨⟨?_, ?_, .cons (.text name) hl htaken.like⟩, rfl⟩
      · exact List.forall_mem_cons.2 ⟨⟨name, rfl⟩, htaken.names⟩
      · exact List.forall_mem_cons.2 ⟨hvalue, htaken.values⟩
    refine .kindOf h ⟨hd.known, first⟩ fun kind _ => matches_ite (fun _ => ?_) fun _ => ?_
    · exact .bind_pure (hkept .null .null (.inl rfl) .null)
    refine matches_ite (fun _ => ?_) fun _ => .bind_pure (hkept d d' (.inr hd) first)
    -- A shared value is taken from the scope itself, where the name is bound to it.
    rcases hs.get? name with ⟨h1, h2⟩ | ⟨w, w', h1, h2, hw⟩
    · simp only [Assoc.getD, h1, h2]
      exact .bind_pure (hkept .null .null (.inl rfl) .null)
    · simp only [Assoc.getD, h1, h2]
      exact .bind_pure (hkept w w' (.inr hw.value) hw.like)

/-- A lambda expression gives a copy of its node that has taken the values of the scope along. -/
theorem matches_lambdaValue (hg : g.closures = true) (h : Joined b m m')
    (hs : Scopes b m.store scope scope') (hn : Pair b m.store node node') (hnode : node = .node r)
    (hkind : m.store.kind r = "lambda") :
    Matches b B m m' (lambdaValue dialect scope node) (lambdaValue dialect scope' node')
      (After (Values b)) := by
  subst hnode
  have hr := known_node.1 hn.known
  have hfit := h.sane.furnished.fit r hr
  refine .present h hn (fun q hq => ?_) fun d d' hd hpair => ?_
  · obtain rfl := Datum.node.inj hq
    exact hfit.required "args" (by rw [hkind]; decide)
  obtain ⟨fs, rfl, hfs⟩ : AreFormals g m.store d :=
    hfit.formals (by rw [hkind]; decide) d (ok_inj (field?_of_field hd)).1
  refine .items h hpair fun ds ds' hds hpairs => ?_
  obtain ⟨rfl, -⟩ := pure_eq_ok.1 hds
  refine .next (matches_formalNames h hfs hpairs.like) ?_
  rintro _ ns m1 m1' - hj - ⟨rfl, rfl⟩
  refine .next (matches_copyFields hj hs) fun copies copies' m2 m2' _ hj2 ho2 hcopies => ?_
  refine .next (matches_captured hj2 (hs.later ho2) ns hcopies) ?_
  rintro es es' m3 m3' - hj3 - ⟨htaken, rfl⟩
  refine .next (matches_copyNode hj3 (hn.later ho2)) ?_
  rintro _ _ m4 m4' - hj4 ho4 ⟨q, q', rfl, rfl, hq, hrel, hsame⟩
  have hkq : m4.store.kind q ∈ g.kinds := by
    have hstill := ho2.later.kept r hr (hkind ▸ mem_kinds_of_closures hg (by decide))
    exact hsame ▸ hstill
  refine .next (matches_setFree hj4 hq hkq hrel (htaken.later ho4))
    fun _ _ m5 m5' _ hj5 _ hvalue => ?_
  exact .pure hj5 hvalue

/-! ## Assignments -/

/-- What is assigned to a variable and is no function: a lambda has no contents, and what is made by
operators has them unless it is nil. -/
theorem kind_cases (hg : g.closures = dialect.hasClosures) (h : Furnished g m.store)
    (hq : g.Own m.store q) (hk : m.store.kind q ∈ g.kinds)
    (hother : (dialect.hasClosures && m.store.kind q == "func") = false) :
    m.store.kind q ∈ madeKinds ∧ (m.store.field? q "val" = none → m.store.kind q = "nil") ∨
      m.store.kind q = "lambda" ∧ m.store.field? q "val" = none := by
  have hmade : m.store.kind q ∈ madeKinds → m.store.field? q "val" = none →
      m.store.kind q = "nil" := by
    have hval : ∀ k ∈ madeKinds, "val" ∈ required k ∨ k = "nil" := by decide
    intro hk hnone
    refine (hval _ hk).resolve_left fun hval => ?_
    have hrequired := (h.fit q hq).required "val" hval
    rw [show Assoc.get? "val" (m.store.fields q) = none from hnone] at hrequired
    cases hrequired
  rw [Region.kinds, hg] at hk
  split at hk
  · rename_i hc
    rw [hc, Bool.true_and, beq_eq_false_iff_ne] at hother
    rcases List.mem_append.1 (show m.store.kind q ∈ madeKinds ++
      ["func", "lambda"] from hk) with hk | hk
    · exact .inl ⟨hk, hmade hk⟩
    · simp only [List.mem_cons, List.not_mem_nil, or_false] at hk
      obtain hlambda := hk.resolve_left hother
      exact .inr ⟨hlambda, (h.fit q hq).empty hlambda⟩
  · exact .inl ⟨hk, hmade hk⟩

/-- A bound name has its value changed. A function is taken over in two steps, and between them the
node is a function without the parts of one; so the steps are looked at together. -/
theorem matches_overwrite (hg : g.closures = dialect.hasClosures) (h : Joined b m m')
    (ht : Values b m.store t t') (hv : Values b m.store v v') :
    Matches b B m m' (overwrite dialect (pure t) v) (overwrite dialect (pure t') v')
      (fun _ _ _ => True) := by
  have hfurnished := h.sane.furnished
  obtain ⟨r, r', rfl, rfl, hrel, hr, hk⟩ := ht.exists_node
  obtain ⟨q, q', rfl, rfl, hrel', hq, hkq⟩ := hv.exists_node
  have hr' := b.inside h.stores hr hrel
  have hkind := b.kind h.stores hq hrel'
  have hown : ∀ {p kind}, g.Own m.store p → g.Own (m.store.setKind r kind) p := fun hp =>
    hp.mono (Nat.le_of_eq size_setKind.symm)
  cases hother : dialect.hasClosures && m.store.kind q == "func" with
  | true =>
    rw [Bool.and_eq_true, beq_iff_eq] at hother
    obtain ⟨hc, hfunc⟩ := hother
    refine matches_of_ok h (overwrite_func hc hr.2 hfunc)
      (overwrite_func hc hr' (hkind.trans hfunc))
      (advance_share hfurnished hr (mem_valueKinds_of_kinds hk) hq hfunc (hg.trans hc)) ?_ trivial
    exact b.shareTable (b.setKind h.stores hr hrel) (hown hr) hrel (hown hq) hrel'
  | false =>
    have hother' : (dialect.hasClosures && m'.store.kind q' == "func") = false := by rwa [hkind]
    have hcases := kind_cases hg hfurnished hq hkq hother
    rcases (b.fields h.stores hq hrel').get? "val" with ⟨h1, h2⟩ | ⟨z, z', h1, h2, hlike⟩
    · have hleft := overwrite_empty hr.2 hother h1
      have hright := overwrite_empty hr' hother' h2
      refine ⟨fun a m1 hx => ?_, fun e m1 hx => ?_⟩
      · rw [hleft] at hx
        cases hx
      · rw [hleft] at hx
        obtain ⟨rfl, rfl⟩ := error_inj hx
        refine ⟨?_, fun hread => absurd hread (not_isRead_missingField (by decide)),
          .inr ⟨_, hright, h.consoles⟩⟩
        rcases hcases with ⟨-, hnil⟩ | ⟨hlambda, -⟩
        · rw [hnil h1]
          exact ⟨_, advance_setNil hfurnished hr (mem_valueKinds_of_kinds hk), .inl rfl⟩
        · rw [hlambda]
          exact ⟨m.store, .refl hfurnished,
            .inr ⟨⟨r, q, hr, mem_valueKinds_of_kinds hk, hq, hlambda, rfl⟩, rfl⟩⟩
    · have hatom := (hfurnished.fit q hq).contents z h1
      obtain rfl := hlike.eq_of_isAtom hatom
      rcases hcases with ⟨hmade, -⟩ | ⟨-, hnone⟩
      · refine matches_of_ok h (overwrite_contents hr.2 hother h1)
          (overwrite_contents hr' hother' h2)
          (advance_become hfurnished hr (mem_valueKinds_of_kinds hk) hmade hatom
            fun hclosures htables => ?_) ?_ trivial
        · exact (hfurnished.typed hclosures htables q hq).congr h1.symm
        · rw [hkind]
          exact b.setField (b.setKind h.stores hr hrel) (hown hr) hrel (like_of_isAtom hatom)
      · rw [show Assoc.get? "val" (m.store.fields q) = none from hnone] at h1
        cases h1

/-- The member that a dotted name stands for is missing in both runs, or it is no node. -/
theorem boundMember_cases (h : Joined b m m') (hs : Scopes b m.store scope scope') (x : String) :
    (∃ e, boundMember scope x m = (.error e, m) ∧ boundMember scope' x m' = (.error e, m')) ∨
      ∃ t t', boundMember scope x m = (.ok t, m) ∧ boundMember scope' x m' = (.ok t', m') ∧
        Datum.Like b.rel t t' ∧ ∀ r, t ≠ .node r := by
  unfold boundMember
  rcases nameParts x with _ | ⟨object, _ | ⟨member, rest⟩⟩
  · exact .inl ⟨_, rfl, rfl⟩
  · exact .inl ⟨_, rfl, rfl⟩
  · rcases hs.get? object with ⟨h1, h2⟩ | ⟨o, o', h1, h2, ho⟩
    · left
      simp only [bound, h1, h2]
      exact ⟨_, rfl, rfl⟩
    · simp only [bound, h1, h2, pure_bind]
      obtain ⟨r, r', rfl, rfl, hrel, hr, hk⟩ := ho.exists_node
      rcases (b.fields h.stores hr hrel).get? member with ⟨h3, h4⟩ | ⟨z, z', h3, h4, hlike⟩
      · left
        rw [field_node, field_node, Store.field?, Store.field?, h3, h4]
        exact ⟨_, rfl, rfl⟩
      · right
        refine ⟨z, z', field_apply h3, field_apply h4, hlike, ?_⟩
        exact (h.sane.furnished.fit r hr).flat (mem_valueKinds_of_kinds hk) member z h3

theorem matches_overwriteMember {Q : Unit → Unit → Machine → Prop} (h : Joined b m m')
    (hs : Scopes b m.store scope scope') (hv : Values b m.store v v') (x : String)
    (hread : ∀ e, boundMember scope x m = (.error e, m) → IsRead e → B.reads e m) :
    Matches b B m m' (overwrite dialect (boundMember scope x) v)
      (overwrite dialect (boundMember scope' x) v') Q := by
  refine .kindOf h hv.pair fun kind _ => ?_
  rcases boundMember_cases h hs x with ⟨e, he, he'⟩ | ⟨t, t', ht, ht', hlike, hflat⟩
  · refine matches_of_error h ?_ ?_ (hread e he)
    · rw [bind_apply, he]
    · rw [bind_apply, he']
  · have hfail : ∃ φ, (∀ shown, φ ≠ .missingKey shown) ∧
        setKind t kind m = (.error (.fault φ), m) ∧
        setKind t' kind m' = (.error (.fault φ), m') := by
      cases hlike with
      | node => exact absurd rfl (hflat _)
      | _ => exact ⟨_, fun _ => Fault.noConfusion, rfl, rfl⟩
    obtain ⟨φ, hφ, hleft, hright⟩ := hfail
    refine matches_of_error h ?_ ?_ fun hr => absurd hr (not_isRead_of_fault hφ)
    · rw [bind_of_ok ht, bind_apply, hleft]
    · rw [bind_of_ok ht', bind_apply, hright]

theorem isBound_eq (hs : Scopes b s scope scope') (x : String) :
    isBound dialect scope' x = isBound dialect scope x := by
  simp only [isBound, LikeFields.has_eq hs.like]

theorem matches_assignValue (hg : g.closures = dialect.hasClosures) (h : Joined b m m')
    (hs : Scopes b m.store scope scope') (hv : Values b m.store v v') (x : String)
    (hread : ∀ e m1, m1.store = m.store → dialect.hasObjects = true → isDotted x = true →
      boundMember scope x m1 = (.error e, m1) → IsRead e → B.reads e m1) :
    Matches b B m m' (assignValue dialect scope x v) (assignValue dialect scope' x v')
      (After (Scopes b)) := by
  -- The value is shown in the dialects with closures; then the variable is changed.
  have hchange : ∀ {m1 m1' : Machine}, Joined b m1 m1' → m1.store = m.store →
    isBound dialect scope x = true →
      Matches b B m1 m1'
        (if dialect.hasObjects && isDotted x then overwrite dialect (boundMember scope x) v >>=
          fun _ => pure scope
          else overwrite dialect (bound scope x) v >>= fun _ => pure scope)
        (if dialect.hasObjects && isDotted x then overwrite dialect (boundMember scope' x) v' >>=
          fun _ => pure scope'
          else overwrite dialect (bound scope' x) v' >>= fun _ => pure scope')
        (After (Scopes b)) := by
    intro m1 m1' hj hstore hbound
    rw [← hstore] at hs hv
    refine matches_ite (fun hdotted => ?_) fun hplain => ?_
    · rw [Bool.and_eq_true] at hdotted
      refine .bind (Q := fun _ _ _ => False) (matches_overwriteMember hj hs hv x fun e he hr => ?_)
        fun _ _ _ _ _ _ _ hq => hq.elim
      exact hread e m1 hstore hdotted.1 hdotted.2 he hr
    · have hhas : Assoc.has x scope = true := by
        rcases Bool.or_eq_true _ _ ▸ hbound with hhas | hmember
        · exact hhas
        · rw [Bool.and_eq_true] at hmember
          exact absurd hmember.1 hplain
      rcases hs.get? x with ⟨h1, -⟩ | ⟨t, t', h1, h2, ht⟩
      · rw [Assoc.has, h1] at hhas
        cases hhas
      · simp only [bound, h1, h2]
        refine .next (matches_overwrite hg hj ht hv) fun _ _ m2 m2' _ hj2 ho2 _ => ?_
        exact .pure hj2 (hs.later ho2)
  unfold assignValue assign
  rw [isBound_eq hs]
  refine matches_ite (fun hbound => .bind_pure ?_) fun _ => matches_ite (fun _ => ?_) fun _ => ?_
  · refine matches_ite (fun _ => ?_) fun _ => hchange h rfl hbound
    refine .textOf h (h.text_eq hv.pair) fun t _ => .next (matches_print h t) ?_
    intro _ _ m1 m1' hprint hj _ _
    refine hchange hj ?_ hbound
    rw [← (Prod.mk.inj hprint).2]
  · exact matches_report h _ _
  · exact .bind_pure (.pure h (hs.put x hv))

end LangKit.Script.Parallel
