import LangKit.Proofs.Closures.Shapes

/-!
# The nodes of a program

What holds of the nodes that belong to a program, in every dialect and at all times of a run. Nodes
that were in the store before the program was loaded are left alone; those that came with it or
after it are in its region (`Region.Own`). Each of them has the fields that the evaluators read of a
node of its kind (`required`), values hold no nodes directly, and only values that are no lambdas
share a field table (`Furnished`).

Evaluators change a store in few ways. They add nodes, copy nodes, turn the node of a value into a
value of another kind and set its contents. All of these keep the nodes furnished, leave code as it
is and values values, and spare what is outside of the region: `Advance`. The one exception is an
assignment that fails half-way, since a lambda has no contents to take over: it leaves the variable
with the kind of a lambda and the fields that it had (`Broken`).
-/

namespace LangKit.Script.Parallel

open Store
open Closures (valueKinds madeKinds objectKinds Suits isSome_of_like get?_of_like isSome_put)

variable {ds ds' : List Datum} {name f : String} {R : Nat → Nat → Prop} {d d' : Datum}

/-! ## Values that are alike -/

theorem like_of_isAtom (h : d.isAtom = true) : Datum.Like R d d := by
  cases d with
  | bool z => exact .bool z
  | int n => exact .int n
  | text t => exact .text t
  | _ => cases h

theorem LikeAll.length_eq (h : Datum.LikeAll R ds ds') : ds'.length = ds.length := by
  induction ds generalizing ds' with
  | nil =>
    cases h
    rfl
  | cons d rest ih =>
    cases h with
    | cons first more => rw [List.length_cons, List.length_cons, ih more]

theorem LikeEntries.length_eq (h : Datum.LikeEntries R es es') :
    es'.length = es.length := by
  induction es generalizing es' with
  | nil =>
    cases h
    rfl
  | cons e rest ih =>
    cases h with
    | cons key value more => rw [List.length_cons, List.length_cons, ih more]

/-! ## Definitions -/

/-- Where the nodes of a program begin in a store, whether functions are among its values, and
whether it may speak of objects. -/
structure Region where
  cells : Nat
  tables : Nat
  closures : Bool
  objects : Bool

def Region.kinds (g : Region) : List String :=
  if g.closures then valueKinds else madeKinds

def Region.names (g : Region) (x : String) : Prop :=
  isDotted x = true → g.objects = true

def Region.Own (g : Region) (s : Store) (r : Nat) : Prop :=
  g.cells ≤ r ∧ r < s.size

/-- The nodes that a value refers to belong to the program. -/
def Known (g : Region) (s : Store) (d : Datum) : Prop :=
  ∀ r ∈ d.refs, g.Own s r

def required (kind : String) : List String :=
  if (BinaryOp.ofKind? kind).isSome then ["op1", "op2"]
  else if (UnaryOp.ofKind? kind).isSome then ["op1"]
  else
    match kind with
    | "fcall" => ["name", "args"]
    | "mcall" => ["objref", "name", "args"]
    | "=" => ["name", "expression"]
    | "if" => ["condition", "statements", "else_statements"]
    | "while" => ["condition", "statements"]
    | "return" => ["expression"]
    | "func" => ["name", "args", "statements"]
    | "lambda" => ["args", "statements"]
    | "program" => ["functions"]
    | "arg" | "refarg" | "var" => ["name"]
    | "int" | "bool" | "string" => ["val"]
    | _ => []

/-- The kinds of the values that may share a field table. -/
def looseKinds : List String := ["int", "bool", "string", "nil", "func"]

def formalKinds : List String := ["arg", "refarg"]

/-- If a node is a lambda, then it has taken values along. -/
def Laden (s : Store) (r : Nat) : Prop :=
  s.kind r = "lambda" → (s.field? r "free_vars").isSome

def IsValue (g : Region) (s : Store) (d : Datum) : Prop :=
  ∃ r, d = .node r ∧ g.Own s r ∧ s.kind r ∈ g.kinds ∧ Laden s r

def AreFormals (g : Region) (s : Store) (d : Datum) : Prop :=
  ∃ ds, d = .list ds ∧ ∀ f ∈ ds, ∃ r, f = .node r ∧ g.Own s r ∧ s.kind r ∈ formalKinds

def AreCaptured (g : Region) (s : Store) (d : Datum) : Prop :=
  ∃ es, d = .mapping es ∧ ∀ e ∈ es, e.2 = .null ∨ IsValue g s e.2

def Shown (d : Datum) : Prop :=
  ∃ t, d.display = .ok t

structure Fit (g : Region) (s : Store) (kind : String) (fs : Fields) : Prop where
  required : ∀ f ∈ required kind, (Assoc.get? f fs).isSome
  known : ∀ e ∈ fs, Known g s e.2
  allowed : kind ∈ objectKinds → g.objects = true
  named : ∀ d, Assoc.get? "name" fs = some d → ∃ x, d = .text x ∧ g.names x
  contents : ∀ d, Assoc.get? "val" fs = some d → d.isAtom = true
  shown : ∀ d, Assoc.get? "args" fs = some d → Shown d
  empty : kind = "lambda" → Assoc.get? "val" fs = none
  flat : kind ∈ valueKinds → ∀ f d, Assoc.get? f fs = some d → ∀ r, d ≠ .node r
  formals : kind ∈ valueKinds → ∀ d, Assoc.get? "args" fs = some d → AreFormals g s d
  captured : ∀ d, Assoc.get? "free_vars" fs = some d → AreCaptured g s d
  bare : kind = "@" → Assoc.get? "name" fs = none
  plain : kind ∈ valueKinds → Assoc.get? "proto" fs = none

/-- The nodes of a program have the fields that are asked of them. -/
structure Furnished (g : Region) (s : Store) : Prop where
  formed : s.Formed
  cells : g.cells ≤ s.size
  tables : g.tables ≤ s.tables.size
  own : ∀ r, g.Own s r → g.tables ≤ (s.cell r).table
  fit : ∀ r, g.Own s r → Fit g s (s.kind r) (s.fields r)
  alone : ∀ r r', g.Own s r → g.Own s r' → (s.cell r).table = (s.cell r').table →
    r = r' ∨ s.kind r ∈ looseKinds
  /-- Contents can be changed through another node only if two nodes share a table. -/
  typed : g.closures = true → s.OwnTables → ∀ r, g.Own s r → Suits (s.kind r) (s.fields r)

/-- From one store to a later one, values stay values, code stays as it is, and no function loses
its parts. -/
structure Later (g : Region) (s s' : Store) : Prop where
  size : s.size ≤ s'.size
  value : ∀ r, g.Own s r → s.kind r ∈ valueKinds → s'.kind r ∈ valueKinds
  kept : ∀ r, g.Own s r → s.kind r ∈ g.kinds → s'.kind r ∈ g.kinds
  code : ∀ r, g.Own s r → s.kind r ∉ valueKinds → s'.node r = s.node r
  parts : ∀ r, g.Own s r → s.kind r ∈ valueKinds → ∀ f ∈ ["name", "args", "statements"],
    (s.field? r f).isSome → (s'.field? r f).isSome
  laden : ∀ r, g.Own s r → Laden s r → Laden s' r

structure Spares (g : Region) (s s' : Store) : Prop where
  formed : s'.Formed
  size : s.size ≤ s'.size
  room : s.tables.size ≤ s'.tables.size
  cell : ∀ r < g.cells, s'.cells[r]? = s.cells[r]?
  table : ∀ t < g.tables, s'.tables[t]? = s.tables[t]?

structure Advance (g : Region) (s s' : Store) : Prop where
  furnished : Furnished g s'
  later : Later g s s'
  spares : Spares g s s'

/-- A lambda was to be assigned to a value: the value has been given its kind, and has kept its
fields. -/
def Broken (g : Region) (s s' : Store) : Prop :=
  ∃ r q, g.Own s r ∧ s.kind r ∈ valueKinds ∧ g.Own s q ∧ s.kind q = "lambda" ∧
    s' = s.setKind r "lambda"

variable {g : Region} {s s' s'' : Store} {kind kind' : String} {fs fs' : Fields} {r ref : Nat}

/-! ## Kinds -/

theorem mem_valueKinds_of_made (h : kind ∈ madeKinds) : kind ∈ valueKinds :=
  List.mem_append_left ["func", "lambda"] h

theorem mem_valueKinds_of_loose (h : kind ∈ looseKinds) : kind ∈ valueKinds := by
  revert kind
  decide

theorem ne_lambda_of_loose (h : kind ∈ looseKinds) : kind ≠ "lambda" := by
  revert kind
  decide

theorem mem_looseKinds_of_made (h : kind ∈ madeKinds) : kind ∈ looseKinds := by
  revert kind
  decide

theorem formal_notMem_valueKinds (h : kind ∈ formalKinds) : kind ∉ valueKinds := by
  revert kind
  decide

/-- Nothing is asked of a plain value but its contents. -/
theorem eq_val_of_made (h : kind ∈ madeKinds) : ∀ f ∈ required kind, f = "val" := by
  revert kind
  decide

theorem value_notMem_objectKinds (h : kind ∈ valueKinds) : kind ∉ objectKinds := by
  revert kind
  decide

theorem mem_valueKinds_of_kinds (h : kind ∈ g.kinds) : kind ∈ valueKinds := by
  rw [Region.kinds] at h
  split at h
  · exact h
  · exact mem_valueKinds_of_made h

theorem mem_kinds_of_made (h : kind ∈ madeKinds) : kind ∈ g.kinds := by
  rw [Region.kinds]
  split
  · exact mem_valueKinds_of_made h
  · exact h

theorem mem_kinds_of_closures (hg : g.closures = true) (h : kind ∈ valueKinds) :
    kind ∈ g.kinds := by
  rwa [Region.kinds, if_pos hg]

/-! ## Going on -/

theorem Region.Own.mono (h : g.Own s r) (hs : s.size ≤ s'.size) : g.Own s' r :=
  ⟨h.1, Nat.lt_of_lt_of_le h.2 hs⟩

theorem Known.mono (h : Known g s d) (hs : s.size ≤ s'.size) : Known g s' d :=
  fun r hr => (h r hr).mono hs

theorem known_node : Known g s (.node r) ↔ g.Own s r :=
  List.forall_mem_singleton

theorem IsValue.known (h : IsValue g s d) : Known g s d := by
  obtain ⟨r, rfl, hr, -⟩ := h
  exact known_node.2 hr

theorem laden_of_ne (h : s.kind r ≠ "lambda") : Laden s r :=
  fun hk => absurd hk h

theorem known_of_isAtom (h : d.isAtom = true) : Known g s d := by
  cases d with
  | bool | int | text => exact List.forall_mem_nil _
  | _ => cases h

theorem Later.refl (g : Region) (s : Store) : Later g s s :=
  ⟨Nat.le_refl _, fun _ _ h => h, fun _ _ h => h, fun _ _ _ => rfl, fun _ _ _ _ _ h => h,
    fun _ _ h => h⟩

theorem Later.trans (h : Later g s s') (h' : Later g s' s'') : Later g s s'' where
  size := Nat.le_trans h.size h'.size
  value r hr hk := h'.value r (hr.mono h.size) (h.value r hr hk)
  kept r hr hk := h'.kept r (hr.mono h.size) (h.kept r hr hk)
  code r hr hk := by
    have hnode := h.code r hr hk
    have hkind : s'.kind r = s.kind r := congrArg Prod.fst hnode
    rw [h'.code r (hr.mono h.size) (hkind ▸ hk), hnode]
  parts r hr hk f hf hs :=
    h'.parts r (hr.mono h.size) (h.value r hr hk) f hf (h.parts r hr hk f hf hs)
  laden r hr hl := h'.laden r (hr.mono h.size) (h.laden r hr hl)

theorem Spares.refl (h : s.Formed) : Spares g s s :=
  ⟨h, Nat.le_refl _, Nat.le_refl _, fun _ _ => rfl, fun _ _ => rfl⟩

theorem Spares.trans (h : Spares g s s') (h' : Spares g s' s'') : Spares g s s'' where
  formed := h'.formed
  size := Nat.le_trans h.size h'.size
  room := Nat.le_trans h.room h'.room
  cell r hr := (h'.cell r hr).trans (h.cell r hr)
  table t ht := (h'.table t ht).trans (h.table t ht)

theorem Advance.refl (h : Furnished g s) : Advance g s s :=
  ⟨h, .refl g s, .refl h.formed⟩

theorem Advance.trans (h : Advance g s s') (h' : Advance g s' s'') : Advance g s s'' :=
  ⟨h'.furnished, h.later.trans h'.later, h.spares.trans h'.spares⟩

theorem IsValue.later (h : IsValue g s d) (hl : Later g s s') : IsValue g s' d := by
  obtain ⟨r, rfl, hr, hk, hladen⟩ := h
  exact ⟨r, rfl, hr.mono hl.size, hl.kept r hr hk, hl.laden r hr hladen⟩

theorem AreFormals.later (h : AreFormals g s d) (hl : Later g s s') : AreFormals g s' d := by
  obtain ⟨ds, rfl, hds⟩ := h
  refine ⟨ds, rfl, fun f hf => ?_⟩
  obtain ⟨r, rfl, hr, hk⟩ := hds f hf
  have hkind : s'.kind r = s.kind r :=
    congrArg Prod.fst (hl.code r hr (formal_notMem_valueKinds hk))
  exact ⟨r, rfl, hr.mono hl.size, hkind ▸ hk⟩

theorem AreCaptured.later (h : AreCaptured g s d) (hl : Later g s s') : AreCaptured g s' d := by
  obtain ⟨es, rfl, hes⟩ := h
  exact ⟨es, rfl, fun e he => (hes e he).imp_right fun hv => hv.later hl⟩

theorem Fit.later (h : Fit g s kind fs) (hl : Later g s s') : Fit g s' kind fs :=
  { h with
    known := fun e he => (h.known e he).mono hl.size
    formals := fun hk d hd => (h.formals hk d hd).later hl
    captured := fun d hd => (h.captured d hd).later hl }

/-! ## Reading -/

theorem Furnished.known_field (h : Furnished g s) (hr : g.Own s r) (hd : s.field? r name = some d) :
    Known g s d :=
  (h.fit r hr).known _ (Assoc.mem_of_get? hd)

theorem Furnished.closed (h : Furnished g s) (r : Nat) (hr : g.Own s r) :
    r < s.size ∧ ∀ e ∈ s.fields r, ∀ q ∈ e.2.refs, g.Own s q :=
  ⟨hr.2, fun e he q hq => (h.fit r hr).known e he q hq⟩

/-! ## Adding nodes -/

theorem later_of_grown (hs : s.Formed) (h : Grown s s') : Later g s s' where
  size := h.size
  value r hr hk := by rwa [h.kind_eq hr.2]
  kept r hr hk := by rwa [h.kind_eq hr.2]
  code r hr _ := h.node hs hr.2
  parts r hr _ f _ hf := by rwa [h.field?_eq hs hr.2]
  laden r hr hl := by rwa [Laden, h.kind_eq hr.2, h.field?_eq hs hr.2]

theorem spares_of_grown (hg : Furnished g s) (hs : s'.Formed) (h : Grown s s') : Spares g s s' where
  formed := hs
  size := h.size
  room := h.room
  cell r hr := by
    have hlt : r < s.size := Nat.lt_of_lt_of_le hr hg.cells
    have hcells : r < s.cells.size := hlt
    have hcells' : r < s'.cells.size := Nat.lt_of_lt_of_le hlt h.size
    have hcell := h.cell r hlt
    simp only [Store.cell, Array.getD_eq_getD_getElem?, Array.getElem?_eq_getElem hcells,
      Array.getElem?_eq_getElem hcells', Option.getD_some] at hcell
    rw [Array.getElem?_eq_getElem hcells, Array.getElem?_eq_getElem hcells', hcell]
  table t ht := h.table t (Nat.lt_of_lt_of_le ht hg.tables)

theorem advance_of_grown (hg : Furnished g s) (hs : s'.Formed) (h : Grown s s')
    (hfit : ∀ r, s.size ≤ r → r < s'.size → Fit g s' (s'.kind r) (s'.fields r))
    (halone : ∀ r r', s.size ≤ r → r < s'.size → s.size ≤ r' → r' < s'.size →
      (s'.cell r).table = (s'.cell r').table → r = r' ∨ s'.kind r ∈ looseKinds)
    (htyped : g.closures = true → s'.OwnTables → ∀ r, s.size ≤ r → r < s'.size →
      Suits (s'.kind r) (s'.fields r)) :
    Advance g s s' := by
  have hlater : Later g s s' := later_of_grown hg.formed h
  have hfields : ∀ r, r < s.size → s'.fields r = s.fields r :=
    fun _ hr => congrArg Prod.snd (h.node hg.formed hr)
  refine ⟨⟨hs, Nat.le_trans hg.cells h.size, Nat.le_trans hg.tables h.room, ?_, ?_, ?_, ?_⟩, hlater,
    spares_of_grown hg hs h⟩
  · intro r hr
    by_cases hlt : r < s.size
    · rw [h.cell r hlt]
      exact hg.own r ⟨hr.1, hlt⟩
    · exact Nat.le_trans hg.tables (h.fresh r (Nat.le_of_not_lt hlt))
  · intro r hr
    by_cases hlt : r < s.size
    · rw [h.kind_eq hlt, hfields r hlt]
      exact (hg.fit r ⟨hr.1, hlt⟩).later hlater
    · exact hfit r (Nat.le_of_not_lt hlt) hr.2
  · intro r r' hr hr' heq
    -- New nodes have new tables, so a table is shared among old nodes or among new ones.
    by_cases hlt : r < s.size <;> by_cases hlt' : r' < s.size
    · rw [h.cell r hlt, h.cell r' hlt'] at heq
      rw [h.kind_eq hlt]
      exact hg.alone r r' ⟨hr.1, hlt⟩ ⟨hr'.1, hlt'⟩ heq
    · have hold := hg.formed r hlt
      have hnew := h.fresh r' (Nat.le_of_not_lt hlt')
      rw [h.cell r hlt] at heq
      omega
    · have hold := hg.formed r' hlt'
      have hnew := h.fresh r (Nat.le_of_not_lt hlt)
      rw [h.cell r' hlt'] at heq
      omega
    · exact halone r r' (Nat.le_of_not_lt hlt) hr.2 (Nat.le_of_not_lt hlt') hr'.2 heq
  · intro hclosures htables r hr
    by_cases hlt : r < s.size
    · rw [h.kind_eq hlt, hfields r hlt]
      exact hg.typed hclosures (htables.of_grown h) r ⟨hr.1, hlt⟩
    · exact htyped hclosures htables r (Nat.le_of_not_lt hlt) hr.2

theorem advance_alloc (h : Furnished g s) (hfit : Fit g s kind fs)
    (hsuits : g.closures = true → Suits kind fs) : Advance g s (s.alloc kind fs).2 := by
  have hlater : Later g s (s.alloc kind fs).2 := later_of_grown h.formed grown_alloc
  have hnew : ∀ r, s.size ≤ r → r < (s.alloc kind fs).2.size → r = s.size := by
    intro r hle hlt
    rw [size_alloc] at hlt
    omega
  refine advance_of_grown h h.formed.alloc grown_alloc ?_ ?_ ?_
  · intro r hle hlt
    obtain rfl := hnew r hle hlt
    rw [kind_alloc_self, fields_alloc_self]
    exact hfit.later hlater
  · intro r r' hle hlt hle' hlt' _
    left
    rw [hnew r hle hlt, hnew r' hle' hlt']
  · intro hclosures _ r hle hlt
    obtain rfl := hnew r hle hlt
    rw [kind_alloc_self, fields_alloc_self]
    exact hsuits hclosures

theorem isValue_alloc (hcells : g.cells ≤ s.size) (hk : kind ∈ madeKinds) :
    IsValue g (s.alloc kind fs).2 (.node s.size) := by
  refine ⟨s.size, rfl, ⟨hcells, ?_⟩, ?_, ?_⟩
  · rw [size_alloc]
    exact Nat.lt_succ_self _
  · rw [kind_alloc_self]
    exact mem_kinds_of_made hk
  · refine laden_of_ne ?_
    rw [kind_alloc_self]
    exact ne_lambda_of_loose (mem_looseKinds_of_made hk)

theorem fit_plain (hk : kind ∈ madeKinds)
    (hrequired : ∀ f ∈ required kind, (Assoc.get? f fs).isSome)
    (hfs : ∀ e ∈ fs, e.1 = "val" ∧ e.2.isAtom = true) : Fit g s kind fs := by
  have hnone : ∀ {f : String}, f ≠ "val" → Assoc.get? f fs = none := by
    intro f hf
    cases hd : Assoc.get? f fs with
    | none => rfl
    | some d => exact absurd (hfs _ (Assoc.mem_of_get? hd)).1 hf
  have hno : ∀ {f : String} {d : Datum} {p : Prop}, f ≠ "val" → Assoc.get? f fs = some d → p := by
    intro f d p hf hd
    rw [hnone hf] at hd
    cases hd
  exact {
    required := hrequired
    known := fun e he => known_of_isAtom (hfs e he).2
    allowed := fun ho => absurd ho (value_notMem_objectKinds (mem_valueKinds_of_made hk))
    named := fun d hd => hno (by decide) hd
    contents := fun d hd => (hfs _ (Assoc.mem_of_get? hd)).2
    shown := fun d hd => hno (by decide) hd
    empty := fun hlambda => absurd hlambda (ne_lambda_of_loose (mem_looseKinds_of_made hk))
    flat := by
      rintro _ f d hd r rfl
      cases (hfs _ (Assoc.mem_of_get? hd)).2
    formals := fun _ d hd => hno (by decide) hd
    captured := fun d hd => hno (by decide) hd
    bare := fun _ => hnone (by decide)
    plain := fun _ => hnone (by decide) }

theorem fit_made (hk : kind ∈ madeKinds) (hd : d.isAtom = true) : Fit g s kind [("val", d)] := by
  refine fit_plain hk (fun f hf => ?_) (List.forall_mem_singleton.2 ⟨rfl, hd⟩)
  rw [eq_val_of_made hk f hf]
  rfl

theorem fit_nil : Fit g s "nil" [] :=
  fit_plain (by decide) (by decide) (List.forall_mem_nil _)

/-! ## Copies -/

section

theorem own_of_copied (h : Furnished g s) (hc : Copied s s' (g.Own s) R) (hR : R q q') :
    g.Own s' q' :=
  ⟨Nat.le_trans h.cells (hc.fresh q q' hR).1, (hc.fresh q q' hR).2⟩

variable (h : Furnished g s) (hc : Copied s s' (g.Own s) R) (hl : Datum.Like R d d')

include h hc hl

theorem IsValue.copied (hd : IsValue g s d) : IsValue g s' d' := by
  obtain ⟨q, rfl, -, hk, hladen⟩ := hd
  cases hl with
  | @node _ q' hR =>
    have hkind := hc.kind q q' hR
    refine ⟨q', rfl, own_of_copied h hc hR, hkind ▸ hk, fun hlambda => ?_⟩
    rw [hkind] at hlambda
    rw [Store.field?, isSome_of_like (hc.fields q q' hR)]
    exact hladen hlambda

theorem AreCaptured.copied (hd : AreCaptured g s d) : AreCaptured g s' d' := by
  obtain ⟨es, rfl, hes⟩ := hd
  cases hl with
  | @mapping _ es' entries =>
    refine ⟨es', rfl, fun e' he' => ?_⟩
    obtain ⟨e, he, hlike⟩ := Closures.LikeEntries.mem entries e' he'
    rcases hes e he with hnull | hvalue
    · rw [hnull] at hlike
      generalize e'.2 = v at hlike ⊢
      cases hlike
      exact .inl rfl
    · exact .inr (hvalue.copied h hc hlike)

end

theorem LikeAll.mem (h : Datum.LikeAll R ds ds') : ∀ d' ∈ ds', ∃ d ∈ ds, Datum.Like R d d' := by
  induction ds generalizing ds' with
  | nil =>
    cases h
    exact List.forall_mem_nil _
  | cons d rest ih =>
    cases h with
    | cons first more =>
      intro d' hd'
      rcases List.mem_cons.1 hd' with rfl | hd'
      · exact ⟨_, List.mem_cons_self, first⟩
      · obtain ⟨e, he, hlike⟩ := ih more d' hd'
        exact ⟨e, List.mem_cons_of_mem _ he, hlike⟩

theorem LikeFields.mem (h : Datum.LikeFields R fs fs') :
    ∀ e' ∈ fs', ∃ e ∈ fs, Datum.Like R e.2 e'.2 := by
  induction h with
  | nil => exact List.forall_mem_nil _
  | cons first _ ih =>
    intro e' he'
    rcases List.mem_cons.1 he' with rfl | he'
    · exact ⟨_, List.mem_cons_self, first⟩
    · obtain ⟨e, he, hlike⟩ := ih e' he'
      exact ⟨e, List.mem_cons_of_mem _ he, hlike⟩

theorem AreFormals.copied (h : Furnished g s) (hc : Copied s s' (g.Own s) R)
    (hl : Datum.Like R d d') (hd : AreFormals g s d) : AreFormals g s' d' := by
  obtain ⟨ds, rfl, hds⟩ := hd
  cases hl with
  | @list _ ds' items =>
    refine ⟨ds', rfl, fun f' hf' => ?_⟩
    obtain ⟨f, hf, hlike⟩ := LikeAll.mem items f' hf'
    obtain ⟨q, rfl, -, hk⟩ := hds f hf
    cases hlike with
    | @node _ q' hR => exact ⟨q', rfl, own_of_copied h hc hR, hc.kind q q' hR ▸ hk⟩

theorem like_of_get? (hl : Datum.LikeFields R fs fs') (h : Assoc.get? f fs' = some d') :
    ∃ d, Assoc.get? f fs = some d ∧ Datum.Like R d d' := by
  rcases hl.get? f with ⟨-, hnone⟩ | ⟨d1, d2, h1, h2, hlike⟩
  · rw [hnone] at h
    cases h
  · rw [h2] at h
    obtain rfl := Option.some.inj h
    exact ⟨d1, h1, hlike⟩

theorem get?_none_of_like (hl : Datum.LikeFields R fs fs') (h : Assoc.get? f fs = none) :
    Assoc.get? f fs' = none := by
  rcases hl.get? f with ⟨-, hnone⟩ | ⟨d, d', hd, -, -⟩
  · exact hnone
  · rw [h] at hd
    cases hd

theorem Fit.copied {R : Nat → Nat → Prop} (h : Furnished g s) (hc : Copied s s' (g.Own s) R)
    (hfit : Fit g s kind fs) (hl : Datum.LikeFields R fs fs') : Fit g s' kind fs' where
  required f hf := by
    rw [isSome_of_like hl]
    exact hfit.required f hf
  known e' he' q' hq' := by
    obtain ⟨-, -, q, -, hR⟩ := hl.refs e' he' q' hq'
    exact own_of_copied h hc hR
  allowed := hfit.allowed
  named := by
    have hatom : ∀ d, Assoc.get? "name" fs = some d → d.isAtom = true := by
      intro d hd
      obtain ⟨x, rfl, -⟩ := hfit.named d hd
      rfl
    rw [get?_of_like hl hatom]
    exact hfit.named
  contents := by
    rw [get?_of_like hl hfit.contents]
    exact hfit.contents
  shown d' hd' := by
    obtain ⟨d, hd, hlike⟩ := like_of_get? hl hd'
    obtain ⟨text, htext⟩ := hfit.shown d hd
    exact ⟨text, hlike.display_eq.trans htext⟩
  empty hk := by
    rw [get?_of_like hl hfit.contents]
    exact hfit.empty hk
  flat hk f d' hd' r := by
    obtain ⟨d, hd, hlike⟩ := like_of_get? hl hd'
    rintro rfl
    cases hlike with
    | node => exact hfit.flat hk f _ hd _ rfl
  formals hk d' hd' := by
    obtain ⟨d, hd, hlike⟩ := like_of_get? hl hd'
    exact (hfit.formals hk d hd).copied h hc hlike
  captured d' hd' := by
    obtain ⟨d, hd, hlike⟩ := like_of_get? hl hd'
    exact (hfit.captured d hd).copied h hc hlike
  bare hk := get?_none_of_like hl (hfit.bare hk)
  plain hk := get?_none_of_like hl (hfit.plain hk)

theorem advance_copied (h : Furnished g s) (hc : Copied s s' (g.Own s) R) : Advance g s s' := by
  refine advance_of_grown h hc.formed hc.grown ?_ ?_ ?_
  · intro r hle hlt
    obtain ⟨q, hR⟩ := hc.onto r hle hlt
    rw [hc.kind q r hR]
    exact (h.fit q (hc.source q r hR)).copied h hc (hc.fields q r hR)
  · intro r r' hle hlt hle' hlt' heq
    obtain ⟨q, hR⟩ := hc.onto r hle hlt
    obtain ⟨q', hR'⟩ := hc.onto r' hle' hlt'
    -- Copies share a table only if what they are copies of does.
    have hshared := (hc.table q r q' r' hR hR').1 heq
    rcases h.alone q q' (hc.source q r hR) (hc.source q' r' hR') hshared with rfl | hloose
    · exact .inl (hc.once q r r' hR hR')
    · right
      rwa [hc.kind q r hR]
  · intro hclosures htables r hle hlt
    obtain ⟨q, hR⟩ := hc.onto r hle hlt
    have hq := hc.source q r hR
    rw [hc.kind q r hR]
    exact (h.typed hclosures (htables.of_grown hc.grown) q hq).congr
      (get?_of_like (hc.fields q r hR) (h.fit q hq).contents)

/-! ## Changing a value -/

/-- The kind of one value and the fields of all nodes with its table are changed. The value keeps
its kind or becomes a plain one. -/
theorem advance_of_change (h : Furnished g s) (hr : g.Own s ref) (hvalue : s.kind ref ∈ valueKinds)
    (change : Fields → Fields) (hchange : ∀ f fs, (Assoc.get? f fs).isSome →
    (Assoc.get? f (change fs)).isSome) (hkind : kind = s.kind ref ∨ kind ∈ madeKinds) (hspares :
    Spares g s s') (hsize : s'.size = s.size) (hkinds :
    ∀ r, s'.kind r = if r = ref then kind else s.kind r) (htable :
    ∀ r, (s'.cell r).table = (s.cell r).table) (hfields : ∀ r, s'.fields r =
      if (s.cell r).table = (s.cell ref).table then change (s.fields r) else s.fields r)
    (hfit : ∀ r, g.Own s r → (s.cell r).table = (s.cell ref).table → s.kind r ∈ valueKinds →
      Fit g s (if r = ref then kind else s.kind r) (change (s.fields r)))
    (htyped : g.closures = true → s.OwnTables → Suits kind (change (s.fields ref))) :
    Advance g s s' := by
  have hown : ∀ {r}, g.Own s' r → g.Own s r := fun hr' => ⟨hr'.1, hsize ▸ hr'.2⟩
  -- Nodes that share the table are values.
  have hshared : ∀ r, g.Own s r → (s.cell r).table = (s.cell ref).table →
      s.kind r ∈ valueKinds := by
    intro r hr' heq
    rcases h.alone r ref hr' hr heq with rfl | hloose
    · exact hvalue
    · exact mem_valueKinds_of_loose hloose
  have hkept : ∀ r f, (s.field? r f).isSome → (s'.field? r f).isSome := by
    intro r f hf
    rw [Store.field?, hfields]
    split
    · exact hchange f _ hf
    · exact hf
  have hlater : Later g s s' := by
    refine ⟨Nat.le_of_eq hsize.symm, fun r _ hk => ?_, fun r _ hk => ?_, fun r hr' hk => ?_,
      fun r _ _ f _ hf => hkept r f hf, fun r _ hl => ?_⟩
    · rw [hkinds]
      split
      · rcases hkind with rfl | hmade
        · exact hvalue
        · exact mem_valueKinds_of_made hmade
      · exact hk
    · rw [hkinds]
      split
      · rename_i heq
        rcases hkind with rfl | hmade
        · exact heq ▸ hk
        · exact mem_kinds_of_made hmade
      · exact hk
    · have hne : r ≠ ref := by
        rintro rfl
        exact hk hvalue
      rw [Store.node, hkinds, if_neg hne, hfields, if_neg fun heq => hk (hshared r hr' heq)]
      rfl
    · intro hlambda
      refine hkept r _ (hl ?_)
      rw [hkinds] at hlambda
      split at hlambda
      · rename_i heq
        rcases hkind with hsame | hmade
        · rw [heq, ← hsame, hlambda]
        · exact absurd hlambda (ne_lambda_of_loose (mem_looseKinds_of_made hmade))
      · exact hlambda
  refine ⟨⟨hspares.formed, hsize ▸ h.cells, Nat.le_trans h.tables hspares.room, ?_, ?_, ?_, ?_⟩,
    hlater, hspares⟩
  · intro r hr'
    rw [htable]
    exact h.own r (hown hr')
  · intro r hr'
    rw [hkinds, hfields]
    refine Fit.later ?_ hlater
    by_cases heq : (s.cell r).table = (s.cell ref).table
    · rw [if_pos heq]
      exact hfit r (hown hr') heq (hshared r (hown hr') heq)
    · have hne : r ≠ ref := by
        rintro rfl
        exact heq rfl
      rw [if_neg heq, if_neg hne]
      exact h.fit r (hown hr')
  · intro r r' hr1 hr2 heq
    rw [htable, htable] at heq
    rcases h.alone r r' (hown hr1) (hown hr2) heq with rfl | hloose
    · exact .inl rfl
    · right
      rw [hkinds]
      split
      · rename_i hsame
        rcases hkind with rfl | hmade
        · exact hsame ▸ hloose
        · exact mem_looseKinds_of_made hmade
      · exact hloose
  · intro hclosures htables r hr'
    have htables' : s.OwnTables := by
      intro r hlt r' hlt' heq
      exact htables r (hsize ▸ hlt) r' (hsize ▸ hlt') (by rw [htable, htable, heq])
    rw [hkinds, hfields]
    by_cases hne : r = ref
    · rw [if_pos hne, hne, if_pos rfl]
      exact htyped hclosures htables'
    · rw [if_neg hne, if_neg fun heq => hne (htables' r (hown hr').2 ref hr.2 heq)]
      exact h.typed hclosures htables' r (hown hr')

theorem spares_setKind (h : Furnished g s) (hr : g.Own s ref) :
    Spares g s (s.setKind ref kind) where
  formed := h.formed.setKind
  size := Nat.le_of_eq size_setKind.symm
  room := by simp [Store.setKind]
  cell r hlt := by
    have hne : ref ≠ r := by
      have hlow := hr.1
      omega
    simp only [Store.setKind, Array.getElem?_modify, if_neg hne]
  table t _ := rfl

theorem kind_setKind (hr : g.Own s ref) (r : Nat) :
    (s.setKind ref kind).kind r = if r = ref then kind else s.kind r := by
  by_cases hne : r = ref
  · rw [hne, kind_setKind_self hr.2, if_pos rfl]
  · rw [kind_setKind_of_ne hne, if_neg hne]

theorem Fit.become (hfit : Fit g s kind fs) (hvalue : kind ∈ valueKinds) (hk : kind' ∈ madeKinds)
    (hrequired : ∀ f ∈ Parallel.required kind', (Assoc.get? f fs).isSome) : Fit g s kind' fs :=
  { hfit with
    required := hrequired
    allowed := fun ho => absurd ho (value_notMem_objectKinds (mem_valueKinds_of_made hk))
    empty := fun hlambda => absurd hlambda (ne_lambda_of_loose (mem_looseKinds_of_made hk))
    flat := fun _ => hfit.flat hvalue
    formals := fun _ => hfit.formals hvalue
    bare := fun hobject => absurd (hobject ▸ hk) (by decide)
    plain := fun _ => hfit.plain hvalue }

theorem advance_setNil (h : Furnished g s) (hr : g.Own s ref) (hvalue : s.kind ref ∈ valueKinds) :
    Advance g s (s.setKind ref "nil") := by
  refine advance_of_change h hr hvalue id (fun _ _ hf => hf) (.inr (by decide))
    (spares_setKind h hr) size_setKind (kind_setKind hr) (fun _ => table_setKind) (fun r => ?_)
    (fun r hr' _ hk => ?_) fun _ _ => Closures.suits_of_notMem (by decide)
  · rw [fields_setKind, id, ite_self]
  · split
    · exact (h.fit r hr').become hk (by decide) (List.forall_mem_nil _)
    · exact h.fit r hr'

theorem Fit.put (hfit : Fit g s kind fs) {name : String} (hname : name ∉ ["name", "args", "proto"])
    (hd : Known g s d) (hflat : ∀ r, d ≠ .node r)
    (hval : name = "val" → kind ≠ "lambda" ∧ d.isAtom = true)
    (hfree : name = "free_vars" → AreCaptured g s d) : Fit g s kind (Assoc.put name d fs) := by
  simp only [List.mem_cons, List.not_mem_nil, or_false, not_or] at hname
  obtain ⟨hname, hargs, hproto⟩ := hname
  -- What is got is what has been put, or what was there before.
  have hget : ∀ {f : String} {v : Datum}, Assoc.get? f (Assoc.put name d fs) = some v →
      (f = name ∧ v = d) ∨ Assoc.get? f fs = some v := by
    intro f v hv
    by_cases hf : f = name
    · rw [hf, Assoc.get?_put_self] at hv
      exact .inl ⟨hf, (Option.some.inj hv).symm⟩
    · rw [Assoc.get?_put_of_ne hf] at hv
      exact .inr hv
  exact {
    required := fun f hf => isSome_put _ _ _ _ (hfit.required f hf)
    known := fun e he => by
      rcases Assoc.mem_put he with hold | rfl
      · exact hfit.known e hold
      · assumption
    allowed := hfit.allowed
    named := by
      rw [Assoc.get?_put_of_ne (Ne.symm hname)]
      exact hfit.named
    contents := fun v hv => by
      rcases hget hv with ⟨hf, rfl⟩ | hold
      · exact (hval hf.symm).2
      · exact hfit.contents v hold
    shown := by
      rw [Assoc.get?_put_of_ne (Ne.symm hargs)]
      exact hfit.shown
    empty := fun hk => by
      by_cases hf : name = "val"
      · exact absurd hk (hval hf).1
      · rw [Assoc.get?_put_of_ne (Ne.symm hf)]
        exact hfit.empty hk
    flat := fun hk f v hv => by
      rcases hget hv with ⟨-, rfl⟩ | hold
      · exact hflat
      · exact hfit.flat hk f v hold
    formals := by
      rw [Assoc.get?_put_of_ne (Ne.symm hargs)]
      exact hfit.formals
    captured := fun v hv => by
      rcases hget hv with ⟨hf, rfl⟩ | hold
      · exact hfree hf.symm
      · exact hfit.captured v hold
    bare := fun hk => by
      rw [Assoc.get?_put_of_ne (Ne.symm hname)]
      exact hfit.bare hk
    plain := fun hk => by
      rw [Assoc.get?_put_of_ne (Ne.symm hproto)]
      exact hfit.plain hk }

theorem advance_put (h : Furnished g s) (hr : g.Own s ref) (hvalue : s.kind ref ∈ valueKinds)
    (hkind : kind = s.kind ref ∨ kind ∈ madeKinds)
    (hfit : ∀ r, g.Own s r → (s.cell r).table = (s.cell ref).table → s.kind r ∈ valueKinds →
      Fit g s (if r = ref then kind else s.kind r) (Assoc.put name d (s.fields r)))
    (htyped : g.closures = true → s.OwnTables → Suits kind (Assoc.put name d (s.fields ref))) :
    Advance g s ((s.setKind ref kind).setField ref name d) := by
  have hlt : ref < (s.setKind ref kind).size := by
    rw [size_setKind]
    exact hr.2
  have hspares : Spares g s (s.setKind ref kind) := spares_setKind h hr
  refine advance_of_change h hr hvalue (Assoc.put name d) (fun f fs => isSome_put f name d fs) hkind
    ⟨h.formed.setKind.setField, hspares.size, ?_, hspares.cell, fun t ht => ?_⟩ ?_
    (fun r => ?_) (fun r => ?_) (fun r => ?_) hfit htyped
  · simp [Store.setField, Store.setKind]
  · have hlow := h.own ref hr
    rw [table_setField_of_ne (by rw [table_setKind]; omega)]
    rfl
  · rw [size_setField, size_setKind]
  · rw [kind_setField]
    exact kind_setKind hr r
  · rw [cell_setField, table_setKind]
  · rw [fields_setField h.formed.setKind hlt, table_setKind, table_setKind, fields_setKind]

theorem suits_put (h : Suits kind [("val", d)]) : Suits kind (Assoc.put "val" d fs) :=
  h.congr (by rw [Assoc.get?_put_self]; rfl)

theorem Fit.putVal (hfit : Fit g s kind fs) (hk : kind ≠ "lambda") (hd : d.isAtom = true) :
    Fit g s kind (Assoc.put "val" d fs) := by
  refine hfit.put (by decide) (known_of_isAtom hd) ?_ (fun _ => ⟨hk, hd⟩) fun h =>
    absurd h (by decide)
  rintro r rfl
  cases hd

section

variable (h : Furnished g s) (hr : g.Own s ref) (hvalue : s.kind ref ∈ valueKinds)

include h hr hvalue

theorem advance_become (hk : kind ∈ madeKinds) (hd : d.isAtom = true)
    (htyped : g.closures = true → s.OwnTables → Suits kind [("val", d)]) :
    Advance g s ((s.setKind ref kind).setField ref "val" d) := by
  refine advance_put h hr hvalue (.inr hk) (fun r hr' heq hvalue' => ?_)
    fun hclosures htables => suits_put (htyped hclosures htables)
  have hfit := h.fit r hr'
  split
  · -- Whatever the value was, it can have contents when it is nil.
    have nilMade : "nil" ∈ madeKinds := by decide
    have hempty := (hfit.become hvalue' nilMade (List.forall_mem_nil _)).putVal (by decide) hd
    refine hempty.become (by decide) hk fun f hf => ?_
    rw [eq_val_of_made hk f hf, Assoc.get?_put_self]
    rfl
  · rename_i hne
    have hloose := (h.alone r ref hr' hr heq).resolve_left hne
    exact hfit.putVal (ne_lambda_of_loose hloose) hd

theorem advance_setField
    (hfit : ∀ r, g.Own s r → (s.cell r).table = (s.cell ref).table →
      Fit g s (s.kind r) (Assoc.put name d (s.fields r)))
    (htyped : g.closures = true → s.OwnTables →
      Suits (s.kind ref) (Assoc.put name d (s.fields ref))) :
    Advance g s (s.setField ref name d) := by
  have hput : Advance g s ((s.setKind ref (s.kind ref)).setField ref name d) := by
    refine advance_put h hr hvalue (.inl rfl) (fun r hr' heq _ => ?_) htyped
    split
    · rename_i hsame
      exact hsame ▸ hfit r hr' heq
    · exact hfit r hr' heq
  rwa [setKind_self] at hput

theorem advance_setVal (hlambda : s.kind ref ≠ "lambda") (hd : d.isAtom = true)
    (htyped : g.closures = true → s.OwnTables → Suits (s.kind ref) [("val", d)]) :
    Advance g s (s.setField ref "val" d) := by
  refine advance_setField h hr hvalue (fun r hr' heq => (h.fit r hr').putVal ?_ hd)
    fun hclosures htables => suits_put (htyped hclosures htables)
  rcases h.alone r ref hr' hr heq with rfl | hloose
  · exact hlambda
  · exact ne_lambda_of_loose hloose

theorem advance_setFree (hd : Known g s d) (hcaptured : AreCaptured g s d) :
    Advance g s (s.setField ref "free_vars" d) := by
  have hflat : ∀ r, d ≠ .node r := by
    obtain ⟨es, rfl, -⟩ := hcaptured
    exact fun _ => Datum.noConfusion
  refine advance_setField h hr hvalue (fun r hr' _ => (h.fit r hr').put (by decide) hd hflat ?_
    fun _ => hcaptured) fun hclosures htables => (h.typed hclosures htables ref hr).congr ?_
  · exact fun hval => absurd hval (by decide)
  · rw [Assoc.get?_put_of_ne (by decide)]

theorem advance_share (ho : g.Own s other)
    (hfunc : s.kind other = "func") (hg : g.closures = true) :
    Advance g s ((s.setKind ref "func").shareTable ref other) := by
  have hlt : ref < (s.setKind ref "func").size := by
    rw [size_setKind]
    exact hr.2
  have hsize : ((s.setKind ref "func").shareTable ref other).size = s.size := by
    rw [size_shareTable, size_setKind]
  have hown : ∀ {r}, g.Own ((s.setKind ref "func").shareTable ref other) r → g.Own s r := by
    intro r hr'
    exact ⟨hr'.1, hsize ▸ hr'.2⟩
  have hkind : ∀ r, ((s.setKind ref "func").shareTable ref other).kind r =
      if r = ref then "func" else s.kind r := by
    intro r
    rw [kind_shareTable]
    exact kind_setKind hr r
  have hfields : ∀ r, ((s.setKind ref "func").shareTable ref other).fields r =
      if r = ref then s.fields other else s.fields r := by
    intro r
    by_cases hne : r = ref
    · rw [hne, fields_shareTable_self hlt, fields_setKind, if_pos rfl]
    · rw [fields_shareTable_of_ne hne, fields_setKind, if_neg hne]
  have htable : ∀ r, (((s.setKind ref "func").shareTable ref other).cell r).table =
      if r = ref then (s.cell other).table else (s.cell r).table := by
    intro r
    by_cases hne : r = ref
    · rw [hne, cell_shareTable_self hlt, if_pos rfl]
      exact table_setKind
    · rw [cell_shareTable_of_ne hne, table_setKind, if_neg hne]
  have hfit := hfunc ▸ h.fit other ho
  have hlater : Later g s ((s.setKind ref "func").shareTable ref other) := by
    refine ⟨Nat.le_of_eq hsize.symm, fun r _ hk => ?_, fun r _ hk => ?_, fun r _ hk => ?_,
      fun r _ _ f hf hs => ?_, fun r _ hl hlambda => ?_⟩
    · rw [hkind]
      split
      · decide
      · exact hk
    · rw [hkind]
      split
      · exact mem_kinds_of_closures hg (by decide)
      · exact hk
    · have hne : r ≠ ref := by
        rintro rfl
        exact hk hvalue
      rw [Store.node, hkind, hfields, if_neg hne, if_neg hne]
      rfl
    · rw [Store.field?, hfields]
      split
      · exact hfit.required f hf
      · exact hs
    · have hne : r ≠ ref := by
        rintro rfl
        rw [hkind, if_pos rfl] at hlambda
        exact absurd hlambda (by decide)
      rw [hkind, if_neg hne] at hlambda
      rw [Store.field?, hfields, if_neg hne]
      exact hl hlambda
  have hformed : ((s.setKind ref "func").shareTable ref other).Formed :=
    h.formed.setKind.shareTable (by rw [size_setKind]; exact ho.2)
  refine ⟨⟨hformed, ?_, h.tables, ?_, ?_, ?_, ?_⟩, hlater, ⟨hformed, ?_, Nat.le_refl _, ?_,
    fun _ _ => rfl⟩⟩
  · rw [hsize]
    exact h.cells
  · intro r hr'
    rw [htable]
    split
    · exact h.own other ho
    · exact h.own r (hown hr')
  · intro r hr'
    rw [hkind, hfields]
    split
    · exact hfit.later hlater
    · exact (h.fit r (hown hr')).later hlater
  · intro r r' hr1 hr2 heq
    rw [htable, htable] at heq
    rw [hkind]
    by_cases hne : r = ref
    · right
      rw [if_pos hne]
      decide
    · rw [if_neg hne] at heq ⊢
      by_cases hne' : r' = ref
      · rw [if_pos hne'] at heq
        -- What has shared the function's table before now shares it with the value too.
        right
        rcases h.alone r other (hown hr1) ho heq with rfl | hloose
        · rw [hfunc]
          decide
        · exact hloose
      · rw [if_neg hne'] at heq
        exact h.alone r r' (hown hr1) (hown hr2) heq
  · intro _ htables r hr'
    rw [hkind, hfields]
    by_cases hne : r = ref
    · rw [if_pos hne]
      exact Closures.suits_of_notMem (by decide)
    · -- Two nodes have one table now, unless a function is assigned to itself.
      have hsame : ref = other := Decidable.byContradiction fun hdiff =>
        not_ownTables_shareTable hlt (by rw [size_setKind]; exact ho.2) hdiff htables
      subst hsame
      rw [shareTable_self hlt] at htables
      rw [if_neg hne, if_neg hne]
      exact h.typed hg (ownTables_setKind.1 htables) r (hown hr')
  · exact Nat.le_of_eq hsize.symm
  · intro r hlow
    have hne : ref ≠ r := by
      have := hr.1
      omega
    simp only [Store.shareTable, Store.setKind, Array.getElem?_modify, if_neg hne]

end

end LangKit.Script.Parallel
