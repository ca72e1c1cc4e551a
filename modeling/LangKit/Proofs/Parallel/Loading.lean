import LangKit.Proofs.Ast.Objects
import LangKit.Proofs.Execution.Steps
import LangKit.Proofs.Parallel.Ground

/-!
# Loaded programs are furnished

The trees that the parser builds have the fields that the evaluators read. So the nodes of a program
are furnished when it has been loaded, whatever was in the store before (`loads_program`).
-/

namespace LangKit.Script.Parallel

open Store Ast
open Closures (valueKinds madeKinds objectKinds Suits suits_of_notMem)

variable {x f kind : String} {tree : Tree} {s s' : Store} {d : Datum} {trees : List (String × Tree)}
  {fs : Fields}

/-- Loading a tree furnishes its nodes, and a condition holds of the value that stands for it. -/
def Loads (g : Region) (tree : Tree) (Q : Store → Datum → Prop) : Prop :=
  ∀ s : Store, Furnished g s → Advance g s (s.load tree).2 ∧ Q (s.load tree).2 (s.load tree).1

def LoadsAll (g : Region) (trees : List Tree) (Q : Store → List Datum → Prop) : Prop :=
  ∀ s : Store, Furnished g s → Advance g s (s.loadAll trees).2 ∧
    Q (s.loadAll trees).2 (s.loadAll trees).1

def LoadsFields (g : Region) (trees : List (String × Tree)) (Q : Store → Fields → Prop) : Prop :=
  ∀ s : Store, Furnished g s →
    Advance g s (s.loadFields trees).2 ∧ Q (s.loadFields trees).2 (s.loadFields trees).1

/-- What may stand in a field of some name: a name is a text, and arguments can be displayed. -/
structure Part (g : Region) (f : String) (s : Store) (d : Datum) : Prop where
  known : Known g s d
  name : f = "name" → ∃ x, d = .text x ∧ g.names x
  shown : f = "args" → Shown d

/-- What may stand in a field of a function: no node, and formals as arguments. -/
structure Held (g : Region) (f : String) (s : Store) (d : Datum) : Prop extends Part g f s d where
  flat : ∀ r, d ≠ .node r
  formals : f = "args" → AreFormals g s d

/-- The fields of a node are loaded one after the other, and a condition holds of each. -/
inductive LoadsParts (g : Region) (Q : String → Store → Datum → Prop) :
    List String → List (String × Tree) → Prop
  | nil : LoadsParts g Q [] []
  | cons {f : String} {tree : Tree} {names : List String} {trees : List (String × Tree)} :
      Loads g tree (Q f) → LoadsParts g Q names trees → LoadsParts g Q (f :: names)
        ((f, tree) :: trees)

/-- A part of a program speaks of objects only if this is allowed. -/
def Region.Allows (g : Region) (free : Bool) : Prop :=
  g.objects = false → free = true

def IsNode (g : Region) (kind : String) (s : Store) (d : Datum) : Prop :=
  ∃ r, d = .node r ∧ g.Own s r ∧ s.kind r = kind

variable {g : Region} {Q Q' : Store → Datum → Prop}

/-! ## Speaking of objects -/

theorem Region.Allows.left (h : g.Allows (a && b)) : g.Allows a :=
  fun hg => (Bool.and_eq_true_iff.1 (h hg)).1

theorem Region.Allows.right {a b : Bool} (h : g.Allows (a && b)) : g.Allows b :=
  fun hg => (Bool.and_eq_true_iff.1 (h hg)).2

theorem Region.Allows.objects (h : g.Allows false) : g.objects = true := by
  cases hg : g.objects with
  | true => rfl
  | false => cases h hg

theorem Region.Allows.names {x : Place} (h : g.Allows x.isPlain) : g.names x.text := by
  intro hdotted
  cases hg : g.objects with
  | true => rfl
  | false =>
    rw [Place.isDotted_text (h hg)] at hdotted
    cases hdotted

theorem names_of_plain (hx : isDotted x = false) : g.names x := by
  intro h
  rw [hx] at h
  cases h

/-! ## Trees -/

theorem Loads.mono (h : Loads g tree Q) (hQ : ∀ s d, Q s d → Q' s d) : Loads g tree Q' :=
  fun s hs => ⟨(h s hs).1, hQ _ _ (h s hs).2⟩

theorem IsNode.known (h : IsNode g kind s d) : Known g s d := by
  obtain ⟨r, rfl, hr, -⟩ := h
  exact known_node.2 hr

theorem Loads.known {tree : Tree} (h : Loads g tree (IsNode g kind)) : Loads g tree (Known g) :=
  h.mono fun _ _ => IsNode.known

theorem Loads.part (h : Loads g tree (Known g)) (hf : f ∉ ["name", "args"]) :
    Loads g tree (Part g f) := by
  refine h.mono fun _ _ hd => ⟨hd, ?_, ?_⟩
  · rintro rfl
    exact absurd hf (by decide)
  · rintro rfl
    exact absurd hf (by decide)

theorem loads_null : Loads g .null (Known g) :=
  fun _ hs => ⟨.refl hs, List.forall_mem_nil _⟩

theorem loads_name (hx : g.names x) (f : String) : Loads g (.text x) (Part g f) :=
  fun _ hs => ⟨.refl hs, List.forall_mem_nil _, fun _ => ⟨x, rfl, hx⟩, fun _ => ⟨_, rfl⟩⟩

theorem loadsAll_nil : LoadsAll g [] (fun s ds => Known g s (.list ds)) :=
  fun _ hs => ⟨.refl hs, List.forall_mem_nil _⟩

theorem LoadsAll.cons {trees : List Tree} (hfirst : Loads g tree (Known g))
    (hrest : LoadsAll g trees fun s ds => Known g s (.list ds)) :
    LoadsAll g (tree :: trees) fun s ds => Known g s (.list ds) := by
  intro s hs
  obtain ⟨hs1, hd⟩ := hfirst s hs
  obtain ⟨hs2, hds⟩ := hrest _ hs1.furnished
  exact ⟨hs1.trans hs2, List.forall_mem_append.2 ⟨hd.mono hs2.later.size, hds⟩⟩

theorem LoadsAll.list {trees : List Tree} (h : LoadsAll g trees fun s ds => Known g s (.list ds)) :
    Loads g (.list trees) (Known g) :=
  fun s hs => h s hs

theorem LoadsAll.held {trees : List Tree} (h : LoadsAll g trees fun s ds => Known g s (.list ds))
    (hf : f ∉ ["name", "args"]) : Loads g (.list trees) (Held g f) :=
  fun s hs => ⟨(h.list.part hf s hs).1, (h.list.part hf s hs).2, fun _ => Datum.noConfusion,
    fun heq => absurd (heq ▸ hf) (by decide)⟩

theorem LoadsParts.fields {P : String → Store → Datum → Prop} {names : List String}
    (h : LoadsParts g P names trees) (hmono : ∀ f s s' d, Later g s s' → P f s d → P f s' d) :
    LoadsFields g trees fun s fs => Assoc.keys fs = names ∧ ∀ e ∈ fs, P e.1 s e.2 := by
  induction h with
  | nil => exact fun _ hs => ⟨.refl hs, rfl, List.forall_mem_nil _⟩
  | cons hfirst _ ih =>
    intro s hs
    obtain ⟨hs1, hd⟩ := hfirst s hs
    obtain ⟨hs2, hnames, hfs⟩ := ih _ hs1.furnished
    exact ⟨hs1.trans hs2, congrArg _ hnames,
      List.forall_mem_cons.2 ⟨hmono _ _ _ _ hs2.later hd, hfs⟩⟩

theorem LoadsFields.node {trees : List (String × Tree)} {P : Store → Fields → Prop}
    (h : LoadsFields g trees P) (hsuits : ∀ s fs, P s fs → Suits kind fs)
    (hfit : ∀ s fs, P s fs → Fit g s kind fs) : Loads g (.node kind trees) (IsNode g kind) := by
  intro s hs
  obtain ⟨hs1, hP⟩ := h s hs
  have hs2 := advance_alloc hs1.furnished (hfit _ _ hP) fun _ => hsuits _ _ hP
  refine ⟨hs1.trans hs2, _, rfl, ⟨hs1.furnished.cells, ?_⟩, kind_alloc_self⟩
  change (s.loadFields trees).2.size < ((s.loadFields trees).2.alloc kind _).2.size
  rw [size_alloc]
  exact Nat.lt_succ_self _

theorem Part.later (h : Later g s s') (hd : Part g f s d) : Part g f s' d :=
  ⟨hd.known.mono h.size, hd.name, hd.shown⟩

/-! ## Nodes -/

theorem isSome_of_mem_keys (h : f ∈ Assoc.keys fs) : (Assoc.get? f fs).isSome := by
  induction fs with
  | nil => cases h
  | cons e rest ih =>
    obtain ⟨k, v⟩ := e
    simp only [Assoc.get?]
    split
    · rfl
    · rename_i hne
      rcases List.mem_cons.1 h with rfl | h
      · exact absurd (beq_self_eq_true f) hne
      · exact ih h

theorem get?_eq_none (h : f ∉ Assoc.keys fs) : Assoc.get? f fs = none := by
  cases hd : Assoc.get? f fs with
  | none => rfl
  | some d =>
    exact absurd (List.mem_map.2 ⟨_, Assoc.mem_of_get? hd, rfl⟩) h

theorem fit_code (names : List String) (hnames : Assoc.keys fs = names) (hk : kind ∉ valueKinds)
    (hrequired : ∀ f ∈ required kind, f ∈ names) (hno : "val" ∉ names ∧ "free_vars" ∉ names)
    (hallowed : kind ∈ objectKinds → g.objects = true) (hbare : kind = "@" → "name" ∉ names)
    (hparts : ∀ e ∈ fs, Part g e.1 s e.2) : Fit g s kind fs where
  required f hf := isSome_of_mem_keys (hnames ▸ hrequired f hf)
  known e he := (hparts e he).known
  allowed := hallowed
  named d hd := (hparts _ (Assoc.mem_of_get? hd)).name rfl
  shown d hd := (hparts _ (Assoc.mem_of_get? hd)).shown rfl
  contents d hd := by
    rw [get?_eq_none (hnames ▸ hno.1)] at hd
    cases hd
  empty _ := get?_eq_none (hnames ▸ hno.1)
  flat h := absurd h hk
  formals h := absurd h hk
  captured d hd := by
    rw [get?_eq_none (hnames ▸ hno.2)] at hd
    cases hd
  bare h := get?_eq_none (hnames ▸ hbare h)
  plain h := absurd h hk

theorem fit_function (names : List String)
    (hnames : Assoc.keys fs = names) (hk : kind ∉ objectKinds)
    (hrequired : ∀ f ∈ required kind, f ∈ names)
    (hno : ∀ f ∈ ["val", "free_vars", "proto"], f ∉ names) (hheld : ∀ e ∈ fs, Held g e.1 s e.2) :
    Fit g s kind fs where
  required f hf := isSome_of_mem_keys (hnames ▸ hrequired f hf)
  known e he := (hheld e he).known
  allowed h := absurd h hk
  named d hd := (hheld _ (Assoc.mem_of_get? hd)).name rfl
  shown d hd := (hheld _ (Assoc.mem_of_get? hd)).shown rfl
  contents d hd := by
    rw [get?_eq_none (hnames ▸ hno _ (by decide))] at hd
    cases hd
  empty _ := get?_eq_none (hnames ▸ hno _ (by decide))
  flat _ f d hd := (hheld _ (Assoc.mem_of_get? hd)).flat
  formals _ d hd := (hheld _ (Assoc.mem_of_get? hd)).formals rfl
  captured d hd := by
    rw [get?_eq_none (hnames ▸ hno _ (by decide))] at hd
    cases hd
  bare h := absurd (h ▸ List.mem_cons_self) hk
  plain _ := get?_eq_none (hnames ▸ hno _ (by decide))

theorem loads_literal (hk : kind ∈ madeKinds)
    (hd : d.isAtom = true) (hsuits : Suits kind [("val", d)])
    (hload : ∀ s : Store, s.load tree = (d, s)) :
    Loads g (.node kind [("val", tree)]) (Known g) := by
  have hfields : LoadsFields g [("val", tree)] (fun _ fs => fs = [("val", d)]) := by
    intro s hs
    have heq : s.loadFields [("val", tree)] = ([("val", d)], s) := by
      simp only [Store.loadFields, hload]
    rw [heq]
    exact ⟨.refl hs, rfl⟩
  refine (hfields.node (fun s fs hfs => ?_) fun s fs hfs => ?_).mono fun _ _ h => h.known
  · subst hfs
    exact hsuits
  · subst hfs
    exact fit_made hk hd

theorem suits_of_code (hk : kind ∉ valueKinds) : Suits kind fs :=
  suits_of_notMem fun h => hk (List.mem_append_left ["nil", "func", "lambda"] h)

theorem loads_code {names : List String} (h : LoadsParts g (Part g) names trees)
    (hk : (kind ∉ "@" :: valueKinds) ∧ (∀ f ∈ required kind, f ∈ names) ∧
      "val" ∉ names ∧ "free_vars" ∉ names) (hallowed : kind ∈ objectKinds → g.objects = true) :
    Loads g (.node kind trees) (IsNode g kind) := by
  obtain ⟨hkind, hrequired, hno⟩ := hk
  obtain ⟨hne, hcode⟩ := not_or.1 fun h => hkind (List.mem_cons.2 h)
  refine (h.fields fun _ _ _ _ => .later).node (fun _ _ _ => suits_of_code hcode) ?_
  rintro s fs ⟨hnames, hparts⟩
  exact fit_code names hnames hcode hrequired hno hallowed (fun h => absurd h hne) hparts

theorem loads_callable {names : List String} (h : LoadsParts g (Held g) names trees)
    (hk : kind = "func" ∨ kind = "lambda")
    (hnames : (∀ f ∈ required kind, f ∈ names) ∧ ∀ f ∈ ["val", "free_vars", "proto"], f ∉ names) :
    Loads g (.node kind trees) (IsNode g kind) := by
  have hother : kind ∉ objectKinds ∧ kind ∉ ["int", "bool", "string"] := by
    rcases hk with rfl | rfl <;> decide
  refine (h.fields fun f s s' d hl hd => ⟨hd.toPart.later hl, hd.flat,
    fun hf => (hd.formals hf).later hl⟩).node (fun _ _ _ => suits_of_notMem hother.2) ?_
  rintro s fs ⟨hkeys, hheld⟩
  exact fit_function names hkeys hother.1 hnames.1 hnames.2 hheld

/-! ## Programs -/

theorem loads_formal (f : Formal) :
    Loads g f.tree (fun s d => ∃ k ∈ formalKinds, IsNode g k s d) := by
  have hname := loads_name (names_of_plain (g := g) f.name.isDotted_text) "name"
  have hk : (if f.byRef then "refarg" else "arg") ∈ formalKinds := by
    split <;> decide
  refine (loads_code (.cons hname .nil) ?_ fun h => ?_).mono fun _ _ h => ⟨_, hk, h⟩
  · split <;> decide
  · split at h <;> exact absurd h (by decide)

theorem loadsAll_formals (formals : List Formal) :
    LoadsAll g (formals.map Formal.tree) (fun s ds => Known g s (.list ds) ∧
      AreFormals g s (.list ds)) := by
  induction formals with
  | nil => exact fun s hs => ⟨.refl hs, List.forall_mem_nil _, [], rfl, List.forall_mem_nil _⟩
  | cons f rest ih =>
    intro s hs
    obtain ⟨hs1, k, hk, hnode⟩ := loads_formal f s hs
    obtain ⟨hs2, hknown, hformals⟩ := ih _ hs1.furnished
    refine ⟨hs1.trans hs2, List.forall_mem_append.2 ⟨hnode.known.mono hs2.later.size, hknown⟩, _,
      rfl, ?_⟩
    obtain ⟨ds, hds, hall⟩ := hformals
    obtain rfl := Datum.list.inj hds
    refine List.forall_mem_cons.2 ⟨?_, hall⟩
    obtain ⟨r, hr, hown, hkind⟩ := hnode
    -- A formal is no value, so that it keeps its kind.
    have hcode := hs2.later.code r hown (by rw [hkind]; exact formal_notMem_valueKinds hk)
    have hkept : (s.loadAll ((f :: rest).map Formal.tree)).2.kind r = k :=
      (congrArg Prod.fst hcode).trans hkind
    exact ⟨r, hr, hown.mono hs2.later.size, hkept ▸ hk⟩

theorem loads_formals (formals : List Formal) :
    Loads g (.list (formals.map Formal.tree)) (Held g "args") := by
  intro s hs
  obtain ⟨hs1, hknown, hformals⟩ := loadsAll_formals formals s hs
  refine ⟨hs1, ⟨hknown, fun h => absurd h (by decide), fun _ => ?_⟩, fun _ => Datum.noConfusion,
    fun _ => hformals⟩
  obtain ⟨ds, hds, hall⟩ := hformals
  obtain rfl := Datum.list.inj hds
  exact exists_display_of_nodes fun d hd => (hall d hd).imp fun _ h => h.1

theorem loads_unary (op : UnaryOp) (h : Loads g tree (Known g)) :
    Loads g (.node op.nodeKind [("op1", tree)]) (Known g) := by
  have hother : op.nodeKind ∉ objectKinds := by cases op <;> decide
  refine (loads_code (.cons (h.part (by decide)) .nil) ?_ fun h => absurd h hother).known
  cases op <;> decide

theorem loads_binary (op : BinaryOp) {left right : Tree} (hl : Loads g left (Known g))
    (hr : Loads g right (Known g)) :
    Loads g (.node op.nodeKind [("op1", left), ("op2", right)]) (Known g) := by
  have hother : op.nodeKind ∉ objectKinds := by
    cases op with
    | order o => cases o <;> decide
    | _ => decide
  refine (loads_code (.cons (hl.part (by decide)) (.cons (hr.part (by decide)) .nil)) ?_
    fun h => absurd h hother).known
  cases op with
  | order o => cases o <;> decide
  | _ => decide

theorem exists_node_of_expr (e : Expr) (s : Store) : ∃ r, (s.load e.tree).1 = .node r := by
  cases e with
  | _ => exact ⟨_, rfl⟩

theorem exists_node_of_args (args : Args) (s : Store) :
    ∀ d ∈ (s.loadAll args.trees).1, ∃ r, d = .node r := by
  cases args with
  | nil => exact List.forall_mem_nil _
  | cons e rest =>
    exact List.forall_mem_cons.2 ⟨exists_node_of_expr e s, exists_node_of_args rest _⟩

theorem Loads.args {args : Args} (h : LoadsAll g args.trees fun s ds => Known g s (.list ds)) :
    Loads g (.list args.trees) (Part g "args") :=
  fun s hs => ⟨(h s hs).1, (h s hs).2, fun heq => absurd heq (by decide),
    fun _ => exists_display_of_nodes (exists_node_of_args args s)⟩

mutual

theorem loads_expr (e : Expr) (h : g.Allows e.isObjectFree) : Loads g e.tree (Known g) := by
  match e with
  | .int n =>
    exact loads_literal (d := .int n.value) (by decide) rfl (Closures.suits_int _) fun _ => rfl
  | .bool b =>
    exact loads_literal (d := .bool b) (by decide) rfl (Closures.suits_bool b) fun _ => rfl
  | .string x =>
    exact loads_literal (d := .text x.text) (by decide) rfl (Closures.suits_text _) fun _ => rfl
  | .nil =>
    have hfields : LoadsFields g [] fun _ fs => fs = [] := fun _ hs => ⟨.refl hs, rfl⟩
    exact (hfields.node (fun _ _ _ => suits_of_notMem (by decide)) fun s fs h => h ▸ fit_nil).known
  | .object =>
    have hfields := (LoadsParts.nil (g := g) (Q := Part g)).fields fun _ _ _ _ => .later
    exact (hfields.node (fun _ _ _ => suits_of_notMem (by decide))
      fun s fs hfs => fit_code [] hfs.1 (by decide) (by decide) (by decide)
        (fun _ => h.objects) (by decide) hfs.2).known
  | .var x =>
    have hname := loads_name h.names "name"
    exact (loads_code (.cons hname .nil) (by decide) fun h => absurd h (by decide)).known
  | .unary op e => exact loads_unary op (loads_expr e h)
  | .binary op left right =>
    exact loads_binary op (loads_expr left h.left) (loads_expr right h.right)
  | .call f args =>
    have hname := loads_name (names_of_plain (g := g) f.isDotted_text) "name"
    have hargs := Loads.args (loads_args args h)
    exact (loads_code (.cons hname (.cons hargs .nil)) (by decide)
      fun h => absurd h (by decide)).known
  | .method object method args =>
    have hobject := loads_name (x := object.text) (fun _ => h.objects) "objref"
    have hname := loads_name (names_of_plain (g := g) method.isDotted_text) "name"
    have hargs := Loads.args (loads_args args fun hg => absurd (h hg) Bool.false_ne_true)
    exact (loads_code (.cons hobject (.cons hname (.cons hargs .nil))) (by decide)
      fun _ => h.objects).known
  | .lambda formals body =>
    have hbody := (loads_block body h).held (f := "statements") (by decide)
    exact (loads_callable (.cons (loads_formals formals) (.cons hbody .nil)) (.inr rfl)
      (by decide)).known

theorem loads_args (args : Args) (h : g.Allows args.isObjectFree) :
    LoadsAll g args.trees (fun s ds => Known g s (.list ds)) := by
  match args with
  | .nil => exact loadsAll_nil
  | .cons e rest => exact .cons (loads_expr e h.left) (loads_args rest h.right)

theorem loads_stmt (s : Stmt) (h : g.Allows s.isObjectFree) : Loads g s.tree (Known g) := by
  match s with
  | .assign x e =>
    have hname := loads_name h.left.names "name"
    have he := (loads_expr e h.right).part (f := "expression") (by decide)
    exact (loads_code (.cons hname (.cons he .nil)) (by decide) fun h => absurd h (by decide)).known
  | .choice condition body =>
    have hcondition := (loads_expr condition h.left).part (f := "condition") (by decide)
    have hbody := (loads_block body h.right).list.part (f := "statements") (by decide)
    have hnone := (loads_null (g := g)).part (f := "else_statements") (by decide)
    exact (loads_code (.cons hcondition (.cons hbody (.cons hnone .nil))) (by decide)
      fun h => absurd h (by decide)).known
  | .choiceElse condition body other =>
    have hcondition := (loads_expr condition h.left.left).part (f := "condition") (by decide)
    have hbody := (loads_block body h.left.right).list.part (f := "statements") (by decide)
    have hother := (loads_block other h.right).list.part (f := "else_statements") (by decide)
    exact (loads_code (.cons hcondition (.cons hbody (.cons hother .nil))) (by decide)
      fun h => absurd h (by decide)).known
  | .loop condition body =>
    have hcondition := (loads_expr condition h.left).part (f := "condition") (by decide)
    have hbody := (loads_block body h.right).list.part (f := "statements") (by decide)
    exact (loads_code (.cons hcondition (.cons hbody .nil)) (by decide)
      fun h => absurd h (by decide)).known
  | .result e =>
    have he := (loads_expr e h).part (f := "expression") (by decide)
    exact (loads_code (.cons he .nil) (by decide) fun h => absurd h (by decide)).known
  | .noResult =>
    have hnone := (loads_null (g := g)).part (f := "expression") (by decide)
    exact (loads_code (.cons hnone .nil) (by decide) fun h => absurd h (by decide)).known
  | .expr e => exact loads_expr e h

theorem loads_block (b : Block) (h : g.Allows b.isObjectFree) :
    LoadsAll g b.trees (fun s ds => Known g s (.list ds)) := by
  match b with
  | .last s => exact .cons (loads_stmt s h) loadsAll_nil
  | .cons s rest => exact .cons (loads_stmt s h.left) (loads_block rest h.right)

end

def IsFunction (g : Region) (s : Store) (d : Datum) : Prop :=
  ∃ r, d = .node r ∧ g.Own s r ∧ s.kind r ∈ valueKinds ∧ Laden s r ∧
    ∀ f ∈ ["name", "args", "statements"], (s.field? r f).isSome

theorem IsFunction.later (h : IsFunction g s d) (hl : Later g s s') : IsFunction g s' d := by
  obtain ⟨r, rfl, hr, hk, hladen, hparts⟩ := h
  exact ⟨r, rfl, hr.mono hl.size, hl.value r hr hk, hl.laden r hr hladen,
    fun f hf => hl.parts r hr hk f hf (hparts f hf)⟩

theorem IsFunction.known (h : IsFunction g s d) : Known g s d := by
  obtain ⟨r, rfl, hr, -⟩ := h
  exact known_node.2 hr

theorem IsFunction.value (h : IsFunction g s d) (hg : g.closures = true) : IsValue g s d := by
  obtain ⟨r, rfl, hr, hk, hladen, -⟩ := h
  exact ⟨r, rfl, hr, mem_kinds_of_closures hg hk, hladen⟩

theorem loads_function (f : Function) (h : g.Allows f.body.isObjectFree) :
    Loads g f.tree (IsFunction g) := by
  have hbody := (loads_block f.body h).held (f := "statements") (by decide)
  have hname : Loads g (.text f.name.text) (Held g "name") :=
    (loads_name (names_of_plain f.name.isDotted_text) "name").mono fun _ _ h =>
      ⟨h, fun r => (h.name rfl).elim fun _ hx => hx.1 ▸ Datum.noConfusion,
        fun heq => absurd heq (by decide)⟩
  have hnode : Loads g f.tree (IsNode g "func") :=
    loads_callable (.cons hname (.cons (loads_formals f.formals) (.cons hbody .nil)))
      (.inl rfl) (by decide)
  intro s hs
  obtain ⟨hs1, r, hr, hown, hkind⟩ := hnode s hs
  have hfit := hs1.furnished.fit r hown
  rw [hkind] at hfit
  exact ⟨hs1, r, hr, hown, hkind ▸ by decide, laden_of_ne (hkind ▸ by decide), hfit.required⟩

theorem loadsAll_functions (fs : List Function) (h : ∀ f ∈ fs, g.Allows f.body.isObjectFree) :
    LoadsAll g (fs.map Function.tree)
      (fun s ds => Known g s (.list ds) ∧ ∀ d ∈ ds, IsFunction g s d) := by
  induction fs with
  | nil => exact fun s hs => ⟨.refl hs, List.forall_mem_nil _, List.forall_mem_nil _⟩
  | cons f rest ih =>
    intro s hs
    obtain ⟨hallowed, hrest⟩ := List.forall_mem_cons.1 h
    obtain ⟨hs1, hf⟩ := loads_function f hallowed s hs
    obtain ⟨hs2, hknown, hall⟩ := ih hrest _ hs1.furnished
    exact ⟨hs1.trans hs2, List.forall_mem_append.2 ⟨hf.known.mono hs2.later.size, hknown⟩,
      List.forall_mem_cons.2 ⟨hf.later hs2.later, hall⟩⟩

theorem loads_program (p : Program) (h : g.Allows p.isObjectFree) :
    Loads g p.tree (fun s d => ∃ r fs, d = .node r ∧ g.Own s r ∧
      s.field? r "functions" = some (.list fs) ∧ ∀ f ∈ fs, IsFunction g s f) := by
  intro s hs
  have hallowed : ∀ f ∈ p.functions, g.Allows f.body.isObjectFree := fun f hf hg =>
    List.all_eq_true.1 (h hg) f hf
  obtain ⟨hs1, hknown, hall⟩ := loadsAll_functions p.functions hallowed s hs
  have hload : s.load p.tree = (.node (s.loadAll (p.functions.map Function.tree)).2.size,
      ((s.loadAll (p.functions.map Function.tree)).2.alloc "program"
        [("functions", .list (s.loadAll (p.functions.map Function.tree)).1)]).2) := rfl
  rw [hload]
  generalize s.loadAll (p.functions.map Function.tree) = loaded at hs1 hknown hall ⊢
  obtain ⟨fs, s1⟩ := loaded
  dsimp only at hs1 hknown hall ⊢
  have hfit : Fit g s1 "program" [("functions", .list fs)] :=
    fit_code ["functions"] rfl (by decide) (by decide) (by decide) (fun h => absurd h (by decide))
      (by decide) (List.forall_mem_cons.2 ⟨⟨hknown,
        fun (h : "functions" = "name") => absurd h (by decide),
          fun (h : "functions" = "args") => absurd h (by decide)⟩, List.forall_mem_nil _⟩)
  have hs2 := advance_alloc hs1.furnished hfit fun _ => suits_of_notMem (by decide)
  refine ⟨hs1.trans hs2, s1.size, fs, rfl, ⟨hs1.furnished.cells, ?_⟩, ?_,
    fun f hf => (hall f hf).later hs2.later⟩
  · rw [size_alloc]
    exact Nat.lt_succ_self _
  · rw [Store.field?, fields_alloc_self]
    rfl

end LangKit.Script.Parallel
