import LangKit.Proofs.Ast.FirstOrder
import LangKit.Proofs.Extension.Operators
import LangKit.Proofs.Safety.Calls
import Mathlib.Logic.Relation

/-!
# Rows, loops and built-in functions side by side

The dialect with closures prints the scope before every statement of a function, and the scoped
dialect prints it behind the statement if the run is traced. None of this is seen by the program. So
rows of statements, loops and built-in functions can be followed if their parts can, wherever the
scoped run comes to them.
-/

namespace LangKit.Script.Extension

open Run
open Store hiding node
open Stacked (Setting Value Held)

variable {P : Value → Prop} {s d : Datum} {statements ds : List Datum}
  {m1 m n : Machine} {printed line : String} {scope scope' : Scope} {c : Setting} {R : Pairs}

/-! ## What closures change -/

/-- An activity of a scoped run finds out whether a number equals a truth value. -/
inductive ComparesMixed : Activity → Prop
  | compares {scope : Scope} {m m1 : Machine} (form : IsExpression .scoped m node (.binary op))
      (equality : op = .equal ∨ op = .notEqual) (first : field node "op1" m = (.ok d1, m))
      (left : eval .scoped fuel false scope d1 m = (.ok a, m1))
      (second : field node "op2" m1 = (.ok d2, m1))
      (right : eval .scoped fuel false scope d2 m1 = (.ok b, m2)) (held : Held m2.store a va)
      (held' : Held m2.store b vb) (mixed : Mixed va vb) :
      ComparesMixed ⟨fuel + 1, .eval byRef scope node, m⟩

/-- An activity of a scoped run sets a bound name to a number that is too long to be written. -/
inductive AssignsLong : Activity → Prop
  | assigns {fuel : Nat} {scope : Scope} {node e d : Datum} {x : String} {k : Int} {m m1 : Machine}
      (assigns : Assigns m node x e) (bound : Assoc.has x scope = true)
      (value : eval .scoped fuel false scope e m = (.ok d, m1)) (held : Held m1.store d (.int k))
      (long : Text.Decimal.write? k = none) : AssignsLong ⟨fuel + 1, .exec scope node, m⟩

/-- Neither an activity nor anything that it starts does what closures change. -/
def Clean (a : Activity) : Prop :=
  ∀ b, Relation.ReflTransGen (Starts .scoped) a b → ¬ ComparesMixed b ∧ ¬ AssignsLong b

theorem Clean.started (h : Clean a) (hs : Starts .scoped a b) : Clean b :=
  fun _ hd => h _ (.head hs hd)

theorem Clean.here (h : Clean a) : ¬ ComparesMixed a ∧ ¬ AssignsLong a :=
  h a .refl

/-! ## Code -/

section

variable (c : Setting)

/-- A value is a first-order expression of the program. -/
def ExprCode (d : Datum) : Prop :=
  ∃ e : Ast.Expr, c.Code d e.tree ∧ e.isFirstOrder = true

/-- A value is an expression of the program without calls. -/
def CallFreeCode (d : Datum) : Prop :=
  ∃ e : Ast.Expr, c.Code d e.tree ∧ e.isCallFree = true

/-- A value is a first-order statement of the program. -/
def StmtCode (d : Datum) : Prop :=
  ∃ s : Ast.Stmt, c.Code d s.tree ∧ s.isFirstOrder = true

end

theorem Linked.field {kind : String} (hl : Linked P c R m n)
    (hd : c.Code d (.node kind ts)) (name : String) (ht : Assoc.get? name ts = some t) :
    ∃ d', field d name m = (.ok d', m) ∧ field d name n = (.ok d', n) ∧ c.Code d' t := by
  obtain ⟨d', hfield, hcode⟩ := hd.field hl.left.base name ht
  refine ⟨d', hfield, ?_, hcode⟩
  cases hd with
  | @node _ ref _ _ lt _ _ =>
    have hnode : n.store.node ref = m.store.node ref :=
      (hl.right.base.node ref lt).trans (hl.left.base.node ref lt).symm
    have hfields : n.store.fields ref = m.store.fields ref := congrArg Prod.snd hnode
    rw [field_node, Store.field?, hfields, ← Store.field?]
    rw [field_node] at hfield
    rw [(Prod.mk.inj hfield).1]

/-! ## Rows of statements -/

/-- What statements leave in two runs. -/
def SameEnd (start : Nat) (R : Pairs) (r r' : Scope × Datum) : Prop :=
  SameScope R r.1 r'.1 ∧ SameResult start R r.2 r'.2

/-- Two rows are of the same kind, and functions are called in scopes that go together. -/
inductive SameRow (R : Pairs) : Row → Row → Prop
  | block : SameRow R .block .block
  | body {outer outer' : Scope} (scopes : SameScope R outer outer') (title : String) :
      SameRow R (.body outer title) (.body outer' title)
  | main : SameRow R .main .main

section

variable {R1 : Pairs} {fuel : Nat}

theorem SameEnd.mono {start start' : Nat} (h : SameEnd start' R r r')
    (hstart : start ≤ start') : SameEnd start R r r' :=
  ⟨h.1, h.2.mono hstart⟩

theorem SameRow.mono {row row' : Row} (h : SameRow R row row') (hR : R ≤ R1) :
    SameRow R1 row row' := by
  cases h with
  | block => exact .block
  | body scopes title => exact .body (scopes.mono hR) title
  | main => exact .main

theorem Follows.prints_left {β δ : Type} {x : Run β} {y : Run δ} {t : Run Unit}
    {Q : Pairs → β → δ → Prop} [ht : Has OnlyPrints t]
    (h : ∀ printed, Follows P c R { m with console := { m.console with printed } } n x y Q) :
    Follows P c R m n (do t; x) y Q := by
  obtain ⟨printed, hprinted⟩ := ht.holds m
  rcases htm : t m with ⟨e | _, m1⟩
  · exact .of_error (bind_eq_error.2 (.inl htm))
  · rw [htm] at hprinted
    dsimp only at hprinted
    subst hprinted
    exact .step_left htm (Nat.le_refl _) (h printed)

theorem SameRow.announce {row row' : Row} (h : SameRow R row row') (hs : SameScope R scope scope')
    (n : Machine) : ∃ printed, row'.announce .closures scope' n =
      (.ok (), { n with console := { n.console with printed } }) := by
  cases h with
  | block => exact ⟨n.console.printed, rfl⟩
  | body scopes title =>
    obtain ⟨s, hshow⟩ := scopes.exists_show
    exact ⟨_, bind_of_ok (hshow n)⟩
  | main =>
    obtain ⟨s, hshow⟩ := hs.exists_show
    exact ⟨_, bind_of_ok (hshow n)⟩

theorem finish_closures (row : Row) (scope : Scope) (m : Machine) :
    row.finish .closures scope m = (.ok (), m) := by
  cases row <;> rfl

theorem forward_step {row row' : Row} (hl : Link c R m n) (hs : SameScope R scope scope')
    (hrow : SameRow R row row') (hexec : ∀ {n1}, Link c R m n1 →
      Forward c R m n1 (exec .scoped fuel s scope) (exec .closures fuel s scope')
        (SameEnd m.store.size)) :
    Forward c R m n (row.step .scoped fuel s scope) (row'.step .closures fuel s scope')
      (SameEnd m.store.size) := by
  obtain ⟨printed, hannounce⟩ := hrow.announce hs n
  refine .step_left (announce_scoped row scope m) (Nat.le_refl _) (.step_right hannounce ?_)
  refine (hexec (hl.printed printed)).bind ?_
  rintro ⟨scope1, d⟩ ⟨scope1', d'⟩ m1 n1 R1 - - ho hend
  refine .step_right (finish_closures row' scope1' n1) ?_
  exact .prints_left fun printed1 => .pure (ho.link.printed_left printed1) hend

theorem forward_block {step step' : Datum → Scope → Run (Scope × Datum)} (hl : Link c R m n)
    (hs : SameScope R scope scope')
    (hstep : ∀ s scope1 m1, Reached step statements scope m s scope1 m1 →
      ∀ {R1 n1 scope1'}, R ≤ R1 →
      Link c R1 m1 n1 → SameScope R1 scope1 scope1' →
      Forward c R1 m1 n1 (step s scope1) (step' s scope1') (SameEnd m1.store.size)) :
    Forward c R m n (block step statements scope) (block step' statements scope')
      (SameEnd m.store.size) := by
  induction statements generalizing scope scope' m n R with
  | nil => exact .pure hl ⟨hs, .none⟩
  | cons s rest ih =>
    refine (hstep s scope m ⟨[], rest, rfl, rfl⟩ (le_refl R) hl hs).bind ?_
    rintro ⟨scope1, d⟩ ⟨scope1', d'⟩ m1 n1 R1 hrun - ho ⟨hs1, hd⟩
    dsimp only at hs1 hd
    cases hd with
    | none =>
      refine (ih ho.link hs1 fun t scope2 m2 hreached R2 n2 scope2' hR => ?_).mono fun _ _ _ h =>
        h.mono ho.size
      exact hstep t scope2 m2 (hreached.cons hrun) (le_trans ho.pairs hR)
    | some pair =>
      cases pair with
      | node pair new => exact .pure ho.link ⟨hs1, .some (.node pair new)⟩

theorem forward_loop {body body' : Run Datum} (hl : Link c R m n)
    (htest : ∀ m1, Rounds test body fuel m m1 → ∀ {R1 n1}, R ≤ R1 → Link c R1 m1 n1 →
      Forward c R1 m1 n1 test test' fun _ go go' => go = go')
    (hbody : ∀ m1 m2, Rounds test body fuel m m1 → test m1 = (.ok true, m2) → ∀ {R2 n2}, R ≤ R2 →
      Link c R2 m2 n2 → Forward c R2 m2 n2 body body' (SameResult m2.store.size)) :
    Forward c R m n (repeatWhile test body fuel) (repeatWhile test' body' fuel)
      (SameResult m.store.size) := by
  induction fuel generalizing m n R with
  | zero => exact .of_error rfl
  | succ fuel ih =>
    refine (htest m .first (le_refl R) hl).bind ?_
    rintro go _ m1 n1 R1 hgo - ho rfl
    cases go with
    | false => exact .pure ho.link .none
    | true =>
      refine (hbody m m1 .first hgo ho.pairs ho.link).bind fun d d' m2 n2 R2 hd _ ho2 hsame => ?_
      have ho' := ho.trans ho2
      cases hsame with
      | none =>
        refine (ih ho'.link (fun m3 hr R3 n3 hR => ?_) fun m3 m4 hr hgo' R4 n4 hR => ?_).mono ?_
        · exact htest m3 (.next hgo hd hr) (le_trans ho'.pairs hR)
        · exact hbody m3 m4 (.next hgo hd hr) hgo' (le_trans ho'.pairs hR)
        · exact fun _ _ _ h => h.mono ho'.size
      | some pair =>
        cases pair with
        | node pair new => exact .pure ho2.link (.some (.node pair (Nat.le_trans ho.size new)))

end

/-! ## The console -/

section

variable {d' : Datum}

theorem input_printed (console : Console) (printed : String) :
    Console.input { console with printed } =
      (console.input.1, { console.input.2 with printed }) := by
  unfold Console.input
  dsimp only
  cases console.inputs.isEmpty with
  | true => rcases Console.splitLine console.typed with _ | ⟨line, rest⟩ <;> rfl
  | false => cases console.inputs[console.cursor]? <;> rfl

theorem input_follows (hconsole : n.console = { m.console with printed })
    (h : input m = (.ok d, m1)) :
    m.console.input.1 = .ok d ∧ m1 = { m with console := m.console.input.2 } ∧
      input n = (.ok d, { n with console := { m.console.input.2 with printed } }) := by
  have hn := input_apply n
  rw [hconsole, input_printed] at hn
  rw [input_apply] at h
  obtain ⟨hd, rfl⟩ := Prod.mk.inj h
  cases hr : m.console.input.1 with
  | error f =>
    rw [hr] at hd
    cases hd
  | ok d' =>
    rw [hr] at hd hn
    obtain rfl := Except.ok.inj hd
    exact ⟨rfl, rfl, hn⟩

theorem forward_input (hl : Linked P c R m n) :
    Follows P c R m n input input fun _ d d' => d = d' ∧ c.Given d := by
  intro d m1 h
  obtain ⟨printed, hconsole⟩ := hl.console
  obtain ⟨hgiven, rfl, hn⟩ := input_follows hconsole h
  refine ⟨d, _, R, hn, ⟨?_, le_refl R, Nat.le_refl _⟩, rfl, Stacked.given_of_input hl.inputs hgiven⟩
  exact hl.extend (hl.left.setConsole _) (hl.right.setConsole _) (.refl hl.left.base.separate)
    (.refl hl.right.base.separate) (Stacked.input_keeps m.console).2.2 ⟨printed, rfl⟩

theorem output_follows (hconsole : n.console = { m.console with printed }) (hd : d.isAtom = true)
    (h : output d m = (.ok (), m1)) :
    m1 = { m with console := (m.console.output m.store d).2 } ∧ ∃ printed', output d n =
      (.ok (), { n with console := { (m.console.output m.store d).2 with printed := printed' } }) :=
        by
  have houtput : ∃ printed', n.console.output n.store d =
      ((m.console.output m.store d).1,
        { (m.console.output m.store d).2 with printed := printed' }) := by
    rw [hconsole]
    unfold Console.output
    rw [Stacked.textOf_atom n.store m.store hd]
    split
    · cases m.store.textOf d with
      | ok s => exact ⟨_, rfl⟩
      | error f => exact ⟨printed, rfl⟩
    · exact ⟨printed, rfl⟩
  obtain ⟨printed', houtput⟩ := houtput
  have hn := output_apply d n
  rw [output_apply] at h
  rw [houtput] at hn
  obtain ⟨hr, rfl⟩ := Prod.mk.inj h
  rw [hr] at hn
  exact ⟨rfl, printed', hn⟩

/-- Both runs put out the same contents. -/
theorem forward_output (hl : Linked P c R m n) (hd : d.isAtom = true) :
    Follows P c R m n (output d) (output d) fun _ _ _ => True := by
  obtain ⟨printed, hconsole⟩ := hl.console
  intro _ m1 h
  obtain ⟨rfl, printed', hn⟩ := output_follows hconsole hd h
  refine ⟨(), _, R, hn, ⟨?_, le_refl R, Nat.le_refl _⟩, trivial⟩
  exact hl.extend (hl.left.setConsole _) (hl.right.setConsole _) (.refl hl.left.base.separate)
    (.refl hl.right.base.separate) (Stacked.output_keeps m.console m.store d).2.2 ⟨printed', rfl⟩

/-- Both runs print the same text for the same value. -/
theorem forward_piece (hl : Linked P c R m n) (h : Paired R d d') :
    Follows P c R m n (outputPiece d) (outputPiece d') fun _ s s' => s = s' := by
  obtain ⟨v, -, hv, hv'⟩ := hl.held h
  have hpiece : ∀ {m : Machine} {r : Nat}, Held m.store (.node r) v → outputPiece (.node r) m = (do
      let s ← textOf (← contents (.node r))
      if (← kindOf (.node r)) == "bool" then return (Text.lower s) else return s : Run String) m :=
    fun _ => rfl
  cases h with
  | @node r r' pair =>
    cases hz : v.contents? with
    | none =>
      obtain rfl := eq_nil_of_contents hz
      exact .of_error ((hpiece hv).trans (bind_eq_error.2 (.inl hv.contents_nil)))
    | some z =>
      have htext : m.store.textOf z = n.store.textOf z :=
        Stacked.textOf_atom _ _ (Stacked.isAtom_of_contents hz)
      refine .congr ?_ (hpiece hv) (hpiece hv')
      refine .step (hv.contents hz) (hv'.contents hz) ?_
      cases hs : m.store.textOf z with
      | error f =>
        exact .of_error (bind_eq_error.2 (.inl (by rw [Run.textOf, hs])))
      | ok s =>
        refine .step (a := s) (b := s) (by rw [Run.textOf, hs]) (by rw [Run.textOf, ← htext, hs]) ?_
        refine .step hv.kindOf hv'.kindOf ?_
        split <;> exact .pure hl rfl

end

/-! ## Built-in functions -/

section

variable {ev ev' : Datum → Run Datum}

section

variable (hl : Linked P c R m n)
include hl

theorem forward_prompt (title : String)
    (hev : ∀ arg, ds = [arg] → Follows P c R m n (ev arg) (ev' arg) (NewPair m.store.size)) :
    Follows P c R m n (promptWith title ev (.list ds)) (promptWith title ev' (.list ds))
      fun _ _ _ => True := by
  match ds with
  | [] => exact .pure hl trivial
  | [arg] =>
    refine .step rfl rfl (.step rfl rfl ((hev arg rfl).bind fun a b m1 n1 R1 _ _ ho hab => ?_))
    obtain ⟨v, -, hv, hv'⟩ := ho.link.held hab.paired
    cases hz : v.contents? with
    | none =>
      obtain rfl := eq_nil_of_contents hz
      exact .of_error (bind_eq_error.2 (.inl hv.contents_nil))
    | some z =>
      exact .step (hv.contents hz) (hv'.contents hz)
        (forward_output ho.link (Stacked.isAtom_of_contents hz))
  | _ :: _ :: rest =>
    refine .step (a := rest.length + 2) (b := rest.length + 2) rfl rfl ?_
    rw [if_neg (by simp), if_pos (by simp)]
    exact forward_report rfl

theorem forward_line (hev : ∀ arg m1, Pieced ev ds line m arg m1 → ∀ {R1 n1}, R ≤ R1 →
    Linked P c R1 m1 n1 →
      Follows P c R1 m1 n1 (ev arg) (ev' arg) (NewPair m1.store.size)) :
    Follows P c R m n (outputLine ev ds line) (outputLine ev' ds line) fun _ s s' => s = s' := by
  induction ds generalizing m n R line with
  | nil => exact .pure hl rfl
  | cons arg rest ih =>
    refine (hev arg m ⟨[], rest, line, rfl, rfl⟩ (le_refl R) hl).bind
      fun a b m1 n1 R1 ha _ ho hab => ?_
    refine (forward_piece ho.link hab.paired).bind ?_
    rintro piece _ m2 n2 R2 hpiece - ho2 rfl
    exact ih ho2.link fun arg' m' h R' n' hR =>
      hev arg' m' (h.cons ha hpiece) (le_trans (le_trans ho.pairs ho2.pairs) hR)

theorem Linked.trace : n.console.trace = m.console.trace := by
  obtain ⟨printed, hconsole⟩ := hl.console
  rw [hconsole]

theorem forward_traced (h : Follows P c R m n x y fun _ _ _ => True) :
    Follows P c R m n (do if ← tracing then x : Run Unit) (do if ← tracing then y : Run Unit)
      fun _ _ _ => True := by
  have htracing : ∀ m : Machine, tracing m = (.ok m.console.trace, m) := fun _ => rfl
  refine .step (htracing m) (htracing n) ?_
  rw [hl.trace]
  cases m.console.trace with
  | false => exact .pure hl trivial
  | true => exact h

/-- The texts that two runs print may differ. -/
theorem forward_print (s t : String) : Follows P c R m n (print s) (print t) fun _ _ _ => True :=
  .of_ok rfl rfl ⟨(hl.printed_left _).printed _, le_refl R, Nat.le_refl _⟩ trivial

theorem forward_putLine (line : String) :
    Follows P c R m n (putLine line) (putLine line) fun _ d d' => d = .null ∧ d' = .null :=
  (forward_traced hl (forward_print hl line line)).bind fun _ _ _ _ _ _ _ ho _ =>
    (forward_output (d := .text line) ho.link rfl).map fun _ _ => ⟨rfl, rfl⟩

theorem forward_readInt (hP : ∀ k, P (.int k)) :
    Follows P c R m n (do makeInt (← lift (← input).toInteger))
      (do makeInt (← lift (← input).toInteger)) (NewPair m.store.size) := by
  refine (forward_input hl).bind ?_
  rintro d _ m1 n1 R1 - - ho ⟨rfl, -⟩
  cases hd : d.toInteger with
  | error f => exact .of_error rfl
  | ok k => exact .step rfl rfl ((forward_make ho.link (hP k)).mono fun _ _ _ h => h.mono ho.size)

end

theorem forward_readInput (hl : Link c R m n) (builtin : Builtin) :
    Forward c R m n (readInput builtin) (readInput builtin) (SameResult m.store.size) := by
  cases builtin with
  | readInt => exact (forward_readInt hl fun _ => trivial).mono fun _ _ _ h => .some h
  | readText =>
    refine (forward_input hl).bind ?_
    rintro d _ m1 n1 R1 - - ho ⟨rfl, hgiven⟩
    have htext := hgiven.textOf ho.link.left.base
    have htext' := hgiven.textOf ho.link.right.base
    cases hd : c.host.textOf d with
    | error f =>
      rw [hd] at htext
      exact .of_error (bind_eq_error.2 (.inl htext))
    | ok s =>
      rw [hd] at htext htext'
      refine .step htext htext' ((forward_make (v := .string s) ho.link trivial).mono
        fun _ _ _ h => ?_)
      exact .some (h.mono ho.size)
  | print => exact .pure hl .none

theorem forward_printHeader (hl : Linked P c R m n) (hs : SameScope R scope scope') (args : Datum) :
    Follows P c R m n (printHeader scope args) (printHeader scope' args) fun _ _ _ => True := by
  refine forward_traced hl ?_
  obtain ⟨s, hshow⟩ := hs.exists_show
  cases hargs : args.display with
  | error f => exact .of_error rfl
  | ok text =>
    refine .step (a := text) (b := text) rfl rfl (.step_right (hshow n) ?_)
    rcases hshown : showScope scope m with ⟨e | t, m1⟩
    · exact .of_error (bind_eq_error.2 (.inl hshown))
    · obtain rfl := Has.eq hshown
      exact .step_left hshown (Nat.le_refl _) (forward_print hl _ _)

end

end LangKit.Script.Extension
