import LangKit.Proofs.Execution.Forms
import LangKit.Proofs.Scoping.Operators

/-!
# Variables and assignments

The steps that expressions and statements are made of, each with the step of the plain semantics
that it agrees with. The program is read from nodes that no run changes (`Setting.Code`). A variable
gives a copy of its node's value, so what an expression gives is never a node of the places; an
assignment sets the node of the innermost place, or takes the new node as a place of the top frame.
-/

namespace LangKit.Script.Stacked

open Ast Store

variable {x kind : String} {d z : Datum} {v old : Value} {scope : Scope} {s : Store} {r : Nat}

variable {c : Setting} {places : Places} {m : Machine} {w : World}

/-! ## Reading the program -/

section

variable {ts : List (String × Tree)} {t : Tree}

theorem Setting.Code.held (h : c.Code d t) (he : Extends c.base m.store) :
    Holds m.store m.store.size d t :=
  Holds.of_extends h he

theorem Setting.Code.eq_text (h : c.Code d (.text x)) : d = .text x := by
  cases h
  rfl

theorem Setting.Code.eq_list {ts : List Tree} (h : c.Code d (.list ts)) :
    ∃ ds, d = .list ds ∧ HoldsAll c.base c.base.size ds ts := by
  cases h with
  | list items => exact ⟨_, rfl, items⟩

section

variable (h : c.Code d (.node kind ts)) (he : Extends c.base m.store)
include h he

theorem Setting.Code.kindOf : Run.kindOf d m = (.ok kind, m) := by
  cases h.held he with
  | node _ named _ =>
    rw [← named]
    rfl

theorem Setting.Code.field? (name : String) (ht : Assoc.get? name ts = some t) :
    ∃ d', Run.field? d name m = (.ok (some d'), m) ∧ c.Code d' t := by
  cases h with
  | @node _ ref _ _ lt _ fields =>
    obtain ⟨d', hget, hd'⟩ := fields.get? name ht
    have hfields : m.store.fields ref = c.base.fields ref := congrArg Prod.snd (he.node ref lt)
    refine ⟨d', ?_, hd'.extend (Nat.le_of_lt lt) fun _ _ => rfl⟩
    rw [field?_apply, Store.field?, hfields, hget]

theorem Setting.Code.field (name : String) (ht : Assoc.get? name ts = some t) :
    ∃ d', Run.field d name m = (.ok d', m) ∧ c.Code d' t := by
  obtain ⟨d', hfield, hd'⟩ := h.field? he name ht
  exact ⟨d', by simp only [Run.field, bind_apply, hfield, pure_apply], hd'⟩

theorem Setting.Code.text_field? (name : String) (ht : Assoc.get? name ts = some (.text x)) :
    Run.field? d name m = (.ok (some (.text x)), m) := by
  obtain ⟨d', hfield, hd'⟩ := h.field? he name ht
  exact hd'.eq_text ▸ hfield

theorem Setting.Code.text_field (name : String) (ht : Assoc.get? name ts = some (.text x)) :
    Run.field d name m = (.ok (.text x), m) := by
  rw [Run.field, bind_of_ok (h.text_field? he name ht)]
  rfl

omit he in
/-- A list of the program is the same in all states. -/
theorem Setting.Code.list_field (name : String) {us : List Tree}
    (ht : Assoc.get? name ts = some (.list us)) :
    ∃ ds, HoldsAll c.base c.base.size ds us ∧
      ∀ {m : Machine}, Extends c.base m.store → Run.field d name m = (.ok (.list ds), m) := by
  cases h with
  | @node _ ref _ _ lt _ fields =>
    obtain ⟨d', hget, hd'⟩ := fields.get? name ht
    cases hd' with
    | @list _ ds _ items =>
      refine ⟨ds, items.extend (Nat.le_of_lt lt) fun _ _ => rfl, fun {m} he => field_apply ?_⟩
      have hfields : m.store.fields ref = c.base.fields ref := congrArg Prod.snd (he.node ref lt)
      rw [Store.field?, hfields, hget]

end

theorem Setting.Code.eq_node {e : Expr} (h : c.Code d e.tree) : ∃ ref, d = .node ref := by
  cases e <;> cases h <;> exact ⟨_, rfl⟩

theorem Setting.Code.textOf (h : c.Code d t) (he : Extends c.base m.store) :
    Run.textOf d m = Run.lift t.textOf m := by
  simp only [Run.textOf, (h.held he).textOf (Nat.le_refl _)]
  cases t.textOf <;> rfl

end

def Value.tree : Value → Tree
  | .int n => .node "int" [("val", .int n)]
  | .bool b => .node "bool" [("val", .bool b)]
  | .string s => .node "string" [("val", .text s)]
  | .nil => .node "nil" []

theorem Setting.Code.literal (h : c.Code d v.tree) (he : Extends c.base m.store) :
    Held m.store d v := by
  have hheld := h.held he
  cases v with
  | nil =>
    cases hheld with
    | node lt named fields =>
      generalize hfs : m.store.fields _ = fs at fields
      cases fields
      exact ⟨_, rfl, lt, congr (congrArg Prod.mk named) hfs⟩
  | int _ | bool _ | string _ =>
    cases hheld with
    | node lt named fields =>
      generalize hfs : m.store.fields _ = fs at fields
      cases fields with
      | cons first rest =>
        cases rest
        cases first
        exact ⟨_, rfl, lt, congr (congrArg Prod.mk named) hfs⟩

/-! ## Variables -/

theorem agree_variable (hl : Linked c places m w) (hflat : Flat places scope)
    (hd : c.Code d (.node "var" [("name", .text x)])) :
    Agree m w (Script.variableValue .scoped false scope d) (variableValue x)
      (Gives c places m.store) := by
  refine .step (hd.text_field? hl.base "name" rfl) ?_
  have hrel := hl.frames.lookup x
  have hvalue : Scope.value? scope (.text x) = (lookup x places).map .node := hflat x
  unfold variableValue
  refine .step_right (b := w) rfl ?_
  dsimp only [Option.getD_some]
  rw [hvalue]
  cases hplace : lookup x places with
  | none =>
    rw [hplace] at hrel
    generalize lookup x w.env = v at hrel
    cases hrel
    exact agree_report hl .name ("Variable " ++ x ++ " has not been defined")
  | some r =>
    rw [hplace] at hrel
    generalize lookup x w.env = v at hrel
    cases hrel with
    | some hnode =>
      have hheld : Held m.store (.node r) _ :=
        ⟨r, rfl, hl.lt_size r (mem_refs_of_lookup hplace), hnode⟩
      exact (makes_copy hl.base.separate hheld).agree hl

/-! ## Assignments -/

/-- What a step without a value leaves. -/
structure Continues (c : Setting) (places : Places) (s : Store) (m : Machine) (w : World) :
    Prop where
  linked : Linked c places m w
  grows : Grows places s m.store

theorem put_contents (h : s.node r = v.node) : Assoc.put "val" z (s.fields r) = [("val", z)] := by
  have hfields : s.fields r = v.node.2 := congrArg Prod.snd h
  rw [hfields]
  cases v <;> rfl

/-- A bound name's node takes over the kind and the contents of a value. -/
theorem overwrite_apply (dialect : Dialect) (hx : Assoc.get? x scope = some (.node r))
    (hr : r < m.store.size) (hd : m.store.node ref = v.node) (hz : v.contents? = some z) :
    overwrite dialect (bound scope x) (.node ref) m =
      (.ok (), { m with store := (m.store.setKind r v.kind).setField r "val" z }) := by
  have hkind : m.store.kind ref = v.kind := congrArg Prod.fst hd
  have hfields : m.store.fields ref = v.node.2 := congrArg Prod.snd hd
  have hplain : (dialect.hasClosures && m.store.kind ref == "func") = false := by
    rw [hkind]
    cases v <;> exact Bool.and_false _
  have hfield : m.store.field? ref "val" = some z := by
    rw [Store.field?, hfields]
    cases v <;> exact hz
  rw [bound_eq hx, overwrite_contents hr hplain hfield, hkind]

theorem node_overwrite (hsep : s.Separate) (hr : r < s.size) (hold : s.node r = old.node)
    (hz : v.contents? = some z) (r' : Nat) :
    ((s.setKind r v.kind).setField r "val" z).node r' = if r' = r then v.node else s.node r' := by
  have hr' : r < (s.setKind r v.kind).size := by simpa using hr
  rw [node_setField (hsep.setKind hr) hr']
  by_cases he : r' = r
  · subst he
    have hset : (s.setKind r' v.kind).node r' = (v.kind, s.fields r') := by
      rw [node_setKind hr, if_pos rfl]
    have hkind : (s.setKind r' v.kind).kind r' = v.kind := congrArg Prod.fst hset
    have hfields : (s.setKind r' v.kind).fields r' = s.fields r' := congrArg Prod.snd hset
    rw [if_pos rfl, if_pos rfl, hkind, hfields, put_contents hold, Value.node, hz]
    rfl
  · rw [if_neg he, if_neg he, node_setKind hr, if_neg he]

/-- The state after the node of a name's innermost place was set. -/
theorem Linked.overwrite (hl : Linked c places m w) (hx : lookup x places = some r)
    (hold : m.store.node r = old.node) (hz : v.contents? = some z) :
    Continues c places m.store { m with store := (m.store.setKind r v.kind).setField r "val" z }
      { w with env := update x v w.env, nilAssigned } := by
  have hmem := mem_refs_of_lookup hx
  obtain ⟨hbase, hr⟩ := hl.range r hmem
  have hsep := hl.base.separate
  have hnode := node_overwrite hsep hr hold hz
  have hother : ∀ r' ≠ r, ((m.store.setKind r v.kind).setField r "val" z).node r' =
      m.store.node r' :=
    fun r' hne => (hnode r').trans (if_neg hne)
  have hsize : ((m.store.setKind r v.kind).setField r "val" z).size = m.store.size := by simp
  refine ⟨⟨⟨(hsep.setKind hr).setField, ?_, ?_⟩, hl.functions, hl.console, hl.trace,
    hl.inputs, hl.nodup, ?_, ?_⟩, ?_, ?_⟩
  · rw [hsize]
    exact hl.base.size
  · intro r' hr'
    rw [hother r' (by omega)]
    exact hl.base.node r' hr'
  · rw [hsize]
    exact hl.range
  · exact hl.frames.update hl.nodup hx ((hnode r).trans (if_pos rfl)) fun r' _ hne => hother r' hne
  · exact Nat.le_of_eq hsize.symm
  · intro r' _ hr'
    exact hother r' fun he => hr' (he ▸ hmem)

theorem agree_overwrite (hl : Linked c places m w) (hflat : Flat places scope)
    (hx : lookup x places = some r) (hd : Fresh s m.store d v) :
    Agree m w (overwrite .scoped (bound scope x) d) (assign x v)
      fun _ _ m' w' => Continues c places m.store m' w' := by
  intro hnil
  have hmem := mem_refs_of_lookup hx
  have hrel := hl.frames.lookup x
  obtain ⟨old, hold, hnode⟩ : ∃ old, lookup x w.env = some old ∧ m.store.node r = old.node := by
    rw [hx] at hrel
    generalize lookup x w.env = v at hrel
    cases hrel with
    | some h => exact ⟨_, rfl, h⟩
  have hassign : assign x v w = (.ok (),
      { w with env := update x v w.env, nilAssigned := w.nilAssigned || v == .nil }) := by
    change (Except.ok (), w.assign x v) = _
    rw [World.assign, hold, Option.isSome_some, if_pos rfl]
  obtain ⟨ref, rfl, -, -, hvalue⟩ := hd
  cases hz : v.contents? with
  | none =>
    -- Nil has no contents to take over; this is the assignment that agreement leaves out.
    obtain rfl : v = .nil := by cases v <;> first | rfl | cases hz
    rw [hassign] at hnil
    simp at hnil
  | some z =>
    have hscope : Assoc.get? x scope = some (.node r) := by rw [hflat x, hx]; rfl
    rw [overwrite_apply .scoped hscope (hl.lt_size r hmem) hvalue hz, hassign]
    exact .ok (hl.overwrite hx hnode hz)

theorem Linked.define {frame : List (String × Nat)} {r : Nat} {v : Value}
    (hl : Linked c (frame :: places) m w) (hbase : c.base.size ≤ r) (hhigh : r < m.store.size)
    (hnode : m.store.node r = v.node) (hr : r ∉ refs (frame :: places)) (x : String) :
    Linked c (Assoc.put x r frame :: places) m { w with env := define x v w.env } :=
  { hl with
    nodup := nodup_refs_put hl.nodup hr
    range := by
      intro r' hr'
      rcases refs_put_subset hr' with rfl | hm
      · exact ⟨hbase, hhigh⟩
      · exact hl.range r' hm
    frames := by
      obtain ⟨frames, console, _⟩ := w
      cases hl.frames with
      | cons hframe hrest => exact .cons (frame_put hframe x hnode) hrest }

/-- What a statement leaves: the scope has the names of the frames, of which the top one may have
got new names. -/
def Leaves (c : Setting) (frame : List (String × Nat)) (places : Places) (s : Store) (scope : Scope)
    (m : Machine) (w : World) : Prop :=
  ∃ frame', Flat (frame' :: places) scope ∧ Linked c (frame' :: places) m w ∧
    Grows (frame :: places) s m.store ∧
    ∀ r ∈ refs (frame' :: places), r ∈ refs (frame :: places) ∨ s.size ≤ r

/-- An assignment changes the innermost binding of a name, or makes one in the top frame. -/
theorem agree_assign {frame : List (String × Nat)} {value : Run Datum}
    (hl : Linked c (frame :: places) m w) (hflat : Flat (frame :: places) scope)
    (hvalue : Agree m w value y (Gives c (frame :: places) m.store)) :
    Agree m w (Script.assign .scoped scope x value) (do assign x (← y))
      fun scope' _ m' w' => Leaves c frame places m.store scope' m' w' := by
  have hbound : isBound .scoped scope x = (lookup x (frame :: places)).isSome := by
    rw [isBound_eq_has rfl, Assoc.has, hflat x, Option.isSome_map]
  unfold Script.assign
  cases hx : lookup x (frame :: places) with
  | some r =>
    rw [hbound, hx]
    refine .bind hvalue (latches_assign x) ?_
    intro d v m' w' hgives
    refine (agree_overwrite hgives.linked hflat hx hgives.fresh).map_left ?_
    intro _ _ m'' w'' hcont
    exact ⟨frame, hflat, hcont.linked, hgives.grows.trans_same hcont.grows, fun r hr => .inl hr⟩
  | none =>
    rw [hbound, hx]
    refine .bind hvalue (latches_assign x) ?_
    intro d v m' w' hgives
    -- The name takes the node of the value, which no other name has, as a place.
    obtain ⟨r, rfl, hlow, hhigh, hnode⟩ := hgives.fresh
    have hunbound : lookup x w'.env = none := by
      have hrel := hgives.linked.frames.lookup x
      rw [hx] at hrel
      generalize lookup x w'.env = v at hrel
      cases hrel
      rfl
    have hact : assign x v w' = (.ok (), { w' with env := define x v w'.env }) := by
      change (Except.ok (), w'.assign x v) = _
      rw [World.assign, hunbound, Option.isSome_none, if_neg Bool.false_ne_true]
    intro _
    rw [hact]
    refine .ok ⟨Assoc.put x r frame, hflat.put x r, ?_, hgives.grows, ?_⟩
    · exact hgives.linked.define (Nat.le_trans hl.base.size hlow) hhigh hnode
        (fun hm => Nat.not_le_of_lt (hl.lt_size r hm) hlow) x
    · intro r' hr'
      rcases refs_put_subset hr' with rfl | hm
      · exact .inr hlow
      · exact .inl hm

end LangKit.Script.Stacked
