import LangKit.Proofs.Execution.Growth
import LangKit.Proofs.Execution.Whole
import LangKit.Proofs.Store.Trees

/-!
# Runs keep the store in form

A statement changes nodes, and it can give a node the field table of another one. Still the table of
every node is there at all times: each step of a run leaves it so, and a run begins with nodes that
each have a table of their own (`Running.formed`).
-/

namespace LangKit.Script

open Run Store

variable {s : Store} {ref : Nat}

/-! ## Assignments -/

/-- What an assignment to a bound name can do to the store: it sets the kind of one node, and then
it gives the node the table of another one or sets its contents. -/
inductive Overwritten (s : Store) (ref : Nat) : Store → Prop
  | kind (kind : String) : Overwritten s ref (s.setKind ref kind)
  | table (kind : String) {other : Nat} (lt : other < s.size) :
      Overwritten s ref ((s.setKind ref kind).shareTable ref other)
  | contents (kind : String) (value : Datum) :
      Overwritten s ref ((s.setKind ref kind).setField ref "val" value)

theorem Overwritten.formed (h : Overwritten s ref s') (hs : s.Formed) : s'.Formed := by
  cases h with
  | kind => exact hs.setKind
  | table _ lt => exact hs.setKind.shareTable (by rwa [size_setKind])
  | contents => exact hs.setKind.setField

theorem lt_size_of_kind {kind : String} (h : s.kind ref = kind) (hk : kind ≠ "") :
    ref < s.size := by
  by_cases hlt : ref < s.size
  · exact hlt
  · rw [Store.kind, cell_of_le (Nat.le_of_not_lt hlt)] at h
    exact absurd h.symm hk

theorem lt_size_of_field? {name : String} (h : s.field? ref name = some d) : ref < s.size := by
  refine Nat.lt_of_not_le fun hle => ?_
  have hfields : s.fields ref = [] := congrArg Prod.snd (node_of_le hle)
  rw [Store.field?, hfields] at h
  cases h

theorem overwrite_cases (dialect : Dialect) (target : Run Datum) [ht : Finds target] (value : Datum)
    (m : Machine) :
    (overwrite dialect target value m).2 = m ∨
      ∃ ref s', (target m).1 = .ok (.node ref) ∧ Overwritten m.store ref s' ∧
        (overwrite dialect target value m).2 = { m with store := s' } := by
  cases value with
  | node v =>
    have hkind : kindOf (.node v) m = (.ok (m.store.kind v), m) := rfl
    rw [overwrite, bind_of_ok hkind]
    rcases hfirst : target m with ⟨e | d, m1⟩
    · left
      rw [bind_apply, hfirst]
      exact (ht.holds.eq hfirst).symm
    obtain rfl := ht.holds.eq hfirst
    rw [bind_of_ok hfirst]
    cases d with
    | node r =>
      right
      -- From here on the kind is set, and the target is found as before.
      generalize hk : m.store.kind v = kind
      have hset : setKind (.node r) kind m = (.ok (), { m with store := m.store.setKind r kind }) :=
        rfl
      have hagain : target { m with store := m.store.setKind r kind } =
          (.ok (.node r), { m with store := m.store.setKind r kind }) := by
        have hfst := ht.stable m r kind
        rw [hfirst] at hfst
        exact Prod.ext hfst (ht.holds _)
      rw [bind_of_ok hset, bind_of_ok hagain,
        bind_of_ok (show kindOf (.node r) _ = (.ok _, _) from rfl)]
      split
      · rename_i hfunc
        rw [Bool.and_eq_true, beq_iff_eq] at hfunc
        have hr : r < m.store.size := by
          have hlt := lt_size_of_kind hfunc.2 (by decide)
          rwa [size_setKind] at hlt
        have hv : m.store.kind v = "func" := by
          have hkind' := hfunc.2
          rw [Store.kind, cell_setKind hr, if_pos rfl] at hkind'
          exact hk.trans hkind'
        rw [bind_of_ok hagain]
        exact ⟨r, _, rfl, .table kind (lt_size_of_kind hv (by decide)), rfl⟩
      · rcases hnew : contents (.node v)
          { m with store := m.store.setKind r kind } with ⟨e | new, m2⟩
        · obtain rfl := Has.eq hnew
          refine ⟨r, _, rfl, .kind kind, ?_⟩
          rw [bind_apply, hnew]
        · obtain rfl := Has.eq hnew
          rw [bind_of_ok hnew, bind_of_ok hagain]
          exact ⟨r, _, rfl, .contents kind new, rfl⟩
    | _ => exact .inl rfl
  | _ => exact .inl rfl

/-- All steps leave the table of every node there. -/
instance : InheritsWhole (Preserves fun m => m.store.Formed) where
  report _ _ := ⟨fun _ hm => hm⟩
  make _ _ := ⟨fun _ hm => hm.alloc⟩
  copy _ := ⟨fun _ hm => hm.copy.1⟩
  amend _ _ _ := ⟨fun _ hm => (Has.growth hm).formed⟩
  lambdaValue _ _ _ := ⟨fun _ hm => (Has.growth hm).formed⟩
  print _ := ⟨fun _ hm => hm⟩
  input := ⟨fun m hm => by rwa [input_machine]⟩
  output d := ⟨fun m hm => by rwa [output_machine]⟩
  overwrite dialect target value := ⟨fun m hm => by
    rcases overwrite_cases dialect target value m with h | ⟨ref, s', -, hs', h⟩
    · rwa [h]
    · rw [h]
      exact hs'.formed hm⟩
  keep hx m hm := by simpa only [(hx m).1] using hm
  said _ := ⟨fun _ hm => hm⟩
  load tree := ⟨fun _ hm => load_keeps (fun _ _ _ hs => hs.alloc) tree hm⟩

/-- Whatever runs in the run of a program found the store in form when it began. -/
theorem Running.formed {text : String}
    (h : Running dialect limit text m activities) (hm : m.store.Separate) :
    ∀ a ∈ activities, a.machine.store.Formed :=
  h.preserved (I := fun m => m.store.Formed) hm.formed

theorem separate_start (echo trace : Bool) (inputs : List Tree) (typed : String) :
    (Machine.start echo trace inputs typed).store.Separate :=
  (holdsAll_load inputs separate_empty).1.separate

end LangKit.Script
