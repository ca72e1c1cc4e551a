import LangKit.Proofs.Execution.Activities

/-!
# Paths into a run

The activities under way are a proposition. Here they are computed for a given program: the run is
followed to a statement of the main function, and from there turn by turn (`Turn`) into what the
statement starts. What is found on the way is under way: `running_of_path?`.
-/

namespace LangKit.Script

open Run

/-- Ways from an activity to one that it starts: from a statement to the call that it is or to the
value that it assigns, and from a call to a statement of the body. -/
inductive Turn
  | call
  | value
  | body (k : Nat)

def nodeRef? : Datum → Option Nat
  | .node ref => some ref
  | _ => none

theorem eq_node_of_nodeRef? (h : nodeRef? d = some ref) : d = .node ref := by
  cases d with
  | node r => rw [Option.some.inj h]
  | _ => cases h

variable (dialect : Dialect)

def reachedIn? (row : Row) (fuel : Nat) (statements : List Datum)
    (scope : Scope) (m : Machine) (k : Nat) :
    Option Activity :=
  match (do
    let (scope', d) ← block (row.step dialect fuel) (statements.take k) scope
    row.announce dialect scope'
    return (scope', d, statements[k]?)) m with
  | (.ok (scope', .null, some s), m') => some ⟨fuel, .exec scope' s, m'⟩
  | _ => none

def statement? (m : Machine) (kind other : String) : Datum → Option (Datum × Datum)
  | .node ref =>
    if m.store.kind ref = kind then
      (m.store.field? ref "name").bind fun name => (m.store.field? ref other).map (name, ·)
    else none
  | _ => none

def Activity.turn? : Activity → Turn → Option Activity
  | ⟨fuel + 1, .exec scope node, m⟩, .call =>
    (statement? m "fcall" "args" node).map fun p => ⟨fuel, .call scope p.1 p.2, m⟩
  | ⟨fuel + 1, .exec scope node, m⟩, .value =>
    match statement? m "=" "expression" node with
    | some (.text x, e) =>
      if isBound dialect scope x || !(dialect.hasObjects && isDotted x) then
        some ⟨fuel, .eval false scope e, m⟩
      else none
    | _ => none
  | ⟨fuel + 1, .call scope name args, m⟩, .body k =>
    match Builtin.ofName? name, enterCall dialect fuel scope name args m with
    | none, (.ok (row, statements, inner), m') => reachedIn? dialect row fuel statements inner m' k
    | _, _ => none
  | _, _ => none

variable {row row' : Activity × List Activity} {m : Machine} {text : String} {turns : List Turn}

/-- The activity behind some turns, and those that are under way around it. -/
def follow? : Activity × List Activity → List Turn → Option (Activity × List Activity)
  | row, [] => some row
  | row, t :: turns => (row.1.turn? dialect t).bind fun b => follow? (b, row.1 :: row.2) turns

/-- The activity behind a statement of the main function and some turns, for a program that is
entered in some way. -/
def path? (limit : Nat) (enter : Run (List Datum)) (m : Machine) (k : Nat) (turns : List Turn) :
    Option (Activity × List Activity) :=
  match enter m with
  | (.ok statements, m') =>
    (reachedIn? dialect .main limit statements [] m' k).bind fun a => follow? dialect (a, []) turns
  | _ => none

variable {dialect : Dialect}

theorem reached_of_reachedIn? {row : Row} {scope : Scope}
    (h : reachedIn? dialect row fuel statements scope m k = some a) :
    ∃ s scope' m1 m2, Reached (row.step dialect fuel) statements scope m s scope' m1 ∧
      row.announce dialect scope' m1 = (.ok (), m2) ∧ a = ⟨fuel, .exec scope' s, m2⟩ := by
  unfold reachedIn? at h
  split at h
  · rename_i scope' s m' hrun
    obtain ⟨⟨scope1, d⟩, m1, before, hrun⟩ := bind_eq_ok.1 hrun
    obtain ⟨_, m2, announced, hrun⟩ := bind_eq_ok.1 hrun
    obtain ⟨hpair, rfl⟩ := pure_eq_ok.1 hrun
    simp only [Prod.mk.injEq] at hpair
    obtain ⟨rfl, rfl, hs⟩ := hpair
    obtain ⟨hk, rfl⟩ := List.getElem?_eq_some_iff.1 hs
    refine ⟨statements[k], scope1, m1, m2, ⟨statements.take k, statements.drop (k + 1), ?_, before⟩,
      announced, (Option.some.inj h).symm⟩
    rw [List.getElem_cons_drop, List.take_append_drop]
  · cases h

theorem fields_of_statement? {kind other : String} {node name d : Datum}
    (h : statement? m kind other node = some (name, d)) :
    kindOf node m = (.ok kind, m) ∧ field node "name" m = (.ok name, m) ∧
    field node other m = (.ok d, m) := by
  cases node with
  | node ref =>
    simp only [statement?] at h
    split at h
    · rename_i hkind
      obtain ⟨n, hname, h⟩ := Option.bind_eq_some_iff.1 h
      obtain ⟨e, hother, h⟩ := Option.map_eq_some_iff.1 h
      obtain ⟨rfl, rfl⟩ := Prod.mk.inj h
      exact ⟨by rw [← hkind]; rfl, field_apply hname, field_apply hother⟩
    · cases h
  | _ => cases h

theorem starts_of_turn? (h : a.turn? dialect t = some b) : Starts dialect a b := by
  unfold Activity.turn? at h
  split at h
  · obtain ⟨⟨name, args⟩, hs, rfl⟩ := Option.map_eq_some_iff.1 h
    obtain ⟨hkind, hname, hargs⟩ := fields_of_statement? hs
    exact .perform ⟨_, hkind, rfl⟩ hname hargs
  · split at h
    · rename_i hs
      obtain ⟨hkind, hname, hright⟩ := fields_of_statement? hs
      split at h
      · rename_i allowed
        cases h
        exact .assigned ⟨_, hkind, rfl⟩ hname rfl hright allowed
      · cases h
    · cases h
  · split at h
    · rename_i own entered
      obtain ⟨s, scope', m1, m2, reached, announced, rfl⟩ := reached_of_reachedIn? h
      exact .body own entered reached announced
    · cases h
  · cases h

theorem running_of_follow? (h : Running dialect limit text m (row.1 :: row.2))
    (hf : follow? dialect row turns = some row') :
    Running dialect limit text m (row'.1 :: row'.2) := by
  induction turns generalizing row with
  | nil =>
    cases hf
    exact h
  | cons t turns ih =>
    obtain ⟨b, hb, hf⟩ := Option.bind_eq_some_iff.1 hf
    exact ih (.inner h (starts_of_turn? hb)) hf

theorem running_of_path? (h : path? dialect limit (enterMain text) m k turns = some row) :
    Running dialect limit text m (row.1 :: row.2) := by
  unfold path? at h
  split at h
  · rename_i entered
    obtain ⟨a, ha, hf⟩ := Option.bind_eq_some_iff.1 h
    obtain ⟨s, scope', m1, m2, reached, announced, rfl⟩ := reached_of_reachedIn? ha
    exact running_of_follow? (.main (.statement entered reached announced)) hf
  · cases h

end LangKit.Script
