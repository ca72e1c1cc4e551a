import LangKit.Proofs.Objects.Pieces

/-!
# Looking up names

A name that is not bound is looked for in three places where there are objects: among the members of
the object that its first part stands for, along the prototypes of the object, and among the
functions. The prototypes of an object are a chain of nodes (`Chain`). A chain that ends has no node
twice, so it is no longer than there are nodes, and the search along it comes to its end:
`memberValue_eq`. What is found there is the member of the first object of the chain that has one.

If nothing is found the name may be that of a function (`functionNamed`), or it is undefined. The
search among the functions is only come to by names that have a second part:
`variableValue_unresolved`.
-/

namespace LangKit.Script.Objects

open Run Store Closures Parallel

variable {d : Datum} {rest : List String}

/-! ## Functions -/

def isNamed (s : Store) (x : String) : Datum → Bool
  | .node r => (s.field? r "name").any (·.same (.text x))
  | _ => false

/-- What a name gives that nothing is bound to: the only function of the name, or else a report. -/
def functionNamed (x : String) : Run Datum := fun m =>
  match m.functions.filter (isNamed m.store x) with
  | [] => report .name ("Variable " ++ x ++ " has not been defined") m
  | [f] => (.ok f, m)
  | _ => report .name ("Ambigous function " ++ x) m

def AllNamed (m : Machine) : Prop :=
  ∀ f ∈ m.functions, ∃ r name, f = .node r ∧ m.store.field? r "name" = some name

variable {m : Machine} {x o f : String} {byRef : Bool} {scope : Scope} {node : Datum} {r : Nat}
  {rs : List Nat}

theorem findFunction_eq {fs : List Datum}
    (hfs : ∀ f ∈ fs, ∃ r name, f = .node r ∧ m.store.field? r "name" = some name)
    (found : Option Datum) :
    findFunction (.text x) fs found m = match found.toList ++ fs.filter (isNamed m.store x) with
      | [] => (.ok none, m)
      | [f] => (.ok (some f), m)
      | _ => report .name ("Ambigous function " ++ x) m := by
  induction fs generalizing found with
  | nil => cases found <;> rfl
  | cons f fs ih =>
    obtain ⟨⟨r, name, rfl, hname⟩, hrest⟩ := List.forall_mem_cons.1 hfs
    have hnamed : isNamed m.store x (.node r) = name.same (.text x) := by
      rw [isNamed, hname]
      rfl
    refine (bind_of_ok (field_apply hname)).trans ?_
    rw [List.filter_cons, hnamed]
    cases hsame : name.same (.text x) with
    | false => exact ih hrest found
    | true =>
      cases found with
      | none => exact ih hrest (some (.node r))
      | some g => rfl

theorem unboundValue_eq {dialect : Dialect} (hclosures : dialect.hasClosures = true)
    (h : AllNamed m) :
    unboundValue dialect (.text x) none m = functionNamed x m := by
  have hfind := @findFunction_eq m x m.functions h none
  rw [unboundValue, hclosures, if_pos rfl, functionNamed]
  rw [Option.toList_none, List.nil_append] at hfind
  rcases hcase : m.functions.filter (isNamed m.store x) with _ | ⟨f, _ | ⟨g, rest⟩⟩ <;>
    rw [hcase] at hfind
  · exact bind_of_ok hfind
  · exact bind_of_ok hfind
  · exact bind_of_error (x := functions >>= fun fs => findFunction (.text x) fs none) hfind

/-! ## Chains of prototypes -/

/-- An object and its prototypes: each object of the chain has the next one for its prototype, and
the last one has none. -/
inductive Chain (s : Store) : Datum → List Nat → Prop
  | nil : Chain s .null []
  | cons {r : Nat} {proto : Datum} {rs : List Nat} (field : s.field? r "proto" = some proto)
      (later : Chain s proto rs) : Chain s (.node r) (r :: rs)

section

variable {s : Store} {rs' : List Nat}

theorem Chain.unique (h : Chain s d rs) (h' : Chain s d rs') : rs = rs' := by
  induction h generalizing rs' with
  | nil =>
    cases h'
    rfl
  | cons field _ ih =>
    cases h' with
    | cons field' later' =>
      rw [field] at field'
      obtain rfl := Option.some.inj field'
      rw [ih later']

theorem Chain.of_mem (h : Chain s d rs) (hq : q ∈ rs) :
    ∃ qs, Chain s (.node q) qs ∧ qs.length ≤ rs.length := by
  induction h with
  | nil => cases hq
  | cons field later ih =>
    rcases List.mem_cons.1 hq with rfl | hq
    · exact ⟨_, .cons field later, Nat.le_refl _⟩
    · obtain ⟨qs, hqs, hlength⟩ := ih hq
      exact ⟨qs, hqs, Nat.le_succ_of_le hlength⟩

theorem Chain.nodup (h : Chain s d rs) : rs.Nodup := by
  induction h with
  | nil => exact List.nodup_nil
  | cons field later ih =>
    refine List.nodup_cons.2 ⟨fun hr => ?_, ih⟩
    obtain ⟨qs, hqs, hlength⟩ := later.of_mem hr
    rw [hqs.unique (.cons field later), List.length_cons] at hlength
    exact Nat.not_succ_le_self _ hlength

theorem Chain.lt (h : Chain s d rs) : ∀ q ∈ rs, q < s.size := by
  induction h with
  | nil => exact List.forall_mem_nil _
  | cons field _ ih => exact List.forall_mem_cons.2 ⟨lt_size_of_field? field, ih⟩

theorem Chain.length_le {d : Datum} (h : Chain s d rs) : rs.length ≤ s.size := by
  have hsub : rs ⊆ List.range s.size := fun q hq => List.mem_range.2 (h.lt q hq)
  have hle := (List.subperm_of_subset h.nodup hsub).length_le
  rwa [List.length_range] at hle

end

/-! ## Members -/

/-- Gives a member that has been found. -/
def deliver? (byRef : Bool) : Option Datum → Run (Option Datum)
  | none => pure none
  | some v => do return some (← deliver .objects byRef v)

/-- The search along prototypes gives the member of the first object that has one. -/
theorem prototypeMember_eq (h : Chain m.store d rs) (hfuel : rs.length ≤ fuel) :
    prototypeMember byRef f fuel d m = deliver? byRef (rs.findSome? (m.store.field? · f)) m := by
  induction h generalizing fuel with
  | nil => cases fuel <;> rfl
  | @cons r _ _ field _ ih =>
    obtain ⟨fuel, rfl⟩ := Nat.exists_eq_succ_of_ne_zero (Nat.ne_of_gt (Nat.zero_lt_of_lt hfuel))
    refine (bind_of_ok (field?_apply r f m)).trans ?_
    rw [List.findSome?_cons]
    cases m.store.field? r f with
    | some v => rfl
    | none => exact (bind_of_ok (field_apply field)).trans (ih (Nat.le_of_succ_le_succ hfuel))

theorem memberValue_eq (hparts : nameParts x = o :: f :: rest)
    (hobject : Assoc.get? o scope = some (.node r)) (h : Chain m.store (.node r) rs) :
    memberValue byRef scope (.text x) m = deliver? byRef (rs.findSome? (m.store.field? · f)) m := by
  have hfuel : rs.length ≤ m.store.cells.size + 1 + 1 :=
    Nat.le_trans h.length_le (Nat.le_add_right _ 2)
  rw [← prototypeMember_eq h hfuel, memberValue, hparts]
  dsimp only
  rw [hobject]
  refine bind_congr_at rfl fun v m' hv => ?_
  obtain rfl := (observes_field? _ _).eq hv
  cases v with
  | some v => rfl
  | none =>
    refine bind_congr_at rfl fun proto m' hproto => ?_
    obtain rfl := (observes_field _ _).eq hproto
    rfl

/-! ## Names that are not bound -/

section

variable (hname : field node "name" m = (.ok (.text x), m)) (hnone : Assoc.get? x scope = none)

include hname hnone

theorem variableValue_objects :
    variableValue .objects byRef scope node m = (memberValue byRef scope (.text x) >>= unboundValue
      .objects (.text x)) m := by
  rw [variableValue_eq, bind_of_ok (field?_of_field hname), Option.getD_some, namedValue,
    Scope.value?, hnone]
  rfl

theorem variableValue_closures (h : AllNamed m) :
    variableValue .closures byRef scope node m = functionNamed x m := by
  rw [variableValue_eq, bind_of_ok (field?_of_field hname), Option.getD_some, namedValue,
    Scope.value?, hnone]
  exact @unboundValue_eq m x .closures rfl h

theorem variableValue_of_missing (hparts : nameParts x = o :: f :: rest)
    (hobject : ∀ d, Assoc.get? o scope = some d → ∃ r rs, d = .node r ∧ Chain m.store d rs ∧
      rs.findSome? (m.store.field? · f) = none) (h : AllNamed m) :
    variableValue .objects byRef scope node m = functionNamed x m := by
  have hmember : memberValue byRef scope (.text x) m = (.ok none, m) := by
    cases ho : Assoc.get? o scope with
    | none =>
      rw [memberValue, hparts]
      dsimp only
      rw [ho]
      rfl
    | some d =>
      obtain ⟨r, rs, rfl, hchain, hmissing⟩ := hobject d ho
      rw [memberValue_eq hparts ho hchain, hmissing]
      rfl
  rw [variableValue_objects hname hnone, bind_of_ok hmember]
  exact unboundValue_eq rfl h

end

/-- A name is not to be found through an object: nothing is bound to its first part, or else an
object with a chain of prototypes that ends, none of which has the member that the second part
names. -/
def Unresolved (s : Store) (scope : Scope) (x : String) : Prop :=
  ∀ o f rest, nameParts x = o :: f :: rest → ∀ d, Assoc.get? o scope = some d →
    ∃ r rs, d = .node r ∧ Chain s d rs ∧ ∀ q ∈ rs, s.field? q f = none

/-- A name that is neither bound nor found through an object. With closures alone it stands for the
only function of the name, and a name error is reported if there are none or several. With objects
this is so for names with a dot. For a name without dots the search for a member fails before the
functions are looked at. -/
theorem variableValue_unresolved (byRef : Bool) (hnamed : AllNamed m)
    (hname : field node "name" m = (.ok (.text x), m)) (hnone : Assoc.get? x scope = none)
    (hunresolved : Unresolved m.store scope x) :
    variableValue .closures byRef scope node m = functionNamed x m ∧
    variableValue .objects byRef scope node m =
      if isDotted x then functionNamed x m else (.error (.fault Fault.listIndex), m) := by
  refine ⟨variableValue_closures hname hnone hnamed, ?_⟩
  cases hdotted : isDotted x with
  | false => exact variableValue_unbound hdotted hname hnone byRef
  | true =>
    obtain ⟨o, f, rest, hparts⟩ := nameParts_of_dotted hdotted
    refine variableValue_of_missing hname hnone hparts (fun d hd => ?_) hnamed
    obtain ⟨r, rs, rfl, hchain, hmissing⟩ := hunresolved o f rest hparts d hd
    exact ⟨r, rs, rfl, hchain, List.findSome?_eq_none_iff.2 hmissing⟩

/-- An object whose prototype has a prototype of its own, two numbers, a function, a variable for a
member of the object, and a variable without a dot. Both prototypes have a member `size`. -/
def family (member : String) : Machine where
  store := ⟨#[⟨"obj", 0⟩, ⟨"obj", 1⟩, ⟨"obj", 2⟩, ⟨"int", 3⟩, ⟨"int", 4⟩, ⟨"func", 5⟩, ⟨"var", 6⟩,
      ⟨"var", 7⟩],
    #[[("proto", .node 1)], [("proto", .node 2), ("size", .node 3)],
      [("proto", .null), ("size", .node 4)], [("val", .int 1)], [("val", .int 2)],
      [("name", .text "main")], [("name", .text ("o" ++ "." ++ member))], [("name", .text "x")]]⟩
  console := Console.start false false [] ""
  functions := [.node 5]
  globals := []
  contexts := #[]
  reader := .new

theorem family_chain (member : String) : Chain (family member).store (.node 0) [0, 1, 2] :=
  .cons rfl (.cons rfl (.cons rfl .nil))

theorem family_named (member : String) : AllNamed (family member) :=
  List.forall_mem_singleton.2 ⟨5, .text "main", rfl, rfl⟩

/-- No object of the family has a member `age`, and no function has the name. -/
theorem variableValue_unresolved_age :
    Unresolved (family "age").store [("o", .node 0)] ("o" ++ "." ++ "age") ∧
    variableValue .objects false [("o", .node 0)] (.node 6) (family "age") =
      report .name "Variable o.age has not been defined" (family "age") := by
  have hunresolved : Unresolved (family "age").store [("o", .node 0)] ("o" ++ "." ++ "age") := by
    intro o f rest hparts d hd
    rw [nameParts_append (by decide) (by decide)] at hparts
    obtain ⟨rfl, rfl, -⟩ : "o" = o ∧ "age" = f ∧ [] = rest := by simpa using hparts
    obtain rfl : Datum.node 0 = d := Option.some.inj hd
    exact ⟨0, [0, 1, 2], rfl, family_chain _,
      by simp [family, Store.field?, Store.fields, Store.cell, Assoc.get?]⟩
  exact ⟨hunresolved, (variableValue_unresolved false (family_named _) rfl rfl hunresolved).2⟩

/-- A variable without a dot that is not bound is reported with closures. With objects it is not,
although there is nothing that its name could be taken for. -/
theorem plain_name_not_reported :
    Unresolved (family "age").store [] "x" ∧
    variableValue .closures false [] (.node 7) (family "age") =
      report .name "Variable x has not been defined" (family "age") ∧
    variableValue .objects false [] (.node 7) (family "age") = (.error (.fault Fault.listIndex),
      family "age") := by
  refine ⟨?_, ?_, ?_⟩
  · intro o f rest hparts d hd
    cases hd
  · exact @variableValue_closures (family "age") "x" false [] (.node 7) rfl rfl (family_named _)
  · exact variableValue_unbound (by decide) rfl rfl false

def Closed (s : Store) : Prop :=
  ∀ ref < s.size, ∀ e ∈ s.fields ref, ∀ r ∈ e.2.refs, r < s.size

/-- A value is given itself if it is asked for by reference or is of a shared kind, and else a new
copy of it: all nodes stay as they are, and the new ones are copies of nodes, as told by a
relation. -/
theorem deliver_cases {v : Nat} (hformed : m.store.Formed) (hclosed : Closed m.store)
    (hv : v < m.store.size) :
    (byRef = true ∨ m.store.kind v ∈ Dialect.objects.sharedKinds →
      deliver .objects byRef (.node v) m = (.ok (.node v), m)) ∧
    (byRef = false → m.store.kind v ∉ Dialect.objects.sharedKinds → ∃ s R,
      deliver .objects byRef (.node v) m = (.ok (.node m.store.size), { m with store := s }) ∧
      Copied m.store s (· < m.store.size) R ∧ R v m.store.size) := by
  have hkind : kindOf (.node v) m = (.ok (m.store.kind v), m) := rfl
  constructor
  · rintro (rfl | hshared)
    · rfl
    · cases byRef with
      | true => rfl
      | false =>
        refine (bind_of_ok hkind).trans ?_
        rw [if_pos (List.contains_iff_mem.2 hshared)]
        rfl
  · rintro rfl hshared
    obtain ⟨R, hcopied, hlike⟩ := copied_copy hformed (fun ref href => ⟨href, hclosed ref href⟩)
      (d := .node v) (List.forall_mem_singleton.2 hv)
    have hnew : (m.store.copy (.node v)).1 = .node m.store.size := fst_copy_node
    rw [hnew] at hlike
    cases hlike with
    | node hR =>
      refine ⟨_, R, (bind_of_ok hkind).trans ?_, hcopied, hR⟩
      rw [if_neg (mt List.contains_iff_mem.1 hshared)]
      exact congrArg (fun d => (Except.ok d, _)) hnew

/-- The member of an object that is bound, for an object with a chain of prototypes that ends. -/
theorem variableValue_member (byRef : Bool) (hformed : m.store.Formed) (hclosed : Closed m.store)
    (hnamed : AllNamed m) (ho : isDotted o = false) (hf : isDotted f = false)
    (hname : field node "name" m = (.ok (.text (o ++ "." ++ f)), m))
    (hnone : Assoc.get? (o ++ "." ++ f) scope = none)
    (hobject : Assoc.get? o scope = some (.node r)) (hchain : Chain m.store (.node r) rs) :
    (rs.findSome? (m.store.field? · f) = none →
      variableValue .objects byRef scope node m = functionNamed (o ++ "." ++ f) m) ∧
    ∀ v, rs.findSome? (m.store.field? · f) = some (.node v) →
      (byRef = true ∨ m.store.kind v ∈ ["func", "lambda", "obj"] →
        variableValue .objects byRef scope node m = (.ok (.node v), m)) ∧
      (byRef = false → m.store.kind v ∉ ["func", "lambda", "obj"] → ∃ s R,
        variableValue .objects byRef scope node m =
          (.ok (.node m.store.size), { m with store := s }) ∧
        Copied m.store s (· < m.store.size) R ∧ R v m.store.size) := by
  have hparts := nameParts_append ho hf
  constructor
  · intro hmissing
    refine variableValue_of_missing hname hnone hparts (fun d hd => ?_) hnamed
    obtain rfl : Datum.node r = d := Option.some.inj (hobject.symm.trans hd)
    exact ⟨r, rs, rfl, hchain, hmissing⟩
  · intro v hv
    obtain ⟨q, hq, hfield⟩ := List.exists_of_findSome?_eq_some hv
    have hlt : v < m.store.size := by
      have hmem := Assoc.mem_of_get? hfield
      exact hclosed q (hchain.lt q hq) _ hmem v (List.mem_singleton_self v)
    have hvalue : ∀ {c : Datum} {m' : Machine}, deliver .objects byRef (.node v) m = (.ok c, m') →
        variableValue .objects byRef scope node m = (.ok c, m') := by
      intro c m' hc
      have hmember : memberValue byRef scope (.text (o ++ "." ++ f)) m = (.ok (some c), m') := by
        rw [memberValue_eq hparts hobject hchain, hv]
        exact bind_of_ok hc
      rw [variableValue_objects hname hnone, bind_of_ok hmember]
      rfl
    obtain ⟨hshares, hcopies⟩ := @deliver_cases m byRef v hformed hclosed hlt
    refine ⟨fun hshared => hvalue (hshares hshared), fun hbyRef hkind => ?_⟩
    obtain ⟨s, R, hc, hcopied⟩ := hcopies hbyRef hkind
    exact ⟨s, R, hvalue hc, hcopied⟩

/-- The object does not have the member `size`, and its prototype does. The size of the second
prototype is hidden. -/
theorem variableValue_member_size : ∃ s R,
    variableValue .objects false [("o", .node 0)] (.node 6) (family "size") =
      (.ok (.node 8), { family "size" with store := s }) ∧
    Copied (family "size").store s (· < 8) R ∧ R 3 8 := by
  have hformed : (family "size").store.Formed := by
    unfold Formed
    decide
  have hclosed : Closed (family "size").store := by
    unfold Closed
    decide
  exact ((variableValue_member false hformed hclosed (family_named "size") (by decide)
    (by decide) rfl rfl rfl (family_chain "size")).2 3 rfl).2 rfl (by decide)

end LangKit.Script.Objects
