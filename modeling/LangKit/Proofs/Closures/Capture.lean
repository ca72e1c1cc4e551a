import LangKit.Proofs.Execution.Formedness

/-!
# What a lambda takes along

The value of a lambda expression is a copy of its node that has taken values of the scope along,
name by name: nothing for a name that is one of its formals, the value itself if it is a function or
a lambda, and a copy of any other value.
-/

namespace LangKit.Script.Closures

open Run Store

variable {dialect : Dialect} {scope copies : Scope} {formals : List Datum}
  {free : List (Datum × Datum)} {m m' : Machine}

theorem captured_eq_ok (h : captured dialect formals scope copies m = (.ok free, m'))
    {name v : Datum} (hmem : (name, v) ∈ free) :
    ∃ x q, name = .text x ∧ (x, .node q) ∈ copies ∧
      v = if formals.any (·.same (.text x)) then .null
        else if dialect.sharedKinds.contains (m.store.kind q) then Assoc.getD x scope .null
            else .node q := by
  induction copies generalizing free m' with
  | nil =>
    obtain ⟨rfl, -⟩ := pure_eq_ok.1 h
    cases hmem
  | cons e rest ih =>
    obtain ⟨x, d⟩ := e
    obtain ⟨kind, hkind, h⟩ := look_eq_ok h
    obtain ⟨q, rfl, rfl⟩ := exists_node_of_kindOf hkind
    have hkept : (do return (Datum.text x,
          if formals.any (·.same (.text x)) then .null
          else if dialect.sharedKinds.contains (m.store.kind q) then Assoc.getD x scope .null
            else .node q) ::
        (← captured dialect formals scope rest) : Run _) m = (.ok free, m') := by
      rw [← h]
      dsimp only
      split
      · rfl
      · split <;> rfl
    obtain ⟨more, hmore, h⟩ := look_eq_ok hkept
    obtain ⟨rfl, -⟩ := pure_eq_ok.1 h
    rcases List.mem_cons.1 hmem with hfirst | hmem
    · obtain ⟨rfl, rfl⟩ := Prod.mk.inj hfirst
      exact ⟨x, q, rfl, List.mem_cons_self, rfl⟩
    · obtain ⟨y, p, hname, hp, hv⟩ := ih hmore hmem
      exact ⟨y, p, hname, List.mem_cons_of_mem _ hp, hv⟩

theorem lambdaValue_eq_ok (h : lambdaValue dialect scope (.node r) m = (.ok v, m')) :
    ∃ args ds formals copies s free, field (.node r) "args" m = (.ok args, m) ∧
      items args m = (.ok ds, m) ∧
      formalNames ds m = (.ok formals, m) ∧ m.store.copyFields scope = (copies, s) ∧
      captured dialect formals scope copies { m with store := s } =
        (.ok free, { m with store := s }) ∧
      v = .node s.size ∧
      m' = { m with store := (s.copy (.node r)).2.setField s.size "free_vars" (.mapping free) } :=
        by
  obtain ⟨args, hargs, h⟩ := look_eq_ok h
  obtain ⟨ds, hds, h⟩ := look_eq_ok h
  obtain ⟨formals, hformals, h⟩ := look_eq_ok h
  obtain ⟨copies, _, hcopies, h⟩ := bind_eq_ok.1 h
  obtain ⟨rfl, rfl⟩ := ok_inj hcopies
  obtain ⟨free, hfree, h⟩ := look_eq_ok h
  obtain ⟨l, m1, hl, h⟩ := bind_eq_ok.1 h
  obtain rfl := eq_of_copy hl
  obtain ⟨-, rfl⟩ := Prod.mk.inj hl
  obtain ⟨hv, rfl⟩ := Prod.mk.inj h
  exact ⟨args, ds, formals, _, _, free, hargs, hds, hformals, rfl, hfree, (Except.ok.inj hv).symm,
    rfl⟩

end LangKit.Script.Closures
