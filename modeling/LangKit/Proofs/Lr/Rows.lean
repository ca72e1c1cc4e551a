import LangKit.Proofs.Lr.Tables

/-!
# How a row is made

The items of a state are gone through one by one. An item adds a shift on the symbol after its dot,
or, if it is completed, a reduction on each of its lookaheads (`addItem_eq_ok`). The entries of
other terminals stay as they are.
-/

namespace LangKit.Lr

variable {g : Grammar} {method : Method} {l : Lookaheads} {states : Array ItemSet}
  {s : ItemSet} {state target : Nat} {item : Item} {row row' : Row} {token x text : String}
  {notes notes' : Notes}

theorem addShift_eq_ok (h : addShift g state target item row token notes = (.ok row', notes')) :
    ∃ text, row' = (row.consider token item text).shift g target item token := by
  obtain ⟨_, _, -, h⟩ := bind_eq_ok.1 h
  exact ⟨_, (pure_eq_ok.1 h).1.symm⟩

theorem addReduce_eq_ok (h : addReduce g state item row token notes = (.ok row', notes')) :
    ∃ text, row' = (row.consider token item text).reduce g item token := by
  obtain ⟨_, _, -, h⟩ := bind_eq_ok.1 h
  exact ⟨_, (pure_eq_ok.1 h).1.symm⟩

theorem addItem_eq_ok (h : addItem g state method l states s item row notes = (.ok row', notes')) :
    (∃ token, item.next? g = some token ∧
      ((∃ target, g.isTerminal token ∧ goto? g states s token = some target ∧
          addShift g state target item row token notes = (.ok row', notes')) ∨
        (g.isTerminal token → goto? g states s token = none) ∧ row' = row)) ∨
    (item.next? g = none ∧
      ((item.head g = startHead ∧ row' = row.set endMark .accept item) ∨
        (item.head g ≠ startHead ∧ ∃ tokens, reduceOn g state method l item = .ok tokens ∧
          addReduces g state item tokens row notes = (.ok row', notes')))) := by
  cases hnext : item.next? g with
  | some token =>
    refine .inl ⟨token, rfl, ?_⟩
    cases ht : g.isTerminal token with
    | false =>
      simp only [addItem, hnext, ht] at h
      exact .inr ⟨(fun hfalse => by cases hfalse), (pure_eq_ok.1 h).1.symm⟩
    | true =>
      cases hgoto : goto? g states s token with
      | none =>
        simp only [addItem, hnext, ht, hgoto] at h
        exact .inr ⟨fun _ => rfl, (pure_eq_ok.1 h).1.symm⟩
      | some target =>
        simp only [addItem, hnext, ht, hgoto] at h
        exact .inl ⟨target, rfl, rfl, h⟩
  | none =>
    refine .inr ⟨rfl, ?_⟩
    by_cases hhead : item.head g = startHead
    · simp only [addItem, hnext, hhead, beq_self_eq_true, if_true] at h
      exact .inl ⟨hhead, (pure_eq_ok.1 h).1.symm⟩
    · simp only [addItem, hnext, beq_false_of_ne hhead, Bool.false_eq_true, if_false] at h
      refine .inr ⟨hhead, ?_⟩
      cases hon : reduceOn g state method l item with
      | error f =>
        rw [hon] at h
        cases h
      | ok tokens =>
        rw [hon] at h
        exact ⟨tokens, rfl, h⟩

/-! ## Entries of other terminals -/

/-- The entry of a terminal and the item it comes from stay. -/
def Kept (x : String) (row row' : Row) : Prop :=
  Assoc.get? x row'.actions = Assoc.get? x row.actions ∧
  Assoc.get? x row'.owners = Assoc.get? x row.owners

theorem Kept.trans (h : Kept x row1 row2) (h' : Kept x row2 row3) : Kept x row1 row3 :=
  ⟨h'.1.trans h.1, h'.2.trans h.2⟩

theorem kept_set (hx : x ≠ token) (row : Row) (action : Action) (item : Item) :
    Kept x row (row.set token action item) :=
  ⟨Assoc.get?_put_of_ne hx _ _, Assoc.get?_put_of_ne hx _ _⟩

theorem kept_forbid (hx : x ≠ token) (row : Row) : Kept x row (row.forbid token) :=
  ⟨Assoc.get?_put_of_ne hx _ _, rfl⟩

theorem addShift_kept (h : addShift g state target item row token notes = (.ok row', notes'))
    (hx : x ≠ token) :
    Kept x row row' := by
  obtain ⟨text, rfl⟩ := addShift_eq_ok h
  rw [Row.shift]
  split
  · split
    · exact kept_set hx (row.consider token item text) _ _
    · exact kept_forbid hx (row.consider token item text)
    · exact ⟨rfl, rfl⟩
  · exact ⟨rfl, rfl⟩
  · exact kept_set hx (row.consider token item text) _ _

theorem addReduce_kept (h : addReduce g state item row token notes = (.ok row', notes'))
    (hx : x ≠ token) :
    Kept x row row' := by
  obtain ⟨text, rfl⟩ := addReduce_eq_ok h
  rw [Row.reduce]
  split
  · exact kept_set hx (row.consider token item text) _ _
  · split
    · exact kept_set hx (row.consider token item text) _ _
    · exact kept_forbid hx (row.consider token item text)
    · exact ⟨rfl, rfl⟩
  · split
    · exact kept_set hx (row.consider token item text) _ _
    · exact ⟨rfl, rfl⟩
  · exact ⟨rfl, rfl⟩

theorem addReduces_kept (h : addReduces g state item tokens row notes = (.ok row', notes'))
    (hx : x ∉ tokens) : Kept x row row' := by
  induction tokens generalizing row notes with
  | nil =>
    obtain ⟨rfl, -⟩ := pure_eq_ok.1 h
    exact ⟨rfl, rfl⟩
  | cons token rest ih =>
    obtain ⟨hne, hrest⟩ := not_or.1 (mt List.mem_cons.2 hx)
    obtain ⟨row1, notes1, hone, h⟩ := bind_eq_ok.1 h
    exact (addReduce_kept hone hne).trans (ih h hrest)

end LangKit.Lr
