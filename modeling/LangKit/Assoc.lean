/-!
# Association lists in order of insertion

Scopes, the fields of a node and the tables of a grammar are finite maps whose order shows. A new
key goes to the end and a key that is present keeps its place, so an entry list is at once the map
and the order of its keys.
-/

namespace LangKit.Assoc

variable {κ ν : Type} [BEq κ]

def get? (k : κ) : List (κ × ν) → Option ν
  | [] => none
  | (k', v) :: rest => if k' == k then some v else get? k rest

def has (k : κ) (entries : List (κ × ν)) : Bool :=
  (get? k entries).isSome

def getD (k : κ) (entries : List (κ × ν)) (default : ν) : ν :=
  (get? k entries).getD default

/-- Sets the value at a key, in the key's place if it has one and else at the end. -/
def put (k : κ) (v : ν) : List (κ × ν) → List (κ × ν)
  | [] => [(k, v)]
  | (k', v') :: rest => if k' == k then (k', v) :: rest else (k', v') :: put k v rest

def keys (entries : List (κ × ν)) : List κ :=
  entries.map (·.1)

def putAll (entries : List (κ × ν)) (more : List (κ × ν)) : List (κ × ν) :=
  more.foldl (fun acc e => put e.1 e.2 acc) entries

section Lemmas

theorem put_ne_nil (k : κ) (v : ν) (entries : List (κ × ν)) : put k v entries ≠ [] := by
  cases entries with
  | nil => exact List.cons_ne_nil _ _
  | cons e rest =>
    rw [put]
    split <;> exact List.cons_ne_nil _ _

theorem put_eq_self {k : κ} {v : ν} {entries : List (κ × ν)} (h : get? k entries = some v) :
    put k v entries = entries := by
  induction entries with
  | nil => cases h
  | cons e rest ih =>
    obtain ⟨k', v'⟩ := e
    simp only [get?, put] at h ⊢
    split
    · rename_i hk
      rw [if_pos hk] at h
      rw [Option.some.inj h]
    · rename_i hk
      rw [if_neg hk] at h
      rw [ih h]

theorem put_of_get?_eq_none {k : κ} {entries : List (κ × ν)} (h : get? k entries = none) (v : ν) :
    put k v entries = entries ++ [(k, v)] := by
  induction entries with
  | nil => rfl
  | cons e rest ih =>
    obtain ⟨k0, v0⟩ := e
    rw [get?] at h
    split at h
    · cases h
    · next hne => rw [put, if_neg hne, ih h, List.cons_append]

variable [LawfulBEq κ]

@[simp] theorem get?_put_self (k : κ) (v : ν) (entries : List (κ × ν)) :
    get? k (put k v entries) = some v := by
  induction entries with
  | nil => simp [put, get?]
  | cons e rest ih =>
    obtain ⟨k', v'⟩ := e
    by_cases h : k' = k
    · simp [put, get?, h]
    · simp [put, get?, h, ih]

theorem get?_put_of_ne {k k0 : κ} (hk : k0 ≠ k) (v : ν) (entries : List (κ × ν)) :
    get? k0 (put k v entries) = get? k0 entries := by
  induction entries with
  | nil => simp [put, get?, Ne.symm hk]
  | cons e rest ih =>
    obtain ⟨k', v'⟩ := e
    by_cases h : k' = k
    · subst h
      simp [put, get?, Ne.symm hk]
    · simp [put, get?, h, ih]

theorem get?_put (k k0 : κ) (v : ν) (entries : List (κ × ν)) :
    get? k0 (put k v entries) = if k0 == k then some v else get? k0 entries := by
  by_cases h : k0 = k
  · rw [h, get?_put_self, if_pos (beq_self_eq_true k)]
  · rw [get?_put_of_ne h, if_neg fun hb => h (eq_of_beq hb)]

theorem has_put (k k0 : κ) (v : ν) (entries : List (κ × ν)) :
    has k0 (put k v entries) = (k0 == k || has k0 entries) := by
  rw [has, get?_put]
  cases k0 == k <;> rfl

theorem getD_put (k k0 : κ) (v d : ν) (entries : List (κ × ν)) :
    getD k0 (put k v entries) d = if k0 == k then v else getD k0 entries d := by
  rw [getD, get?_put]
  cases k0 == k <;> rfl

theorem mem_keys {k : κ} {entries : List (κ × ν)} : k ∈ keys entries ↔ has k entries = true := by
  induction entries with
  | nil => simp [keys, has, get?]
  | cons e rest ih =>
    obtain ⟨k', v'⟩ := e
    by_cases h : k' = k
    · simp [keys, has, get?, h]
    · simp only [keys, has] at ih
      simp [keys, has, get?, h, Ne.symm h, ih]

theorem get?_putAll_map [DecidableEq κ] (f : κ → ν) (ks : List κ) (entries : List (κ × ν)) (k : κ) :
    get? k (putAll entries (ks.map fun x => (x, f x))) = if k ∈ ks then some (f k)
      else get? k entries := by
  induction ks generalizing entries with
  | nil => rfl
  | cons x rest ih =>
    rw [List.map_cons, putAll, List.foldl_cons, ← putAll, ih, get?_put]
    by_cases hx : k = x
    · simp [hx]
    · simp [hx]

theorem mem_put {e : κ × ν} {k : κ} {v : ν} {entries : List (κ × ν)} (h : e ∈ put k v entries) :
    e ∈ entries ∨ e = (k, v) := by
  induction entries with
  | nil => exact .inr (List.mem_singleton.1 h)
  | cons e' rest ih =>
    rw [put] at h
    split at h
    · rename_i hk
      obtain rfl := eq_of_beq hk
      exact (List.mem_cons.1 h).symm.imp_left (List.mem_cons_of_mem _)
    · rcases List.mem_cons.1 h with rfl | h
      · exact .inl List.mem_cons_self
      · exact (ih h).imp_left (List.mem_cons_of_mem _)

theorem mem_of_get? {k : κ} {v : ν} {entries : List (κ × ν)} (h : get? k entries = some v) :
    (k, v) ∈ entries := by
  induction entries with
  | nil => cases h
  | cons e rest ih =>
    obtain ⟨k', v'⟩ := e
    simp only [get?] at h
    split at h
    · rename_i hk
      obtain rfl := Option.some.inj h
      obtain rfl := eq_of_beq hk
      exact List.mem_cons_self
    · exact List.mem_cons_of_mem _ (ih h)

end Lemmas

end LangKit.Assoc
