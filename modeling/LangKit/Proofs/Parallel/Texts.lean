import LangKit.Proofs.Parallel.Ground
import Mathlib.Data.Finset.Card
import Mathlib.Data.Finset.Range

/-!
# Texts and the size of the store

The text of a node is made with as much fuel as there are nodes, so it could depend on nodes that
have nothing to do with it. It does not: more fuel than there are nodes never changes a text
(`nodeText_of_size_lt`). With one more unit of fuel a node can only get a text, and the texts that
are there stay; as long as some text changes, another node has got its text, so this happens at most
once for each node.
-/

namespace LangKit.Script.Parallel

open Store

variable {n r : Nat}

def tooDeep : Fault := .badState "maximum recursion depth exceeded"

def Keeps {α : Type} (x y : Except Fault α) : Prop :=
  x ≠ .error tooDeep → y = x

theorem Keeps.bind (h : Keeps x y)
    (hf : ∀ a, Keeps (f a) (g a)) : Keeps (x >>= f) (y >>= g) := by
  intro hx
  cases x with
  | error e =>
    rw [h fun he => hx (congrArg (· >>= f) he)]
    rfl
  | ok a =>
    rw [h nofun]
    exact hf a hx

theorem lasting_keeps : Datum.Lasting fun _ => Keeps :=
  ⟨fun _ _ => rfl, .bind, fun _ _ => rfl⟩

variable {s : Store}

theorem keeps_nodeText (s : Store) (n r : Nat) : Keeps (s.nodeText n r) (s.nodeText (n + 1) r) := by
  induction n generalizing r with
  | zero => exact fun hne => absurd rfl hne
  | succ n ih =>
    refine .bind (lasting_keeps.fieldTexts (R := Eq) ?_ (.refl _)) fun _ _ => rfl
    rintro r _ rfl
    exact ih r

theorem keeps_nodeText_of_le (hn : n ≤ k) (r : Nat) : Keeps (s.nodeText n r) (s.nodeText k r) := by
  induction k, hn using Nat.le_induction with
  | base => exact fun _ => rfl
  | succ k _ ih =>
    intro hne
    have hk := ih hne
    rw [keeps_nodeText s k r (hk ▸ hne), hk]

theorem nodeText_of_still (h : ∀ r, s.nodeText (n + 1) r = s.nodeText n r) (k r : Nat) :
    s.nodeText (n + k) r = s.nodeText n r := by
  induction k generalizing r with
  | zero => rfl
  | succ k ih =>
    rw [← h r, Nat.add_succ, nodeText, nodeText, funext ih]

theorem change_of_ne (h : s.nodeText (n + 1) r ≠ s.nodeText n r) :
    s.nodeText n r = .error tooDeep ∧ s.nodeText (n + 1) r ≠ .error tooDeep := by
  have hbefore : s.nodeText n r = .error tooDeep := by
    by_contra hne
    exact h (keeps_nodeText s n r hne)
  exact ⟨hbefore, fun hafter => h (hafter.trans hbefore.symm)⟩

theorem nodeText_of_size_le (h : s.size ≤ r) : s.nodeText (n + 1) r = .ok "" := by
  have hfields : s.fields r = [] := congrArg Prod.snd (node_of_le h)
  have hkind : s.kind r = "" := congrArg Prod.fst (node_of_le h)
  rw [nodeText, hfields, hkind]
  rfl

/-- Among as many rounds as there are nodes, and one more, there is one in which no text changes. -/
theorem exists_still (s : Store) :
    ∃ n ≤ s.size, ∀ r, s.nodeText (n + 2) r = s.nodeText (n + 1) r := by
  by_contra hnone
  have hchange : ∀ n : Nat, ∃ r, n ≤ s.size → s.nodeText (n + 2) r ≠ s.nodeText (n + 1) r := by
    intro n
    by_cases hn : n ≤ s.size
    · obtain ⟨r, hr⟩ := not_forall.1 fun hall => hnone ⟨n, hn, hall⟩
      exact ⟨r, fun _ => hr⟩
    · exact ⟨0, fun h => absurd h hn⟩
  choose at_ hat using hchange
  -- A node that changes in one round is not the one that changes in a later round.
  have hinjective : ∀ n k, n < k → k ≤ s.size → at_ n ≠ at_ k := by
    intro n k hlt hk heq
    obtain ⟨-, hafter⟩ := change_of_ne (hat n (Nat.le_trans (Nat.le_of_lt hlt) hk))
    obtain ⟨hbefore, -⟩ := change_of_ne (hat k hk)
    rw [← heq] at hbefore
    have hkept := keeps_nodeText_of_le (s := s) (Nat.succ_le_succ (Nat.succ_le_of_lt hlt))
      (at_ n) hafter
    exact hafter (hkept ▸ hbefore)
  have hmaps : ∀ n ∈ Finset.range (s.size + 1), at_ n ∈ Finset.range s.size := by
    intro n hn
    have hle : n ≤ s.size := Nat.lt_succ_iff.1 (Finset.mem_range.1 hn)
    by_contra hout
    have hsize : s.size ≤ at_ n := Nat.le_of_not_lt fun hlt => hout (Finset.mem_range.2 hlt)
    exact hat n hle ((nodeText_of_size_le hsize).trans (nodeText_of_size_le hsize).symm)
  obtain ⟨n, hn, k, hk, hne, heq⟩ := Finset.exists_ne_map_eq_of_card_lt_of_maps_to (by simp) hmaps
  have hn := Nat.lt_succ_iff.1 (Finset.mem_range.1 hn)
  have hk := Nat.lt_succ_iff.1 (Finset.mem_range.1 hk)
  rcases Nat.lt_or_gt_of_ne hne with hlt | hlt
  · exact hinjective n k hlt hk heq
  · exact hinjective k n hlt hn heq.symm

theorem nodeText_of_size_lt (h : s.size < n) (r : Nat) :
    s.nodeText n r = s.nodeText (s.size + 1) r := by
  obtain ⟨k, hk, hstill⟩ := exists_still s
  have hn : n = (k + 1) + (n - (k + 1)) := by omega
  have hsize : s.size + 1 = (k + 1) + (s.size - k) := by omega
  rw [hn, hsize, nodeText_of_still hstill, nodeText_of_still hstill]

end LangKit.Script.Parallel
