import Mathlib.Data.List.GetD
import Mathlib.Tactic.Common

/-!
# Flat memory

Memory as a function of the address: `peek m a n` is what the `n` cells from `a` on hold,
`poke m a d` is the memory after `d` is stored at `a`.

* `peek_poke_self`, `peek_poke_of_disjoint` — reading back, and reading elsewhere.
* `peek_take`, `peek_drop`, `peek_add`, `peek_middle` — parts of a region.
* `peek_poke_middle` — a store inside a region.
* `SameOn` — two memories that hold the same between two addresses.
-/

namespace AdvCpp.Lib

universe u

variable {α : Type u}

/-- The cells `a`, …, `a + n - 1`. -/
def peek (m : Nat → α) (a n : Nat) : List α := (List.range n).map fun i => m (a + i)

/-- Store `d` at `a`. -/
def poke (m : Nat → α) (a : Nat) (d : List α) (i : Nat) : α :=
  if a ≤ i then (d[i - a]?).getD (m i) else m i

@[simp] theorem peek_length (m : Nat → α) (a n : Nat) : (peek m a n).length = n := by
  simp [peek]

theorem peek_getElem? (m : Nat → α) (a n i : Nat) :
    (peek m a n)[i]? = if i < n then some (m (a + i)) else none := by
  unfold peek
  by_cases hi : i < n
  · simp [hi]
  · simp [hi]

theorem peek_take {m : Nat → α} {a n k : Nat} (h : k ≤ n) :
    (peek m a n).take k = peek m a k := by
  apply List.ext_getElem?
  intro i
  rw [List.getElem?_take, peek_getElem?, peek_getElem?]
  grind

theorem peek_drop (m : Nat → α) (a n k : Nat) :
    (peek m a n).drop k = peek m (a + k) (n - k) := by
  apply List.ext_getElem?
  intro i
  rw [List.getElem?_drop, peek_getElem?, peek_getElem?]
  grind

/-- **Reading back what was stored.** -/
theorem peek_poke_self (m : Nat → α) (a : Nat) (d : List α) : peek (poke m a d) a d.length = d := by
  apply List.ext_getElem?
  intro i
  rw [peek_getElem?]
  unfold poke
  by_cases hi : i < d.length
  · simp [hi]
  · simp [hi]

/-- **Reading a region that the store does not touch.** -/
theorem peek_poke_of_disjoint {m : Nat → α} {a b n : Nat} {d : List α}
    (h : a + d.length ≤ b ∨ b + n ≤ a) : peek (poke m a d) b n = peek m b n := by
  apply List.ext_getElem?
  intro i
  rw [peek_getElem?, peek_getElem?]
  by_cases hi : i < n
  · rw [if_pos hi, if_pos hi]
    unfold poke
    by_cases ha : a ≤ b + i
    · rw [if_pos ha, List.getElem?_eq_none (by omega), Option.getD_none]
    · rw [if_neg ha]
  · rw [if_neg hi, if_neg hi]

/-- A region is its two parts. -/
theorem peek_add (m : Nat → α) (a n k : Nat) : peek m a (n + k) = peek m a n ++ peek m (a + n) k := by
  unfold peek
  rw [List.range_add, List.map_append, List.map_map]
  congr 1
  refine List.map_congr_left fun i _ => ?_
  show m (a + (n + i)) = m (a + n + i)
  rw [Nat.add_assoc]

/-- Part of a region. -/
theorem peek_middle {m : Nat → α} {a b n k : Nat} {p x s : List α} (h : peek m b n = p ++ x ++ s)
    (ha : a = b + p.length) (hk : k = x.length) : peek m a k = x := by
  have hn : n = p.length + x.length + s.length := by
    have hlen := congrArg List.length h
    rw [peek_length, List.length_append, List.length_append] at hlen
    exact hlen
  subst ha hk hn
  rw [peek_add, peek_add] at h
  obtain ⟨hfront, -⟩ := List.append_inj h (by simp)
  exact (List.append_inj hfront (by simp)).2

/-- **A store inside a region** replaces the part that it covers. -/
theorem peek_poke_middle {m : Nat → α} {a b n : Nat} {p x s d : List α}
    (h : peek m b n = p ++ x ++ s) (ha : a = b + p.length) (hd : d.length = x.length) :
    peek (poke m a d) b n = p ++ d ++ s := by
  have hn : n = p.length + d.length + s.length := by
    have hlen := congrArg List.length h
    rw [peek_length, List.length_append, List.length_append] at hlen
    omega
  subst ha hn
  rw [peek_add, peek_add] at h ⊢
  obtain ⟨hfront, hs⟩ := List.append_inj h (by simp [hd])
  obtain ⟨hp, -⟩ := List.append_inj hfront (by simp)
  rw [peek_poke_self, peek_poke_of_disjoint (by omega), peek_poke_of_disjoint (by omega), hp, hs]

/-! ## Memories that agree -/

/-- The two hold the same from `lo` up to `hi`. -/
def SameOn (m m' : Nat → α) (lo hi : Nat) : Prop := ∀ i, lo ≤ i → i < hi → m i = m' i

theorem SameOn.refl (m : Nat → α) (lo hi : Nat) : SameOn m m lo hi := fun _ _ _ => rfl

theorem SameOn.peek {m m' : Nat → α} {lo hi a n : Nat} (h : SameOn m m' lo hi) (ha : lo ≤ a)
    (hn : a + n ≤ hi) : peek m a n = peek m' a n := by
  refine List.map_congr_left fun i hi => ?_
  have hlt := List.mem_range.1 hi
  exact h (a + i) (by omega) (by omega)

/-- A store elsewhere. -/
theorem SameOn.poke {m m' : Nat → α} {lo hi a : Nat} {d : List α} (h : SameOn m m' lo hi)
    (hd : a + d.length ≤ lo ∨ hi ≤ a) : SameOn (poke m a d) m' lo hi := by
  intro i hlo hhi
  refine Eq.trans ?_ (h i hlo hhi)
  unfold Lib.poke
  by_cases ha : a ≤ i
  · rw [if_pos ha, List.getElem?_eq_none (by omega), Option.getD_none]
  · rw [if_neg ha]

end AdvCpp.Lib
