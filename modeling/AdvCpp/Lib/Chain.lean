import Mathlib.Data.Fintype.EquivFin
import Mathlib.Data.List.Nodup

/-!
# Chains of pointers

A chain has a first node, and each node names the next one or none.

* `Visits` — what is visited if one stops at the end and at the first repeat; `Visits.longest`.
* `ends_iff` — over finitely many nodes, a chain ends exactly if no node comes twice.
-/

namespace AdvCpp.Lib

structure Chain (α : Type*) where
  start : Option α
  next : α → Option α

namespace Chain

variable {α : Type*} {c : Chain α} {l l' : List α} {x : α}

/-- Node number `n`, counted from 0. -/
def nth (c : Chain α) : Nat → Option α
  | 0 => c.start
  | n + 1 => (c.nth n).bind c.next

/-- The chain comes to an end. -/
def Ends (c : Chain α) : Prop := ∃ n, c.nth n = none

/-- The first nodes of the chain are `l`. -/
def Path (c : Chain α) (l : List α) : Prop := ∀ i < l.length, c.nth i = l[i]?

/-- **The longest duplicate-free prefix** of the chain is `l`. -/
structure Visits (c : Chain α) (l : List α) : Prop where
  path : c.Path l
  nodup : l.Nodup
  stop : ∀ x, c.nth l.length = some x → x ∈ l

/-- The nodes before number `n`. -/
def nodes (c : Chain α) : Nat → List α
  | 0 => []
  | n + 1 => c.nodes n ++ (c.nth n).toList

theorem mem_nodes {n : Nat} : x ∈ c.nodes n ↔ ∃ i < n, c.nth i = some x := by
  induction n with
  | zero => simp [nodes]
  | succ n ih =>
    rw [nodes, List.mem_append, ih, Option.mem_toList]
    constructor
    · rintro (⟨i, hi, hx⟩ | hx)
      · exact ⟨i, by omega, hx⟩
      · exact ⟨n, by omega, hx⟩
    · rintro ⟨i, hi, hx⟩
      rcases Nat.lt_succ_iff_lt_or_eq.1 hi with hlt | rfl
      · exact Or.inl ⟨i, hlt, hx⟩
      · exact Or.inr hx

theorem nodes_nodup (h : ∀ i j, i < j → c.nth i ≠ none → c.nth i ≠ c.nth j) (n : Nat) :
    (c.nodes n).Nodup := by
  induction n with
  | zero => exact List.nodup_nil
  | succ n ih =>
    rw [nodes]
    cases hx : c.nth n with
    | none => simpa using ih
    | some x =>
      have hnew : x ∉ c.nodes n := by
        intro hmem
        obtain ⟨i, hi, hxi⟩ := mem_nodes.1 hmem
        exact h i n hi (by simp [hxi]) (hxi.trans hx.symm)
      rw [Option.toList_some, ← List.concat_eq_append]
      exact ih.concat hnew

theorem nth_add {i j : Nat} (h : c.nth i = c.nth j) (k : Nat) : c.nth (i + k) = c.nth (j + k) := by
  induction k with
  | zero => exact h
  | succ k ih => exact congrArg (·.bind c.next) ih

theorem nth_none {i : Nat} (h : c.nth i = none) {j : Nat} (hj : i ≤ j) : c.nth j = none := by
  induction j with
  | zero =>
    obtain rfl : i = 0 := by omega
    exact h
  | succ j ih =>
    rcases Nat.eq_or_lt_of_le hj with rfl | hlt
    · exact h
    · have hprev := ih (by omega)
      simp [nth, hprev]

/-- The chain from its second node on. -/
def tail (c : Chain α) : Chain α := ⟨c.start.bind c.next, c.next⟩

theorem nth_succ (c : Chain α) (n : Nat) : c.nth (n + 1) = c.tail.nth n := by
  induction n with
  | zero => rfl
  | succ n ih => exact congrArg (·.bind c.next) ih

theorem nodes_succ (c : Chain α) (n : Nat) : c.nodes (n + 1) = c.start.toList ++ c.tail.nodes n := by
  induction n with
  | zero => simp [nodes, nth]
  | succ n ih => rw [nodes, ih, nth_succ, List.append_assoc, nodes]

/-- Without a first node there is no other. -/
theorem nth_of_start (h : c.start = none) (n : Nat) : c.nth n = none :=
  nth_none (show c.nth 0 = none from h) (Nat.zero_le n)

theorem nodes_of_start (h : c.start = none) (n : Nat) : c.nodes n = [] := by
  induction n with
  | zero => rfl
  | succ n ih =>
    rw [nodes, ih, nth_of_start h]
    rfl

/-- **A chain that repeats a node never ends.** -/
theorem nth_ne_none_of_repeat {i j : Nat} (hij : i < j) (h : c.nth i = c.nth j)
    (hi : c.nth i ≠ none) (n : Nat) : c.nth n ≠ none := by
  induction n using Nat.strongRecOn with
  | ind n ih =>
    intro hn
    by_cases hle : n ≤ j
    · rw [h] at hi
      exact hi (nth_none hn hle)
    · -- one round earlier the chain would have ended as well
      have hround := nth_add h (n - j)
      have hback : j + (n - j) = n := by omega
      rw [hback, hn] at hround
      exact ih (i + (n - j)) (by omega) hround

/-- **When a chain over finitely many nodes ends.** -/
theorem ends_iff [Finite α] :
    c.Ends ↔ ∀ i j, i < j → c.nth i ≠ none → c.nth i ≠ c.nth j := by
  constructor
  · rintro ⟨n, hn⟩ i j hij hi heq
    exact nth_ne_none_of_repeat hij heq hi n hn
  · intro h
    by_contra hends
    have hsome : ∀ n, ∃ x, c.nth n = some x := fun n =>
      Option.ne_none_iff_exists'.1 fun hn => hends ⟨n, hn⟩
    choose f hf using hsome
    have hne : ∀ i j, i < j → f i ≠ f j := by
      intro i j hij heq
      refine h i j hij (by simp [hf i]) ?_
      rw [hf i, hf j, heq]
    refine not_injective_infinite_finite f fun i j heq => ?_
    rcases Nat.lt_trichotomy i j with hlt | rfl | hlt
    · exact absurd heq (hne i j hlt)
    · rfl
    · exact absurd heq.symm (hne j i hlt)

/-! ## Prefixes -/

theorem path_nil : c.Path [] := by
  intro i hi
  simp at hi

theorem Path.snoc (h : c.Path l) (hx : c.nth l.length = some x) : c.Path (l ++ [x]) := by
  intro i hi
  simp only [List.length_append, List.length_singleton] at hi
  rcases Nat.lt_succ_iff_lt_or_eq.1 hi with hlt | rfl
  · rw [List.getElem?_append_left hlt]
    exact h i hlt
  · simpa using hx

theorem Path.isPrefix (h : c.Path l) (h' : c.Path l') (hlen : l.length ≤ l'.length) : l <+: l' := by
  rw [List.prefix_iff_getElem?]
  intro i hi
  rw [← h' i (by omega), h i hi, List.getElem?_eq_getElem hi]

theorem Visits.longest (h : c.Visits l) (h' : c.Path l') (hnodup : l'.Nodup) : l' <+: l := by
  by_cases hlen : l'.length ≤ l.length
  · exact h'.isPrefix h.path hlen
  · -- the node behind `l` comes again in `l'`
    exfalso
    obtain ⟨t, rfl⟩ := h.path.isPrefix h' (by omega)
    cases t with
    | nil => simp at hlen
    | cons y t =>
      have hy : c.nth l.length = some y := by
        rw [h' _ (by simp)]
        simp
      have hmem := h.stop y hy
      rw [List.nodup_append] at hnodup
      exact hnodup.2.2 y hmem y List.mem_cons_self rfl

end Chain

end AdvCpp.Lib
