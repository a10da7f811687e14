import Mathlib.Data.List.Nodup
import Mathlib.Data.List.Pairwise
import Mathlib.Logic.Function.Basic
import Mathlib.Tactic.Common

/-!
# What a table holds

A table numbers its entries in the order in which they were added, and an entry can be removed.
`gather held n t` lists what the first `n` entries of the table `t` hold, in that order.

* `gather_update` — one entry changes: what it holds afterwards is exchanged for what it held.
* `gather_first` — the first entry that holds something changes: the rest follows unchanged.
* `gather_single` — only one entry holds something.
* `gather_inj` — what is held once is held by one entry.
-/

namespace AdvCpp.Lib

universe u v

/-! ## Lists for every number -/

variable {α : Type u} {β : Type v} {n k : Nat} {f g : Nat → List α}

/-- What the entries `0`, …, `n - 1` hold, in order. -/
def collect (n : Nat) (f : Nat → List α) : List α := (List.range n).flatMap f

theorem collect_succ (n : Nat) (f : Nat → List α) : collect (n + 1) f = collect n f ++ f n := by
  simp [collect, List.range_succ]

theorem mem_collect {a : α} : a ∈ collect n f ↔ ∃ k, k < n ∧ a ∈ f k := by
  simp [collect]

theorem collect_congr (h : ∀ k, k < n → f k = g k) : collect n f = collect n g := by
  unfold collect
  exact List.flatMap_congr fun k hk => h k (List.mem_range.1 hk)

theorem collect_eq_nil (h : ∀ k, k < n → f k = []) : collect n f = [] := by
  unfold collect
  exact List.flatMap_eq_nil_iff.2 fun k hk => h k (List.mem_range.1 hk)

/-- The entries before, at and behind `k`. -/
theorem collect_split (hk : k < n) (f : Nat → List α) :
    collect n f = collect k f ++ f k ++ collect (n - (k + 1)) fun i => f (k + 1 + i) := by
  obtain ⟨m, rfl⟩ := Nat.exists_eq_add_of_lt hk
  have hm : k + m + 1 - (k + 1) = m := by omega
  rw [hm, ← collect_succ]
  clear hm hk
  induction m with
  | zero => simp [collect]
  | succ m ih =>
    have hlast : k + 1 + m = k + m + 1 := by omega
    rw [collect_succ m, ← List.append_assoc, ← ih, hlast]
    exact collect_succ (k + m + 1) f

/-- One entry changes: as a multiset the others stay. -/
theorem collect_perm (hk : k < n) (h : ∀ i, i < n → i ≠ k → f i = g i) :
    (g k ++ collect n f).Perm (f k ++ collect n g) := by
  have hpre : collect k f = collect k g :=
    collect_congr fun i hi => h i (Nat.lt_trans hi hk) (Nat.ne_of_lt hi)
  have hpost : (collect (n - (k + 1)) fun i => f (k + 1 + i)) =
      collect (n - (k + 1)) fun i => g (k + 1 + i) :=
    collect_congr fun i hi => h _ (by omega) (by omega)
  rw [collect_split hk f, collect_split hk g, hpre, hpost]
  classical
  rw [List.perm_iff_count]
  intro a
  simp only [List.count_append]
  omega

/-- The first entry that holds something changes: the rest follows it unchanged. -/
theorem collect_first (hk : k < n) (h : ∀ i, i < n → i ≠ k → f i = g i)
    (hf : ∀ i, i < k → f i = []) :
    ∃ rest, collect n f = f k ++ rest ∧ collect n g = g k ++ rest := by
  have hpre : collect k f = [] := collect_eq_nil hf
  have hpre' : collect k g = [] := by
    refine collect_eq_nil fun i hi => ?_
    rw [← h i (Nat.lt_trans hi hk) (Nat.ne_of_lt hi)]
    exact hf i hi
  have hpost : (collect (n - (k + 1)) fun i => f (k + 1 + i)) =
      collect (n - (k + 1)) fun i => g (k + 1 + i) :=
    collect_congr fun i hi => h _ (by omega) (by omega)
  refine ⟨collect (n - (k + 1)) fun i => f (k + 1 + i), ?_, ?_⟩
  · rw [collect_split hk f, hpre, List.nil_append]
  · rw [collect_split hk g, hpre', List.nil_append, hpost]

/-- Only one entry holds something. -/
theorem collect_single (hk : k < n) (h : ∀ i, i < n → i ≠ k → f i = []) :
    collect n f = f k := by
  have hpre : collect k f = [] :=
    collect_eq_nil fun i hi => h i (Nat.lt_trans hi hk) (Nat.ne_of_lt hi)
  have hpost : (collect (n - (k + 1)) fun i => f (k + 1 + i)) = [] :=
    collect_eq_nil fun i hi => h _ (by omega) (by omega)
  rw [collect_split hk f, hpre, hpost, List.nil_append, List.append_nil]

/-- What is held once is held by one entry. -/
theorem collect_inj (hn : (collect n f).Nodup) {i j : Nat} {a : α} (hi : i < n) (hj : j < n)
    (hai : a ∈ f i) (haj : a ∈ f j) : i = j := by
  by_contra hne
  unfold collect at hn
  have hdisj := (List.nodup_flatMap.1 hn).2
  have : Std.Symm (Function.onFun List.Disjoint f) := ⟨fun _ _ h _ ha hb => h hb ha⟩
  exact hdisj.forall (List.mem_range.2 hi) (List.mem_range.2 hj) hne hai haj

/-! ## Tables -/

/-- What the first `n` entries hold, in order. -/
def gather (held : β → List α) (n : Nat) (t : Nat → Option β) : List α :=
  collect n fun i => (t i).elim [] held

section Gather

variable {held held' : β → List α} {t : Nat → Option β} {o : Option β} {b : β} {a : α}

theorem mem_gather : a ∈ gather held n t ↔ ∃ k b, k < n ∧ t k = some b ∧ a ∈ held b := by
  unfold gather
  rw [mem_collect]
  constructor
  · intro h
    obtain ⟨k, hk, ha⟩ := h
    cases hb : t k with
    | none => simp [hb] at ha
    | some b => exact ⟨k, b, hk, hb, by simpa [hb] using ha⟩
  · intro h
    obtain ⟨k, b, hk, hb, ha⟩ := h
    exact ⟨k, hk, by simpa [hb] using ha⟩

/-- An entry of a table after one entry changed. -/
theorem update_cases {k' : Nat} (h : Function.update t k o k' = some b) :
    k' = k ∧ o = some b ∨ k' ≠ k ∧ t k' = some b := by
  by_cases hk : k' = k
  · subst hk
    rw [Function.update_self] at h
    exact Or.inl ⟨rfl, h⟩
  · rw [Function.update_of_ne hk] at h
    exact Or.inr ⟨hk, h⟩

theorem gather_congr (h : ∀ k b, k < n → t k = some b → held b = held' b) :
    gather held n t = gather held' n t := by
  refine collect_congr fun k hk => ?_
  cases hb : t k with
  | none => rfl
  | some b => exact h k b hk hb

/-- A new entry. -/
theorem gather_add (held : β → List α) (t : Nat → Option β) (n : Nat) (b : β) :
    gather held (n + 1) (Function.update t n (some b)) = gather held n t ++ held b := by
  unfold gather
  rw [collect_succ, Function.update_self]
  refine congrArg (· ++ held b) (collect_congr fun k hk => ?_)
  rw [Function.update_of_ne (Nat.ne_of_lt hk)]

/-- **One entry changes**: what it holds afterwards is exchanged for what it held. -/
theorem gather_update (held : β → List α) (t : Nat → Option β) (o : Option β) (hk : k < n) :
    (o.elim [] held ++ gather held n t).Perm
      ((t k).elim [] held ++ gather held n (Function.update t k o)) := by
  have hp := collect_perm (f := fun i => (t i).elim [] held)
    (g := fun i => (Function.update t k o i).elim [] held) hk fun i _ hne => by
      simp only [Function.update_of_ne hne]
  rw [Function.update_self] at hp
  exact hp

/-- An entry changes but holds the same. -/
theorem gather_update_same (n : Nat) (h : o.elim [] held = (t k).elim [] held) :
    gather held n (Function.update t k o) = gather held n t := by
  refine collect_congr fun i _ => ?_
  by_cases hi : i = k
  · subst hi
    rw [Function.update_self]
    exact h
  · rw [Function.update_of_ne hi]

/-- **The first entry that holds something changes**: the rest follows unchanged. -/
theorem gather_first (o : Option β) (hk : k < n)
    (h : ∀ i b, i < k → t i = some b → held b = []) :
    ∃ rest, gather held n t = (t k).elim [] held ++ rest ∧
      gather held n (Function.update t k o) = o.elim [] held ++ rest := by
  have hf := collect_first (f := fun i => (t i).elim [] held)
    (g := fun i => (Function.update t k o i).elim [] held) hk
    (fun i _ hne => by simp only [Function.update_of_ne hne]) fun i hi => by
      cases hb : t i with
      | none => rfl
      | some b => exact h i b hi hb
  rw [Function.update_self] at hf
  exact hf

/-- **Only one entry holds something.** -/
theorem gather_single (hk : k < n) (h : ∀ i b, i ≠ k → t i = some b → held b = []) :
    gather held n t = (t k).elim [] held := by
  refine collect_single hk fun i _ hne => ?_
  cases hb : t i with
  | none => rfl
  | some b => exact h i b hne hb

/-- **What is held once is held by one entry.** -/
theorem gather_inj (hn : (gather held n t).Nodup) {i j : Nat} {bi bj : β} (hi : i < n)
    (hj : j < n) (hti : t i = some bi) (htj : t j = some bj) (hai : a ∈ held bi)
    (haj : a ∈ held bj) : i = j :=
  collect_inj hn hi hj (by simpa [hti] using hai) (by simpa [htj] using haj)

end Gather

end AdvCpp.Lib
