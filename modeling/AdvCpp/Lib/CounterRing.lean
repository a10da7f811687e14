import Mathlib.Data.List.Basic
import Mathlib.Data.Nat.ModEq
import Mathlib.Logic.Function.Basic
import Mathlib.Tactic.Common

/-!
# Rings with free-running counters

A ring of `n` slots shared by a producer and a consumer.  Each side counts in 16 bits, the counters
wrap, and the slot of a counter is its remainder modulo `n`.  `contents` is what has been produced
and not yet consumed, oldest first.

* `contents_put` — writing the slot behind the last entry changes no entry.
* `contents_advance` — moving the producer's counter makes the slot the last entry.
* `contents_take` — moving the consumer's counter removes the first entry.
-/

namespace AdvCpp.Lib

universe u

/-- Slots, and the counters of the consumer (`head`) and the producer (`tail`). -/
structure CounterRing (α : Type u) where
  slots : Nat → α
  head : BitVec 16
  tail : BitVec 16

namespace CounterRing

variable {α : Type u} {n : Nat} {r : CounterRing α} {x : α}

/-- The number of entries. -/
def size (r : CounterRing α) : Nat := (r.tail - r.head).toNat

/-- The entries, oldest first. -/
def contents (n : Nat) (r : CounterRing α) : List α :=
  (List.range r.size).map fun i => r.slots ((r.head.toNat + i) % n)

/-- Write the slot `off` behind the producer's counter. -/
def put (n : Nat) (r : CounterRing α) (x : α) (off : Nat) : CounterRing α :=
  { r with slots := Function.update r.slots ((r.tail.toNat + off) % n) x }

/-- Move the producer's counter. -/
def advance (r : CounterRing α) (cnt : Nat) : CounterRing α :=
  { r with tail := r.tail + BitVec.ofNat 16 cnt }

/-- The slot of the consumer's counter, which moves on; `none` if nothing is there. -/
def take (n : Nat) (r : CounterRing α) : Option (α × CounterRing α) :=
  if r.head = r.tail then none else some (r.slots (r.head.toNat % n), { r with head := r.head + 1 })

@[simp] theorem contents_length (n : Nat) (r : CounterRing α) : (r.contents n).length = r.size := by
  simp [contents]

/-- The counters differ by the number of entries, up to wrapping. -/
theorem tail_toNat (r : CounterRing α) : r.tail.toNat = (r.head.toNat + r.size) % 2 ^ 16 := by
  unfold size
  rw [BitVec.toNat_sub]
  have hh := r.head.isLt
  have ht := r.tail.isLt
  omega

theorem tail_mod (hn : n ∣ 2 ^ 16) (r : CounterRing α) :
    r.tail.toNat % n = (r.head.toNat + r.size) % n := by
  rw [tail_toNat, Nat.mod_mod_of_dvd _ hn]

/-- **Writing the slot behind the last entry changes no entry.** -/
theorem contents_put (hn : n ∣ 2 ^ 16) {off : Nat} (hfull : r.size + off < n) (x : α) :
    (r.put n x off).contents n = r.contents n := by
  unfold contents
  refine List.map_congr_left fun i hi => ?_
  have hi : i < r.size := List.mem_range.1 hi
  show Function.update r.slots ((r.tail.toNat + off) % n) x ((r.head.toNat + i) % n) = _
  rw [Function.update_of_ne]
  intro he
  have hmod : (r.head.toNat + i) % n = (r.head.toNat + (r.size + off)) % n := by
    rw [he, Nat.add_mod, tail_mod hn, ← Nat.add_mod, Nat.add_assoc]
  have hcancel : i % n = (r.size + off) % n := Nat.ModEq.add_left_cancel' r.head.toNat hmod
  rw [Nat.mod_eq_of_lt (by omega), Nat.mod_eq_of_lt hfull] at hcancel
  omega

theorem size_advance {cnt : Nat} (h : r.size + cnt < 2 ^ 16) :
    (r.advance cnt).size = r.size + cnt := by
  unfold size at h ⊢
  unfold advance
  simp only [BitVec.toNat_sub, BitVec.toNat_add, BitVec.toNat_ofNat] at h ⊢
  have hh := r.head.isLt
  have ht := r.tail.isLt
  omega

/-- **The producer's counter moves over one slot.** -/
theorem contents_advance (hn : n ∣ 2 ^ 16) (h : r.size + 1 < 2 ^ 16) :
    (r.advance 1).contents n = r.contents n ++ [r.slots (r.tail.toNat % n)] := by
  unfold contents
  rw [size_advance h, List.range_succ, List.map_append, List.map_singleton, tail_mod hn]
  rfl

/-- **Writing a slot and moving the counter over it.** -/
theorem contents_push (hn : n ∣ 2 ^ 16) (hlt : n < 2 ^ 16) (hfull : r.size < n) (x : α) :
    ((r.put n x 0).advance 1).contents n = r.contents n ++ [x] := by
  have hsize : (r.put n x 0).size = r.size := rfl
  rw [contents_advance hn (by omega), contents_put hn (by omega)]
  show r.contents n ++ [Function.update r.slots ((r.tail.toNat + 0) % n) x (r.tail.toNat % n)] = _
  rw [Nat.add_zero, Function.update_self]

theorem size_take (hne : r.head ≠ r.tail) : r.size = ({ r with head := r.head + 1 }).size + 1 := by
  have hne' : r.head.toNat ≠ r.tail.toNat := fun he => hne (BitVec.eq_of_toNat_eq he)
  unfold size
  have hone : (1 : BitVec 16).toNat = 1 := rfl
  simp only [BitVec.toNat_sub, BitVec.toNat_add, hone]
  have hh := r.head.isLt
  have ht := r.tail.isLt
  omega

/-- **The consumer's counter moves over one slot.** -/
theorem contents_take (hn : n ∣ 2 ^ 16) {r' : CounterRing α} (h : r.take n = some (x, r')) :
    r.contents n = x :: r'.contents n := by
  unfold take at h
  split at h
  · cases h
  · rename_i hne
    cases h
    have hsize := size_take hne
    unfold contents
    rw [hsize, List.range_succ_eq_map, List.map_cons, List.map_map]
    refine congrArg _ (List.map_congr_left fun i _ => ?_)
    show r.slots ((r.head.toNat + (i + 1)) % n) = r.slots (((r.head + 1).toNat + i) % n)
    have hhead : (r.head + 1).toNat % n = (r.head.toNat + 1) % n := by
      rw [BitVec.toNat_add, Nat.mod_mod_of_dvd _ hn]
      rfl
    rw [Nat.add_mod (r.head + 1).toNat, hhead, ← Nat.add_mod, Nat.add_assoc, Nat.add_comm 1 i]

theorem take_eq_none : r.take n = none ↔ r.contents n = [] := by
  rw [← List.length_eq_zero_iff, contents_length]
  unfold take
  by_cases he : r.head = r.tail
  · simp [he, size]
  · have := size_take he
    simp only [he, if_false, reduceCtorEq, false_iff]
    omega

/-- Slots written one after another behind the producer's counter. -/
theorem put_range (f : Nat → α) (ht : r.tail = 0) :
    ∀ {m : Nat}, m ≤ n → (List.range m).foldl (fun r i => r.put n (f i) i) r =
      { r with slots := fun j => if j < m then f j else r.slots j }
  | 0, _ => by simp
  | m + 1, hm => by
    rw [List.range_succ, List.foldl_append, put_range f ht (Nat.le_of_succ_le hm)]
    have hslot : (r.tail.toNat + m) % n = m := by
      have hzero : (0 : BitVec 16).toNat = 0 := rfl
      rw [ht, hzero, Nat.zero_add, Nat.mod_eq_of_lt hm]
    simp only [List.foldl_cons, List.foldl_nil, put, hslot]
    congr 1
    funext j
    by_cases hj : j = m
    · subst hj
      simp
    · have hlt : j < m + 1 ↔ j < m := by omega
      simp [hj, hlt]

/-- **An empty ring is filled**, and the counter moved over all slots at once. -/
theorem contents_fill (f : Nat → α) (hn : n < 2 ^ 16) (hh : r.head = 0) (ht : r.tail = 0) :
    (((List.range n).foldl (fun r i => r.put n (f i) i) r).advance n).contents n =
      (List.range n).map f := by
  have hsize : r.size = 0 := by
    unfold size
    rw [hh, ht]
    rfl
  rw [put_range f ht (Nat.le_refl n)]
  unfold contents
  rw [size_advance (by show r.size + n < 2 ^ 16; omega)]
  show (List.range (r.size + n)).map (fun i => if (r.head.toNat + i) % n < n then
    f ((r.head.toNat + i) % n) else r.slots ((r.head.toNat + i) % n)) = _
  rw [hsize, hh, Nat.zero_add]
  refine List.map_congr_left fun i hi => ?_
  have hi : i < n := List.mem_range.1 hi
  have hzero : (0 : BitVec 16).toNat = 0 := rfl
  rw [hzero, Nat.zero_add, Nat.mod_eq_of_lt hi, if_pos hi]

end CounterRing

end AdvCpp.Lib
