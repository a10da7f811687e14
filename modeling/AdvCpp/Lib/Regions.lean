import Mathlib.Data.List.Basic
import Mathlib.Data.List.Pairwise

/-!
# Regions of an address range

A buffer that is cut into regions, one behind the other and possibly with gaps.

* `Stacked` — the regions of a list lie in order between two bounds.
* `Stacked.disjoint`, `Stacked.within` — then no two overlap, and all are inside the bounds.
* `stacked_array` — the elements of an array.
-/

namespace AdvCpp.Lib

structure Region where
  offset : Nat
  size : Nat
  deriving DecidableEq

namespace Region

/-- The first address behind the region. -/
def stop (r : Region) : Nat := r.offset + r.size

def Disjoint (a b : Region) : Prop := a.stop ≤ b.offset ∨ b.stop ≤ a.offset

def shift (k : Nat) (r : Region) : Region := ⟨k + r.offset, r.size⟩

def Inside (a b : Region) : Prop := b.offset ≤ a.offset ∧ a.stop ≤ b.stop

instance (a b : Region) : Decidable (a.Disjoint b) := by
  unfold Disjoint
  exact inferInstance

theorem Disjoint.symm {a b : Region} (h : a.Disjoint b) : b.Disjoint a := Or.symm h

end Region

/-- The regions lie in order, and without overlap, from `lo` to `hi`. -/
def Stacked (lo hi : Nat) : List Region → Prop
  | [] => lo ≤ hi
  | r :: rs => lo ≤ r.offset ∧ Stacked r.stop hi rs

section Stacked

variable {lo lo' mid hi hi' : Nat} {rs rs' : List Region} {r : Region}

theorem Stacked.le (h : Stacked lo hi rs) : lo ≤ hi := by
  induction rs generalizing lo with
  | nil => exact h
  | cons r rs ih =>
    have hrest := ih h.2
    have hstart := h.1
    unfold Region.stop at hrest
    omega

theorem Stacked.mono (h : Stacked lo hi rs) (hlo : lo' ≤ lo) (hhi : hi ≤ hi') :
    Stacked lo' hi' rs := by
  induction rs generalizing lo lo' with
  | nil => exact Nat.le_trans hlo (Nat.le_trans h hhi)
  | cons r rs ih => exact ⟨Nat.le_trans hlo h.1, ih h.2 (Nat.le_refl _)⟩

theorem Stacked.append (h : Stacked lo mid rs) (h' : Stacked mid hi rs') :
    Stacked lo hi (rs ++ rs') := by
  induction rs generalizing lo with
  | nil => exact h'.mono h (Nat.le_refl _)
  | cons r rs ih => exact ⟨h.1, ih h.2⟩

/-- Every region is inside the bounds. -/
theorem Stacked.within (h : Stacked lo hi rs) (hr : r ∈ rs) : lo ≤ r.offset ∧ r.stop ≤ hi := by
  induction rs generalizing lo with
  | nil => cases hr
  | cons r' rs ih =>
    rcases List.mem_cons.1 hr with rfl | hr
    · exact ⟨h.1, h.2.le⟩
    · obtain ⟨hstart, hstop⟩ := ih h.2 hr
      have hfirst := h.1
      unfold Region.stop at hstart hstop ⊢
      exact ⟨by omega, hstop⟩

/-- **No two regions overlap.** -/
theorem Stacked.disjoint (h : Stacked lo hi rs) : rs.Pairwise Region.Disjoint := by
  induction rs generalizing lo with
  | nil => exact List.Pairwise.nil
  | cons r rs ih =>
    exact List.Pairwise.cons (fun _ hr => Or.inl (h.2.within hr).1) (ih h.2)

/-- Some of the regions. -/
theorem Stacked.sublist (h : Stacked lo hi rs) (hsub : rs'.Sublist rs) : Stacked lo hi rs' := by
  induction hsub generalizing lo with
  | slnil => exact h
  | cons r hsub ih => exact (ih h.2).mono (Nat.le_trans h.1 (Nat.le_add_right _ _)) (Nat.le_refl _)
  | cons_cons r hsub ih => exact ⟨h.1, ih h.2⟩

/-- Everything `k` further up. -/
theorem Stacked.shift (h : Stacked lo hi rs) (k : Nat) :
    Stacked (k + lo) (k + hi) (rs.map (Region.shift k)) := by
  induction rs generalizing lo with
  | nil => exact Nat.add_le_add_left h k
  | cons r rs ih =>
    refine ⟨Nat.add_le_add_left h.1 k, ?_⟩
    have hrest := ih h.2
    rwa [Region.stop, ← Nat.add_assoc] at hrest

end Stacked

/-- The elements of an array. -/
def arrayRegions (base size n : Nat) : List Region :=
  (List.range n).map fun i => ⟨base + i * size, size⟩

theorem mem_arrayRegions {base size n : Nat} {r : Region} :
    r ∈ arrayRegions base size n ↔ ∃ i, i < n ∧ r = ⟨base + i * size, size⟩ := by
  simp only [arrayRegions, List.mem_map, List.mem_range]
  exact exists_congr fun i => and_congr_right fun _ => eq_comm

theorem stacked_array (base size n : Nat) :
    Stacked base (base + n * size) (arrayRegions base size n) := by
  induction n with
  | zero =>
    show base ≤ base + 0 * size
    omega
  | succ n ih =>
    have hlast : Stacked (base + n * size) (base + (n + 1) * size) [⟨base + n * size, size⟩] := by
      refine ⟨Nat.le_refl _, ?_⟩
      show base + n * size + size ≤ base + (n + 1) * size
      rw [Nat.succ_mul]
      omega
    rw [arrayRegions, List.range_succ, List.map_append]
    exact ih.append hlast

end AdvCpp.Lib
