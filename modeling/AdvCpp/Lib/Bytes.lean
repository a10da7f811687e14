import Mathlib.Data.List.Basic
import Mathlib.Data.List.TakeDrop
import Mathlib.Tactic.Common

/-!
# Positional reads and writes

Files and buffers as lists.  `pread f off n` is the part of `f` a positional read of `n` elements
returns, `pwrite z f off d` is `f` after the elements `d` are written at `off`, the gap between
the old end and `off` being filled with `z` (a hole of a sparse file).

* `pwrite_end` — writing at or behind the end appends the data to the padded file.
* `pwrite_front` — writing at the start of a longer buffer replaces a prefix.
-/

namespace AdvCpp.Lib

universe u

variable {α : Type u}

/-- What a read of `n` elements at `off` returns. -/
def pread (f : List α) (off n : Nat) : List α := (f.drop off).take n

/-- The file after `d` is written at `off`. -/
def pwrite (z : α) (f : List α) (off : Nat) (d : List α) : List α :=
  if d = [] then f else (f.rightpad off z).take off ++ d ++ f.drop (off + d.length)

@[simp] theorem pread_length (f : List α) (off n : Nat) :
    (pread f off n).length = min n (f.length - off) := by
  simp [pread]

theorem pread_take {f : List α} {off n m : Nat} (h : m ≤ n) :
    (pread f off n).take m = pread f off m := by
  simp [pread, List.take_take, Nat.min_eq_left h]

/-- A read from the first `n` elements, and what it leaves of them. -/
theorem pread_append_drop {f : List α} {n off r : Nat} (hr : r ≤ n - off) :
    pread f off r ++ (f.take n).drop (off + r) = (f.take n).drop off := by
  have htake : pread f off r = ((f.take n).drop off).take r := by
    rw [pread, List.drop_take, List.take_take, Nat.min_eq_left hr]
  rw [htake, ← List.drop_drop, List.take_append_drop]

@[simp] theorem pwrite_nil (z : α) (f : List α) (off : Nat) : pwrite z f off [] = f := by
  simp [pwrite]

theorem pwrite_end {z : α} {f d : List α} {off : Nat} (hd : d ≠ []) (h : f.length ≤ off) :
    pwrite z f off d = f.rightpad off z ++ d := by
  have hlen : (f.rightpad off z).length = off := by simp [List.rightpad]; omega
  have hdrop : f.drop (off + d.length) = [] := List.drop_eq_nil_of_le (by omega)
  rw [pwrite, if_neg hd, hdrop, List.append_nil, List.take_of_length_le (Nat.le_of_eq hlen)]

theorem pwrite_end_length {z : α} {f d : List α} {off : Nat} (h : f.length ≤ off) :
    (pwrite z f off d).length ≤ off + d.length := by
  by_cases hd : d = []
  · subst hd; simp; omega
  · rw [pwrite_end hd h]; simp [List.rightpad]; omega

theorem pwrite_front (z : α) (f d : List α) : pwrite z f 0 d = d ++ f.drop d.length := by
  by_cases hd : d = []
  · subst hd; simp
  · simp [pwrite, hd]

theorem take_pwrite_front (z : α) (f d : List α) : (pwrite z f 0 d).take d.length = d := by
  rw [pwrite_front, List.take_left]

/-- Writing inside the buffer: what is there up to the end of the data. -/
theorem take_pwrite {z : α} {f : List α} {off : Nat} (h : off ≤ f.length) (d : List α) :
    (pwrite z f off d).take (off + d.length) = f.take off ++ d := by
  by_cases hd : d = []
  · subst hd
    simp
  · have hpad : f.rightpad off z = f := by
      rw [List.rightpad, Nat.sub_eq_zero_of_le h, List.replicate_zero, List.append_nil]
    have hlen : (f.take off ++ d).length = off + d.length := by
      rw [List.length_append, List.length_take, Nat.min_eq_left h]
    rw [pwrite, if_neg hd, hpad, ← hlen, List.take_left]

theorem le_length_pwrite {z : α} {f : List α} {off : Nat} (h : off ≤ f.length) (d : List α) :
    off + d.length ≤ (pwrite z f off d).length := by
  have htake := congrArg List.length (take_pwrite (z := z) h d)
  rw [List.length_take, List.length_append, List.length_take, Nat.min_eq_left h] at htake
  omega

/-- Padding to a longer length does not change what is already there. -/
theorem rightpad_append_eq_take {z : α} {f d g : List α} {off n : Nat} (hoff : off ≤ g.length)
    (hf : f.length ≤ off) (_ : d.length ≤ n - off) (hn : off ≤ n) :
    (f.rightpad off z ++ d).rightpad n z = g.take n ↔
      f.rightpad off z = g.take off ∧
        d ++ List.replicate (n - off - d.length) z = (g.drop off).take (n - off) := by
  have hlen : (f.rightpad off z).length = off := by simp [List.rightpad]; omega
  have hsplit : g.take n = g.take off ++ (g.drop off).take (n - off) := by
    rw [← List.take_add, Nat.add_sub_cancel' hn]
  have hpad : (f.rightpad off z ++ d).rightpad n z =
      f.rightpad off z ++ (d ++ List.replicate (n - off - d.length) z) := by
    rw [List.rightpad, List.length_append, hlen, List.append_assoc, Nat.sub_add_eq]
  rw [hpad, hsplit]
  constructor
  · intro h
    exact List.append_inj h (by rw [hlen, List.length_take]; omega)
  · rintro ⟨h1, h2⟩
    rw [h1, h2]

/-- Only the first `w` elements written: the rest of the first `m` were padding already. -/
theorem take_append_replicate_eq_take {z : α} {l : List α} {w m : Nat} (hw : w ≤ m)
    (hm : m ≤ l.length) :
    l.take w ++ List.replicate (m - w) z = l.take m ↔ ∀ j, w ≤ j → j < m → l[j]? = some z := by
  have hsplit : l.take m = l.take w ++ (l.drop w).take (m - w) := by
    rw [← List.take_add, Nat.add_sub_cancel' hw]
  rw [hsplit, List.append_cancel_left_eq, eq_comm, List.eq_replicate_iff]
  constructor
  · rintro ⟨-, h⟩ j h1 h2
    rw [List.getElem?_eq_getElem (by omega), h l[j]]
    rw [List.mem_iff_getElem]
    exact ⟨j - w, by simp; omega, by simp [Nat.add_sub_cancel' h1]⟩
  · intro h
    refine ⟨by simp; omega, fun x hx => ?_⟩
    obtain ⟨j, hj, rfl⟩ := List.mem_iff_getElem.1 hx
    simp at hj
    have := h (w + j) (by omega) (by omega)
    rw [List.getElem?_eq_getElem (by omega)] at this
    simpa using this

end AdvCpp.Lib
