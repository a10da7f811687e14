import Mathlib.Data.List.Basic
import Mathlib.Data.List.TakeWhile
import Mathlib.Data.Nat.Basic
import Mathlib.Tactic.Common

/-!
# Numerals

* `LongestPrefix` — the longest prefix of a list with a property, and when it is a `takeWhile`.
* `horner` — the value of a list of digits, high digit first.
* `saturate`, `saturate_above` — the value with a bound, computed digit by digit.
* `bytesOf` — the bytes of a string literal.
-/

namespace AdvCpp.Lib

universe u

/-- The bytes of a string of ASCII characters. -/
def bytesOf (s : String) : List UInt8 := s.toList.map Char.toUInt8

/-! ## Longest prefixes -/

section LongestPrefix

variable {α : Type u} {P : List α → Prop} {l w w' : List α}

structure LongestPrefix (P : List α → Prop) (l w : List α) : Prop where
  isPrefix : w <+: l
  holds : P w
  longest : ∀ w', w' <+: l → P w' → w'.length ≤ w.length

theorem LongestPrefix.unique (h : LongestPrefix P l w) (h' : LongestPrefix P l w') : w = w' := by
  have hle := h.longest w' h'.isPrefix h'.holds
  have hge := h'.longest w h.isPrefix h.holds
  exact (List.prefix_of_prefix_length_le h.isPrefix h'.isPrefix hge).eq_of_length_le hle

/-- A prefix all of whose elements satisfy `p` is a prefix of the `takeWhile`. -/
theorem prefix_takeWhile {p : α → Bool} (h : w <+: l) (hw : ∀ c ∈ w, p c) :
    w <+: l.takeWhile p := by
  obtain ⟨t, rfl⟩ := h
  rw [List.takeWhile_append_of_pos hw]
  exact List.prefix_append _ _

/-- The split of a list at the first element that does not satisfy `p`. -/
theorem takeWhile_dropWhile_unique {p : α → Bool} {ws rest : List α} (hws : ∀ c ∈ ws, p c)
    (hrest : ∀ c, rest.head? = some c → p c = false) :
    (ws ++ rest).takeWhile p = ws ∧ (ws ++ rest).dropWhile p = rest := by
  have hnil : rest.takeWhile p = [] ∧ rest.dropWhile p = rest := by
    cases rest with
    | nil => exact ⟨rfl, rfl⟩
    | cons c rest =>
      have hc := hrest c rfl
      exact ⟨List.takeWhile_cons_of_neg (by simp [hc]), List.dropWhile_cons_of_neg (by simp [hc])⟩
  rw [List.takeWhile_append_of_pos hws, List.dropWhile_append_of_pos hws, hnil.1, hnil.2]
  exact ⟨List.append_nil ws, rfl⟩

end LongestPrefix

/-! ## The value of digits -/

/-- The value of the digits `ds`, high digit first, behind a number `v`. -/
def hornerFrom (b : Nat) (v : Nat) (ds : List Nat) : Nat := ds.foldl (fun v d => v * b + d) v

def horner (b : Nat) (ds : List Nat) : Nat := hornerFrom b 0 ds

@[simp] theorem hornerFrom_nil (b v : Nat) : hornerFrom b v [] = v := rfl

@[simp] theorem hornerFrom_cons (b v d : Nat) (ds : List Nat) :
    hornerFrom b v (d :: ds) = hornerFrom b (v * b + d) ds := rfl

/-- Digits do not make a number smaller. -/
theorem le_hornerFrom {b : Nat} (hb : 0 < b) (v : Nat) (ds : List Nat) : v ≤ hornerFrom b v ds := by
  induction ds generalizing v with
  | nil => exact Nat.le_refl v
  | cons d ds ih =>
    have hle : v ≤ v * b := Nat.le_mul_of_pos_right v hb
    exact (hle.trans (Nat.le_add_right _ d)).trans (ih (v * b + d))

/-- A number, or the bound `M` and the fact that the number is above it. -/
def saturate (M v : Nat) : Nat × Bool := if v ≤ M then (v, false) else (M, true)

/-- The test for overflow that does not overflow itself. -/
theorem div_lt_iff_lt_mul_add {M b d v : Nat} (hb : 0 < b) (hd : d ≤ M) :
    (M - d) / b < v ↔ M < v * b + d := by
  rw [Nat.div_lt_iff_lt_mul hb]
  omega

/-- Above the bound, the next digit changes nothing. -/
theorem saturate_above {M b d v : Nat} (hb : 0 < b) (hv : M < v) :
    saturate M (v * b + d) = saturate M v := by
  have hle : v ≤ v * b := Nat.le_mul_of_pos_right v hb
  rw [saturate, saturate, if_neg (by omega), if_neg (by omega)]

end AdvCpp.Lib
