import Mathlib.Data.List.Basic
import Mathlib.Data.List.Infix

/-!
# Traces

* `Always` — every event is allowed after those before it.
* `switched` — whether the last event that switches something on is still in force.
-/

namespace AdvCpp.Lib

variable {ε : Type*}

/-- Every event of the trace is allowed after those before it. -/
def Always (allowed : List ε → ε → Prop) (t : List ε) : Prop :=
  ∀ a e b, t = a ++ e :: b → allowed a e

section Always

variable {allowed : List ε → ε → Prop} {t : List ε} {e : ε}

theorem always_nil : Always allowed [] := by
  intro a e b h
  cases a <;> cases h

theorem always_concat : Always allowed (t ++ [e]) ↔ Always allowed t ∧ allowed t e := by
  constructor
  · intro h
    exact ⟨fun a x b ht => h a x (b ++ [e]) (by rw [ht]; simp), h t e [] rfl⟩
  · rintro ⟨h, he⟩ a x b hb
    rcases List.eq_nil_or_concat b with rfl | ⟨b', y, rfl⟩
    · obtain ⟨rfl, hx⟩ := List.append_inj' hb rfl
      cases hx
      exact he
    · have hsplit : t ++ [e] = (a ++ x :: b') ++ [y] := by rw [hb]; simp
      exact h a x b' (List.append_inj_left' hsplit rfl)

/-- What is only allowed if it has not happened happens once. -/
theorem Always.count_le_one [DecidableEq ε] {x : ε} (hx : ∀ a, allowed a x → x ∉ a)
    (h : Always allowed t) : t.count x ≤ 1 := by
  induction t using List.reverseRecOn with
  | nil => exact Nat.zero_le _
  | append_singleton t e ih =>
    obtain ⟨ht, he⟩ := always_concat.1 h
    rw [List.count_append, List.count_singleton]
    by_cases hex : e = x
    · subst hex
      have hzero := List.count_eq_zero.2 (hx t he)
      simp [hzero]
    · have hle := ih ht
      simpa [hex] using hle

/-- What is only allowed before `x` happens before it. -/
theorem Always.mem_before {x y : ε} {a b : List ε} (h : Always allowed t) (hne : y ≠ x)
    (hy : ∀ a, allowed a y → x ∉ a) (hmem : y ∈ t) (ht : t = a ++ x :: b) : y ∈ a := by
  rw [ht, List.mem_append, List.mem_cons] at hmem
  rcases hmem with hmem | heq | hmem
  · exact hmem
  · exact absurd heq hne
  · obtain ⟨u, w, rfl⟩ := List.append_of_mem hmem
    have hallowed := h (a ++ x :: u) y w (by rw [ht]; simp)
    exact absurd (List.mem_append_right _ List.mem_cons_self) (hy _ hallowed)

theorem Always.of_prefix {a : List ε} (h : Always allowed t) (ha : a <+: t) : Always allowed a := by
  obtain ⟨b, rfl⟩ := ha
  intro u e w hu
  exact h u e (w ++ b) (by rw [hu]; simp)

end Always

/-- Whether something is on: `off` has the last word of an event. -/
def switched (on off : ε → Bool) (t : List ε) : Bool :=
  t.foldl (fun b e => !off e && (b || on e)) false

section Switched

variable {on off : ε → Bool} {t : List ε} {e : ε}

theorem switched_concat :
    switched on off (t ++ [e]) = (!off e && (switched on off t || on e)) := by
  unfold switched
  rw [List.foldl_concat]

/-- Events that switch nothing. -/
theorem switched_concat_of_not (hon : on e = false) (hoff : off e = false) :
    switched on off (t ++ [e]) = switched on off t := by
  rw [switched_concat, hon, hoff, Bool.or_false]
  rfl

/-- **What is off again was switched off** after each event that switched it on. -/
theorem exists_off_of_switched (h : switched on off t = false) {a b : List ε}
    (ht : t = a ++ e :: b) (hon : on e = true) (hoff : off e = false) : ∃ x ∈ b, off x = true := by
  induction b using List.reverseRecOn generalizing t with
  | nil =>
    rw [ht, switched_concat, hon, hoff, Bool.or_true] at h
    cases h
  | append_singleton b x ih =>
    by_cases hx : off x = true
    · exact ⟨x, List.mem_append_right _ List.mem_cons_self, hx⟩
    · have hx' : off x = false := Bool.eq_false_iff.2 hx
      have hsplit : t = (a ++ e :: b) ++ [x] := by rw [ht]; simp
      rw [hsplit, switched_concat, hx'] at h
      have hbefore : switched on off (a ++ e :: b) = false := by
        cases hb : switched on off (a ++ e :: b)
        · rfl
        · rw [hb] at h
          cases h
      obtain ⟨y, hy, hyoff⟩ := ih hbefore rfl
      exact ⟨y, List.mem_append_left _ hy, hyoff⟩

end Switched

end AdvCpp.Lib
