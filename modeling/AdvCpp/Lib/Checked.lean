import Mathlib.Tactic.Common

/-!
# Computations that may throw

A computation that throws `ε` or returns is an `Except ε`.

* `bind_eq_ok`, `ensure_eq_ok` — what a computation that returned went through.
* `Alike` — two computations that return the same, or both throw.
-/

namespace AdvCpp.Lib

universe u v w

variable {ε : Type u} {ε' : Type w} {α β : Type v}

/-- `if (!p) throw e;` -/
def ensure (p : Prop) [Decidable p] (e : ε) : Except ε Unit := if p then .ok () else .error e

theorem ensure_eq_ok {p : Prop} [Decidable p] {e : ε} {u : Unit} : ensure p e = .ok u ↔ p := by
  unfold ensure
  split
  · rename_i h
    exact iff_of_true rfl h
  · rename_i h
    exact iff_of_false (by rintro ⟨⟩) h

@[simp] theorem ok_bind (a : α) (f : α → Except ε β) : (Except.ok a >>= f) = f a := rfl

@[simp] theorem error_bind (e : ε) (f : α → Except ε β) : (Except.error e >>= f) = .error e := rfl

theorem ensure_true {p : Prop} [Decidable p] (h : p) (e : ε) : ensure p e = .ok () := if_pos h

theorem ensure_false {p : Prop} [Decidable p] (h : ¬p) (e : ε) : ensure p e = .error e := if_neg h

/-- Both parts of a computation that returned have returned. -/
theorem bind_eq_ok {x : Except ε α} {f : α → Except ε β} {b : β} :
    (x >>= f) = .ok b ↔ ∃ a, x = .ok a ∧ f a = .ok b := by
  cases x with
  | error e => exact iff_of_false (by rintro ⟨⟩) (by rintro ⟨_, ⟨⟩, -⟩)
  | ok a =>
    constructor
    · exact fun h => ⟨a, rfl, h⟩
    · rintro ⟨a', ha, h⟩
      cases ha
      exact h

theorem map_eq_ok {x : Except ε α} {f : α → β} {b : β} :
    x.map f = .ok b ↔ ∃ a, x = .ok a ∧ f a = b := by
  cases x with
  | error e => exact iff_of_false (by rintro ⟨⟩) (by rintro ⟨_, ⟨⟩, -⟩)
  | ok a =>
    constructor
    · exact fun h => ⟨a, rfl, Except.ok.inj h⟩
    · rintro ⟨a', ha, rfl⟩
      cases ha
      rfl

/-- Both throw, or both return the same. -/
def Alike (x : Except ε α) (y : Except ε' α) : Prop :=
  ((∃ e, x = .error e) ∧ ∃ e, y = .error e) ∨ ∃ a, x = .ok a ∧ y = .ok a

theorem alike_iff {x : Except ε α} {y : Except ε' α} : Alike x y ↔ ∀ a, x = .ok a ↔ y = .ok a := by
  constructor
  · rintro (⟨⟨e, rfl⟩, e', rfl⟩ | ⟨a, rfl, rfl⟩) a'
    · exact iff_of_false (by rintro ⟨⟩) (by rintro ⟨⟩)
    · constructor
      · exact fun h => congrArg Except.ok (Except.ok.inj h)
      · exact fun h => congrArg Except.ok (Except.ok.inj h)
  · intro h
    cases x with
    | ok a => exact Or.inr ⟨a, rfl, (h a).1 rfl⟩
    | error e =>
      cases y with
      | ok a => cases (h a).2 rfl
      | error e' => exact Or.inl ⟨⟨e, rfl⟩, e', rfl⟩

end AdvCpp.Lib
