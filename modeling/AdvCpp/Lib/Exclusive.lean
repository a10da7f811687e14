import Mathlib.Data.List.Nodup
import Mathlib.Data.List.Perm.Subperm
import Mathlib.Logic.Function.Basic
import Mathlib.Logic.ExistsUnique
import Mathlib.Tactic.Common

/-!
# One operation for every owner

A table of outstanding operations some of which have an owner (`own`): the pattern of an event
loop that keeps exactly one operation in flight for every client.  `Exclusive` says that the live
owners are exactly the owners of the entries and that no owner has two entries; the lemmas say how
it is kept when an entry changes, is retired, is followed by another one of the same owner, when
an owner is born, and when entries without an owner come and go.

* `Exclusive.existsUnique` — a live owner has exactly one entry.
* `Exclusive.requeue` — the next operation of the same owner.
* `Roster` — the same for a list of operations, each of which has an owner.
-/

namespace AdvCpp.Lib

universe u v

variable {α : Type u} {ι : Type v} {ops : Nat → Option α} {own : α → Option ι}
  {live live' : ι → Prop}

/-- Every live owner has exactly one entry, and every owner of an entry is live. -/
structure Exclusive (ops : Nat → Option α) (own : α → Option ι) (live : ι → Prop) : Prop where
  inj : ∀ {k k' : Nat} {a a' : α} {i : ι}, ops k = some a → ops k' = some a' → own a = some i →
    own a' = some i → k = k'
  live_iff : ∀ i, live i ↔ ∃ k a, ops k = some a ∧ own a = some i

namespace Exclusive

theorem empty (own : α → Option ι) : Exclusive (fun _ => none) own (fun _ => False) :=
  ⟨by rintro _ _ _ _ _ ⟨⟩, fun i => ⟨False.elim, by rintro ⟨_, _, ⟨⟩, _⟩⟩⟩

theorem congr (h : Exclusive ops own live) (hl : ∀ i, live' i ↔ live i) :
    Exclusive ops own live' :=
  ⟨h.inj, fun i => (hl i).trans (h.live_iff i)⟩

theorem live_own (h : Exclusive ops own live) {k : Nat} {a : α} {i : ι} (hk : ops k = some a)
    (ha : own a = some i) : live i :=
  (h.live_iff i).2 ⟨k, a, hk, ha⟩

/-- **A live owner has exactly one operation in flight.** -/
theorem existsUnique (h : Exclusive ops own live) {i : ι} (hi : live i) :
    ∃! k, ∃ a, ops k = some a ∧ own a = some i := by
  obtain ⟨k, a, hk, ha⟩ := (h.live_iff i).1 hi
  refine ⟨k, ⟨a, hk, ha⟩, ?_⟩
  rintro k' ⟨a', hk', ha'⟩
  exact h.inj hk' hk ha' ha

theorem not_mem (h : Exclusive ops own live) {i : ι} (hi : ¬live i) {k : Nat} {a : α}
    (hk : ops k = some a) : own a ≠ some i :=
  fun ha => hi (h.live_own hk ha)

/-- Two entries under different keys have different owners. -/
theorem own_ne (h : Exclusive ops own live) {k k' : Nat} {a a' : α} {i : ι} (hk : ops k = some a)
    (ha : own a = some i) (hk' : ops k' = some a') (hne : k' ≠ k) : own a' ≠ some i :=
  fun ha' => hne (h.inj hk' hk ha' ha)

/-- Tables with the same owners under the same keys. -/
theorem of_own_eq (h : Exclusive ops own live) {ops' : Nat → Option α}
    (he : ∀ k, (ops' k).bind own = (ops k).bind own) : Exclusive ops' own live := by
  have hiff : ∀ {k i}, (∃ a, ops' k = some a ∧ own a = some i) ↔
      ∃ a, ops k = some a ∧ own a = some i := by
    intro k i
    rw [← Option.bind_eq_some_iff, ← Option.bind_eq_some_iff, he]
  refine ⟨fun {k₁ k₂ a₁ a₂ i} h₁ h₂ ho₁ ho₂ => ?_, fun i => ?_⟩
  · obtain ⟨b₁, hb₁, hc₁⟩ := hiff.1 ⟨a₁, h₁, ho₁⟩
    obtain ⟨b₂, hb₂, hc₂⟩ := hiff.1 ⟨a₂, h₂, ho₂⟩
    exact h.inj hb₁ hb₂ hc₁ hc₂
  · rw [h.live_iff]
    exact exists_congr fun k => hiff.symm

/-- An entry changes but keeps its owner. -/
theorem set (h : Exclusive ops own live) {k : Nat} {a b : α} (hk : ops k = some a)
    (hb : own b = own a) : Exclusive (Function.update ops k (some b)) own live := by
  refine h.of_own_eq fun k' => ?_
  by_cases hkk : k' = k
  · subst hkk
    rw [Function.update_self, hk]
    exact hb
  · rw [Function.update_of_ne hkk]

/-- An entry without an owner is added. -/
theorem add_unowned (h : Exclusive ops own live) {k : Nat} {b : α} (hk : ops k = none)
    (hb : own b = none) : Exclusive (Function.update ops k (some b)) own live := by
  refine h.of_own_eq fun k' => ?_
  by_cases hkk : k' = k
  · subst hkk
    rw [Function.update_self, hk]
    exact hb
  · rw [Function.update_of_ne hkk]

/-- An entry without an owner is removed. -/
theorem remove_unowned (h : Exclusive ops own live) {k : Nat} {a : α} (hk : ops k = some a)
    (ha : own a = none) : Exclusive (Function.update ops k none) own live := by
  refine h.of_own_eq fun k' => ?_
  by_cases hkk : k' = k
  · subst hkk
    rw [Function.update_self, hk]
    exact ha.symm
  · rw [Function.update_of_ne hkk]

/-- An operation completes and its owner goes with it. -/
theorem retire (h : Exclusive ops own live) {k : Nat} {a : α} {i : ι} (hk : ops k = some a)
    (ha : own a = some i) :
    Exclusive (Function.update ops k none) own (fun j => live j ∧ j ≠ i) := by
  have hold : ∀ {k' a'}, Function.update ops k none k' = some a' → k' ≠ k ∧ ops k' = some a' := by
    intro k' a' h'
    by_cases hkk : k' = k
    · rw [hkk, Function.update_self] at h'
      cases h'
    · rw [Function.update_of_ne hkk] at h'
      exact ⟨hkk, h'⟩
  refine ⟨fun {k₁ k₂ a₁ a₂ j} h₁ h₂ ho₁ ho₂ => h.inj (hold h₁).2 (hold h₂).2 ho₁ ho₂, fun j => ?_⟩
  rw [h.live_iff]
  constructor
  · rintro ⟨⟨k', a', hk', ha'⟩, hne⟩
    have hkk : k' ≠ k := by
      rintro rfl
      rw [hk] at hk'
      cases hk'
      exact hne (Option.some.inj (ha'.symm.trans ha))
    exact ⟨k', a', by rw [Function.update_of_ne hkk]; exact hk', ha'⟩
  · rintro ⟨k', a', hk', ha'⟩
    obtain ⟨hne, hk'⟩ := hold hk'
    refine ⟨⟨k', a', hk', ha'⟩, ?_⟩
    rintro rfl
    exact h.own_ne hk ha hk' hne ha'

/-- The first operation of a new owner. -/
theorem spawn (h : Exclusive ops own live) {k : Nat} {b : α} {i : ι} (hk : ops k = none)
    (hb : own b = some i) (hi : ¬live i) :
    Exclusive (Function.update ops k (some b)) own (fun j => live j ∨ j = i) := by
  have hcases : ∀ {k' a'}, Function.update ops k (some b) k' = some a' →
      (k' = k ∧ a' = b) ∨ ops k' = some a' := by
    intro k' a' h'
    by_cases hkk : k' = k
    · rw [hkk, Function.update_self] at h'
      cases h'
      exact Or.inl ⟨hkk, rfl⟩
    · rw [Function.update_of_ne hkk] at h'
      exact Or.inr h'
  refine ⟨fun {k₁ k₂ a₁ a₂ j} h₁ h₂ ho₁ ho₂ => ?_, fun j => ?_⟩
  · rcases hcases h₁ with ⟨rfl, rfl⟩ | g₁ <;> rcases hcases h₂ with ⟨rfl, rfl⟩ | g₂
    · rfl
    · exact absurd (ho₂.trans (ho₁.symm.trans hb)) (h.not_mem hi g₂)
    · exact absurd (ho₁.trans (ho₂.symm.trans hb)) (h.not_mem hi g₁)
    · exact h.inj g₁ g₂ ho₁ ho₂
  · rw [h.live_iff]
    constructor
    · rintro (⟨k', a', hk', ha'⟩ | rfl)
      · have hkk : k' ≠ k := by
          rintro rfl
          rw [hk] at hk'
          cases hk'
        exact ⟨k', a', by rw [Function.update_of_ne hkk]; exact hk', ha'⟩
      · exact ⟨k, b, Function.update_self .., hb⟩
    · rintro ⟨k', a', hk', ha'⟩
      rcases hcases hk' with ⟨-, rfl⟩ | hk'
      · exact Or.inr (Option.some.inj (ha'.symm.trans hb))
      · exact Or.inl ⟨k', a', hk', ha'⟩

/-- **The next operation of the same owner.** -/
theorem requeue (h : Exclusive ops own live) {k n : Nat} {a b : α} {i : ι} (hk : ops k = some a)
    (ha : own a = some i) (hn : ops n = none) (hb : own b = some i) :
    Exclusive (Function.update (Function.update ops k none) n (some b)) own live := by
  have hnk : Function.update ops k none n = none := by
    by_cases hkk : n = k
    · rw [hkk, Function.update_self]
    · rw [Function.update_of_ne hkk, hn]
  refine ((h.retire hk ha).spawn hnk hb (fun hi => hi.2 rfl)).congr fun j => ?_
  constructor
  · intro hj
    by_cases hji : j = i
    · exact Or.inr hji
    · exact Or.inl ⟨hj, hji⟩
  · rintro (⟨hj, -⟩ | rfl)
    · exact hj
    · exact h.live_own hk ha

end Exclusive

/-- What holds of the new entry and of the other ones holds of the updated table. -/
theorem forall_update {P : Nat → α → Prop} {k : Nat} {o : Option α}
    (ho : ∀ a, o = some a → P k a) (h : ∀ k' a, k' ≠ k → ops k' = some a → P k' a) :
    ∀ k' a, Function.update ops k o k' = some a → P k' a := by
  intro k' a hk'
  by_cases hkk : k' = k
  · subst hkk
    rw [Function.update_self] at hk'
    exact ho a hk'
  · rw [Function.update_of_ne hkk] at hk'
    exact h k' a hkk hk'

/-- The same for an entry that is removed and followed by a new one. -/
theorem forall_requeue {P : Nat → α → Prop} {k n : Nat} {b : α} (hb : P n b)
    (h : ∀ k' a, k' ≠ k → ops k' = some a → P k' a) :
    ∀ k' a, Function.update (Function.update ops k none) n (some b) k' = some a → P k' a := by
  refine forall_update (by rintro _ ⟨⟩; exact hb) fun k' a _ hk' => ?_
  exact forall_update (P := P) (o := none) (by rintro _ ⟨⟩) h k' a hk'

/-! ## Lists of operations -/

/-- The live owners are those of the operations `ops`, and each has one. -/
structure Roster (ops : List α) (owner : α → ι) (live : ι → Prop) : Prop where
  nodup : (ops.map owner).Nodup
  live_iff : ∀ i, live i ↔ i ∈ ops.map owner

namespace Roster

variable {l l' : List α} {owner : α → ι} {a b : α} {i : ι}

theorem nil (h : ∀ i, ¬live i) : Roster [] owner live :=
  ⟨List.nodup_nil, fun i => iff_of_false (h i) List.not_mem_nil⟩

theorem congr (h : Roster l owner live) (hl : ∀ i, live' i ↔ live i) : Roster l owner live' :=
  ⟨h.nodup, fun i => (hl i).trans (h.live_iff i)⟩

theorem perm (h : Roster l owner live) (hp : l.Perm l') : Roster l' owner live :=
  ⟨(hp.map owner).nodup_iff.1 h.nodup, fun i => (h.live_iff i).trans (hp.map owner).mem_iff⟩

/-- The other operations are those of other owners. -/
theorem owner_ne (h : Roster (a :: l) owner live) (hb : b ∈ l) : owner b ≠ owner a := by
  intro he
  refine (List.nodup_cons.1 h.nodup).1 ?_
  rw [← he]
  exact List.mem_map_of_mem hb

/-- **The next operation of the same owner.** -/
theorem requeue (h : Roster (a :: l) owner live) (hb : owner b = owner a) :
    Roster (b :: l) owner live := by
  have hmap : (b :: l).map owner = (a :: l).map owner := by rw [List.map_cons, List.map_cons, hb]
  exact ⟨hmap ▸ h.nodup, fun i => hmap ▸ h.live_iff i⟩

/-- An operation completes and its owner goes with it. -/
theorem retire (h : Roster (a :: l) owner live) (hl : ∀ i, live' i ↔ live i ∧ i ≠ owner a) :
    Roster l owner live' := by
  obtain ⟨hnot, hnodup⟩ := List.nodup_cons.1 h.nodup
  refine ⟨hnodup, fun i => ?_⟩
  rw [hl, h.live_iff, List.map_cons, List.mem_cons]
  constructor
  · rintro ⟨rfl | hi, hne⟩
    · exact absurd rfl hne
    · exact hi
  · intro hi
    refine ⟨Or.inr hi, ?_⟩
    rintro rfl
    exact hnot hi

/-- The first operation of a new owner. -/
theorem spawn (h : Roster l owner live) (hnew : ¬live (owner a))
    (hl : ∀ i, live' i ↔ live i ∨ i = owner a) : Roster (a :: l) owner live' := by
  have hnot : owner a ∉ l.map owner := fun hmem => hnew ((h.live_iff _).2 hmem)
  refine ⟨List.nodup_cons.2 ⟨hnot, h.nodup⟩, fun i => ?_⟩
  rw [hl, h.live_iff, List.map_cons, List.mem_cons, or_comm]

/-- **A live owner has exactly one operation, another one has none.** -/
theorem count [DecidableEq ι] [∀ i, Decidable (live i)] (h : Roster l owner live) (i : ι) :
    (l.map owner).count i = if live i then 1 else 0 := by
  by_cases hi : live i
  · rw [if_pos hi]
    exact List.count_eq_one_of_mem h.nodup ((h.live_iff i).1 hi)
  · rw [if_neg hi]
    exact List.count_eq_zero_of_not_mem fun hmem => hi ((h.live_iff i).2 hmem)

/-- There are no more operations than owners. -/
theorem length_le {owner : α → Nat} {live : Nat → Prop} {n : Nat} (h : Roster l owner live)
    (hn : ∀ i, live i → i < n) : l.length ≤ n := by
  have hsub : l.map owner ⊆ List.range n := fun i hi =>
    List.mem_range.2 (hn i ((h.live_iff i).2 hi))
  simpa using (h.nodup.subperm hsub).length_le

end Roster

end AdvCpp.Lib
