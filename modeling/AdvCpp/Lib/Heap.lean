import Mathlib.Data.List.AList

/-!
# A heap whose addresses are used again

An object lives at an address from its allocation until it is freed, and a later object may get the
same address.  Every object has a number of its own that no operation reads: a pointer remembers the
number of the object that it was taken from, so that "the pointer dangles" can be said although the
address is in use.

* `Heap.At` — an object lives where a pointer says, with its value.
* `at_alloc_iff`, `at_write_iff`, `at_free_iff` — what the three operations do, for every pointer.
-/

namespace AdvCpp.Lib

universe u

/-- An address and the object that it was taken from. -/
structure Ptr where
  addr : Nat
  object : Nat
  deriving DecidableEq

/-- A memory allocator: an address that is not in use, for the addresses in use and the number of
the object. -/
structure Allocator where
  place : List Nat → Nat → Nat
  fresh : ∀ used n, place used n ∉ used

/-- The address above all that are in use. -/
def Allocator.top : Allocator where
  place used _ := used.foldr max 0 + 1
  fresh used _ hmem := by
    have hle : ∀ l : List Nat, ∀ a ∈ l, a ≤ l.foldr max 0 := by
      intro l
      induction l with
      | nil => rintro _ ⟨⟩
      | cons b l ih =>
        intro a ha
        rcases List.mem_cons.1 ha with rfl | ha
        · exact Nat.le_max_left _ _
        · exact Nat.le_trans (ih a ha) (Nat.le_max_right _ _)
    exact absurd (hle used _ hmem) (Nat.not_succ_le_self _)

/-- The objects by address; their numbers are below `next` and different. -/
structure Heap (α : Type u) where
  cells : AList fun _ : Nat => Nat × α
  next : Nat
  lt : ∀ a n v, cells.lookup a = some (n, v) → n < next
  inj : ∀ a a' n v v', cells.lookup a = some (n, v) → cells.lookup a' = some (n, v') → a = a'

namespace Heap

variable {α : Type u} {m : Heap α} {A : Allocator} {p q : Ptr} {v w : α} {a : Nat}

/-- The object that `p` was taken from lives at its address and has the value `v`. -/
def At (m : Heap α) (p : Ptr) (v : α) : Prop := m.cells.lookup p.addr = some (p.object, v)

/-- What is at an address, whichever object that is. -/
def read (m : Heap α) (a : Nat) : Option (Nat × α) := m.cells.lookup a

def empty : Heap α where
  cells := ∅
  next := 0
  lt := by simp
  inj := by simp

def alloc (m : Heap α) (A : Allocator) (v : α) : Heap α × Ptr :=
  let a := A.place m.cells.keys m.next
  (⟨m.cells.insert a (m.next, v), m.next + 1,
    fun a' n w h => by
      by_cases ha : a' = a
      · subst ha
        rw [AList.lookup_insert] at h
        cases h
        exact Nat.lt_succ_self _
      · rw [AList.lookup_insert_ne ha] at h
        exact Nat.lt_succ_of_lt (m.lt a' n w h),
    fun a₁ a₂ n v₁ v₂ h₁ h₂ => by
      by_cases ha₁ : a₁ = a <;> by_cases ha₂ : a₂ = a
      · exact ha₁.trans ha₂.symm
      · subst ha₁
        rw [AList.lookup_insert] at h₁
        rw [AList.lookup_insert_ne ha₂] at h₂
        cases h₁
        exact absurd (m.lt _ _ _ h₂) (Nat.lt_irrefl _)
      · subst ha₂
        rw [AList.lookup_insert_ne ha₁] at h₁
        rw [AList.lookup_insert] at h₂
        cases h₂
        exact absurd (m.lt _ _ _ h₁) (Nat.lt_irrefl _)
      · rw [AList.lookup_insert_ne ha₁] at h₁
        rw [AList.lookup_insert_ne ha₂] at h₂
        exact m.inj a₁ a₂ n v₁ v₂ h₁ h₂⟩,
    ⟨a, m.next⟩)

/-- The object at an address, if there is one, gets a new value. -/
def write (m : Heap α) (a : Nat) (v : α) : Heap α :=
  match h : m.cells.lookup a with
  | none => m
  | some (n, _) =>
    ⟨m.cells.insert a (n, v), m.next,
      fun a' n' w h' => by
        by_cases ha : a' = a
        · subst ha
          rw [AList.lookup_insert] at h'
          cases h'
          exact m.lt _ _ _ h
        · rw [AList.lookup_insert_ne ha] at h'
          exact m.lt a' n' w h',
      fun a₁ a₂ n' v₁ v₂ h₁ h₂ => by
        by_cases ha₁ : a₁ = a <;> by_cases ha₂ : a₂ = a
        · exact ha₁.trans ha₂.symm
        · subst ha₁
          rw [AList.lookup_insert] at h₁
          rw [AList.lookup_insert_ne ha₂] at h₂
          cases h₁
          exact m.inj _ _ _ _ _ h h₂
        · subst ha₂
          rw [AList.lookup_insert_ne ha₁] at h₁
          rw [AList.lookup_insert] at h₂
          cases h₂
          exact m.inj _ _ _ _ _ h₁ h
        · rw [AList.lookup_insert_ne ha₁] at h₁
          rw [AList.lookup_insert_ne ha₂] at h₂
          exact m.inj _ _ _ _ _ h₁ h₂⟩

def free (m : Heap α) (a : Nat) : Heap α where
  cells := m.cells.erase a
  next := m.next
  lt := fun a' n w h => by
    by_cases ha : a' = a
    · subst ha
      rw [AList.lookup_erase] at h
      cases h
    · rw [AList.lookup_erase_ne ha] at h
      exact m.lt a' n w h
  inj := fun a₁ a₂ n v₁ v₂ h₁ h₂ => by
    by_cases ha₁ : a₁ = a
    · subst ha₁
      rw [AList.lookup_erase] at h₁
      cases h₁
    by_cases ha₂ : a₂ = a
    · subst ha₂
      rw [AList.lookup_erase] at h₂
      cases h₂
    rw [AList.lookup_erase_ne ha₁] at h₁
    rw [AList.lookup_erase_ne ha₂] at h₂
    exact m.inj a₁ a₂ n v₁ v₂ h₁ h₂

/-! ## Pointers -/

theorem At.read_eq (h : m.At p v) : m.read p.addr = some (p.object, v) := h

theorem At.value_eq (h : m.At p v) (h' : m.At p w) : v = w := by
  have heq := h.symm.trans h'
  cases heq
  rfl

/-- One object at an address. -/
theorem At.eq_of_addr (h : m.At p v) (h' : m.At q w) (ha : p.addr = q.addr) : p = q := by
  unfold At at h h'
  rw [ha, h'] at h
  cases p
  cases q
  cases ha
  cases h
  rfl

/-- One address for an object. -/
theorem At.eq_of_object (h : m.At p v) (h' : m.At q w) (ho : p.object = q.object) : p = q := by
  have ha : p.addr = q.addr := by
    unfold At at h h'
    rw [ho] at h
    exact m.inj _ _ _ _ _ h h'
  exact h.eq_of_addr h' ha

theorem At.lt_next (h : m.At p v) : p.object < m.next := m.lt _ _ _ h

@[simp] theorem not_at_empty : ¬(empty : Heap α).At p v := by
  simp [At, empty]

/-! ## The operations -/

@[simp] theorem write_next : (m.write a v).next = m.next := by
  unfold write
  split <;> rfl

theorem At.ne_alloc (h : m.At q w) : q ≠ (m.alloc A v).2 := by
  rintro rfl
  exact absurd h.lt_next (Nat.lt_irrefl _)

/-- **Allocation** adds one object and leaves the others alone. -/
theorem at_alloc_iff : (m.alloc A v).1.At q w ↔ (q = (m.alloc A v).2 ∧ w = v) ∨ m.At q w := by
  have hfree : m.cells.lookup (A.place m.cells.keys m.next) = none :=
    AList.lookup_eq_none.2 fun hmem => A.fresh _ _ (AList.mem_keys.1 hmem)
  show (m.cells.insert _ _).lookup q.addr = _ ↔ _
  by_cases ha : q.addr = A.place m.cells.keys m.next
  · rw [ha, AList.lookup_insert]
    have hnot : ¬m.At q w := by
      unfold At
      rw [ha, hfree]
      exact fun h => by cases h
    obtain ⟨qa, qo⟩ := q
    cases ha
    simp only [hnot, or_false, alloc, Option.some.injEq, Prod.mk.injEq, Ptr.mk.injEq, true_and]
    exact and_congr eq_comm eq_comm
  · rw [AList.lookup_insert_ne ha]
    refine ⟨Or.inr, ?_⟩
    rintro (⟨rfl, -⟩ | h)
    · exact absurd rfl ha
    · exact h

theorem at_alloc_self : (m.alloc A v).1.At (m.alloc A v).2 v := at_alloc_iff.2 (Or.inl ⟨rfl, rfl⟩)

theorem At.alloc (h : m.At q w) : (m.alloc A v).1.At q w := at_alloc_iff.2 (Or.inr h)

/-- **Writing** through a pointer that does not dangle changes that object only. -/
theorem at_write_iff {u : α} (h : m.At p u) :
    (m.write p.addr v).At q w ↔ (q = p ∧ w = v) ∨ (q ≠ p ∧ m.At q w) := by
  have hcells : (m.write p.addr v).cells = m.cells.insert p.addr (p.object, v) := by
    unfold write
    split
    · rename_i hnone
      rw [h] at hnone
      cases hnone
    · rename_i n u' hsome
      rw [h] at hsome
      cases hsome
      rfl
  show (m.write p.addr v).cells.lookup q.addr = _ ↔ _
  rw [hcells]
  by_cases ha : q.addr = p.addr
  · rw [ha, AList.lookup_insert]
    obtain ⟨pa, po⟩ := p
    obtain ⟨qa, qo⟩ := q
    cases ha
    constructor
    · intro heq
      cases heq
      exact Or.inl ⟨rfl, rfl⟩
    · rintro (⟨heq, rfl⟩ | ⟨hne, hat⟩)
      · cases heq
        rfl
      · exact absurd (hat.eq_of_addr h rfl) hne
  · rw [AList.lookup_insert_ne ha]
    have hne : q ≠ p := fun heq => ha (congrArg Ptr.addr heq)
    constructor
    · exact fun hat => Or.inr ⟨hne, hat⟩
    · rintro (⟨heq, -⟩ | ⟨-, hat⟩)
      · exact absurd heq hne
      · exact hat

theorem At.write_self {u : α} (h : m.At p u) : (m.write p.addr v).At p v :=
  (at_write_iff h).2 (Or.inl ⟨rfl, rfl⟩)

theorem At.write {u : α} (hq : m.At q w) (h : m.At p u) (hne : q ≠ p) : (m.write p.addr v).At q w :=
  (at_write_iff h).2 (Or.inr ⟨hne, hq⟩)

/-- **Freeing** through a pointer that does not dangle removes that object only. -/
theorem at_free_iff {u : α} (h : m.At p u) : (m.free p.addr).At q w ↔ q ≠ p ∧ m.At q w := by
  show (m.cells.erase p.addr).lookup q.addr = _ ↔ _
  by_cases ha : q.addr = p.addr
  · rw [ha, AList.lookup_erase]
    refine iff_of_false (by rintro ⟨⟩) ?_
    rintro ⟨hne, hat⟩
    exact hne (hat.eq_of_addr h ha)
  · rw [AList.lookup_erase_ne ha]
    have hne : q ≠ p := fun heq => ha (congrArg Ptr.addr heq)
    exact ⟨fun hat => ⟨hne, hat⟩, And.right⟩

theorem At.free {u : α} (hq : m.At q w) (h : m.At p u) (hne : q ≠ p) : (m.free p.addr).At q w :=
  (at_free_iff h).2 ⟨hne, hq⟩

end Heap

end AdvCpp.Lib
