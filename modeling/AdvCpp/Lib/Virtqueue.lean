import AdvCpp.Lib.CounterRing
import Mathlib.Data.List.Perm.Basic

/-!
# Split virtqueues

Two rings with free-running counters: the driver posts descriptor ids in the avail ring, the device
pops them in order, holds them, and returns them in any order through the used ring.  The memory of
both rings is shared; what the device holds is its own.

* `device` — the steps of a device that returns each id it popped exactly once.
* `Conserved` — every id is in one place, and the used entries are seen in the order of their
  return; `mine` is what the driver has taken out and not posted.
* `Conserved.device`, `Conserved.store`, `Conserved.post`, `Conserved.see` — each access keeps it.
-/

namespace AdvCpp.Lib

/-- The memory of both rings, the device's counter and ids, and what it has returned so far; the
device writes an entry of the used ring before it moves the counter over it. -/
structure Virtqueue where
  availRing : Nat → Nat
  availIdx : BitVec 16
  usedRing : Nat → Nat × Nat
  usedIdx : BitVec 16
  nextAvail : BitVec 16
  held : List Nat
  written : Option (Nat × Nat)
  returned : List (Nat × Nat)

inductive DeviceAction where
  | pop
  | write (id len : Nat)
  | publish
  deriving DecidableEq

namespace Virtqueue

/-- Zeroed memory, and a device that has just been reset. -/
def zero : Virtqueue := ⟨fun _ => 0, 0, fun _ => (0, 0), 0, 0, [], none, []⟩

/-- The ids posted and not popped, oldest first; `q` is the queue size. -/
def waiting (q : Nat) (v : Virtqueue) : List Nat :=
  CounterRing.contents q ⟨v.availRing, v.nextAvail, v.availIdx⟩

/-- The used entries from `pos` on. -/
def unseen (q : Nat) (v : Virtqueue) (pos : BitVec 16) : List (Nat × Nat) :=
  CounterRing.contents q ⟨v.usedRing, pos, v.usedIdx⟩

/-- A conforming device. -/
def device (q : Nat) (v : Virtqueue) : DeviceAction → Option Virtqueue
  | .pop =>
    if v.nextAvail = v.availIdx then none
    else some { v with
      nextAvail := v.nextAvail + 1, held := v.held ++ [v.availRing (v.nextAvail.toNat % q)] }
  | .write id len =>
    if id ∈ v.held ∧ v.written = none then some { v with
      usedRing := Function.update v.usedRing (v.usedIdx.toNat % q) (id, len)
      written := some (id, len) }
    else none
  | .publish =>
    match v.written with
    | none => none
    | some e => some { v with
        usedIdx := v.usedIdx + 1, held := v.held.erase e.1, written := none
        returned := v.returned ++ [e] }

/-- `avail_ring[idx % queue_size] = id`. -/
def store (q : Nat) (v : Virtqueue) (id : Nat) : Virtqueue :=
  { v with availRing := Function.update v.availRing (v.availIdx.toNat % q) id }

/-- `avail->idx = idx + 1`. -/
def post (v : Virtqueue) : Virtqueue := { v with availIdx := v.availIdx + 1 }

/-- **Every id is in one place**: posted, with the device, returned and not seen, or the driver's.
The entries that the device returned are seen in their order. -/
structure Conserved (q : Nat) (ids : List Nat) (v : Virtqueue) (pos : BitVec 16) (mine : List Nat)
    (seen : List (Nat × Nat)) : Prop where
  places : (v.waiting q ++ (v.held ++ ((v.unseen q pos).map Prod.fst ++ mine))).Perm ids
  written : ∀ e, v.written = some e → e.1 ∈ v.held ∧ v.usedRing (v.usedIdx.toNat % q) = e
  history : v.returned = seen ++ v.unseen q pos

variable {q : Nat} {ids mine mine' : List Nat} {v v' : Virtqueue} {pos : BitVec 16}
  {seen : List (Nat × Nat)}

/-! ## The rings -/

theorem waiting_eq_nil : v.waiting q = [] ↔ v.nextAvail = v.availIdx := by
  rw [waiting, ← CounterRing.take_eq_none]
  unfold CounterRing.take
  by_cases h : v.nextAvail = v.availIdx
  · simp [h]
  · simp [h]

theorem unseen_eq_nil : v.unseen q pos = [] ↔ pos = v.usedIdx := by
  rw [unseen, ← CounterRing.take_eq_none]
  unfold CounterRing.take
  by_cases h : pos = v.usedIdx
  · simp [h]
  · simp [h]

theorem unseen_length : (v.unseen q pos).length = (v.usedIdx - pos).toNat :=
  CounterRing.contents_length q _

theorem waiting_cons (hq : q ∣ 2 ^ 16) (h : v.nextAvail ≠ v.availIdx) :
    v.waiting q = v.availRing (v.nextAvail.toNat % q) ::
      waiting q { v with nextAvail := v.nextAvail + 1 } :=
  CounterRing.contents_take hq (if_neg h)

theorem unseen_cons (hq : q ∣ 2 ^ 16) (h : pos ≠ v.usedIdx) :
    v.unseen q pos = v.usedRing (pos.toNat % q) :: v.unseen q (pos + 1) :=
  CounterRing.contents_take hq (if_neg h)

theorem waiting_store (hq : q ∣ 2 ^ 16) (h : (v.waiting q).length < q) (id : Nat) :
    (v.store q id).waiting q = v.waiting q := by
  rw [waiting, CounterRing.contents_length] at h
  have hroom : CounterRing.size ⟨v.availRing, v.nextAvail, v.availIdx⟩ + 0 < q := h
  exact CounterRing.contents_put hq hroom id

theorem waiting_post (hq : q ∣ 2 ^ 16) (hlt : q < 2 ^ 16) (h : (v.waiting q).length < q) :
    v.post.waiting q = v.waiting q ++ [v.availRing (v.availIdx.toNat % q)] := by
  rw [waiting, CounterRing.contents_length] at h
  have hroom : CounterRing.size ⟨v.availRing, v.nextAvail, v.availIdx⟩ + 1 < 2 ^ 16 := by omega
  exact CounterRing.contents_advance hq hroom

theorem unseen_written (hq : q ∣ 2 ^ 16) (h : (v.unseen q pos).length < q) (e : Nat × Nat) :
    unseen q { v with
      usedRing := Function.update v.usedRing (v.usedIdx.toNat % q) e, written := some e } pos =
      v.unseen q pos := by
  rw [unseen, CounterRing.contents_length] at h
  have hroom : CounterRing.size ⟨v.usedRing, pos, v.usedIdx⟩ + 0 < q := h
  exact CounterRing.contents_put hq hroom e

theorem unseen_publish (hq : q ∣ 2 ^ 16) (hlt : q < 2 ^ 16) (h : (v.unseen q pos).length < q) :
    unseen q { v with usedIdx := v.usedIdx + 1 } pos =
      v.unseen q pos ++ [v.usedRing (v.usedIdx.toNat % q)] := by
  rw [unseen, CounterRing.contents_length] at h
  have hroom : CounterRing.size ⟨v.usedRing, pos, v.usedIdx⟩ + 1 < 2 ^ 16 := by omega
  exact CounterRing.contents_advance hq hroom

/-- What a step of the device is. -/
theorem device_cases {a : DeviceAction} (h : v.device q a = some v') :
    (v.nextAvail ≠ v.availIdx ∧ v' = { v with
      nextAvail := v.nextAvail + 1, held := v.held ++ [v.availRing (v.nextAvail.toNat % q)] }) ∨
    (∃ e : Nat × Nat, e.1 ∈ v.held ∧ v.written = none ∧ v' = { v with
      usedRing := Function.update v.usedRing (v.usedIdx.toNat % q) e, written := some e }) ∨
    ∃ e, v.written = some e ∧ v' = { v with
      usedIdx := v.usedIdx + 1, held := v.held.erase e.1, written := none
      returned := v.returned ++ [e] } := by
  cases a with
  | pop =>
    simp only [device] at h
    split at h
    · cases h
    · rename_i hne
      exact Or.inl ⟨hne, (Option.some.inj h).symm⟩
  | write id len =>
    simp only [device] at h
    split at h
    · rename_i hguard
      exact Or.inr (Or.inl ⟨(id, len), hguard.1, hguard.2, (Option.some.inj h).symm⟩)
    · cases h
  | publish =>
    simp only [device] at h
    split at h
    · cases h
    · rename_i e he
      exact Or.inr (Or.inr ⟨e, he, (Option.some.inj h).symm⟩)

/-- The avail ring is the driver's. -/
theorem device_avail {a : DeviceAction} (h : v.device q a = some v') :
    v'.availRing = v.availRing ∧ v'.availIdx = v.availIdx := by
  rcases device_cases h with ⟨-, rfl⟩ | ⟨e, -, -, rfl⟩ | ⟨e, -, rfl⟩
  · exact ⟨rfl, rfl⟩
  · exact ⟨rfl, rfl⟩
  · exact ⟨rfl, rfl⟩

/-! ## Conservation -/

theorem zero_conserved : Conserved q ids zero 0 ids [] := by
  have hwaiting : zero.waiting q = [] := waiting_eq_nil.2 rfl
  have hunseen : zero.unseen q 0 = [] := unseen_eq_nil.2 rfl
  refine ⟨?_, by rintro _ ⟨⟩, ?_⟩
  · rw [hwaiting, hunseen]
    exact List.Perm.refl _
  · rw [hunseen]
    rfl

/-- The first `n` ids posted at once, to a device that has done nothing yet. -/
theorem posted_conserved {f : Nat → Nat} {n : Nat} (hn : n ≤ q) (hlt : q < 2 ^ 16)
    (hf : ∀ j < n, f j = j) :
    Conserved q (List.range n) { zero with availRing := f, availIdx := BitVec.ofNat 16 n } 0 [] [] := by
  have hunseen : unseen q { zero with availRing := f, availIdx := BitVec.ofNat 16 n } 0 = [] :=
    unseen_eq_nil.2 rfl
  have hsize : CounterRing.size ⟨f, 0, BitVec.ofNat 16 n⟩ = n := by
    show (BitVec.ofNat 16 n - 0#16).toNat = n
    rw [BitVec.sub_zero, BitVec.toNat_ofNat, Nat.mod_eq_of_lt (by omega)]
  have hwaiting : waiting q { zero with availRing := f, availIdx := BitVec.ofNat 16 n } =
      List.range n := by
    show CounterRing.contents q ⟨f, 0, BitVec.ofNat 16 n⟩ = _
    rw [CounterRing.contents, hsize]
    refine (List.map_congr_left fun j hj => ?_).trans (List.map_id _)
    have hj := List.mem_range.1 hj
    show f ((0 + j) % q) = j
    rw [Nat.zero_add, Nat.mod_eq_of_lt (by omega), hf j hj]
  refine ⟨?_, by rintro _ ⟨⟩, ?_⟩
  · rw [hunseen, hwaiting]
    show (List.range n ++ ([] ++ ([] ++ []))).Perm (List.range n)
    simp
  · rw [hunseen]
    rfl

/-- The driver's ids in another order. -/
theorem Conserved.of_perm (h : Conserved q ids v pos mine seen) (hmine : mine.Perm mine') :
    Conserved q ids v pos mine' seen :=
  { h with
    places := ((hmine.symm.append_left _).append_left _).append_left _ |>.trans h.places }

/-- How many ids are where. -/
theorem Conserved.length (h : Conserved q ids v pos mine seen) :
    (v.waiting q).length + v.held.length + (v.unseen q pos).length + mine.length = ids.length := by
  have hlen := h.places.length_eq
  simp only [List.length_append, List.length_map] at hlen
  omega

theorem Conserved.count (h : Conserved q ids v pos mine seen) (id : Nat) :
    (v.waiting q).count id + v.held.count id + ((v.unseen q pos).map Prod.fst).count id +
      mine.count id = ids.count id := by
  have hcount := List.perm_iff_count.1 h.places id
  simp only [List.count_append] at hcount
  omega

theorem Conserved.of_count
    (hcount : ∀ id, (v.waiting q).count id + v.held.count id +
      ((v.unseen q pos).map Prod.fst).count id + mine.count id = ids.count id)
    (hwritten : ∀ e, v.written = some e → e.1 ∈ v.held ∧ v.usedRing (v.usedIdx.toNat % q) = e)
    (hhistory : v.returned = seen ++ v.unseen q pos) : Conserved q ids v pos mine seen := by
  refine ⟨List.perm_iff_count.2 fun id => ?_, hwritten, hhistory⟩
  have hid := hcount id
  simp only [List.count_append]
  omega

section Rings

variable (hq : q ∣ 2 ^ 16) (hlt : q < 2 ^ 16) (hlen : ids.length ≤ q)
include hq hlt hlen

/-- **The device** moves ids, and loses or invents none. -/
theorem Conserved.device (h : Conserved q ids v pos mine seen) {a : DeviceAction}
    (hs : v.device q a = some v') : Conserved q ids v' pos mine seen := by
  have hroom := h.length
  rcases device_cases hs with ⟨hne, rfl⟩ | ⟨e, hheld, -, rfl⟩ | ⟨e, he, rfl⟩
  · refine Conserved.of_count (fun id => ?_) (fun e he => ?_) h.history
    · have hcount := h.count id
      rw [waiting_cons hq hne, List.count_cons] at hcount
      show (waiting q { v with nextAvail := v.nextAvail + 1 }).count id +
        (v.held ++ [v.availRing (v.nextAvail.toNat % q)]).count id +
          ((v.unseen q pos).map Prod.fst).count id + mine.count id = ids.count id
      rw [List.count_append, List.count_singleton]
      omega
    · obtain ⟨hheld, hslot⟩ := h.written e he
      exact ⟨List.mem_append_left _ hheld, hslot⟩
  · have hpos := List.length_pos_of_mem hheld
    have hunseen := unseen_written hq (by omega : (v.unseen q pos).length < q) e
    refine Conserved.of_count (fun id => ?_) (fun e' he' => ?_) ?_
    · rw [hunseen]
      exact h.count id
    · cases he'
      exact ⟨hheld, Function.update_self _ _ _⟩
    · rw [hunseen]
      exact h.history
  · obtain ⟨hheld, hslot⟩ := h.written e he
    have hpos := List.length_pos_of_mem hheld
    have hunseen := unseen_publish hq hlt (by omega : (v.unseen q pos).length < q)
    rw [hslot] at hunseen
    refine Conserved.of_count (fun id => ?_) (by rintro _ ⟨⟩) ?_
    · have hcount := h.count id
      have herase := (List.perm_cons_erase hheld).count_eq id
      rw [List.count_cons] at herase
      show (v.waiting q).count id + (v.held.erase e.1).count id +
        ((unseen q { v with usedIdx := v.usedIdx + 1 } pos).map Prod.fst).count id +
          mine.count id = ids.count id
      rw [hunseen, List.map_append, List.count_append, List.map_singleton, List.count_singleton]
      omega
    · show v.returned ++ [e] = seen ++ unseen q { v with usedIdx := v.usedIdx + 1 } pos
      rw [hunseen, h.history, List.append_assoc]

/-- The device only adds used entries. -/
theorem Conserved.device_unseen (h : Conserved q ids v pos mine seen) {a : DeviceAction}
    (hs : v.device q a = some v') : v.unseen q pos <+: v'.unseen q pos := by
  have hroom := h.length
  rcases device_cases hs with ⟨-, rfl⟩ | ⟨e, hheld, -, rfl⟩ | ⟨e, he, rfl⟩
  · exact List.prefix_refl _
  · have hpos := List.length_pos_of_mem hheld
    have hsame := unseen_written hq (by omega : (v.unseen q pos).length < q) e
    exact ⟨[], by rw [hsame, List.append_nil]⟩
  · have hpos := List.length_pos_of_mem (h.written e he).1
    have hunseen := unseen_publish hq hlt (by omega : (v.unseen q pos).length < q)
    exact ⟨_, hunseen.symm⟩

omit hlt in
/-- **Writing a slot** behind what is posted. -/
theorem Conserved.store (h : Conserved q ids v pos mine seen) (hmine : 0 < mine.length) (id : Nat) :
    Conserved q ids (v.store q id) pos mine seen ∧ (v.store q id).waiting q = v.waiting q := by
  have hroom := h.length
  have hwaiting := waiting_store hq (by omega : (v.waiting q).length < q) id
  refine ⟨⟨?_, h.written, h.history⟩, hwaiting⟩
  rw [hwaiting]
  exact h.places

/-- **Posting** the id in the slot. -/
theorem Conserved.post (h : Conserved q ids v pos mine seen) {id : Nat} (hmine : id ∈ mine)
    (hslot : v.availRing (v.availIdx.toNat % q) = id) :
    Conserved q ids v.post pos (mine.erase id) seen ∧ v.post.waiting q = v.waiting q ++ [id] := by
  have hroom := h.length
  have hpos := List.length_pos_of_mem hmine
  have hwaiting := waiting_post hq hlt (by omega : (v.waiting q).length < q)
  rw [hslot] at hwaiting
  refine ⟨Conserved.of_count (fun x => ?_) h.written h.history, hwaiting⟩
  have hcount := h.count x
  have herase := (List.perm_cons_erase hmine).count_eq x
  rw [List.count_cons] at herase
  rw [hwaiting, List.count_append, List.count_singleton]
  show (v.waiting q).count x + _ + v.held.count x + ((v.unseen q pos).map Prod.fst).count x +
    (mine.erase id).count x = ids.count x
  omega

omit hlt hlen in
/-- **Seeing** the next used entry. -/
theorem Conserved.see (h : Conserved q ids v pos mine seen) (hne : pos ≠ v.usedIdx) :
    Conserved q ids v (pos + 1) ((v.usedRing (pos.toNat % q)).1 :: mine)
      (seen ++ [v.usedRing (pos.toNat % q)]) := by
  have hunseen := unseen_cons hq hne
  refine Conserved.of_count (fun x => ?_) h.written ?_
  · have hcount := h.count x
    rw [hunseen, List.map_cons, List.count_cons] at hcount
    rw [List.count_cons]
    omega
  · rw [h.history, hunseen, List.append_assoc]
    rfl

end Rings

end Virtqueue

end AdvCpp.Lib
