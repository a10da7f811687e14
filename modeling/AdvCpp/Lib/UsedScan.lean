import AdvCpp.Lib.Virtqueue

/-!
# Scans of a used ring

A driver reads the used index, and then looks at the entries up to it one after the other while the
device goes on.  It hands each id back before it looks at the next entry, or keeps it.

* `Between`, `Taken` — where a scan stands between two entries, and while an entry is processed.
* `Between.start`, `Between.take`, `Taken.store`, `Taken.post`, `Taken.keep`, `Between.finish` — the
  steps of the driver; `Between.device`, `Taken.device` — the device's.
* `Log` — what is in the buffers of the entries that the driver has not done with.
-/

namespace AdvCpp.Lib.Virtqueue

/-- A scan from `last` up to `current` that has come to the entry `i`. -/
structure Scan where
  last : BitVec 16
  current : BitVec 16
  i : Nat

namespace Scan

def count (c : Scan) : Nat := (c.current - c.last).toNat

/-- The counter of the entry. -/
def pos (c : Scan) : BitVec 16 := c.last + BitVec.ofNat 16 c.i

/-- Its slot in a ring of `q` entries. -/
def slot (q : Nat) (c : Scan) : Nat := (c.last.toNat + c.i) % q

def next (c : Scan) : Scan := { c with i := c.i + 1 }

theorem next_pos (c : Scan) : c.next.pos = c.pos + 1 := by
  show c.last + BitVec.ofNat 16 (c.i + 1) = c.last + BitVec.ofNat 16 c.i + 1
  rw [BitVec.ofNat_add, ← BitVec.add_assoc]
  rfl

theorem start_pos (last current : BitVec 16) : (Scan.mk last current 0).pos = last :=
  BitVec.add_zero _

/-- At its end a scan has come to what it read. -/
theorem pos_of_end {c : Scan} (h : c.i = c.count) : c.pos = c.current := by
  rw [pos, h, count, BitVec.ofNat_toNat, BitVec.setWidth_eq, BitVec.add_comm,
    BitVec.sub_add_cancel]

theorem slot_eq {q : Nat} (hq : q ∣ 2 ^ 16) (c : Scan) : c.slot q = c.pos.toNat % q := by
  unfold slot pos
  rw [BitVec.toNat_add, BitVec.toNat_ofNat, Nat.mod_mod_of_dvd _ hq, Nat.add_mod,
    ← Nat.mod_mod_of_dvd c.i hq, ← Nat.add_mod]

end Scan

/-! ## The ids -/

/-- Between two entries; the driver has the ids `mine`. -/
structure Between (q : Nat) (ids : List Nat) (v : Virtqueue) (c : Scan) (mine : List Nat)
    (seen : List (Nat × Nat)) : Prop where
  conserved : Conserved q ids v c.pos mine seen
  le : c.i ≤ c.count
  unseen : c.count - c.i ≤ (v.unseen q c.pos).length

/-- While the entry `e` is processed; its id has not been posted yet. -/
structure Taken (q : Nat) (ids : List Nat) (v : Virtqueue) (c : Scan) (mine : List Nat)
    (seen : List (Nat × Nat)) (e : Nat × Nat) : Prop where
  conserved : Conserved q ids v (c.pos + 1) (e.1 :: mine) (seen ++ [e])
  lt : c.i < c.count
  unseen : c.count - (c.i + 1) ≤ (v.unseen q (c.pos + 1)).length

section Rules

variable {q : Nat} {ids mine : List Nat} {v v' : Virtqueue} {c : Scan} {seen : List (Nat × Nat)}
  {e : Nat × Nat} {last : BitVec 16}

theorem Between.start (h : Conserved q ids v last mine seen) :
    Between q ids v ⟨last, v.usedIdx, 0⟩ mine seen := by
  have hpos := Scan.start_pos last v.usedIdx
  refine ⟨?_, Nat.zero_le _, ?_⟩
  · rw [hpos]
    exact h
  · rw [hpos]
    exact Nat.le_of_eq unseen_length.symm

theorem Between.finish (h : Between q ids v c mine seen) (hi : ¬c.i < c.count) :
    Conserved q ids v c.current mine seen := by
  rw [← Scan.pos_of_end (Nat.le_antisymm h.le (Nat.not_lt.1 hi))]
  exact h.conserved

theorem Between.of_perm (h : Between q ids v c mine seen) {mine' : List Nat}
    (hperm : mine.Perm mine') : Between q ids v c mine' seen :=
  ⟨h.conserved.of_perm hperm, h.le, h.unseen⟩

/-- **The id is kept.** -/
theorem Taken.keep (h : Taken q ids v c mine seen e) :
    Between q ids v c.next (e.1 :: mine) (seen ++ [e]) := by
  refine ⟨?_, h.lt, ?_⟩
  · rw [Scan.next_pos]
    exact h.conserved
  · rw [Scan.next_pos]
    exact h.unseen

/-- The entry that is looked at has been published. -/
theorem Between.ne (h : Between q ids v c mine seen) (hi : c.i < c.count) : c.pos ≠ v.usedIdx := by
  intro heq
  have hunseen := h.unseen
  rw [unseen_eq_nil.2 heq, List.length_nil] at hunseen
  omega

section Ring

variable (hq : q ∣ 2 ^ 16)
include hq

/-- **The next entry.** -/
theorem Between.take (h : Between q ids v c mine seen) (hi : c.i < c.count) :
    Taken q ids v c mine seen (v.usedRing (c.slot q)) := by
  have hne := h.ne hi
  have hunseen := h.unseen
  rw [unseen_cons hq hne, List.length_cons] at hunseen
  rw [Scan.slot_eq hq]
  exact ⟨h.conserved.see hq hne, hi, by omega⟩

/-- The entry is the first one that has not been seen. -/
theorem Between.unseen_eq (h : Between q ids v c mine seen) (hi : c.i < c.count) :
    v.unseen q c.pos = v.usedRing (c.slot q) :: v.unseen q (c.pos + 1) := by
  rw [Scan.slot_eq hq]
  exact unseen_cons hq (h.ne hi)

variable (hlt : q < 2 ^ 16) (hlen : ids.length ≤ q)
include hlen

theorem Taken.store (h : Taken q ids v c mine seen e) (id : Nat) :
    Taken q ids (v.store q id) c mine seen e :=
  ⟨(h.conserved.store hq hlen (Nat.succ_pos _) id).1, h.lt, h.unseen⟩

include hlt

/-- **The id is handed back.** -/
theorem Taken.post (h : Taken q ids v c mine seen e) (hslot : v.availRing (v.availIdx.toNat % q) = e.1) :
    Between q ids v.post c.next mine (seen ++ [e]) := by
  obtain ⟨hpost, -⟩ := h.conserved.post hq hlt hlen List.mem_cons_self hslot
  rw [List.erase_cons_head, ← Scan.next_pos] at hpost
  refine ⟨hpost, h.lt, ?_⟩
  rw [Scan.next_pos]
  exact h.unseen

theorem Between.device (h : Between q ids v c mine seen) {a : DeviceAction} (hs : v.device q a = some v') :
    Between q ids v' c mine seen := by
  have hgrows := h.conserved.device_unseen hq hlt hlen hs
  exact ⟨h.conserved.device hq hlt hlen hs, h.le, h.unseen.trans hgrows.length_le⟩

theorem Taken.device (h : Taken q ids v c mine seen e) {a : DeviceAction} (hs : v.device q a = some v') :
    Taken q ids v' c mine seen e := by
  have hgrows := h.conserved.device_unseen hq hlt hlen hs
  exact ⟨h.conserved.device hq hlt hlen hs, h.lt, h.unseen.trans hgrows.length_le⟩

/-- The device does not change an entry that it has published. -/
theorem Between.entry_stable (h : Between q ids v c mine seen) (hi : c.i < c.count) {a : DeviceAction}
    (hs : v.device q a = some v') : v'.usedRing (c.slot q) = v.usedRing (c.slot q) := by
  have hgrows := h.conserved.device_unseen hq hlt hlen hs
  rw [h.unseen_eq hq hi, (h.device hq hlt hlen hs).unseen_eq hq hi] at hgrows
  exact (List.cons_prefix_cons.1 hgrows).1.symm

end Ring

theorem Taken.mem_ids (h : Taken q ids v c mine seen e) : e.1 ∈ ids :=
  h.conserved.places.subset
    (List.mem_append_right _ (List.mem_append_right _ (List.mem_append_right _ List.mem_cons_self)))

/-- The id is not one that the driver has already. -/
theorem Taken.not_mem (h : Taken q ids v c mine seen e) (hids : ids.Nodup) : e.1 ∉ mine := by
  have hnodup := h.conserved.places.nodup_iff.2 hids
  have hmine := (List.nodup_append.1 (List.nodup_append.1 (List.nodup_append.1 hnodup).2.1).2.1).2.1
  exact (List.nodup_cons.1 hmine).1

/-- The device does not hold what the driver processes. -/
theorem Taken.ne_held (h : Taken q ids v c mine seen e) (hids : ids.Nodup) {id : Nat} (hid : id ∈ v.held) :
    id ≠ e.1 := by
  rintro rfl
  have hnodup := h.conserved.places.nodup_iff.2 hids
  have hdisj := (List.nodup_append.1 (List.nodup_append.1 hnodup).2.1).2.2
  exact hdisj _ hid _ (List.mem_append_right _ List.mem_cons_self) rfl

/-! ## The buffers -/

variable {β : Type*} {buf : Nat → β} {log : List ((Nat × Nat) × β)} {n : Nat} {pos : BitVec 16}

/-- `log` are the entries that were returned, with what was in their buffers.  Behind the first `n`
entries, with which the driver is done, it still is. -/
structure Log (v : Virtqueue) (n : Nat) (buf : Nat → β) (log : List ((Nat × Nat) × β)) : Prop where
  entries : log.map Prod.fst = v.returned
  kept : ∀ d ∈ log.drop n, buf d.1.1 = d.2

/-- The entries that the device adds with one step. -/
def logged (v v' : Virtqueue) (buf : Nat → β) (log : List ((Nat × Nat) × β)) :
    List ((Nat × Nat) × β) :=
  log ++ (v'.returned.drop v.returned.length).map fun e => (e, buf e.1)

theorem Log.device (h : Log v n buf log) (hn : n ≤ v.returned.length) {a : DeviceAction}
    (hs : v.device q a = some v') : Log v' n buf (logged v v' buf log) := by
  have hlen : n ≤ log.length := by
    rw [← h.entries, List.length_map] at hn
    exact hn
  have hsame : v'.returned = v.returned → Log v' n buf (logged v v' buf log) := by
    intro he
    have hlog : logged v v' buf log = log := by
      rw [logged, he, List.drop_length, List.map_nil, List.append_nil]
    rw [hlog]
    exact ⟨h.entries.trans he.symm, h.kept⟩
  rcases device_cases hs with ⟨-, rfl⟩ | ⟨e, -, -, rfl⟩ | ⟨e, -, rfl⟩
  · exact hsame rfl
  · exact hsame rfl
  · have hlog : logged v { v with
        usedIdx := v.usedIdx + 1, held := v.held.erase e.1, written := none
        returned := v.returned ++ [e] } buf log = log ++ [(e, buf e.1)] := by
      simp [logged]
    rw [hlog]
    refine ⟨by simp [h.entries], fun d hd => ?_⟩
    rw [List.drop_append_of_le_length hlen, List.mem_append, List.mem_singleton] at hd
    rcases hd with hd | rfl
    · exact h.kept d hd
    · rfl

/-- The driver is done with more entries. -/
theorem Log.mono (h : Log v n buf log) {n' : Nat} (hn : n ≤ n') : Log v n' buf log := by
  refine ⟨h.entries, fun d hd => h.kept d ?_⟩
  obtain ⟨k, rfl⟩ := Nat.exists_eq_add_of_le hn
  rw [← List.drop_drop] at hd
  exact List.drop_subset k (log.drop n) hd

theorem Log.congr (h : Log v n buf log) (hr : v'.returned = v.returned) : Log v' n buf log :=
  ⟨h.entries.trans hr.symm, h.kept⟩

/-- **A buffer that the device holds** is not one of those. -/
theorem Log.fill (h : Log v n buf log) (hc : Conserved q ids v pos mine seen) (hids : ids.Nodup)
    (hmine : ∀ e ∈ seen.drop n, e.1 ∈ mine) {id : Nat} (hid : id ∈ v.held) (data : β) :
    Log v n (Function.update buf id data) log := by
  refine ⟨h.entries, fun d hd => ?_⟩
  have hmem : d.1 ∈ v.returned.drop n := by
    rw [← h.entries, ← List.map_drop]
    exact List.mem_map_of_mem hd
  have hnodup := hc.places.nodup_iff.2 hids
  have hdisj := (List.nodup_append.1 (List.nodup_append.1 hnodup).2.1).2.2
  have hne : d.1.1 ≠ id := by
    rintro rfl
    refine hdisj _ hid _ ?_ rfl
    rw [hc.history, List.drop_append, List.mem_append] at hmem
    rcases hmem with hmem | hmem
    · exact List.mem_append_right _ (hmine _ hmem)
    · exact List.mem_append_left _ (List.mem_map_of_mem (List.mem_of_mem_drop hmem))
  rw [Function.update_of_ne hne]
  exact h.kept d hd

/-- **The entry that is processed**, and what is in its buffer. -/
theorem Log.current (h : Log v seen.length buf log) (hc : Conserved q ids v pos mine (seen ++ [e])) :
    ∃ done rest, log = done ++ (e, buf e.1) :: rest ∧ done.length = seen.length := by
  have hmap : log.map Prod.fst = seen ++ e :: v.unseen q pos := by
    rw [h.entries, hc.history, List.append_assoc]
    rfl
  obtain ⟨done, tail, rfl, hdone, htail⟩ := List.map_eq_append_iff.1 hmap
  have hlen : done.length = seen.length := by rw [← hdone, List.length_map]
  obtain ⟨d, rest, rfl, rfl, -⟩ := List.map_eq_cons_iff.1 htail
  have hkept := h.kept d (by rw [← hlen, List.drop_left]; exact List.mem_cons_self)
  rw [hkept]
  exact ⟨done, rest, rfl, hlen⟩

end Rules

end AdvCpp.Lib.Virtqueue
