import AdvCpp.Virtio.Packet
import Mathlib.Order.Monotone.Basic

/-!
# The packet that is waited for, and its reply

* `waitForMatchingRxPacket_first` — against a device that publishes entries at any pace,
  `wait_for_matching_rx_packet` examines them in order, each once, and returns the first match.
* `accepted_reply_returns_iff` — when the reply to an accepted packet fits in a TX buffer of the
  size of the RX buffers, as the echo loops allocate it.
-/

namespace AdvCpp.Virtio

open AdvCpp.Lib

/-! ## The first match -/

/-- The arguments of `wait_for_matching_rx_packet`. -/
structure RxWait where
  dmaBase : Nat
  rxQueueBase : Nat
  layout : DmaLayout
  baseIdx : UInt16
  rxBuffers : Nat
  rxBufferSize : Nat
  matchEthertype : Option Nat

namespace RxWait

/-- The slot of the entry published `k`-th after `base_idx`. -/
def slot (w : RxWait) (k : Nat) : Nat := (w.baseIdx.toNat + k) % w.layout.rxVring.queueSize

/-- `read_rx_used_packet` on that entry, in the memory `F` that nobody changes. -/
def entry (w : RxWait) (F : Mem) (k : Nat) : Shared.Outcome String (Option ReceivedPacket) :=
  Shared.run (fun _ m => m) F (readRxUsedPacket w.dmaBase w.rxQueueBase w.layout (w.slot k)
    w.rxBuffers w.rxBufferSize w.matchEthertype)

def wait (w : RxWait) (polls : Nat) : Shared String (Option ReceivedPacket) :=
  waitForMatchingRxPacket w.dmaBase w.rxQueueBase w.layout w.rxBuffers w.rxBufferSize
    w.matchEthertype polls w.baseIdx.toNat

def usedIdx (w : RxWait) : Region := ⟨w.rxQueueBase + w.layout.rxVring.usedOffset + 2, 2⟩

/-- In the memory `m` the device has published `n` entries, and what is read for them is as in
`F`. -/
structure Published (w : RxWait) (F m : Mem) (n : Nat) : Prop where
  idx : leValue (peek m w.usedIdx.offset w.usedIdx.size) = (w.baseIdx.toNat + n) % 2 ^ 16
  entries : ∀ k < n, ∀ r, .read r ∈ (w.entry F k).accesses →
    peek m r.offset r.size = peek F r.offset r.size

/-- The accesses of successive polls that examine `counts` entries each, from the `k`-th on. -/
def polled (w : RxWait) (F : Mem) : Nat → List Nat → List Access
  | _, [] => []
  | k, n :: counts =>
    .read w.usedIdx :: (List.range' k n).flatMap (fun i => (w.entry F i).accesses) ++
      w.polled F (k + n) counts

/-- The entries from the `k`-th on have been examined one after the other, each once, and the
result is the first match among them; if there is none, the last poll has examined all that had been
published (`pub`) when it read the counter. -/
def FirstMatch (w : RxWait) (F : Mem) (pub : Nat → Nat) (polls k : Nat)
    (o : Shared.Outcome String (Option ReceivedPacket)) : Prop :=
  ∃ counts last, counts.length ≤ polls ∧ o.accesses = w.polled F k (counts ++ [last]) ∧
    ((o.result = .ok none ∧ counts.length = polls ∧
        k + counts.sum + last = pub (w.polled F k counts).length ∧
        ∀ j, k ≤ j → j < pub (w.polled F k counts).length → (w.entry F j).result = .ok none) ∨
      ∃ p j, o.result = .ok (some p) ∧ k + counts.sum + last = j + 1 ∧ k ≤ j ∧
        j < pub (w.polled F k counts).length ∧ (w.entry F j).result = .ok (some p) ∧
        ∀ i, k ≤ i → i < j → (w.entry F i).result = .ok none)

variable {w : RxWait} {F m : Mem} {dev : Nat → Mem → Mem}

section ReadOnly

variable (queueBase : Nat) (v : VringLayout) (slot : Nat)

theorem readOnly_usedId : Shared.ReadOnly (readUsedId queueBase v slot) :=
  Shared.readOnly_bind Shared.readOnly_load fun _ => trivial

theorem readOnly_usedLen : Shared.ReadOnly (readUsedLen queueBase v slot) :=
  Shared.readOnly_bind Shared.readOnly_load fun _ => trivial

end ReadOnly

theorem readOnly_packet (dmaBase rxQueueBase : Nat) (layout : DmaLayout)
    (usedSlot rxBuffers rxBufferSize : Nat) (matchEthertype : Option Nat) :
    Shared.ReadOnly (readRxUsedPacket dmaBase rxQueueBase layout usedSlot rxBuffers rxBufferSize
      matchEthertype) := by
  apply Shared.readOnly_bind (readOnly_usedId _ _ _)
  intro id
  apply Shared.readOnly_bind (readOnly_usedLen _ _ _)
  intro len
  split
  · trivial
  · split
    · trivial
    · split
      · trivial
      · apply Shared.readOnly_bind Shared.readOnly_load
        intro bytes
        dsimp only
        split
        · trivial
        · trivial

/-! ### One scan -/

/-- A queue size that divides the range of the counters. -/
def SizeOk (w : RxWait) : Prop := ∃ q ≤ 15, w.layout.rxVring.queueSize = 2 ^ q

theorem slotOf_eq (h : w.SizeOk) (k i : Nat) :
    slotOf w.layout.rxVring ((w.baseIdx.toNat + k) % 2 ^ 16) i = w.slot (k + i) := by
  obtain ⟨q, hq, hsize⟩ := h
  have hdvd : 2 ^ q ∣ 2 ^ 16 := Nat.pow_dvd_pow 2 (by omega)
  have hle : 2 ^ q ≤ 2 ^ 16 := Nat.pow_le_pow_right (by decide) (by omega)
  have hlt : ∀ a, a % 2 ^ q < 2 ^ 16 := fun a => (Nat.mod_lt a (Nat.two_pow_pos q)).trans_le hle
  rw [slotOf, slot, hsize, Nat.mod_eq_of_lt (hlt _), ← Nat.add_assoc]
  rw [Nat.add_mod, Nat.mod_mod_of_dvd _ hdvd, ← Nat.add_mod]

theorem usedDelta_eq {base k n : Nat} (hkn : k ≤ n) (hn : n < 2 ^ 16) :
    usedDelta ((base + k) % 2 ^ 16) ((base + n) % 2 ^ 16) = n - k := by
  unfold usedDelta
  omega

/-- The entry has not changed at any access. -/
def Stable (w : RxWait) (F : Mem) (dev : Nat → Mem → Mem) (m : Mem) (k : Nat) : Prop :=
  ∀ t r, .read r ∈ (w.entry F k).accesses →
    peek (Shared.seen dev m t) r.offset r.size = peek F r.offset r.size

/-- Up to `n` entries from the `k`-th on have been examined, until the first match. -/
def Scanned (w : RxWait) (F : Mem) (k n : Nat)
    (o : Shared.Outcome String (Option ReceivedPacket)) : Prop :=
  ∃ c, o.accesses = (List.range' k c).flatMap (fun i => (w.entry F i).accesses) ∧
    ((c = n ∧ o.result = .ok none ∧ ∀ j < n, (w.entry F (k + j)).result = .ok none) ∨
      ∃ p j, j < n ∧ c = j + 1 ∧ o.result = .ok (some p) ∧
        (w.entry F (k + j)).result = .ok (some p) ∧
        ∀ i < j, (w.entry F (k + i)).result = .ok none)

/-- A scan of the entry `k` and then of those behind it. -/
theorem Scanned.cons {k n : Nat} {o : Shared.Outcome String (Option ReceivedPacket)}
    (hnone : (w.entry F k).result = .ok none) (h : w.Scanned F (k + 1) n o) :
    w.Scanned F k (n + 1) ⟨o.result, o.mem, (w.entry F k).accesses ++ o.accesses⟩ := by
  have hbefore : ∀ j, (∀ i < j, (w.entry F (k + 1 + i)).result = .ok none) →
      ∀ i < j + 1, (w.entry F (k + i)).result = .ok none := by
    intro j hj i hi
    cases i with
    | zero => exact hnone
    | succ i =>
      rw [show k + (i + 1) = k + 1 + i by omega]
      exact hj i (by omega)
  obtain ⟨c, hacc, hres⟩ := h
  refine ⟨c + 1, by rw [hacc, List.range'_succ, List.flatMap_cons], ?_⟩
  rcases hres with ⟨rfl, hres, hall⟩ | ⟨p, j, hj, rfl, hres, hentry, hall⟩
  · exact Or.inl ⟨rfl, hres, hbefore c hall⟩
  · refine Or.inr ⟨p, j + 1, by omega, rfl, hres, ?_, hbefore j hall⟩
    rw [show k + (j + 1) = k + 1 + j by omega]
    exact hentry

theorem scanUsed_spec (hsize : w.SizeOk) (k : Nat) :
    ∀ (n i : Nat) (dev : Nat → Mem → Mem) (m : Mem),
      (∀ j < n, w.Stable F dev m (k + i + j)) →
      w.Scanned F (k + i) n (Shared.run dev m (scanUsed w.dmaBase w.rxQueueBase w.layout
        ((w.baseIdx.toNat + k) % 2 ^ 16) w.rxBuffers w.rxBufferSize w.matchEthertype i n))
  | 0, i, dev, m, _ => ⟨0, rfl, Or.inl ⟨rfl, rfl, fun j hj => absurd hj (Nat.not_lt_zero j)⟩⟩
  | n + 1, i, dev, m, hstable => by
    have hro := readOnly_packet w.dmaBase w.rxQueueBase w.layout (w.slot (k + i)) w.rxBuffers
      w.rxBufferSize w.matchEthertype
    obtain ⟨o, ho⟩ := hro.returns.run (fun _ m => m) F
    have ho : (w.entry F (k + i)).result = .ok o := ho
    obtain ⟨hres, hacc⟩ := hro.run_of_agree (hstable 0 (Nat.succ_pos n))
    have hres : _ = (w.entry F (k + i)).result := hres
    have hacc : _ = (w.entry F (k + i)).accesses := hacc
    rw [scanUsed, slotOf_eq hsize]
    rw [Shared.run_bind (hres.trans ho), hacc]
    cases o with
    | some p =>
      refine ⟨1, ?_, Or.inr ⟨p, 0, Nat.succ_pos n, rfl, rfl, ho, fun i hi => absurd hi (Nat.not_lt_zero i)⟩⟩
      simp
    | none =>
      refine Scanned.cons ho (scanUsed_spec hsize k n (i + 1) _ _ ?_)
      intro j hj t r hr
      have hseen := @Shared.ReadOnly.seen_after _ _ _ dev m hro t
      rw [hacc] at hseen
      rw [hseen]
      rw [show k + (i + 1) + j = k + i + (j + 1) by omega] at hr
      exact hstable (j + 1) (by omega) _ r hr

theorem readOnly_scan (dmaBase rxQueueBase : Nat) (layout : DmaLayout)
    (scanIdx rxBuffers rxBufferSize : Nat) (matchEthertype : Option Nat) :
    ∀ i n, Shared.ReadOnly (scanUsed dmaBase rxQueueBase layout scanIdx rxBuffers rxBufferSize
      matchEthertype i n)
  | _, 0 => trivial
  | i, n + 1 => by
    apply Shared.readOnly_bind (readOnly_packet _ _ _ _ _ _ _)
    intro o
    cases o with
    | some p => trivial
    | none => exact readOnly_scan _ _ _ _ _ _ _ (i + 1) n

/-! ### All polls -/

/-- The device publishes at most a queue of entries, and leaves published entries alone. -/
structure Publishes (w : RxWait) (F : Mem) (pub : Nat → Nat) (dev : Nat → Mem → Mem) (m : Mem) :
    Prop where
  mono : Monotone pub
  max : ∀ t, pub t ≤ w.layout.rxVring.queueSize
  published : ∀ t, w.Published F (Shared.seen dev m t) (pub t)

theorem Publishes.stable {pub : Nat → Nat} (h : w.Publishes F pub dev m) {k : Nat} (hk : k < pub 0) :
    w.Stable F dev m k :=
  fun t r hr => (h.published t).entries k (hk.trans_le (h.mono (Nat.zero_le t))) r hr

theorem Publishes.shift {pub : Nat → Nat} (h : w.Publishes F pub dev m) {dev' : Nat → Mem → Mem}
    {m' : Mem} (n : Nat) (hseen : ∀ t, Shared.seen dev' m' t = Shared.seen dev m (t + n)) :
    w.Publishes F (fun t => pub (t + n)) dev' m' :=
  { mono := fun _ _ hab => h.mono (Nat.add_le_add_right hab n)
    max := fun t => h.max (t + n)
    published := fun t => by rw [hseen]; exact h.published (t + n) }

/-- The poll reads the counter first. -/
theorem Published.run_readUsedIdx {n : Nat} (h : w.Published F (dev 0 m) n)
    (f : Nat → Shared String (Option ReceivedPacket)) :
    let o := Shared.run (fun t => dev (t + 1)) (dev 0 m) (f ((w.baseIdx.toNat + n) % 2 ^ 16))
    Shared.run dev m (readUsedIdx w.rxQueueBase w.layout.rxVring >>= f) =
      ⟨o.result, o.mem, .read w.usedIdx :: o.accesses⟩ := by
  rw [← h.idx]
  rfl

/-- **One poll**: what the counter adds is scanned. -/
theorem poll_spec (hsize : w.SizeOk) {pub : Nat → Nat} (h : w.Publishes F pub dev m) {k : Nat}
    (hk : k ≤ pub 0) :
    usedDelta ((w.baseIdx.toNat + k) % 2 ^ 16) ((w.baseIdx.toNat + pub 0) % 2 ^ 16) = pub 0 - k ∧
      w.Scanned F k (pub 0 - k) (Shared.run (fun t => dev (t + 1)) (dev 0 m)
        (scanUsed w.dmaBase w.rxQueueBase w.layout ((w.baseIdx.toNat + k) % 2 ^ 16) w.rxBuffers
          w.rxBufferSize w.matchEthertype 0 (pub 0 - k))) := by
  have hmax : pub 0 < 2 ^ 16 := by
    obtain ⟨q, hq, hqueue⟩ := hsize
    have hle : 2 ^ q ≤ 2 ^ 15 := Nat.pow_le_pow_right (by decide) hq
    have hpub := h.max 0
    rw [hqueue] at hpub
    omega
  refine ⟨usedDelta_eq hk hmax, scanUsed_spec hsize k (pub 0 - k) 0 _ _ ?_⟩
  intro j hj t r hr
  rw [Shared.seen_succ]
  exact h.stable (show k + 0 + j < pub 0 by omega) (t + 1) r hr

/-- A poll without a match, and then the other polls. -/
theorem FirstMatch.cons {pub : Nat → Nat} {polls k n N : Nat}
    {o : Shared.Outcome String (Option ReceivedPacket)}
    (hN : N = (w.polled F k [n]).length)
    (hnone : ∀ j, k ≤ j → j < k + n → (w.entry F j).result = .ok none)
    (h : w.FirstMatch F (fun t => pub (t + N)) polls (k + n) o) :
    w.FirstMatch F pub (polls + 1) k ⟨o.result, o.mem, w.polled F k [n] ++ o.accesses⟩ := by
  obtain ⟨counts, last, hlen, hacc, hres⟩ := h
  have hcons : ∀ l, w.polled F k (n :: l) = w.polled F k [n] ++ w.polled F (k + n) l := by
    intro l
    simp [polled]
  have htime : (w.polled F (k + n) counts).length + N = (w.polled F k (n :: counts)).length := by
    rw [hcons, List.length_append, hN, Nat.add_comm]
  refine ⟨n :: counts, last, Nat.succ_le_succ hlen, ?_, ?_⟩
  · show w.polled F k [n] ++ o.accesses = w.polled F k (n :: (counts ++ [last]))
    rw [hacc, hcons (counts ++ [last])]
  · simp only [htime] at hres
    have hsum : k + (n :: counts).sum + last = k + n + counts.sum + last := by
      rw [List.sum_cons]
      omega
    have hall : ∀ b, (∀ i, k + n ≤ i → i < b → (w.entry F i).result = .ok none) →
        ∀ i, k ≤ i → i < b → (w.entry F i).result = .ok none := by
      intro b hb i hi hib
      by_cases hin : i < k + n
      · exact hnone i hi hin
      · exact hb i (Nat.not_lt.1 hin) hib
    rw [hsum]
    rcases hres with ⟨hres, hlen, hend, hrest⟩ | ⟨p, j, hres, hend, hj, hpub, hentry, hrest⟩
    · exact Or.inl ⟨hres, by rw [List.length_cons, hlen], hend, hall _ hrest⟩
    · exact Or.inr ⟨p, j, hres, hend, by omega, hpub, hentry, hall _ hrest⟩

/-- What the last scan of the wait found. -/
theorem Scanned.firstMatch {pub : Nat → Nat} {k polls : Nat} (hk : k ≤ pub 0)
    {o : Shared.Outcome String (Option ReceivedPacket)} (h : w.Scanned F k (pub 0 - k) o)
    (hlast : o.result = .ok none → polls = 0) :
    w.FirstMatch F pub polls k ⟨o.result, o.mem, .read w.usedIdx :: o.accesses⟩ := by
  obtain ⟨c, hacc, hres⟩ := h
  refine ⟨[], c, Nat.zero_le _, by simp [polled, hacc], ?_⟩
  have hreach : ∀ b, (∀ i < b, (w.entry F (k + i)).result = .ok none) →
      ∀ i, k ≤ i → i < k + b → (w.entry F i).result = .ok none := by
    intro b hb i hi hib
    rw [show i = k + (i - k) by omega]
    exact hb (i - k) (by omega)
  rcases hres with ⟨rfl, hres, hall⟩ | ⟨p, j, hj, rfl, hres, hentry, hall⟩
  · refine Or.inl ⟨hres, (hlast hres).symm, ?_, ?_⟩
    · show k + 0 + (pub 0 - k) = pub 0
      omega
    · intro i hi hib
      have hib : i < pub 0 := hib
      exact hreach (pub 0 - k) hall i hi (by omega)
  · refine Or.inr ⟨p, k + j, hres, ?_, Nat.le_add_right k j, ?_, hentry, hreach j hall⟩
    · show k + 0 + (j + 1) = k + j + 1
      omega
    · show k + j < pub 0
      omega

/-- A scan without a match. -/
theorem Scanned.none {k n : Nat} {o : Shared.Outcome String (Option ReceivedPacket)}
    (h : w.Scanned F k n o) (hnone : o.result = .ok none) :
    o.accesses = (List.range' k n).flatMap (fun i => (w.entry F i).accesses) ∧
      ∀ j, k ≤ j → j < k + n → (w.entry F j).result = .ok none := by
  obtain ⟨c, hacc, ⟨rfl, -, hall⟩ | ⟨p, j, -, -, hres, -⟩⟩ := h
  · refine ⟨hacc, fun j hj hjn => ?_⟩
    rw [show j = k + (j - k) by omega]
    exact hall (j - k) (by omega)
  · rw [hnone] at hres
    cases hres

theorem waitForMatchingRxPacket_spec (hsize : w.SizeOk) :
    ∀ (polls k : Nat) (pub : Nat → Nat) (dev : Nat → Mem → Mem) (m : Mem),
      w.Publishes F pub dev m → k ≤ pub 0 →
      w.FirstMatch F pub polls k (Shared.run dev m (waitForMatchingRxPacket w.dmaBase w.rxQueueBase
        w.layout w.rxBuffers w.rxBufferSize w.matchEthertype polls
        ((w.baseIdx.toNat + k) % 2 ^ 16)))
  | 0, k, pub, dev, m, h, hk => by
    obtain ⟨hdelta, hscan⟩ := poll_spec hsize h hk
    rw [waitForMatchingRxPacket, (h.published 0).run_readUsedIdx, hdelta]
    exact hscan.firstMatch hk fun _ => rfl
  | polls + 1, k, pub, dev, m, h, hk => by
    obtain ⟨hdelta, hscan⟩ := poll_spec hsize h hk
    rw [waitForMatchingRxPacket, (h.published 0).run_readUsedIdx, hdelta]
    have hro := readOnly_scan w.dmaBase w.rxQueueBase w.layout ((w.baseIdx.toNat + k) % 2 ^ 16)
      w.rxBuffers w.rxBufferSize w.matchEthertype 0 (pub 0 - k)
    obtain ⟨r, hr⟩ := hro.returns.run (fun t => dev (t + 1)) (dev 0 m)
    rw [Shared.run_bind hr]
    cases r with
    | some p =>
      have hfound : w.FirstMatch F pub (polls + 1) k _ := hscan.firstMatch hk fun hnone => by
        rw [hr] at hnone
        cases hnone
      rw [hr] at hfound
      simpa using hfound
    | none =>
      obtain ⟨hacc, hnone⟩ := hscan.none hr
      have hpoll : w.polled F k [pub 0 - k] = .read w.usedIdx :: (Shared.run (fun t => dev (t + 1))
          (dev 0 m) (scanUsed w.dmaBase w.rxQueueBase w.layout ((w.baseIdx.toNat + k) % 2 ^ 16)
            w.rxBuffers w.rxBufferSize w.matchEthertype 0 (pub 0 - k))).accesses := by
        rw [hacc]
        simp [polled]
      have hend : k + (pub 0 - k) = pub 0 := Nat.add_sub_cancel' hk
      have hnext := h.shift (w.polled F k [pub 0 - k]).length fun t => by
        rw [hpoll]
        exact (hro.seen_after t).trans (Shared.seen_succ _)
      have hcons := (waitForMatchingRxPacket_spec hsize polls (k + (pub 0 - k)) _ _ _ hnext (by
        rw [hend]
        exact h.mono (Nat.zero_le _))).cons rfl hnone
      rw [hpoll, hend] at hcons
      exact hcons

end RxWait

/-- **The first match is found**: for every device that publishes at most a queue of entries at its
own pace, `wait_for_matching_rx_packet` examines them from `base_idx` on, each once and in order, and
returns the first one that `read_rx_used_packet` accepts; without one it has examined all entries
that were published when it last read the counter. -/
theorem waitForMatchingRxPacket_first (w : RxWait) (hsize : w.SizeOk) (F m : Mem)
    (pub : Nat → Nat) (dev : Nat → Mem → Mem) (h : w.Publishes F pub dev m) (polls : Nat) :
    w.FirstMatch F pub polls 0 (Shared.run dev m (w.wait polls)) := by
  have hbase : (w.baseIdx.toNat + 0) % 2 ^ 16 = w.baseIdx.toNat :=
    Nat.mod_eq_of_lt w.baseIdx.toNat_lt
  have hspec := RxWait.waitForMatchingRxPacket_spec hsize polls 0 pub dev m h (Nat.zero_le _)
  rw [hbase] at hspec
  exact hspec

/-- Four entries, one buffer of 64 bytes, and the counter about to wrap. -/
def RxWait.wrapping : RxWait :=
  { dmaBase := 0, rxQueueBase := 0, baseIdx := 65535, rxBuffers := 1, rxBufferSize := 64
    matchEthertype := some 0x88b5
    layout := { DmaLayout.zero with
      rxVring := { VringLayout.zero with queueSize := 4 }, rxBuffersOffset := 100 } }

/-- Slot 3 has an id that was never posted, slot 0 a frame of the type that is waited for. -/
def wrappingMem : Mem := fun a =>
  if a = 2 then 1 else if a = 28 then 7 else if a = 8 then 60 else if a = 124 then 0x88
  else if a = 125 then 0xb5 else 0

/-- Nothing at the first poll, both entries from then on. -/
theorem waitForMatchingRxPacket_first_wrapping :
    RxWait.wrapping.FirstMatch wrappingMem (fun t => if t = 0 then 0 else 2) 1 0
      (Shared.run (fun t _ => if t = 0 then fun _ => 0xff else wrappingMem) (fun _ => 0)
        (RxWait.wrapping.wait 1)) := by
  refine waitForMatchingRxPacket_first RxWait.wrapping ⟨2, by decide, rfl⟩ wrappingMem (fun _ => 0)
    (fun t => if t = 0 then 0 else 2) _ ⟨?_, ?_, ?_⟩ 1
  · refine monotone_nat_of_le_succ fun t => ?_
    simp only [Nat.succ_ne_zero, if_false]
    split <;> omega
  · intro t
    show (if t = 0 then 0 else 2) ≤ 4
    split <;> omega
  · intro t
    cases t with
    | zero => exact ⟨by decide, fun k hk => absurd hk (Nat.not_lt_zero k)⟩
    | succ t =>
      refine ⟨?_, fun _ _ _ _ => rfl⟩
      show leValue (peek wrappingMem 2 2) = (65535 + 2) % 2 ^ 16
      decide

/-! ## The reply -/

theorem txReplySizeForRx_eq {rxUsedLen : Nat}
    (h : kVirtioNetHeaderSize + kEthernetHeaderSize ≤ rxUsedLen) :
    txReplySizeForRx rxUsedLen =
      pure (kVirtioNetHeaderSize + max (rxUsedLen - kVirtioNetHeaderSize) kEthernetMinFrameSize) := by
  unfold txReplySizeForRx Shared.ensure
  rw [if_pos h]
  rfl

/-- The reply to a long enough packet throws only for want of room. -/
theorem buildTxReplyFromRx_returns_iff {rxUsedLen : Nat}
    (h : kVirtioNetHeaderSize + kEthernetHeaderSize ≤ rxUsedLen)
    (txPacket txBufferSize rxBuffer : Nat) (replySrcMac : Vector UInt8 6) :
    Shared.Returns (buildTxReplyFromRx txPacket txBufferSize rxBuffer rxUsedLen replySrcMac) ↔
      kVirtioNetHeaderSize + max (rxUsedLen - kVirtioNetHeaderSize) kEthernetMinFrameSize ≤
        txBufferSize := by
  rw [buildTxReplyFromRx, txReplySizeForRx_eq h]
  constructor
  · intro hret
    change Shared.Returns (Shared.ensure _ _ >>= _) at hret
    exact Shared.returns_ensure.1 hret.parts.1
  · intro hfit
    apply Shared.returns_bind (Shared.returns_ensure.2 hfit)
    intro _
    apply Shared.returns_bind Shared.returns_store
    intro _
    apply Shared.returns_bind Shared.returns_load
    intro frame
    apply Shared.returns_bind Shared.returns_store
    intro _
    apply Shared.returns_bind Shared.returns_load
    intro source
    apply Shared.returns_bind Shared.returns_store
    intro _
    exact Shared.returns_bind Shared.returns_store fun _ => trivial

section Reply

variable {page align rxBufferSize txBufferSize : UInt64}
  {rxQueueSize txQueueSize rxBuffers txBuffers : UInt16} {l : DmaLayout} {rs : List Region}

theorem computeDmaLayoutTxBuffers_sizes
    (h : computeDmaLayoutTxBuffers page rxQueueSize txQueueSize align rxBuffers txBuffers
      rxBufferSize txBufferSize = .ok l) :
    l.txBufferSize = txBufferSize.toNat ∧ 0 < rxBuffers.toNat := by
  obtain ⟨_, hcheck, h⟩ := bind_eq_ok.1 h
  obtain ⟨_, -, h⟩ := bind_eq_ok.1 h
  obtain ⟨_, -, h⟩ := bind_eq_ok.1 h
  obtain ⟨_, -, h⟩ := bind_eq_ok.1 h
  obtain ⟨_, -, h⟩ := bind_eq_ok.1 h
  obtain ⟨layout, -, h⟩ := bind_eq_ok.1 h
  obtain ⟨rxBuffersEnd, -, h⟩ := bind_eq_ok.1 h
  obtain ⟨txBuffersOffset, -, h⟩ := bind_eq_ok.1 h
  obtain ⟨txBuffersSize, -, h⟩ := bind_eq_ok.1 h
  obtain ⟨txBuffersEnd, -, h⟩ := bind_eq_ok.1 h
  obtain ⟨totalSize, -, h⟩ := bind_eq_ok.1 h
  cases h
  obtain ⟨_, hne, -⟩ := bind_eq_ok.1 hcheck
  rw [ensure_eq_ok] at hne
  refine ⟨rfl, Nat.pos_of_ne_zero fun hzero => hne ?_⟩
  exact UInt16.toNat_inj.1 hzero

/-- A reply to an accepted packet, with TX buffers as large as the RX buffers. -/
theorem reply_returns_iff (hcomp : Computed page rxBuffers rxBufferSize l rs) {base : Nat}
    {p : ReceivedPacket} (hp : Accepted base l rxBuffers.toNat rxBufferSize.toNat p)
    (txPacket : Nat) (replySrcMac : Vector UInt8 6) :
    Shared.NeverThrows (buildTxReplyFromRx txPacket rxBufferSize.toNat p.buffer p.usedLen
      replySrcMac) ↔ 72 ≤ rxBufferSize.toNat := by
  obtain ⟨-, -, hlen, hsize⟩ := hcomp.accepted hp
  rw [Shared.neverThrows_iff, buildTxReplyFromRx_returns_iff hlen]
  simp only [kVirtioNetHeaderSize, kEthernetMinFrameSize]
  omega

/-- The device reports a packet of the two headers in the first buffer. -/
theorem accepted_shortest (hcomp : Computed page rxBuffers rxBufferSize l rs) (base : Nat)
    (hpos : 0 < rxBuffers.toNat) (hsize : 26 ≤ rxBufferSize.toNat) :
    ∃ p, Accepted base l rxBuffers.toNat rxBufferSize.toNat p := by
  obtain ⟨align, _, _, hok⟩ := hcomp.layoutOk
  have hqueue : 0 < l.rxVring.queueSize := by
    rw [hok.rxVring.size_eq]
    exact hok.rxVring.pos
  let elem := usedElem (base + l.rxVringOffset) l.rxVring 0
  let m : Mem := fun a => if a = elem + 4 then 26 else 0
  have hid : peek m elem 4 = [0, 0, 0, 0] := by simp [peek, m, List.range_succ]
  have hlen : peek m (elem + 4) 4 = [26, 0, 0, 0] := by simp [peek, m, List.range_succ]
  have hrun : ∃ p, (Shared.exec m (readRxUsedPacket base (base + l.rxVringOffset) l 0
      rxBuffers.toNat rxBufferSize.toNat none)).1 = .ok (some p) := by
    have hidValue : leValue [0, 0, 0, 0] = 0 := by decide
    have hlenValue : leValue [26, 0, 0, 0] = 26 := by decide
    have hposted : ¬rxBuffers.toNat ≤ 0 := Nat.not_le.2 hpos
    have hfits : ¬rxBufferSize.toNat < 26 := Nat.not_lt.2 hsize
    simp [readRxUsedPacket, readUsedId, readUsedLen, elem, hid, hlen, hidValue, hlenValue, hposted,
      hfits, kVirtioNetHeaderSize, kEthernetHeaderSize]
  obtain ⟨p, hp⟩ := hrun
  exact ⟨p, Or.inl ⟨fun _ m => m, m, 0, none, hqueue, hp⟩⟩

end Reply

/-- **When an accepted packet never aborts the echo loop.**  For every layout with TX buffers as large
as the RX buffers and every device: the reply to an accepted packet is built exactly if the buffers
have room for a frame of minimum size, and so no accepted packet throws exactly if they have, or if
they are too small for any packet to be accepted. -/
theorem accepted_reply_returns_iff (page : UInt64) (rxQueueSize txQueueSize : UInt16)
    (align : UInt64) (rxBuffers txBuffers : UInt16) (rxBufferSize : UInt64) (l : DmaLayout)
    (h : computeDmaLayoutTxBuffers page rxQueueSize txQueueSize align rxBuffers txBuffers
      rxBufferSize rxBufferSize = .ok l) (base : Nat) :
    (∀ p, Accepted base l rxBuffers.toNat rxBufferSize.toNat p → ∀ txPacket replySrcMac,
      (Shared.NeverThrows (buildTxReplyFromRx txPacket l.txBufferSize p.buffer p.usedLen
        replySrcMac) ↔ 72 ≤ rxBufferSize.toNat)) ∧
    ((∀ p, Accepted base l rxBuffers.toNat rxBufferSize.toNat p → ∀ txPacket replySrcMac,
      Shared.NeverThrows (buildTxReplyFromRx txPacket l.txBufferSize p.buffer p.usedLen
        replySrcMac)) ↔ rxBufferSize.toNat < 26 ∨ 72 ≤ rxBufferSize.toNat) := by
  have hcomp := Computed.txBuffers h
  obtain ⟨hsize, hpos⟩ := computeDmaLayoutTxBuffers_sizes h
  have hiff : ∀ p, Accepted base l rxBuffers.toNat rxBufferSize.toNat p →
      ∀ txPacket replySrcMac, (Shared.NeverThrows (buildTxReplyFromRx txPacket l.txBufferSize
        p.buffer p.usedLen replySrcMac) ↔ 72 ≤ rxBufferSize.toNat) := by
    intro p hp txPacket replySrcMac
    rw [hsize]
    exact reply_returns_iff hcomp hp txPacket replySrcMac
  refine ⟨hiff, ?_, ?_⟩
  · intro hall
    by_contra hbad
    obtain ⟨p, hp⟩ := accepted_shortest hcomp base hpos (by omega)
    have hroom := (hiff p hp 0 (Vector.replicate 6 0)).1 (hall p hp 0 (Vector.replicate 6 0))
    omega
  · rintro (hsmall | hroom) p hp txPacket replySrcMac
    · obtain ⟨-, -, hlen, hle⟩ := hcomp.accepted hp
      simp only [kVirtioNetHeaderSize, kEthernetHeaderSize] at hlen
      omega
    · exact (hiff p hp txPacket replySrcMac).2 hroom

/-- The default sizes. -/
theorem accepted_reply_returns_default : ∃ l,
    computeDmaLayoutTxBuffers 4096 256 256 4096 64 8 2048 2048 = .ok l ∧
    ((∀ p, Accepted 0 l 64 2048 p → ∀ txPacket replySrcMac,
      Shared.NeverThrows (buildTxReplyFromRx txPacket l.txBufferSize p.buffer p.usedLen
        replySrcMac)) ↔ 2048 < 26 ∨ 72 ≤ 2048) := by
  obtain ⟨l, hl⟩ : ∃ l, computeDmaLayoutTxBuffers 4096 256 256 4096 64 8 2048 2048 = .ok l :=
    ⟨_, rfl⟩
  exact ⟨l, hl, (accepted_reply_returns_iff 4096 256 256 4096 64 8 2048 l hl 0).2⟩

/-- Buffers of 64 bytes: a packet of 60 bytes is accepted, and its reply throws. -/
theorem accepted_reply_throws : ∃ l p,
    computeDmaLayoutTxBuffers 4096 256 256 4096 64 8 64 64 = .ok l ∧
    (Shared.exec (fun a => if a = 8200 then 60 else 0)
      (readRxUsedPacket 0 l.rxVringOffset l 0 64 64 none)).1 = .ok (some p) ∧
    p.usedLen = 60 ∧
    (Shared.exec (fun a => if a = 8200 then 60 else 0) (buildTxReplyFromRx l.txBuffersOffset
      l.txBufferSize p.buffer p.usedLen (Vector.replicate 6 0))).1 =
        .error "reply packet does not fit in the allocated TX buffer" :=
  ⟨_, _, rfl, rfl, rfl, rfl⟩

end AdvCpp.Virtio
