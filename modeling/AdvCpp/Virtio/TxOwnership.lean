import AdvCpp.Virtio.RxConservation

/-!
# TX slots in the echo loop

A TX slot is in flight from the moment its descriptor is posted until its used entry is consumed,
and until then neither the descriptor nor the buffer is written.

* `freeSlots` — the slots that are the driver's.
* `TxInv` — the invariant, `TxInv.step` — every step keeps it.
* `owned` — the ids that are the device's or on their way to it or back.
* `txSlots_owned` — what it says about every run.
-/

namespace AdvCpp.Virtio.EchoLoop

open AdvCpp.Lib

/-! ## Free slots -/

def freeSlots (l : List TxSlot) : List Nat :=
  (List.range l.length).filter fun id => l[id]? = some ⟨false⟩

section Slots

variable {l : List TxSlot} {id : Nat}

theorem mem_freeSlots : id ∈ freeSlots l ↔ l[id]? = some ⟨false⟩ := by
  unfold freeSlots
  rw [List.mem_filter, List.mem_range, decide_eq_true_eq]
  constructor
  · exact fun h => h.2
  · intro h
    obtain ⟨hlt, -⟩ := List.getElem?_eq_some_iff.1 h
    exact ⟨hlt, h⟩

theorem freeSlots_nodup (l : List TxSlot) : (freeSlots l).Nodup := List.nodup_range.filter _

theorem findFreeTxSlot_mem (h : findFreeTxSlot l = some id) : id ∈ freeSlots l := by
  obtain ⟨hlt, hfree, -⟩ := List.findIdx?_eq_some_iff_getElem.1 h
  rw [mem_freeSlots, List.getElem?_eq_getElem hlt]
  cases hslot : l[id] with
  | mk inFlight =>
    rw [hslot] at hfree
    cases inFlight
    · rfl
    · cases hfree

/-- A slot is taken. -/
theorem freeSlots_set_true (l : List TxSlot) (id : Nat) :
    (freeSlots (l.set id ⟨true⟩)).Perm ((freeSlots l).erase id) := by
  apply (List.perm_ext_iff_of_nodup (freeSlots_nodup _) ((freeSlots_nodup _).erase _)).2
  intro x
  rw [mem_freeSlots, (freeSlots_nodup l).mem_erase_iff, mem_freeSlots, List.getElem?_set]
  by_cases hx : id = x
  · subst hx
    simp
  · rw [if_neg hx]
    exact (and_iff_right (Ne.symm hx)).symm

/-- A slot is given back. -/
theorem freeSlots_set_false (hlt : id < l.length) (h : id ∉ freeSlots l) :
    (freeSlots (l.set id ⟨false⟩)).Perm (id :: freeSlots l) := by
  apply (List.perm_ext_iff_of_nodup (freeSlots_nodup _) (List.nodup_cons.2 ⟨h, freeSlots_nodup _⟩)).2
  intro x
  rw [mem_freeSlots, List.mem_cons, mem_freeSlots, List.getElem?_set]
  by_cases hx : id = x
  · subst hx
    simp [hlt]
  · rw [if_neg hx]
    exact (or_iff_right (Ne.symm hx)).symm

theorem freeSlots_append (l : List TxSlot) (t : TxSlot) :
    freeSlots (l ++ [t]) = freeSlots l ++ if t.inFlight then [] else [l.length] := by
  unfold freeSlots
  rw [List.length_append, List.length_singleton, List.range_succ, List.filter_append]
  congr 1
  · refine List.filter_congr fun id hid => ?_
    rw [List.getElem?_append_left (List.mem_range.1 hid)]
  · rw [List.filter_singleton, List.getElem?_concat_length]
    cases t with
    | mk inFlight => cases inFlight <;> rfl

theorem inFlight_iff (h : id < l.length) : l[id]? = some ⟨true⟩ ↔ ¬ l[id]? = some ⟨false⟩ := by
  rw [List.getElem?_eq_getElem h]
  cases hslot : l[id] with
  | mk inFlight => cases inFlight <;> simp

/-- Every slot is free or in flight. -/
theorem countP_inFlight (l : List TxSlot) :
    l.countP (·.inFlight) + (freeSlots l).length = l.length := by
  induction l using List.reverseRecOn with
  | nil => rfl
  | append_singleton l t ih =>
    rw [freeSlots_append, List.countP_append, List.countP_singleton]
    simp only [List.length_append, List.length_singleton]
    cases ht : t.inFlight
    · simp only [Bool.false_eq_true, if_false, List.length_singleton]
      omega
    · simp only [if_true, List.length_nil]
      omega

end Slots

/-! ## The invariant -/

/-- Where the loop stands, as far as the TX queue is concerned. -/
inductive TxPhase where
  | fresh
  | quiet
  | counting
  | chosen
  | staged
  deriving DecidableEq

def Pc.txPhase : Pc → TxPhase
  | .publishRx | .publishRxIdx | .readInitialRx | .readInitialTx => .fresh
  | .completion _ => .counting
  | .reply | .publishTx => .chosen
  | .publishTxIdx => .staged
  | _ => .quiet

/-- Where the main loop has seen that not all packets are echoed. -/
def Pc.mayEcho : Pc → Prop
  | .consume .top | .completion .top | .consume .beforeReply | .completion .beforeReply => True
  | .readRx | .entry | .reread | .reply | .publishTx | .publishTxIdx => True
  | .recycle false | .recycleIdx false => True
  | _ => False

/-- The used entry that is consumed next. -/
def State.txPos (s : State) : BitVec 16 := s.lastTxUsedIdx + BitVec.ofNat 16 s.j

/-- `consume_tx_completions` is a scan of the used ring, too. -/
def State.txScan (s : State) : Virtqueue.Scan := ⟨s.lastTxUsedIdx, s.currentTxUsed, s.j⟩

section Tx

variable (o : Options)

/-- The statistics agree with the slots. -/
def TxCounts (s : State) : Prop :=
  s.txSlots.length = o.txBuffers ∧
    s.completedTx + o.txBuffers = s.echoedTx + (freeSlots s.txSlots).length

/-- The free slots are the driver's. -/
def TxCore (s : State) (pos : BitVec 16) : Prop :=
  Virtqueue.Conserved o.txQueueSize (List.range o.txBuffers) s.tx pos (freeSlots s.txSlots)
    s.consumedTx ∧ TxCounts o s

/-- Between two used entries. -/
def Completing (s : State) : Prop :=
  Virtqueue.Between o.txQueueSize (List.range o.txBuffers) s.tx s.txScan (freeSlots s.txSlots)
    s.consumedTx ∧ TxCounts o s

def TxFacts (s : State) : TxPhase → Prop
  | .fresh => TxCore o s s.lastTxUsedIdx ∧ s.live = false ∧ s.tx.usedIdx = s.lastTxUsedIdx
  | .quiet => TxCore o s s.lastTxUsedIdx
  | .counting => Completing o s
  | .chosen => TxCore o s s.lastTxUsedIdx ∧ s.txSlot ∈ freeSlots s.txSlots
  | .staged => TxCore o s s.lastTxUsedIdx ∧ s.txSlot ∈ freeSlots s.txSlots ∧
      s.tx.availRing (s.tx.availIdx.toNat % o.txQueueSize) = s.txSlot

def TxInv (s : State) : Prop := TxFacts o s s.pc.txPhase

/-- The packets echoed. -/
def EchoInv (s : State) : Prop :=
  s.echoedTx ≤ o.maxPackets ∧ (s.pc.mayEcho → s.echoedTx < o.maxPackets)

/-- The queue size is a power of two, there are not more buffers, and `max_packets` has 32 bits. -/
structure Options.TxValid : Prop where
  power : o.txQueueSize.isPowerOfTwo
  size : o.txQueueSize ≤ 32768
  buffers : o.txBuffers ≤ o.txQueueSize
  packets : o.maxPackets < 2 ^ 32

variable {o} {s s' : State}

theorem TxCore.conserved {pos : BitVec 16} (h : TxCore o s pos) :
    Virtqueue.Conserved o.txQueueSize (List.range o.txBuffers) s.tx pos (freeSlots s.txSlots)
      s.consumedTx := h.1

theorem TxCore.slots {pos : BitVec 16} (h : TxCore o s pos) : s.txSlots.length = o.txBuffers := h.2.1

theorem TxCore.count {pos : BitVec 16} (h : TxCore o s pos) :
    s.completedTx + o.txBuffers = s.echoedTx + (freeSlots s.txSlots).length := h.2.2

theorem Options.TxValid.dvd (ho : o.TxValid) : o.txQueueSize ∣ 2 ^ 16 :=
  isPowerOfTwo_dvd ho.power (ho.size.trans (by decide))

theorem Options.TxValid.lt (ho : o.TxValid) : o.txQueueSize < 2 ^ 16 := by
  have hsize := ho.size
  omega

theorem Options.TxValid.ids (ho : o.TxValid) : (List.range o.txBuffers).length ≤ o.txQueueSize := by
  rw [List.length_range]
  exact ho.buffers

/-! ## Packets echoed -/

theorem afterConsume_echoInv (c : Caller) (progress : Bool) (h : s.echoedTx ≤ o.maxPackets)
    (hmay : (Pc.consume c).mayEcho → s.echoedTx < o.maxPackets) :
    EchoInv o (afterConsume s progress c) := by
  cases c with
  | top => exact ⟨h, fun _ => hmay trivial⟩
  | beforeReply =>
    unfold afterConsume
    dsimp only
    split
    · exact ⟨h, fun _ => hmay trivial⟩
    · exact ⟨h, fun _ => hmay trivial⟩
  | drain =>
    cases progress
    · exact ⟨h, fun hfalse => hfalse.elim⟩
    · exact ⟨h, fun hfalse => hfalse.elim⟩

/-- A step that does not echo, and does not start to. -/
theorem EchoInv.of_eq (h : EchoInv o s) (hecho : s'.echoedTx = s.echoedTx)
    (hmay : s'.pc.mayEcho → s.pc.mayEcho) : EchoInv o s' := by
  unfold EchoInv
  rw [hecho]
  exact ⟨h.1, fun hm => h.2 (hmay hm)⟩

theorem afterPoll_echoInv (l : Loop) (h : EchoInv o s) : EchoInv o (afterPoll s l) := by
  cases l
  · exact h.of_eq rfl False.elim
  · exact h.of_eq rfl False.elim

theorem publishRx_echoInv (hpc : s.pc = .publishRx) (h : EchoInv o s) :
    EchoInv o (publishRx o s) := by
  unfold publishRx
  split
  · exact h.of_eq rfl (by rw [hpc]; exact id)
  · exact h.of_eq rfl False.elim

theorem consume_echoInv (c : Caller) (hpc : s.pc = .consume c) (h : EchoInv o s) :
    EchoInv o (consume c s) := by
  have hmay := h.2
  rw [hpc] at hmay
  unfold consume
  split
  · exact afterConsume_echoInv c false h.1 hmay
  · refine ⟨h.1, fun hm => hmay ?_⟩
    cases c <;> exact hm

theorem completion_echoInv (c : Caller) (hpc : s.pc = .completion c) (h : EchoInv o s) :
    EchoInv o (completion o c s) := by
  have hmay := h.2
  rw [hpc] at hmay
  unfold completion
  dsimp only
  split
  · split
    · exact h.of_eq rfl (by rw [hpc]; exact id)
    · exact h.of_eq rfl (by rw [hpc]; exact id)
  · refine afterConsume_echoInv c true h.1 fun hm => hmay ?_
    cases c <;> exact hm

/-- At the end of a batch the loop looks at the packets echoed again. -/
theorem entry_echoInv (hle : s.echoedTx ≤ o.maxPackets) (hlt : s.echoedTx < o.maxPackets) :
    EchoInv o (entry o s) := by
  unfold entry endBatch
  dsimp only
  split
  · split
    · exact ⟨hle, fun _ => hlt⟩
    · exact ⟨hle, fun _ => hlt⟩
  · split
    · exact ⟨hle, False.elim⟩
    · split
      · exact ⟨hle, False.elim⟩
      · exact ⟨hle, False.elim⟩

theorem reread_echoInv (hle : s.echoedTx ≤ o.maxPackets) (hlt : s.echoedTx < o.maxPackets) :
    EchoInv o (reread o s) := by
  unfold reread
  dsimp only
  split
  · exact ⟨hle, fun _ => hlt⟩
  · exact ⟨hle, fun _ => hlt⟩

theorem reply_echoInv (hle : s.echoedTx ≤ o.maxPackets) (hlt : s.echoedTx < o.maxPackets) :
    EchoInv o (reply o s) := by
  unfold reply
  dsimp only
  split
  · exact ⟨hle, False.elim⟩
  · exact ⟨hle, fun _ => hlt⟩

theorem publishTx_echoInv (hle : s.echoedTx ≤ o.maxPackets) (hlt : s.echoedTx < o.maxPackets) :
    EchoInv o (publishTx o s) := by
  unfold publishTx
  split
  · exact ⟨hle, False.elim⟩
  · exact ⟨hle, fun _ => hlt⟩

/-- **A packet is echoed**, and the counter does not wrap. -/
theorem publishTxIdx_echoInv (ho : o.TxValid) (hlt : s.echoedTx < o.maxPackets) :
    EchoInv o (publishTxIdx s) := by
  have hpackets := ho.packets
  refine ⟨?_, False.elim⟩
  show (s.echoedTx + 1) % 2 ^ 32 ≤ o.maxPackets
  omega

/-- After an echo the loop only goes on if it has not echoed all packets. -/
theorem recycleIdx_echoInv (echoed : Bool) (hpc : s.pc = .recycleIdx echoed) (h : EchoInv o s) :
    EchoInv o (recycleIdx o echoed s) := by
  have hmay := h.2
  rw [hpc] at hmay
  unfold recycleIdx
  dsimp only
  split
  · exact ⟨h.1, False.elim⟩
  · rename_i hmore
    refine ⟨h.1, fun _ => ?_⟩
    cases echoed
    · exact hmay trivial
    · exact Nat.not_le.1 fun hle => hmore ⟨rfl, hle⟩

theorem drainRx_echoInv (l : Loop) (hpc : s.pc = .drainRx l) (h : EchoInv o s) :
    EchoInv o (drainRx o l s) := by
  unfold drainRx
  split
  · split
    · exact afterPoll_echoInv l h
    · exact h.of_eq rfl False.elim
  · exact h.of_eq rfl (by rw [hpc]; exact id)

theorem drainTx_echoInv (l : Loop) (hpc : s.pc = .drainTx l) (h : EchoInv o s) :
    EchoInv o (drainTx l s) := by
  unfold drainTx
  split
  · exact afterPoll_echoInv l h
  · exact h.of_eq rfl (by rw [hpc]; exact id)

theorem EchoInv.run (ho : o.TxValid) (h : EchoInv o s) (hs : run o s = some s') :
    EchoInv o s' := by
  have hran := run_ran hs
  have hmay := h.2
  generalize hpc : s.pc = pc at hmay hran
  cases hran with
  | publishRx => exact publishRx_echoInv hpc h
  | publishRxIdx | readInitialRx | readInitialTx | driverOk => exact h.of_eq rfl False.elim
  | consume c => exact consume_echoInv c hpc h
  | completion c => exact completion_echoInv c hpc h
  | readRx => exact ⟨h.1, fun _ => hmay trivial⟩
  | entry => exact entry_echoInv h.1 (hmay trivial)
  | reread => exact reread_echoInv h.1 (hmay trivial)
  | reply => exact reply_echoInv h.1 (hmay trivial)
  | publishTx => exact publishTx_echoInv h.1 (hmay trivial)
  | publishTxIdx => exact publishTxIdx_echoInv ho (hmay trivial)
  | recycle echoed =>
    refine ⟨h.1, fun hm => hmay ?_⟩
    cases echoed <;> exact hm
  | recycleIdx echoed => exact recycleIdx_echoInv echoed hpc h
  | drainRx l => exact drainRx_echoInv l hpc h
  | drainTx l => exact drainTx_echoInv l hpc h

theorem EchoInv.turn (h : EchoInv o s) {pc : Pc} (ht : Turns s.pc pc)
    (hstart : pc = .consume .top → s.echoedTx < o.maxPackets) : EchoInv o { s with pc := pc } := by
  refine ⟨h.1, fun hm => ?_⟩
  have hmay := h.2
  generalize s.pc = old at ht hmay
  cases ht with
  | start => exact hstart rfl
  | interrupted l => exact hmay hm
  | poll l | readable l | stop | startDrain | stopDrain | waitEnds | waitDrainEnds | timeout
  | timeoutDrain | failed l => exact hm.elim

/-! ## Completions -/

/-- `consume_tx_completions` has returned. -/
theorem afterConsume_txInv (c : Caller) (progress : Bool) (h : TxCore o s s.lastTxUsedIdx) :
    TxInv o (afterConsume s progress c) := by
  cases c with
  | top => exact h
  | beforeReply =>
    unfold afterConsume
    dsimp only
    split
    · exact h
    · rename_i slot hslot
      exact ⟨h, findFreeTxSlot_mem hslot⟩
  | drain =>
    cases progress
    · exact h
    · exact h

theorem consume_txInv (c : Caller) (h : TxCore o s s.lastTxUsedIdx) : TxInv o (consume c s) := by
  unfold consume
  split
  · exact afterConsume_txInv c false h
  · exact ⟨.start h.1, h.2⟩

/-- **A used entry gives a slot back** that is in flight. -/
theorem Completing.complete (ho : o.TxValid) (hecho : s.echoedTx ≤ o.maxPackets)
    (h : Completing o s) (hlt : s.j < s.txCount) {e : Nat × Nat}
    (he : s.tx.usedRing ((s.lastTxUsedIdx.toNat + s.j) % o.txQueueSize) = e) :
    e.1 < s.txSlots.length ∧
    Completing o { s with
      j := s.j + 1, txSlots := s.txSlots.set e.1 ⟨false⟩
      completedTx := (s.completedTx + 1) % 2 ^ 32, consumedTx := s.consumedTx ++ [e] } := by
  obtain ⟨hbetween, hslots, hcount⟩ := h
  have htaken : Virtqueue.Taken _ _ _ _ _ _
      (s.tx.usedRing ((s.lastTxUsedIdx.toNat + s.j) % o.txQueueSize)) := hbetween.take ho.dvd hlt
  rw [he] at htaken
  have hid : e.1 < s.txSlots.length := hslots ▸ List.mem_range.1 htaken.mem_ids
  have hperm := freeSlots_set_false hid (htaken.not_mem List.nodup_range)
  have hlen := hperm.length_eq
  have hfree := countP_inFlight (s.txSlots.set e.1 ⟨false⟩)
  have hpackets := ho.packets
  rw [List.length_set] at hfree
  rw [List.length_cons] at hlen
  refine ⟨hid, htaken.keep.of_perm hperm.symm, ?_, ?_⟩
  · show (s.txSlots.set e.1 ⟨false⟩).length = o.txBuffers
    rw [List.length_set, hslots]
  · show (s.completedTx + 1) % 2 ^ 32 + o.txBuffers =
      s.echoedTx + (freeSlots (s.txSlots.set e.1 ⟨false⟩)).length
    omega

theorem completion_txInv (ho : o.TxValid) (hecho : s.echoedTx ≤ o.maxPackets) (c : Caller)
    (hpc : s.pc = .completion c) (h : Completing o s) : TxInv o (completion o c s) := by
  unfold completion
  split
  · rename_i hlt
    obtain ⟨hid, hcomplete⟩ := h.complete ho hecho hlt rfl
    dsimp only
    rw [if_neg (Nat.not_le.2 hid)]
    simp only [TxInv, hpc]
    exact hcomplete
  · rename_i hge
    exact afterConsume_txInv c true ⟨h.1.finish hge, h.2⟩

/-! ## Publication -/

theorem publishTx_txInv (ho : o.TxValid)
    (h : TxCore o s s.lastTxUsedIdx ∧ s.txSlot ∈ freeSlots s.txSlots) :
    TxInv o (publishTx o s) := by
  obtain ⟨hcore, hslot⟩ := h
  unfold publishTx
  split
  · exact hcore
  · obtain ⟨hstore, -⟩ := hcore.conserved.store ho.dvd ho.ids (List.length_pos_of_mem hslot) s.txSlot
    exact ⟨⟨hstore, hcore.slots, hcore.count⟩, hslot, Function.update_self _ _ _⟩

theorem publishTxIdx_txInv (ho : o.TxValid) (hecho : s.echoedTx < o.maxPackets)
    (h : TxCore o s s.lastTxUsedIdx ∧ s.txSlot ∈ freeSlots s.txSlots ∧
      s.tx.availRing (s.tx.availIdx.toNat % o.txQueueSize) = s.txSlot) :
    TxInv o (publishTxIdx s) := by
  obtain ⟨hcore, hslot, hring⟩ := h
  obtain ⟨hpost, -⟩ := hcore.conserved.post ho.dvd ho.lt ho.ids hslot hring
  have hperm := freeSlots_set_true s.txSlots s.txSlot
  have hlen := hperm.length_eq
  have hpos := List.length_pos_of_mem hslot
  rw [List.length_erase_of_mem hslot] at hlen
  have hcount := hcore.count
  have hpackets := ho.packets
  refine ⟨hpost.of_perm hperm.symm, ?_, ?_⟩
  · show (s.txSlots.set s.txSlot ⟨true⟩).length = o.txBuffers
    rw [List.length_set, hcore.slots]
  · show s.completedTx + o.txBuffers =
      (s.echoedTx + 1) % 2 ^ 32 + (freeSlots (s.txSlots.set s.txSlot ⟨true⟩)).length
    omega

/-! ## Every step -/

theorem afterPoll_txInv (l : Loop) (h : TxCore o s s.lastTxUsedIdx) : TxInv o (afterPoll s l) := by
  cases l
  · exact h
  · exact h

theorem publishRx_txInv (hpc : s.pc = .publishRx) (h : TxFacts o s .fresh) :
    TxInv o (publishRx o s) := by
  unfold publishRx
  split
  · simp only [TxInv, hpc]
    exact h
  · exact h

/-- What is done with a received packet leaves the TX queue alone. -/
theorem entry_txInv (h : TxCore o s s.lastTxUsedIdx) : TxInv o (entry o s) := by
  unfold entry endBatch
  dsimp only
  split
  · split
    · exact h
    · exact h
  · split
    · exact h
    · split
      · exact h
      · exact h

theorem reread_txInv (h : TxCore o s s.lastTxUsedIdx) : TxInv o (reread o s) := by
  unfold reread
  dsimp only
  split
  · exact h
  · exact h

theorem recycleIdx_txInv (echoed : Bool) (h : TxCore o s s.lastTxUsedIdx) :
    TxInv o (recycleIdx o echoed s) := by
  unfold recycleIdx
  dsimp only
  split
  · exact h
  · exact h

theorem reply_txInv (h : TxCore o s s.lastTxUsedIdx ∧ s.txSlot ∈ freeSlots s.txSlots) :
    TxInv o (reply o s) := by
  unfold reply
  dsimp only
  split
  · exact h.1
  · exact h

theorem drainRx_txInv (l : Loop) (hpc : s.pc = .drainRx l) (h : TxCore o s s.lastTxUsedIdx) :
    TxInv o (drainRx o l s) := by
  unfold drainRx
  split
  · split
    · exact afterPoll_txInv l h
    · exact h
  · simp only [TxInv, hpc]
    exact h

theorem drainTx_txInv (l : Loop) (hpc : s.pc = .drainTx l) (h : TxCore o s s.lastTxUsedIdx) :
    TxInv o (drainTx l s) := by
  unfold drainTx
  split
  · exact afterPoll_txInv l h
  · simp only [TxInv, hpc]
    exact h

theorem TxInv.run (ho : o.TxValid) (hecho : EchoInv o s) (h : TxInv o s)
    (hs : run o s = some s') : TxInv o s' := by
  have hran := run_ran hs
  have hmay := hecho.2
  unfold TxInv at h
  generalize hpc : s.pc = pc at h hmay hran
  cases hran with
  | publishRx => exact publishRx_txInv hpc h
  | publishRxIdx | readInitialRx => exact h
  | readInitialTx =>
    obtain ⟨hcore, -, hidx⟩ := h
    rw [← hidx] at hcore
    exact hcore
  | driverOk | readRx | recycle echoed => exact h
  | consume c => exact consume_txInv c h
  | completion c => exact completion_txInv ho hecho.1 c hpc h
  | entry => exact entry_txInv h
  | reread => exact reread_txInv h
  | reply => exact reply_txInv h
  | publishTx => exact publishTx_txInv ho h
  | publishTxIdx => exact publishTxIdx_txInv ho (hmay trivial) h
  | recycleIdx echoed => exact recycleIdx_txInv echoed h
  | drainRx l => exact drainRx_txInv l hpc h
  | drainTx l => exact drainTx_txInv l hpc h

theorem TxInv.turn (h : TxInv o s) {pc : Pc} (ht : Turns s.pc pc) :
    TxInv o { s with pc := pc } := by
  unfold TxInv at h
  generalize s.pc = old at h ht
  cases ht <;> exact h

/-- The facts of a phase, after a step of the TX device. -/
theorem TxFacts.device (ho : o.TxValid) (hlive : s.live = true) {ph : TxPhase} (h : TxFacts o s ph)
    {a : DeviceAction} {tx : Virtqueue} (hs : s.tx.device o.txQueueSize a = some tx) :
    TxFacts o { s with tx := tx } ph := by
  have hcore : ∀ pos, TxCore o s pos → TxCore o { s with tx := tx } pos := fun pos hc =>
    ⟨hc.conserved.device ho.dvd ho.lt ho.ids hs, hc.slots, hc.count⟩
  cases ph with
  | fresh => exact absurd (hlive.symm.trans h.2.1) Bool.noConfusion
  | quiet => exact hcore _ h
  | counting => exact ⟨h.1.device ho.dvd ho.lt ho.ids hs, h.2⟩
  | chosen => exact ⟨hcore _ h.1, h.2⟩
  | staged =>
    obtain ⟨hring, hidx⟩ := Virtqueue.device_avail hs
    refine ⟨hcore _ h.1, h.2.1, ?_⟩
    show tx.availRing (tx.availIdx.toNat % o.txQueueSize) = _
    rw [hring, hidx]
    exact h.2.2

/-- The facts are about the TX queue, its slots, and the locals that walk over it. -/
theorem TxFacts.congr {ph : TxPhase} (h : TxFacts o s ph) (hlive : s'.live = s.live)
    (htx : s'.tx = s.tx) (hslots : s'.txSlots = s.txSlots) (hconsumed : s'.consumedTx = s.consumedTx)
    (hcompleted : s'.completedTx = s.completedTx) (hecho : s'.echoedTx = s.echoedTx)
    (hlast : s'.lastTxUsedIdx = s.lastTxUsedIdx) (hcurrent : s'.currentTxUsed = s.currentTxUsed)
    (hj : s'.j = s.j) (hslot : s'.txSlot = s.txSlot) : TxFacts o s' ph := by
  cases ph <;>
    simpa only [TxFacts, TxCore, TxCounts, Completing, State.txScan, hlive, htx, hslots, hconsumed,
      hcompleted, hecho, hlast, hcurrent, hj, hslot] using h

theorem TxInv.acted (ho : o.TxValid) (hlive : s.live = true) (h : TxInv o s) {e : Event}
    (hs : Acted o s e s') : TxInv o s' := by
  unfold TxInv at h
  cases hs with
  | tx htx => exact h.device ho hlive htx
  | rx _ _ | fill _ _ | rxSignal | txShared _ | txDistinct _ =>
    exact h.congr rfl rfl rfl rfl rfl rfl rfl rfl rfl rfl

theorem EchoInv.acted (h : EchoInv o s) {e : Event} (hs : Acted o s e s') : EchoInv o s' := by
  obtain ⟨rx, tx, rxBuf, rxEvent, txEvent, rxSignalled, txSignalled, rfl⟩ := hs.shared
  exact h

/-- **Every step keeps the invariant.** -/
theorem TxInv.step (ho : o.TxValid) (h : EchoInv o s ∧ TxInv o s) {e : Event}
    (hs : step o s e = some s') : EchoInv o s' ∧ TxInv o s' := by
  cases step_stepped hs with
  | ran hs => exact ⟨h.1.run ho hs, h.2.run ho h.1 hs⟩
  | turned _ hturn hstart => exact ⟨h.1.turn hturn hstart, h.2.turn hturn⟩
  | acted hlive hs => exact ⟨h.1.acted hs, h.2.acted ho hlive hs⟩

theorem freeSlots_replicate (n : Nat) : freeSlots (List.replicate n ⟨false⟩) = List.range n := by
  unfold freeSlots
  rw [List.length_replicate, List.filter_eq_self]
  intro id hid
  rw [List.getElem?_replicate, if_pos (List.mem_range.1 hid)]
  rfl

theorem init_txInv : EchoInv o (init o) ∧ TxInv o (init o) := by
  have hcore : TxCore o (init o) 0 := by
    refine ⟨?_, List.length_replicate, ?_⟩
    · show Virtqueue.Conserved _ _ _ _ (freeSlots (List.replicate o.txBuffers ⟨false⟩)) _
      rw [freeSlots_replicate]
      exact Virtqueue.zero_conserved
    · show 0 + o.txBuffers = 0 + (freeSlots (List.replicate o.txBuffers ⟨false⟩)).length
      rw [freeSlots_replicate, List.length_range]
  have hpc : (init o).pc = .publishRx ∨ (init o).pc = .threw := by
    unfold init
    dsimp only
    split
    · exact Or.inr rfl
    · exact Or.inl rfl
  constructor
  · refine ⟨Nat.zero_le _, fun hm => ?_⟩
    rcases hpc with hpc | hpc
    · rw [hpc] at hm
      exact hm.elim
    · rw [hpc] at hm
      exact hm.elim
  · unfold TxInv
    rcases hpc with hpc | hpc
    · rw [hpc]
      exact ⟨hcore, rfl, rfl⟩
    · rw [hpc]
      exact hcore

theorem TxInv.of_run (ho : o.TxValid) {es : List Event} (h : (machine o).run es = some s) :
    EchoInv o s ∧ TxInv o s :=
  Machine.run_inv init_txInv (fun s e s' hs (h : EchoLoop.step o s e = some s') => TxInv.step ho hs h) h

/-! ## Ownership -/

/-- The used entry that is consumed next, wherever the loop stands. -/
def State.nextTx (s : State) : BitVec 16 :=
  match s.pc.txPhase with
  | .counting => s.txPos
  | _ => s.lastTxUsedIdx

theorem TxInv.core (h : TxInv o s) : TxCore o s s.nextTx := by
  unfold TxInv at h
  unfold State.nextTx
  cases hph : s.pc.txPhase with
  | fresh =>
    rw [hph] at h
    exact h.1
  | quiet =>
    rw [hph] at h
    exact h
  | counting =>
    rw [hph] at h
    exact ⟨h.1.conserved, h.2⟩
  | chosen =>
    rw [hph] at h
    exact h.1
  | staged =>
    rw [hph] at h
    exact h.1

/-- The ids that are published and whose used entry is not consumed. -/
def owned (o : Options) (s : State) : List Nat :=
  s.tx.waiting o.txQueueSize ++ (s.tx.held ++ (s.tx.unseen o.txQueueSize s.nextTx).map Prod.fst)

theorem TxCore.owned_perm (h : TxCore o s s.nextTx) :
    (owned o s ++ freeSlots s.txSlots).Perm (List.range o.txBuffers) := by
  rw [owned, List.append_assoc, List.append_assoc]
  exact h.conserved.places

/-- A slot is either free or owned. -/
theorem TxCore.owned_iff (h : TxCore o s s.nextTx) {id : Nat} (hid : id < o.txBuffers) :
    id ∈ owned o s ↔ id ∉ freeSlots s.txSlots := by
  have hcount := h.conserved.count id
  have hone : (List.range o.txBuffers).count id = 1 :=
    List.count_eq_one_of_mem List.nodup_range (List.mem_range.2 hid)
  rw [← List.count_pos_iff, ← List.count_eq_zero, owned, List.count_append, List.count_append]
  omega

/-- Only the chosen slot is written. -/
theorem run_txMemory (hs : EchoLoop.run o s = some s') :
    (s'.txDesc = s.txDesc ∧ s'.txBuf = s.txBuf) ∨
      (s.pc.txPhase = .chosen ∧ ∀ id, id ≠ s.txSlot →
        s'.txDesc id = s.txDesc id ∧ s'.txBuf id = s.txBuf id) := by
  by_cases hwrites : s.pc.writes = false
  · have hmemory := run_memory hwrites hs
    simp only [State.memory, Prod.mk.injEq] at hmemory
    exact Or.inl hmemory.2.2.2
  have hran := run_ran hs
  generalize s.pc = pc at hwrites hran
  cases hran with
  | publishRx =>
    left
    unfold publishRx
    split
    · exact ⟨rfl, rfl⟩
    · exact ⟨rfl, rfl⟩
  | publishRxIdx | publishTxIdx | recycle echoed => exact Or.inl ⟨rfl, rfl⟩
  | recycleIdx echoed =>
    left
    unfold recycleIdx
    dsimp only
    split
    · exact ⟨rfl, rfl⟩
    · exact ⟨rfl, rfl⟩
  | reply =>
    unfold reply
    dsimp only
    split
    · exact Or.inl ⟨rfl, rfl⟩
    · exact Or.inr ⟨rfl, fun id hid => ⟨rfl, Function.update_of_ne hid _ _⟩⟩
  | publishTx =>
    unfold publishTx
    split
    · exact Or.inl ⟨rfl, rfl⟩
    · exact Or.inr ⟨rfl, fun id hid => ⟨Function.update_of_ne hid _ _, rfl⟩⟩
  | readInitialRx | readInitialTx | driverOk | consume c | completion c | readRx | entry | reread
  | drainRx l | drainTx l => exact absurd rfl hwrites

/-- **What is owned is not written.** -/
theorem TxInv.owned_kept (h : TxInv o s) {e : Event}
    (hs : EchoLoop.step o s e = some s') {id : Nat} (hid : id ∈ owned o s) :
    s'.txDesc id = s.txDesc id ∧ s'.txBuf id = s.txBuf id := by
  cases step_stepped hs with
  | ran hs =>
    rcases run_txMemory hs with ⟨hdesc, hbuf⟩ | ⟨hphase, hkept⟩
    · rw [hdesc, hbuf]
      exact ⟨rfl, rfl⟩
    · apply hkept
      rintro rfl
      have hcore := h.core
      unfold TxInv at h
      rw [hphase] at h
      have hlt : s.txSlot < o.txBuffers := by
        rw [← hcore.slots]
        exact (List.getElem?_eq_some_iff.1 (mem_freeSlots.1 h.2)).1
      exact (hcore.owned_iff hlt).1 hid h.2
  | turned _ _ _ => exact ⟨rfl, rfl⟩
  | acted _ hs =>
    obtain ⟨rx, tx, rxBuf, rxEvent, txEvent, rxSignalled, txSignalled, rfl⟩ := hs.shared
    exact ⟨rfl, rfl⟩

/-- Only `publish_tx_packet` writes the avail ring of the TX queue. -/
theorem run_tx (hs : EchoLoop.run o s = some s') :
    s'.tx = s.tx ∨ (s.pc = .publishTx ∧ s'.tx = s.tx.store o.txQueueSize s.txSlot) ∨
      (s.pc = .publishTxIdx ∧ s'.tx = s.tx.post) := by
  by_cases hwrites : s.pc.writes = false
  · have hmemory := run_memory hwrites hs
    simp only [State.memory, Prod.mk.injEq] at hmemory
    exact Or.inl hmemory.2.1
  have hran := run_ran hs
  generalize s.pc = pc at hwrites hran
  cases hran with
  | publishTx =>
    unfold publishTx
    split
    · exact Or.inl rfl
    · exact Or.inr (Or.inl ⟨rfl, rfl⟩)
  | publishTxIdx => exact Or.inr (Or.inr ⟨rfl, rfl⟩)
  | publishRx | reply | recycleIdx echoed =>
    left
    simp only [publishRx, reply, recycleIdx]
    split
    · rfl
    · rfl
  | publishRxIdx | recycle echoed => exact Or.inl rfl
  | readInitialRx | readInitialTx | driverOk | consume c | completion c | readRx | entry | reread
  | drainRx l | drainTx l => exact absurd rfl hwrites

/-- The driver only adds to what is posted. -/
theorem TxInv.waiting_prefix (ho : o.TxValid) (h : TxInv o s) {e : Event} (he : e.isDriver = true)
    (hs : EchoLoop.step o s e = some s') :
    s.tx.waiting o.txQueueSize <+: s'.tx.waiting o.txQueueSize := by
  cases step_stepped hs with
  | ran hs =>
    rcases run_tx hs with htx | ⟨hpc, htx⟩ | ⟨hpc, htx⟩
    · rw [htx]
    · unfold TxInv at h
      rw [hpc] at h
      obtain ⟨hcore, hslot⟩ := h
      obtain ⟨-, hwaiting⟩ :=
        hcore.conserved.store ho.dvd ho.ids (List.length_pos_of_mem hslot) s.txSlot
      rw [htx, hwaiting]
    · unfold TxInv at h
      rw [hpc] at h
      obtain ⟨hcore, hslot, hring⟩ := h
      obtain ⟨-, hwaiting⟩ := hcore.conserved.post ho.dvd ho.lt ho.ids hslot hring
      rw [htx, hwaiting]
      exact List.prefix_append _ _
  | turned _ _ _ => exact List.prefix_rfl
  | acted _ hs => exact absurd he hs.not_driver

/-- **TX slots are owned once.**  In every run, against every conforming device: a slot is in flight
while its id is published and the used entry is not consumed, and until then no step writes its
descriptor or its buffer; no step of the driver changes a slot of the avail ring that the device
has not popped; and the completed packets and the slots in flight make up the echoed packets. -/
theorem txSlots_owned (ho : o.TxValid) {es : List Event} (h : (machine o).run es = some s) :
    (∀ id < o.txBuffers, s.txSlots[id]? = some ⟨true⟩ ↔ id ∈ owned o s) ∧
    (owned o s).Nodup ∧ (∀ id ∈ owned o s, id < o.txBuffers) ∧
    (∀ e s', step o s e = some s' → ∀ id ∈ owned o s,
      s'.txDesc id = s.txDesc id ∧ s'.txBuf id = s.txBuf id) ∧
    (∀ e s', e.isDriver = true → step o s e = some s' →
      s.tx.waiting o.txQueueSize <+: s'.tx.waiting o.txQueueSize) ∧
    s.tx.returned = s.consumedTx ++ s.tx.unseen o.txQueueSize s.nextTx ∧
    s.completedTx + s.txSlots.countP (·.inFlight) = s.echoedTx := by
  obtain ⟨-, hinv⟩ := TxInv.of_run ho h
  have hcore := hinv.core
  refine ⟨fun id hid => ?_, ?_, fun id hid => ?_, fun _ _ hs id hid => hinv.owned_kept hs hid,
    fun _ _ he hs => hinv.waiting_prefix ho he hs, hcore.conserved.history, ?_⟩
  · rw [hcore.owned_iff hid, mem_freeSlots]
    exact inFlight_iff (hcore.slots.symm ▸ hid)
  · have hnodup := hcore.owned_perm.nodup_iff.2 List.nodup_range
    exact (List.nodup_append.1 hnodup).1
  · exact List.mem_range.1 (hcore.owned_perm.subset (List.mem_append_left _ hid))
  · have hcount := hcore.count
    have hfree := countP_inFlight s.txSlots
    have hslots := hcore.slots
    omega

/-- After one echo the only slot is in flight: the device may not even have seen its id. -/
theorem txSlots_owned_small : ∃ s,
    (machine smallOptions).run smallRun = some s ∧ s.tx.held = [] ∧ s.echoedTx = 1 ∧
    (s.txSlots[0]? = some ⟨true⟩ ↔ 0 ∈ owned smallOptions s) ∧ 0 ∈ owned smallOptions s ∧
    s.completedTx + s.txSlots.countP (·.inFlight) = 1 := by
  obtain ⟨s, hs, hheld, hecho, hflight⟩ : ∃ s, (machine smallOptions).run smallRun = some s ∧
      s.tx.held = [] ∧ s.echoedTx = 1 ∧ s.txSlots[0]? = some ⟨true⟩ := ⟨_, rfl, rfl, rfl, rfl⟩
  have hvalid : smallOptions.TxValid := ⟨⟨1, rfl⟩, by decide, by decide, by decide⟩
  obtain ⟨hiff, -, -, -, -, -, hcount⟩ := txSlots_owned hvalid hs
  have hzero := hiff 0 (by decide)
  exact ⟨s, hs, hheld, hecho, hzero, hzero.1 hflight, hcount.trans hecho⟩

end Tx

end AdvCpp.Virtio.EchoLoop
