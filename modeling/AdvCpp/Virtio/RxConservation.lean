import AdvCpp.Lib.Multiples
import AdvCpp.Lib.UsedScan
import AdvCpp.Virtio.EchoLoop

/-!
# RX descriptors in the echo loop

Wherever the loop is, every RX descriptor is in one place: posted, with the device, in the used ring
and not yet processed, or being processed.

* `RxPhase` — where the loop stands between two used entries.
* `RxInv` — the invariant of each phase, `RxInv.step` — every step keeps it.
* `rxDescriptors_conserved` — conservation in every run, and what follows from it.
-/

namespace AdvCpp.Virtio.EchoLoop

open AdvCpp.Lib

/-- Where the loop stands, as far as the RX queue is concerned. -/
inductive RxPhase where
  | publishing
  | published
  | posted
  | idle
  | batch
  | peeked
  | busy
  | staged
  | exited
  deriving DecidableEq

def Pc.rxPhase : Pc → RxPhase
  | .publishRx => .publishing
  | .publishRxIdx => .published
  | .readInitialRx => .posted
  | .readInitialTx | .driverOk | .head | .readRx => .idle
  | .consume .top | .completion .top => .idle
  | .wait .main | .poll .main | .drainRx .main | .drainTx .main => .idle
  | .entry => .batch
  | .reread => .peeked
  | .consume .beforeReply | .completion .beforeReply => .busy
  | .reply | .publishTx | .publishTxIdx | .recycle _ => .busy
  | .recycleIdx _ => .staged
  | .consume .drain | .completion .drain => .exited
  | .wait .drain | .poll .drain | .drainRx .drain | .drainTx .drain => .exited
  | .drainHead | .done | .threw => .exited

/-- The used entry that the loop looks at. -/
def State.rxPos (s : State) : BitVec 16 := s.lastRxUsedIdx + BitVec.ofNat 16 s.i

/-- A batch is a scan of the used ring. -/
def State.rxScan (s : State) : Virtqueue.Scan := ⟨s.lastRxUsedIdx, s.currentRxUsed, s.i⟩

section Rx

variable (o : Options)

/-- The queue while `publish_rx_buffers` fills it. -/
def Filling (s : State) : Prop :=
  s.live = false ∧ s.lastRxUsedIdx = 0 ∧ s.processedRx = [] ∧
    ∃ f, s.rx = { Virtqueue.zero with availRing := f } ∧ ∀ j < s.i, f j = j

/-- Between two entries of a batch. -/
def Batch (s : State) : Prop :=
  Virtqueue.Between o.rxQueueSize (List.range o.rxBuffers) s.rx s.rxScan [] s.processedRx

/-- While an entry is processed. -/
def Busy (s : State) : Prop :=
  Virtqueue.Taken o.rxQueueSize (List.range o.rxBuffers) s.rx s.rxScan [] s.processedRx s.received

def RxFacts (s : State) : RxPhase → Prop
  | .publishing => Filling s ∧ s.i ≤ o.rxBuffers
  | .published => Filling s ∧ s.i = o.rxBuffers
  | .posted => s.live = false ∧ s.rx.usedIdx = s.lastRxUsedIdx ∧
      Virtqueue.Conserved o.rxQueueSize (List.range o.rxBuffers) s.rx s.lastRxUsedIdx []
        s.processedRx
  | .idle =>
      Virtqueue.Conserved o.rxQueueSize (List.range o.rxBuffers) s.rx s.lastRxUsedIdx []
        s.processedRx
  | .batch => Batch o s
  | .peeked => Batch o s ∧ s.i < s.rxCount ∧ s.rx.usedRing (s.usedSlot o) = s.received
  | .busy => Busy o s
  | .staged => Busy o s ∧
      s.rx.availRing (s.rx.availIdx.toNat % o.rxQueueSize) = s.received.1
  | .exited => True

def RxInv (s : State) : Prop := RxFacts o s s.pc.rxPhase

/-- The queue size is a power of two, and there are not more buffers. -/
structure Options.RxValid : Prop where
  power : o.rxQueueSize.isPowerOfTwo
  size : o.rxQueueSize ≤ 32768
  buffers : o.rxBuffers ≤ o.rxQueueSize

variable {o} {s s' : State}

theorem Options.RxValid.dvd (ho : o.RxValid) : o.rxQueueSize ∣ 2 ^ 16 :=
  isPowerOfTwo_dvd ho.power (ho.size.trans (by decide))

theorem Options.RxValid.lt (ho : o.RxValid) : o.rxQueueSize < 2 ^ 16 := by
  have hsize := ho.size
  omega

theorem Options.RxValid.ids (ho : o.RxValid) : (List.range o.rxBuffers).length ≤ o.rxQueueSize := by
  rw [List.length_range]
  exact ho.buffers

/-! ## Steps of the driver -/

theorem publishRx_inv (h : Filling s ∧ s.i ≤ o.rxBuffers) (hpc : s.pc = .publishRx) :
    RxInv o (publishRx o s) := by
  obtain ⟨⟨hlive, hlast, hprocessed, f, hrx, hf⟩, hle⟩ := h
  unfold publishRx
  split
  · rename_i hlt
    simp only [RxInv, hpc, Pc.rxPhase, RxFacts]
    refine ⟨⟨hlive, hlast, hprocessed, Function.update f s.i s.i, ?_, fun j hj => ?_⟩, hlt⟩
    · rw [hrx]
    · by_cases hj' : j = s.i
      · rw [hj', Function.update_self]
      · rw [Function.update_of_ne hj']
        exact hf j (Nat.lt_of_le_of_ne (Nat.le_of_lt_succ hj) hj')
  · rename_i hge
    exact ⟨⟨hlive, hlast, hprocessed, f, hrx, hf⟩, Nat.le_antisymm hle (Nat.not_lt.1 hge)⟩

theorem publishRxIdx_inv (ho : o.RxValid) (h : Filling s ∧ s.i = o.rxBuffers) :
    RxInv o (publishRxIdx o s) := by
  obtain ⟨⟨hlive, hlast, hprocessed, f, hrx, hf⟩, hi⟩ := h
  rw [hi] at hf
  refine ⟨hlive, ?_, ?_⟩
  · show s.rx.usedIdx = s.lastRxUsedIdx
    rw [hrx, hlast]
    rfl
  · have hconserved := Virtqueue.posted_conserved ho.buffers ho.lt hf
    show Virtqueue.Conserved o.rxQueueSize (List.range o.rxBuffers)
      { s.rx with availIdx := BitVec.ofNat 16 o.rxBuffers } s.lastRxUsedIdx [] s.processedRx
    rw [hrx, hlast, hprocessed]
    exact hconserved

theorem readRx_inv (h : Virtqueue.Conserved o.rxQueueSize (List.range o.rxBuffers) s.rx
    s.lastRxUsedIdx [] s.processedRx) : RxInv o (readRx s) := Virtqueue.Between.start h

theorem endBatch_inv (h : Virtqueue.Conserved o.rxQueueSize (List.range o.rxBuffers) s.rx
    s.currentRxUsed [] s.processedRx) : RxInv o (endBatch o s) := by
  unfold endBatch
  dsimp only
  split
  · trivial
  · split
    · exact h
    · exact h

/-- **The next entry** is accepted, skipped, or there is none. -/
theorem entry_inv (ho : o.RxValid) (h : Batch o s) : RxInv o (entry o s) := by
  unfold entry
  split
  · rename_i hlt
    dsimp only
    split
    · exact h.take ho.dvd hlt
    · exact ⟨h, hlt, rfl⟩
  · rename_i hge
    exact endBatch_inv (h.finish hge)

/-- A skipped entry still holds the same id. -/
theorem reread_inv (ho : o.RxValid)
    (h : Batch o s ∧ s.i < s.rxCount ∧ s.rx.usedRing (s.usedSlot o) = s.received) :
    RxInv o (reread o s) := by
  obtain ⟨hbatch, hlt, hsame⟩ := h
  have htaken := hbatch.take ho.dvd hlt
  change Virtqueue.Taken _ _ _ _ _ _ (s.rx.usedRing (s.usedSlot o)) at htaken
  rw [hsame] at htaken
  have hid : s.received.1 < o.rxBuffers := List.mem_range.1 htaken.mem_ids
  unfold reread
  rw [hsame, if_pos hid]
  exact htaken

theorem recycle_inv (ho : o.RxValid) (echoed : Bool) (h : Busy o s) :
    RxInv o (recycle o echoed s) := by
  have hid : s.received.1 % 2 ^ 16 = s.received.1 := by
    have hrange := List.mem_range.1 (Virtqueue.Taken.mem_ids h)
    have hbuffers := ho.buffers
    have hsize := ho.size
    exact Nat.mod_eq_of_lt (by omega)
  exact ⟨Virtqueue.Taken.store ho.dvd ho.ids h _, (Function.update_self _ _ _).trans hid⟩

theorem recycleIdx_inv (ho : o.RxValid) (echoed : Bool)
    (h : Busy o s ∧ s.rx.availRing (s.rx.availIdx.toNat % o.rxQueueSize) = s.received.1) :
    RxInv o (recycleIdx o echoed s) := by
  unfold recycleIdx
  dsimp only
  split
  · trivial
  · exact h.1.post ho.dvd ho.lt ho.ids h.2

/-- What `consume_tx_completions` does is not about the RX queue. -/
theorem afterConsume_rxInv (c : Caller) (progress : Bool) (h : RxFacts o s (Pc.consume c).rxPhase) :
    RxInv o (afterConsume s progress c) := by
  cases c with
  | top => exact h
  | beforeReply =>
    unfold afterConsume
    dsimp only
    split
    · exact h
    · exact h
  | drain =>
    unfold afterConsume
    cases progress
    · trivial
    · trivial

theorem consume_rxInv (c : Caller) (h : RxFacts o s (Pc.consume c).rxPhase) :
    RxInv o (consume c s) := by
  unfold consume
  split
  · exact afterConsume_rxInv c false h
  · cases c
    · exact h
    · exact h
    · trivial

theorem completion_rxInv (c : Caller) (hpc : s.pc = .completion c)
    (h : RxFacts o s (Pc.consume c).rxPhase) : RxInv o (completion o c s) := by
  have hphase : (Pc.consume c).rxPhase = (Pc.completion c).rxPhase := by cases c <;> rfl
  unfold completion
  split
  · dsimp only
    rw [hphase] at h
    split
    · simp only [RxInv, hpc]
      exact h
    · simp only [RxInv, hpc]
      exact h
  · exact afterConsume_rxInv c true h

theorem afterPoll_rxInv (l : Loop) (h : RxFacts o s (Pc.poll l).rxPhase) :
    RxInv o (afterPoll s l) := by
  cases l
  · exact h
  · trivial

/-- A reply and its descriptor leave the RX queue alone. -/
theorem reply_rxInv (h : Busy o s) : RxInv o (reply o s) := by
  unfold reply
  dsimp only
  split
  · trivial
  · exact h

theorem publishTx_rxInv (h : Busy o s) : RxInv o (publishTx o s) := by
  unfold publishTx
  split
  · trivial
  · exact h

theorem drainRx_rxInv (l : Loop) (hpc : s.pc = .drainRx l) (h : RxFacts o s (Pc.poll l).rxPhase) :
    RxInv o (drainRx o l s) := by
  have hphase : (Pc.poll l).rxPhase = (Pc.drainRx l).rxPhase := by cases l <;> rfl
  unfold drainRx
  split
  · split
    · exact afterPoll_rxInv l h
    · cases l <;> exact h
  · simp only [RxInv, hpc]
    rwa [hphase] at h

theorem drainTx_rxInv (l : Loop) (hpc : s.pc = .drainTx l) (h : RxFacts o s (Pc.poll l).rxPhase) :
    RxInv o (drainTx l s) := by
  have hphase : (Pc.poll l).rxPhase = (Pc.drainTx l).rxPhase := by cases l <;> rfl
  unfold drainTx
  split
  · exact afterPoll_rxInv l h
  · simp only [RxInv, hpc]
    rwa [hphase] at h

/-- **Every step of the driver that waits for nothing.** -/
theorem RxInv.run (ho : o.RxValid) (h : RxInv o s) (hs : run o s = some s') : RxInv o s' := by
  have hran := run_ran hs
  unfold RxInv at h
  generalize hpc : s.pc = pc at h hran
  cases hran with
  | publishRx => exact publishRx_inv h hpc
  | publishRxIdx => exact publishRxIdx_inv ho h
  | readInitialRx =>
    obtain ⟨-, hidx, hconserved⟩ := h
    rw [← hidx] at hconserved
    exact hconserved
  | readInitialTx | driverOk => exact h
  | consume c => exact consume_rxInv c h
  | completion c =>
    refine completion_rxInv c hpc ?_
    cases c <;> exact h
  | readRx => exact readRx_inv h
  | entry => exact entry_inv ho h
  | reread => exact reread_inv ho h
  | reply => exact reply_rxInv h
  | publishTx => exact publishTx_rxInv h
  | publishTxIdx => exact h
  | recycle echoed => exact recycle_inv ho echoed h
  | recycleIdx echoed => exact recycleIdx_inv ho echoed h
  | drainRx l =>
    refine drainRx_rxInv l hpc ?_
    cases l <;> exact h
  | drainTx l =>
    refine drainTx_rxInv l hpc ?_
    cases l <;> exact h

theorem RxInv.turn (h : RxInv o s) {pc : Pc} (ht : Turns s.pc pc) :
    RxInv o { s with pc := pc } := by
  unfold RxInv at h
  generalize s.pc = old at h ht
  cases ht with
  | start => exact h
  | poll l | readable l | interrupted l =>
    cases l
    · exact h
    · trivial
  | stop | startDrain | stopDrain | waitEnds | waitDrainEnds | timeout | timeoutDrain | failed l =>
    trivial

/-! ## Steps of the device -/

/-- The facts of a phase, after a step of the RX device. -/
theorem RxFacts.device (ho : o.RxValid) (hlive : s.live = true) {ph : RxPhase} (h : RxFacts o s ph)
    {a : DeviceAction} {rx : Virtqueue} (hs : s.rx.device o.rxQueueSize a = some rx) :
    RxFacts o { s with rx := rx } ph := by
  have hbatch : Batch o s → Batch o { s with rx := rx } := fun h =>
    Virtqueue.Between.device ho.dvd ho.lt ho.ids h hs
  have hbusy : Busy o s → Busy o { s with rx := rx } := fun h =>
    Virtqueue.Taken.device ho.dvd ho.lt ho.ids h hs
  cases ph with
  | publishing => exact absurd (hlive.symm.trans h.1.1) Bool.noConfusion
  | published => exact absurd (hlive.symm.trans h.1.1) Bool.noConfusion
  | posted => exact absurd (hlive.symm.trans h.1) Bool.noConfusion
  | idle => exact Virtqueue.Conserved.device ho.dvd ho.lt ho.ids h hs
  | batch => exact hbatch h
  | peeked =>
    obtain ⟨hb, hlt, hsame⟩ := h
    exact ⟨hbatch hb, hlt, (hb.entry_stable ho.dvd ho.lt ho.ids hlt hs).trans hsame⟩
  | busy => exact hbusy h
  | staged =>
    obtain ⟨hring, hidx⟩ := Virtqueue.device_avail hs
    refine ⟨hbusy h.1, ?_⟩
    show rx.availRing (rx.availIdx.toNat % o.rxQueueSize) = _
    rw [hring, hidx]
    exact h.2
  | exited => trivial

/-- The facts are about the RX queue and the locals that walk over it. -/
theorem RxFacts.congr {ph : RxPhase} (h : RxFacts o s ph) (hlive : s'.live = s.live)
    (hrx : s'.rx = s.rx) (hlast : s'.lastRxUsedIdx = s.lastRxUsedIdx)
    (hcurrent : s'.currentRxUsed = s.currentRxUsed) (hi : s'.i = s.i)
    (hreceived : s'.received = s.received) (hprocessed : s'.processedRx = s.processedRx) :
    RxFacts o s' ph := by
  cases ph with
  | exited => trivial
  | _ =>
    simpa only [RxFacts, Filling, Batch, Busy, State.rxScan, State.rxCount, State.usedSlot, hlive, hrx,
      hlast, hcurrent, hi, hreceived, hprocessed] using h

theorem RxInv.acted (ho : o.RxValid) (hlive : s.live = true) (h : RxInv o s) {e : Event}
    (hs : Acted o s e s') : RxInv o s' := by
  unfold RxInv at h
  cases hs with
  | rx _ hrx => exact h.device ho hlive hrx
  | fill _ _ | rxSignal | tx _ | txShared _ | txDistinct _ =>
    exact h.congr rfl rfl rfl rfl rfl rfl rfl

/-! ## Every run -/

theorem init_rxInv : RxInv o (init o) := by
  unfold RxInv init
  dsimp only
  split
  · trivial
  · exact ⟨⟨rfl, rfl, rfl, _, rfl, fun j hj => absurd hj (Nat.not_lt_zero j)⟩, Nat.zero_le _⟩

/-- **Every step keeps the invariant.** -/
theorem RxInv.step (ho : o.RxValid) (h : RxInv o s) {e : Event} (hs : step o s e = some s') :
    RxInv o s' := by
  cases step_stepped hs with
  | ran hs => exact h.run ho hs
  | turned _ hturn _ => exact h.turn hturn
  | acted hlive hs => exact h.acted ho hlive hs

theorem RxInv.of_run (ho : o.RxValid) {es : List Event} (h : (machine o).run es = some s) :
    RxInv o s :=
  Machine.run_inv init_rxInv (fun _ _ _ hs h => hs.step ho h) h

/-! ## Conservation -/

/-- `publish_rx_buffers` has not returned. -/
def Pc.publishing (pc : Pc) : Prop := pc.rxPhase = .publishing ∨ pc.rxPhase = .published

/-- After `publish_rx_buffers`, and before the main loop exits. -/
def Pc.inMainLoop (pc : Pc) : Prop := ¬ pc.publishing ∧ pc.rxPhase ≠ .exited

/-- The first used entry that is not processed yet. -/
def State.nextRx (s : State) : BitVec 16 :=
  match s.pc.rxPhase with
  | .batch | .peeked => s.rxPos
  | .busy | .staged => s.rxPos + 1
  | _ => s.lastRxUsedIdx

/-- The entry that is being processed. -/
def State.inProcess (s : State) : List (Nat × Nat) :=
  match s.pc.rxPhase with
  | .busy | .staged => [s.received]
  | _ => []

theorem RxInv.conserved (h : RxInv o s) (hpc : s.pc.inMainLoop) :
    Virtqueue.Conserved o.rxQueueSize (List.range o.rxBuffers) s.rx s.nextRx
      (s.inProcess.map Prod.fst) (s.processedRx ++ s.inProcess) := by
  unfold RxInv at h
  unfold Pc.inMainLoop Pc.publishing at hpc
  unfold State.nextRx State.inProcess
  cases hph : s.pc.rxPhase with
  | publishing => exact absurd (Or.inl hph) hpc.1
  | published => exact absurd (Or.inr hph) hpc.1
  | exited => exact absurd hph hpc.2
  | posted =>
    rw [hph] at h
    rw [List.append_nil]
    exact h.2.2
  | idle =>
    rw [hph] at h
    rw [List.append_nil]
    exact h
  | batch =>
    rw [hph] at h
    rw [List.append_nil]
    exact h.1
  | peeked =>
    rw [hph] at h
    rw [List.append_nil]
    exact h.1.1
  | busy =>
    rw [hph] at h
    exact h.1
  | staged =>
    rw [hph] at h
    exact h.1.1

/-- Only `publish_rx_buffers` and `recycle_rx_buffer` write the RX queue. -/
theorem run_rx (hs : EchoLoop.run o s = some s') :
    s'.rx = s.rx ∨ s.pc.publishing ∨ (∃ b, s.pc = .recycle b ∧ s' = recycle o b s) ∨
      ∃ b, s.pc = .recycleIdx b ∧ s' = recycleIdx o b s := by
  by_cases hwrites : s.pc.writes = false
  · have hmemory := run_memory hwrites hs
    simp only [State.memory, Prod.mk.injEq] at hmemory
    exact Or.inl hmemory.1
  have hran := run_ran hs
  generalize s.pc = pc at hwrites hran
  cases hran with
  | publishRx => exact Or.inr (Or.inl (Or.inl rfl))
  | publishRxIdx => exact Or.inr (Or.inl (Or.inr rfl))
  | recycle b => exact Or.inr (Or.inr (Or.inl ⟨b, rfl, rfl⟩))
  | recycleIdx b => exact Or.inr (Or.inr (Or.inr ⟨b, rfl, rfl⟩))
  | reply | publishTx =>
    left
    simp only [reply, publishTx]
    split
    · rfl
    · rfl
  | publishTxIdx => exact Or.inl rfl
  | readInitialRx | readInitialTx | driverOk | consume c | completion c | readRx | entry | reread
  | drainRx l | drainTx l => exact absurd rfl hwrites

/-- **The driver only adds to what is posted**: no slot that the device has not popped is
overwritten. -/
theorem RxInv.waiting_prefix (ho : o.RxValid) (h : RxInv o s) (hpc : s.pc.inMainLoop) {e : Event}
    (he : e.isDriver = true) (hs : EchoLoop.step o s e = some s') :
    s.rx.waiting o.rxQueueSize <+: s'.rx.waiting o.rxQueueSize := by
  have hsame : s'.rx = s.rx → s.rx.waiting o.rxQueueSize <+: s'.rx.waiting o.rxQueueSize := by
    intro hrx
    rw [hrx]
  cases step_stepped hs with
  | ran hs =>
    rcases run_rx hs with hrx | hpub | ⟨b, hb, rfl⟩ | ⟨b, hb, rfl⟩
    · exact hsame hrx
    · exact absurd hpub hpc.1
    · unfold RxInv at h
      rw [hb] at h
      obtain ⟨-, hwaiting⟩ := h.conserved.store ho.dvd ho.ids Nat.one_pos (s.received.1 % 2 ^ 16)
      show _ <+: (s.rx.store o.rxQueueSize (s.received.1 % 2 ^ 16)).waiting o.rxQueueSize
      rw [hwaiting]
    · unfold RxInv at h
      rw [hb] at h
      obtain ⟨hbusy, hslot⟩ := h
      obtain ⟨-, hwaiting⟩ := hbusy.conserved.post ho.dvd ho.lt ho.ids List.mem_cons_self hslot
      have hrx : (recycleIdx o b s).rx = s.rx.post := by
        unfold recycleIdx
        dsimp only
        split <;> rfl
      rw [hrx, hwaiting]
      exact List.prefix_append _ _
  | turned _ _ _ => exact hsame rfl
  | acted _ hs => exact absurd he hs.not_driver

/-- **RX descriptors are conserved.**  In every run, against every conforming device: until
`publish_rx_buffers` has returned nothing is posted, and then, until the main loop exits, every id
is in one place, so that none is posted twice; the used entries are processed once each and in
their order; and no step of the driver changes a slot that the device has not popped. -/
theorem rxDescriptors_conserved (ho : o.RxValid) {es : List Event}
    (h : (machine o).run es = some s) :
    (s.pc.publishing →
      s.rx.waiting o.rxQueueSize = [] ∧ s.rx.held = [] ∧ s.rx.returned = []) ∧
    (s.pc.inMainLoop →
      (s.rx.waiting o.rxQueueSize ++ (s.rx.held ++
        ((s.rx.unseen o.rxQueueSize s.nextRx).map Prod.fst ++ s.inProcess.map Prod.fst))).Perm
          (List.range o.rxBuffers) ∧
      s.rx.returned = s.processedRx ++ s.inProcess ++ s.rx.unseen o.rxQueueSize s.nextRx ∧
      ∀ e s', e.isDriver = true → step o s e = some s' →
        s.rx.waiting o.rxQueueSize <+: s'.rx.waiting o.rxQueueSize) := by
  have hinv := RxInv.of_run ho h
  constructor
  · intro hpc
    have hfilling : Filling s := by
      unfold RxInv at hinv
      rcases hpc with hpc | hpc
      · rw [hpc] at hinv
        exact hinv.1
      · rw [hpc] at hinv
        exact hinv.1
    obtain ⟨-, -, -, f, hrx, -⟩ := hfilling
    rw [hrx]
    exact ⟨Virtqueue.waiting_eq_nil.2 rfl, rfl, rfl⟩
  · intro hpc
    have hconserved := hinv.conserved hpc
    exact ⟨hconserved.places, hconserved.history, fun _ _ he hs => hinv.waiting_prefix ho hpc he hs⟩

/-- Two buffers, one packet of 60 bytes, and its echo. -/
def smallOptions : Options where
  rxQueueSize := 2
  txQueueSize := 2
  rxBuffers := 2
  txBuffers := 1
  rxBufferSize := 128
  maxPackets := 3
  matchEthertype := none
  sharedVector := false
  rxBufferIova := 0x100004000
  txBuffersIova := 0x100005000
  replySrcMac := #v[2, 0, 0, 0, 0, 3]

/-- The device pops both descriptors and returns the second; the loop echoes the packet and recycles
the descriptor. -/
def smallRun : List Event :=
  [.run, .run, .run, .run, .run, .run, .run, .rxDevice .pop, .rxDevice .pop, .rxDevice (.write 1 72),
    .rxDevice .publish, .rxSignal, .clock true, .run, .run, .run, .run, .run, .run, .run, .run, .run]

theorem rxDescriptors_conserved_small : ∃ s,
    (machine smallOptions).run smallRun = some s ∧ s.pc = .entry ∧ s.rx.held = [0] ∧
    (s.rx.waiting 2 ++ (s.rx.held ++ ((s.rx.unseen 2 s.nextRx).map Prod.fst ++
      s.inProcess.map Prod.fst))).Perm [0, 1] ∧
    s.processedRx = [(1, 72)] := by
  obtain ⟨s, hs, hpc, hheld, hprocessed⟩ : ∃ s, (machine smallOptions).run smallRun = some s ∧
      s.pc = .entry ∧ s.rx.held = [0] ∧ s.processedRx = [(1, 72)] := ⟨_, rfl, rfl, rfl, rfl⟩
  have hloop : s.pc.inMainLoop := by
    rw [hpc]
    refine ⟨?_, by rintro ⟨⟩⟩
    rintro (h | h) <;> cases h
  have hvalid : smallOptions.RxValid := ⟨⟨1, rfl⟩, by decide, by decide⟩
  exact ⟨s, hs, hpc, hheld, ((rxDescriptors_conserved hvalid hs).2 hloop).1, hprocessed⟩

end Rx

end AdvCpp.Virtio.EchoLoop
