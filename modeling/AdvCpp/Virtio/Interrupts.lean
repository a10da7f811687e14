import AdvCpp.Virtio.TxOwnership

/-!
# No interrupt is lost

The loops only wait in `poll` after a pass that found nothing, and a signal that is sent after the
pass has sampled a used index leaves its eventfd readable.

* `RxQuiet`, `TxQuiet` — what is signalled is processed, or the eventfd is readable.
* `IrqInv` — where the loops rely on that, `IrqInv.step` — every step keeps it.
* `no_lost_interrupt` — what holds while `poll` blocks.
-/

namespace AdvCpp.Virtio.EchoLoop

open AdvCpp.Lib

section Irq

variable (o : Options)

/-- The counter of the eventfd that the TX vector signals. -/
def State.txFd (s : State) : Nat := if o.sharedVector then s.rxEvent else s.txEvent

def RxQuiet (s : State) : Prop := s.processedRx.length < s.rxSignalled → 0 < s.rxEvent

def TxQuiet (s : State) : Prop := s.consumedTx.length < s.txSignalled → 0 < s.txFd o

/-- A signal covers what is published before it. -/
def Sent (s : State) : Prop :=
  s.rxSignalled ≤ s.rx.returned.length ∧ s.txSignalled ≤ s.tx.returned.length

/-- A pass that has made no progress has sampled an index at which nothing was missing. -/
def IrqFacts (s : State) : Pc → Prop
  | .readRx => s.madeProgress = false → TxQuiet o s
  | .entry => s.madeProgress = false → TxQuiet o s ∧ (s.rxCount ≤ s.i → RxQuiet s)
  | .reread | .consume .beforeReply | .completion .beforeReply => s.madeProgress = true
  | .reply | .publishTx | .publishTxIdx | .recycle _ | .recycleIdx _ => s.madeProgress = true
  | .wait .main | .poll .main => TxQuiet o s ∧ RxQuiet s
  | .wait .drain | .poll .drain => TxQuiet o s
  | _ => True

def IrqInv (s : State) : Prop := Sent s ∧ IrqFacts o s s.pc

variable {o} {s s' : State}

/-! ## Samples -/

/-- The TX index is sampled, and nothing is missing. -/
theorem TxCore.quiet {pos : BitVec 16} (h : TxCore o s pos) (hsent : Sent s)
    (hidx : s.tx.usedIdx = pos) : TxQuiet o s := by
  intro hlt
  have hhistory := h.conserved.history
  rw [Virtqueue.unseen_eq_nil.2 hidx.symm, List.append_nil] at hhistory
  have hle := hsent.2
  rw [hhistory] at hle
  omega

/-- The RX index is sampled, and nothing is missing. -/
theorem rxQuiet_of_sample
    (h : Virtqueue.Conserved o.rxQueueSize (List.range o.rxBuffers) s.rx s.lastRxUsedIdx []
      s.processedRx) (hsent : Sent s) (hidx : s.rx.usedIdx = s.lastRxUsedIdx) : RxQuiet s := by
  intro hlt
  have hhistory := h.history
  rw [Virtqueue.unseen_eq_nil.2 hidx.symm, List.append_nil] at hhistory
  have hle := hsent.1
  rw [hhistory] at hle
  omega

/-! ## Steps of the driver -/

theorem afterConsume_irqInv (c : Caller) (progress : Bool) (hsent : Sent s)
    (h : IrqFacts o s (.consume c)) (hquiet : progress = false → TxQuiet o s) :
    IrqInv o (afterConsume s progress c) := by
  cases c with
  | top => exact ⟨hsent, hquiet⟩
  | beforeReply =>
    unfold afterConsume
    dsimp only
    split
    · exact ⟨hsent, h⟩
    · exact ⟨hsent, h⟩
  | drain =>
    cases progress
    · exact ⟨hsent, hquiet rfl⟩
    · exact ⟨hsent, trivial⟩

theorem consume_irqInv (c : Caller) (htx : TxCore o s s.lastTxUsedIdx) (hsent : Sent s)
    (h : IrqFacts o s (.consume c)) : IrqInv o (consume c s) := by
  unfold consume
  split
  · rename_i hidx
    exact afterConsume_irqInv c false hsent h fun _ => htx.quiet hsent hidx
  · cases c <;> exact ⟨hsent, h⟩

theorem completion_irqInv (c : Caller) (hpc : s.pc = .completion c) (hsent : Sent s)
    (h : IrqFacts o s (.completion c)) : IrqInv o (completion o c s) := by
  unfold completion
  dsimp only
  split
  · split
    · refine ⟨hsent, ?_⟩
      show IrqFacts o _ s.pc
      rw [hpc]
      cases c <;> exact h
    · refine ⟨hsent, ?_⟩
      show IrqFacts o _ s.pc
      rw [hpc]
      cases c <;> exact h
  · refine afterConsume_irqInv c true hsent ?_ fun hfalse => Bool.noConfusion hfalse
    cases c <;> exact h

theorem readRx_irqInv
    (hrx : Virtqueue.Conserved o.rxQueueSize (List.range o.rxBuffers) s.rx s.lastRxUsedIdx []
      s.processedRx) (hsent : Sent s) (h : s.madeProgress = false → TxQuiet o s) :
    IrqInv o (readRx s) := by
  refine ⟨hsent, fun hnone => ⟨h hnone, fun hcount => ?_⟩⟩
  have hzero : (s.rx.usedIdx - s.lastRxUsedIdx).toNat = 0 := Nat.le_zero.1 hcount
  have hidx : s.rx.usedIdx = s.lastRxUsedIdx := by
    have hsub : s.rx.usedIdx - s.lastRxUsedIdx = 0#16 := BitVec.eq_of_toNat_eq hzero
    exact (BitVec.sub_eq_iff_eq_add.1 hsub).trans (BitVec.zero_add _)
  exact rxQuiet_of_sample hrx hsent hidx

/-- **A pass ends**: the loop waits only if the pass made no progress. -/
theorem entry_irqInv (hsent : Sent s)
    (h : s.madeProgress = false → TxQuiet o s ∧ (s.rxCount ≤ s.i → RxQuiet s)) :
    IrqInv o (entry o s) := by
  unfold entry endBatch
  dsimp only
  split
  · split
    · exact ⟨hsent, rfl⟩
    · exact ⟨hsent, rfl⟩
  · rename_i hge
    split
    · exact ⟨hsent, trivial⟩
    · split
      · exact ⟨hsent, trivial⟩
      · rename_i hnone
        obtain ⟨htx, hrx⟩ := h (Bool.eq_false_iff.2 hnone)
        exact ⟨hsent, htx, hrx (Nat.not_lt.1 hge)⟩

theorem afterPoll_irqInv (l : Loop) (hsent : Sent s) : IrqInv o (afterPoll s l) := by
  cases l
  · exact ⟨hsent, trivial⟩
  · exact ⟨hsent, trivial⟩

theorem publishRx_irqInv (hpc : s.pc = .publishRx) (hsent : Sent s) : IrqInv o (publishRx o s) := by
  unfold publishRx
  split
  · refine ⟨hsent, ?_⟩
    show IrqFacts o _ s.pc
    rw [hpc]
    trivial
  · exact ⟨hsent, trivial⟩

/-- An entry is behind the pass: it has made progress. -/
theorem reread_irqInv (hsent : Sent s) (h : s.madeProgress = true) : IrqInv o (reread o s) := by
  unfold reread
  dsimp only
  split
  · exact ⟨hsent, h⟩
  · exact ⟨hsent, fun hnone => absurd (hnone.symm.trans h) Bool.noConfusion⟩

theorem recycleIdx_irqInv (echoed : Bool) (hsent : Sent s) (h : s.madeProgress = true) :
    IrqInv o (recycleIdx o echoed s) := by
  unfold recycleIdx
  dsimp only
  split
  · exact ⟨hsent, trivial⟩
  · exact ⟨hsent, fun hnone => absurd (hnone.symm.trans h) Bool.noConfusion⟩

theorem reply_irqInv (hsent : Sent s) (h : s.madeProgress = true) : IrqInv o (reply o s) := by
  unfold reply
  dsimp only
  split
  · exact ⟨hsent, trivial⟩
  · exact ⟨hsent, h⟩

theorem publishTx_irqInv (hsent : Sent s) (h : s.madeProgress = true) :
    IrqInv o (publishTx o s) := by
  unfold publishTx
  split
  · exact ⟨hsent, trivial⟩
  · exact ⟨hsent, h⟩

theorem drainRx_irqInv (l : Loop) (hpc : s.pc = .drainRx l) (hsent : Sent s) :
    IrqInv o (drainRx o l s) := by
  unfold drainRx
  split
  · split
    · exact afterPoll_irqInv l hsent
    · exact ⟨hsent, trivial⟩
  · refine ⟨hsent, ?_⟩
    show IrqFacts o _ s.pc
    rw [hpc]
    trivial

theorem drainTx_irqInv (l : Loop) (hpc : s.pc = .drainTx l) (hsent : Sent s) :
    IrqInv o (drainTx l s) := by
  unfold drainTx
  split
  · exact afterPoll_irqInv l hsent
  · refine ⟨hsent, ?_⟩
    show IrqFacts o _ s.pc
    rw [hpc]
    trivial

theorem IrqInv.run (hrx : RxInv o s) (htx : TxInv o s) (h : IrqInv o s)
    (hs : run o s = some s') : IrqInv o s' := by
  obtain ⟨hsent, h⟩ := h
  have hran := run_ran hs
  unfold RxInv at hrx
  unfold TxInv at htx
  generalize hpc : s.pc = pc at hrx htx h hran
  cases hran with
  | publishRx => exact publishRx_irqInv hpc hsent
  | publishRxIdx | readInitialRx | readInitialTx | driverOk => exact ⟨hsent, trivial⟩
  | consume c => exact consume_irqInv c htx hsent h
  | completion c => exact completion_irqInv c hpc hsent h
  | readRx => exact readRx_irqInv hrx hsent h
  | entry => exact entry_irqInv hsent h
  | reread => exact reread_irqInv hsent h
  | reply => exact reply_irqInv hsent h
  | publishTx => exact publishTx_irqInv hsent h
  | publishTxIdx | recycle echoed => exact ⟨hsent, h⟩
  | recycleIdx echoed => exact recycleIdx_irqInv echoed hsent h
  | drainRx l => exact drainRx_irqInv l hpc hsent
  | drainTx l => exact drainTx_irqInv l hpc hsent

theorem IrqInv.turn (h : IrqInv o s) {pc : Pc} (ht : Turns s.pc pc) :
    IrqInv o { s with pc := pc } := by
  obtain ⟨hsent, h⟩ := h
  refine ⟨hsent, ?_⟩
  show IrqFacts o _ pc
  generalize s.pc = old at h ht
  cases ht with
  | poll l | interrupted l => cases l <;> exact h
  | start | stop | startDrain | stopDrain | waitEnds | waitDrainEnds | readable l | timeout
  | timeoutDrain | failed l => trivial

/-! ## Steps of the device -/

/-- What a step of the device has to keep. -/
theorem IrqFacts.imp {pc : Pc} (h : IrqFacts o s pc) (hrx : RxQuiet s → RxQuiet s')
    (htx : TxQuiet o s → TxQuiet o s') (hprogress : s'.madeProgress = s.madeProgress)
    (hcount : s'.rxCount = s.rxCount) (hi : s'.i = s.i) : IrqFacts o s' pc := by
  cases pc with
  | readRx =>
    intro hnone
    rw [hprogress] at hnone
    exact htx (h hnone)
  | entry =>
    intro hnone
    rw [hprogress] at hnone
    obtain ⟨hquiet, hlast⟩ := h hnone
    refine ⟨htx hquiet, fun hle => hrx (hlast ?_)⟩
    rwa [hcount, hi] at hle
  | reread | reply | publishTx | publishTxIdx | recycle echoed | recycleIdx echoed =>
    exact hprogress.trans h
  | consume c | completion c =>
    cases c
    · trivial
    · exact hprogress.trans h
    · trivial
  | wait l | poll l =>
    cases l
    · exact ⟨htx h.1, hrx h.2⟩
    · exact htx h
  | publishRx | publishRxIdx | readInitialRx | readInitialTx | driverOk | head | drainRx l
  | drainTx l | drainHead | done | threw => trivial

theorem device_returned_le {q : Nat} {v v' : Virtqueue} {a : DeviceAction}
    (h : v.device q a = some v') : v.returned.length ≤ v'.returned.length := by
  rcases Virtqueue.device_cases h with ⟨-, rfl⟩ | ⟨e, -, -, rfl⟩ | ⟨e, -, rfl⟩
  · exact Nat.le_refl _
  · exact Nat.le_refl _
  · exact (List.prefix_append _ _).length_le

/-- A signal makes its eventfd readable, and no other one less so. -/
theorem rxSignal_irqInv (h : IrqInv o s) :
    IrqInv o { s with rxEvent := s.rxEvent + 1, rxSignalled := s.rx.returned.length } := by
  obtain ⟨hsent, h⟩ := h
  refine ⟨⟨Nat.le_refl _, hsent.2⟩, h.imp (fun _ _ => Nat.succ_pos _) (fun hq hlt => ?_) rfl rfl rfl⟩
  have hpos := hq hlt
  unfold State.txFd at hpos ⊢
  split
  · exact Nat.succ_pos _
  · rename_i hdistinct
    rwa [if_neg hdistinct] at hpos

theorem IrqInv.acted (h : IrqInv o s) {e : Event} (hs : Acted o s e s') : IrqInv o s' := by
  cases hs with
  | rx _ hrx =>
    obtain ⟨hsent, h⟩ := h
    exact ⟨⟨hsent.1.trans (device_returned_le hrx), hsent.2⟩,
      h.imp (fun hq => hq) (fun hq => hq) rfl rfl rfl⟩
  | fill _ _ =>
    obtain ⟨hsent, h⟩ := h
    exact ⟨hsent, h.imp (fun hq => hq) (fun hq => hq) rfl rfl rfl⟩
  | rxSignal => exact rxSignal_irqInv h
  | tx htx =>
    obtain ⟨hsent, h⟩ := h
    exact ⟨⟨hsent.1, hsent.2.trans (device_returned_le htx)⟩,
      h.imp (fun hq => hq) (fun hq => hq) rfl rfl rfl⟩
  | txShared hshared =>
    obtain ⟨hsent, h⟩ := h
    refine ⟨⟨hsent.1, Nat.le_refl _⟩, h.imp (fun _ _ => Nat.succ_pos _) (fun _ _ => ?_) rfl rfl rfl⟩
    simp only [State.txFd, if_pos hshared]
    exact Nat.succ_pos _
  | txDistinct hdistinct =>
    obtain ⟨hsent, h⟩ := h
    refine ⟨⟨hsent.1, Nat.le_refl _⟩, h.imp (fun hq => hq) (fun _ _ => ?_) rfl rfl rfl⟩
    simp only [State.txFd, if_neg hdistinct]
    exact Nat.succ_pos _

/-! ## Every run -/

theorem init_irqInv : IrqInv o (init o) := by
  refine ⟨⟨Nat.le_refl _, Nat.le_refl _⟩, ?_⟩
  unfold init
  dsimp only
  split
  · trivial
  · trivial

/-- **Every step keeps the invariant.** -/
theorem IrqInv.step (hrx : RxInv o s) (htx : TxInv o s) (h : IrqInv o s) {e : Event}
    (hs : step o s e = some s') : IrqInv o s' := by
  cases step_stepped hs with
  | ran hs => exact h.run hrx htx hs
  | turned _ hturn _ => exact h.turn hturn
  | acted _ hs => exact h.acted hs

theorem IrqInv.of_run (hr : o.RxValid) (ht : o.TxValid) {es : List Event}
    (h : (machine o).run es = some s) : RxInv o s ∧ (EchoInv o s ∧ TxInv o s) ∧ IrqInv o s := by
  refine Machine.run_inv (M := machine o)
    (I := fun s => RxInv o s ∧ (EchoInv o s ∧ TxInv o s) ∧ IrqInv o s)
    ⟨init_rxInv, init_txInv, init_irqInv⟩ ?_ h
  rintro s e s' ⟨hrx, htx, hirq⟩ hs
  exact ⟨hrx.step hr hs, TxInv.step ht htx hs, hirq.step hrx htx.2 hs⟩

/-- What is processed is all that a signal covers, if it is as long. -/
theorem take_prefix_of_length_le {α : Type*} {l seen rest : List α} {n : Nat}
    (hl : l = seen ++ rest) (hn : n ≤ seen.length) : l.take n <+: seen := by
  rw [hl, List.take_append_of_le_length hn]
  exact List.take_prefix n seen

/-- **No interrupt is lost.**  Whenever the main loop is in `poll` and every eventfd that it polls
is drained, all used entries of both queues whose signal is sent are processed; and whenever the
loop that waits for the last completions is, those of the TX queue are. -/
theorem no_lost_interrupt (hr : o.RxValid) (ht : o.TxValid) {es : List Event}
    (h : (machine o).run es = some s) (hblocked : ¬ s.Readable o) :
    (s.pc = .poll .main → s.rx.returned.take s.rxSignalled <+: s.processedRx ∧
      s.tx.returned.take s.txSignalled <+: s.consumedTx) ∧
    (s.pc = .poll .drain → s.tx.returned.take s.txSignalled <+: s.consumedTx) := by
  obtain ⟨hrx, ⟨-, htx⟩, -, hirq⟩ := IrqInv.of_run hr ht h
  have hrxEvent : ¬ 0 < s.rxEvent := fun hpos => hblocked (Or.inl hpos)
  have htxFd : ¬ 0 < s.txFd o := by
    unfold State.txFd
    split
    · exact hrxEvent
    · rename_i hdistinct
      exact fun hpos => hblocked (Or.inr ⟨Bool.eq_false_iff.2 hdistinct, hpos⟩)
  have hconsumed : TxQuiet o s → s.tx.returned.take s.txSignalled <+: s.consumedTx := fun hq =>
    take_prefix_of_length_le htx.core.conserved.history (Nat.not_lt.1 fun hlt => htxFd (hq hlt))
  constructor
  · intro hpc
    rw [hpc] at hirq
    unfold RxInv at hrx
    rw [hpc] at hrx
    have hprocessed := Nat.not_lt.1 fun hlt => hrxEvent (hirq.2 hlt)
    exact ⟨take_prefix_of_length_le hrx.history hprocessed, hconsumed hirq.1⟩
  · intro hpc
    rw [hpc] at hirq
    exact hconsumed hirq

/-- The signal that was sent before the echo wakes the loop once more; then it blocks. -/
theorem no_lost_interrupt_small : ∃ s,
    (machine smallOptions).run (smallRun ++
      [.run, .clock true, .run, .run, .run, .clock true, .poll .readable, .run, .run, .run,
        .clock true, .run, .run, .run, .clock true]) = some s ∧
    s.pc = .poll .main ∧ ¬ s.Readable smallOptions ∧ s.rxSignalled = 1 ∧
    s.rx.returned.take 1 <+: s.processedRx := by
  obtain ⟨s, hs, hpc, hblocked, hsignalled⟩ : ∃ s, (machine smallOptions).run (smallRun ++
      [.run, .clock true, .run, .run, .run, .clock true, .poll .readable, .run, .run, .run,
        .clock true, .run, .run, .run, .clock true]) = some s ∧
      s.pc = .poll .main ∧ ¬ s.Readable smallOptions ∧ s.rxSignalled = 1 :=
    ⟨_, rfl, rfl, by decide, rfl⟩
  have hrx : smallOptions.RxValid := ⟨⟨1, rfl⟩, by decide, by decide⟩
  have htx : smallOptions.TxValid := ⟨⟨1, rfl⟩, by decide, by decide, by decide⟩
  have hprocessed := ((no_lost_interrupt hrx htx hs hblocked).1 hpc).1
  rw [hsignalled] at hprocessed
  exact ⟨s, hs, hpc, hblocked, hsignalled, hprocessed⟩

end Irq

end AdvCpp.Virtio.EchoLoop
