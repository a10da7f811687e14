import AdvCpp.Virtio.Echo
import AdvCpp.Virtio.EchoLoop

/-!
# The echo loop on the bytes of the DMA buffer

The steps of the echo loop are about used entries and buffers; the functions that they stand for read
and write bytes.  Where the bytes show the state of the loop, both do the same.

* `ShowsUsed`, `ShowsBuffers` — the bytes of a used ring, and of the RX buffers.
* `entry_reads` — `entry` decides as `read_rx_used_packet` does.
* `reply_builds` — `reply` builds what `build_tx_reply_from_rx` builds, and throws where it throws.
* `consume_completes` — `consume` and `completion` are `consume_tx_completions`.
-/

namespace AdvCpp.Virtio.EchoLoop

open AdvCpp.Lib

/-- The used index and the used entries, in the memory of a queue. -/
structure ShowsUsed (m : Mem) (queueBase : Nat) (layout : VringLayout) (q : Virtqueue) : Prop where
  idx : leValue (peek m (queueBase + layout.usedOffset + 2) 2) = q.usedIdx.toNat
  id : ∀ slot < layout.queueSize,
    leValue (peek m (usedElem queueBase layout slot) 4) = (q.usedRing slot).1
  len : ∀ slot < layout.queueSize,
    leValue (peek m (usedElem queueBase layout slot + 4) 4) = (q.usedRing slot).2

/-- The RX buffers, one behind the other. -/
def ShowsBuffers (m : Mem) (dmaBase : Nat) (layout : DmaLayout) (o : Options) (s : State) : Prop :=
  ∀ id < o.rxBuffers,
    peek m (dmaBase + layout.rxBuffersOffset + id * o.rxBufferSize) o.rxBufferSize = s.rxBuf id

section Bytes

variable {o : Options} {s : State} {m : Mem} {dmaBase queueBase : Nat}

/-! ## Received packets -/

/-- `read_rx_used_packet` reads the ethertype out of the buffer. -/
theorem ethertypeOf_peek {a size : Nat} {buffer : List UInt8} (h : peek m a size = buffer)
    (hsize : 26 ≤ size) : beValue (peek m (a + 12 + 12) 2) = ethertypeOf buffer := by
  have hbytes : (buffer.drop (kVirtioNetHeaderSize + 12)).take 2 = peek m (a + 12 + 12) 2 := by
    rw [← h, peek_drop, peek_take (by unfold kVirtioNetHeaderSize; omega)]
    rfl
  rw [ethertypeOf, hbytes]

/-- **One used entry**, accepted or not. -/
theorem exec_readRxUsedPacket_accepts {layout : DmaLayout} {usedSlot id len rxBuffers size : Nat}
    {matchEthertype : Option Nat} {buffer : List UInt8}
    (hid : leValue (peek m (usedElem queueBase layout.rxVring usedSlot) 4) = id)
    (hlen : leValue (peek m (usedElem queueBase layout.rxVring usedSlot + 4) 4) = len)
    (hbuffer : id < rxBuffers →
      peek m (dmaBase + layout.rxBuffersOffset + id * size) size = buffer)
    (hfit : rxBuffers * size < 2 ^ 64) :
    Shared.exec m
        (readRxUsedPacket dmaBase queueBase layout usedSlot rxBuffers size matchEthertype) =
      (.ok (if rxAccepts rxBuffers size matchEthertype id len (ethertypeOf buffer) then
        some ⟨usedSlot, id, len, ethertypeOf buffer,
          dmaBase + layout.rxBuffersOffset + id * size⟩ else none), m) := by
  by_cases hposted : rxBuffers ≤ id
  · have hreject : rxAccepts rxBuffers size matchEthertype id len (ethertypeOf buffer) = false := by
      simp [rxAccepts, Nat.not_lt.2 hposted]
    rw [hreject]
    unfold readRxUsedPacket
    simp only [Shared.exec_bind, exec_readUsedId, exec_readUsedLen, hid, hlen]
    rw [if_pos hposted]
    rfl
  by_cases hlong : size < len
  · have hreject : rxAccepts rxBuffers size matchEthertype id len (ethertypeOf buffer) = false := by
      simp [rxAccepts, Nat.not_le.2 hlong]
    rw [hreject]
    unfold readRxUsedPacket
    simp only [Shared.exec_bind, exec_readUsedId, exec_readUsedLen, hid, hlen]
    rw [if_neg hposted, if_pos hlong]
    rfl
  by_cases hshort : len < kVirtioNetHeaderSize + kEthernetHeaderSize
  · have hreject : rxAccepts rxBuffers size matchEthertype id len (ethertypeOf buffer) = false := by
      simp [rxAccepts, Nat.not_le.2 hshort]
    rw [hreject]
    unfold readRxUsedPacket
    simp only [Shared.exec_bind, exec_readUsedId, exec_readUsedLen, hid, hlen]
    rw [if_neg hposted, if_neg hlong, if_pos hshort]
    rfl
  have hid' := Nat.not_le.1 hposted
  have hmin : 26 ≤ len := Nat.not_lt.1 hshort
  have htype := ethertypeOf_peek (hbuffer hid') (hmin.trans (Nat.not_lt.1 hlong))
  by_cases hmatch : matchEthertype.any (· ≠ ethertypeOf buffer) = true
  · have hreject : rxAccepts rxBuffers size matchEthertype id len (ethertypeOf buffer) = false := by
      simp only [rxAccepts, hmatch, Bool.not_true, Bool.and_false]
    rw [hreject]
    unfold readRxUsedPacket
    simp only [Shared.exec_bind, exec_readUsedId, exec_readUsedLen, hid, hlen]
    rw [if_neg hposted, if_neg hlong, if_neg hshort, wrap_buffer hfit hid']
    simp only [Shared.exec_bind, Shared.exec_load]
    rw [show kVirtioNetHeaderSize = 12 from rfl, htype, if_pos hmatch]
    rfl
  · have haccept : rxAccepts rxBuffers size matchEthertype id len (ethertypeOf buffer) = true := by
      simp only [rxAccepts, Bool.and_eq_true, decide_eq_true_eq, Bool.not_eq_true']
      exact ⟨⟨⟨hid', Nat.not_lt.1 hlong⟩, Nat.not_lt.1 hshort⟩, Bool.eq_false_iff.2 hmatch⟩
    have hsome : matchEthertype = none ∨ matchEthertype = some (ethertypeOf buffer) := by
      cases matchEthertype with
      | none => exact .inl rfl
      | some e => exact .inr (by simpa using hmatch)
    rw [haccept, if_pos rfl]
    exact exec_readRxUsedPacket dmaBase hid hlen hid' hfit hmin (Nat.not_lt.1 hlong) rfl htype hsome

/-- **`entry` decides as `read_rx_used_packet` does**, and keeps what it returns. -/
theorem entry_reads {layout : DmaLayout} (hused : ShowsUsed m queueBase layout.rxVring s.rx)
    (hbuffers : ShowsBuffers m dmaBase layout o s) (hqueue : layout.rxVring.queueSize = o.rxQueueSize)
    (hpos : 0 < o.rxQueueSize) (hfit : o.rxBuffers * o.rxBufferSize < 2 ^ 64)
    (hlt : s.i < s.rxCount) :
    Shared.exec m (readRxUsedPacket dmaBase queueBase layout (s.usedSlot o) o.rxBuffers
        o.rxBufferSize o.matchEthertype) =
      (.ok (if (entry o s).pc = .consume .beforeReply then
        some ⟨s.usedSlot o, (entry o s).received.1, (entry o s).received.2,
          ethertypeOf (s.rxBuf (entry o s).received.1),
          dmaBase + layout.rxBuffersOffset + (entry o s).received.1 * o.rxBufferSize⟩
        else none), m) := by
  have hslot : s.usedSlot o < layout.rxVring.queueSize := hqueue ▸ Nat.mod_lt _ hpos
  rw [exec_readRxUsedPacket_accepts (hused.id _ hslot) (hused.len _ hslot) (hbuffers _) hfit]
  unfold entry
  rw [if_pos hlt]
  dsimp only
  split
  · rw [if_pos rfl]
  · rw [if_neg nofun]

/-! ## Replies -/

/-- The frame that `build_tx_reply_from_rx` finds, piece by piece. -/
theorem frame_pieces (rx : List UInt8) {len : Nat} (hlen : 26 ≤ len) :
    rx.take len = rx.take 12 ++ ((rx.drop 12).take 6 ++ (rx.drop 18).take 6 ++ (rx.take len).drop 24) := by
  have h12 : rx.take len = rx.take 12 ++ (rx.take len).drop 12 := by
    conv_lhs => rw [← List.take_append_drop 12 (rx.take len), List.take_take]
    rw [Nat.min_eq_left (by omega)]
  have h6 : ∀ k, k + 6 ≤ len → (rx.take len).drop k = (rx.drop k).take 6 ++ (rx.take len).drop (k + 6) := by
    intro k hk
    conv_lhs => rw [← List.take_append_drop 6 ((rx.take len).drop k), List.drop_drop]
    rw [List.take_drop, List.take_take, Nat.min_eq_left (by omega), ← List.take_drop]
  conv_lhs => rw [h12, h6 12 (by omega), h6 18 (by omega)]
  rw [List.append_assoc]

/-- **`reply` builds what `build_tx_reply_from_rx` builds**, and throws where it throws, before
anything has been written. -/
theorem reply_builds {txPacket rxBuffer : Nat}
    (hbuffer : peek m rxBuffer o.rxBufferSize = s.rxBuf s.received.1)
    (hle : s.received.2 ≤ o.rxBufferSize)
    (hdisjoint : Region.Disjoint ⟨rxBuffer, o.rxBufferSize⟩ ⟨txPacket, o.rxBufferSize⟩) :
    let built := Shared.exec m (buildTxReplyFromRx txPacket o.rxBufferSize rxBuffer s.received.2
      o.replySrcMac)
    ((reply o s).pc = .threw ∧ ∃ e, built = (.error e, m)) ∨
    ((reply o s).pc = .publishTx ∧ built.1 = .ok (reply o s).txUsedLen ∧
      peek built.2 txPacket o.rxBufferSize = (reply o s).txBuf s.txSlot) := by
  intro built
  have hlength : (s.rxBuf s.received.1).length = o.rxBufferSize := by rw [← hbuffer, peek_length]
  by_cases hshort : s.received.2 < kVirtioNetHeaderSize + kEthernetHeaderSize
  · refine .inl ⟨by unfold reply; dsimp only; rw [if_pos (.inl hshort)],
      "received buffer is too short for virtio-net header plus Ethernet", ?_⟩
    exact Shared.exec_bind_error (Shared.exec_ensure_bind_error (Nat.not_le.2 hshort) m _ _) _
  have hmin : 26 ≤ s.received.2 := Nat.not_lt.1 hshort
  by_cases hlong : o.rxBufferSize <
      kVirtioNetHeaderSize + max (s.received.2 - kVirtioNetHeaderSize) kEthernetMinFrameSize
  · refine .inl ⟨by unfold reply; dsimp only; rw [if_pos (.inr hlong)],
      "reply packet does not fit in the allocated TX buffer", ?_⟩
    refine (Shared.exec_bind_ok (exec_txReplySizeForRx hmin) _).trans ?_
    exact Shared.exec_ensure_bind_error (Nat.not_le.2 hlong) m _ _
  have hreply : reply o s = { s with
      pc := .publishTx
      txUsedLen := kVirtioNetHeaderSize + max (s.received.2 - kVirtioNetHeaderSize) kEthernetMinFrameSize
      txBuf := Function.update s.txBuf s.txSlot
        (replyBytes o (s.rxBuf s.received.1) s.received.2) } := by
    unfold reply
    dsimp only
    rw [if_neg (not_or.2 ⟨hshort, hlong⟩)]
  rw [hreply]
  refine .inr ⟨rfl, ?_⟩
  generalize s.rxBuf s.received.1 = rx at hbuffer hlength ⊢
  have hpieces := frame_pieces rx hmin
  have hrest : ((rx.take s.received.2).drop 24).length = s.received.2 - 24 := by
    rw [List.length_drop, List.length_take]
    omega
  have hused : 24 + ((rx.take s.received.2).drop 24).length = s.received.2 := by omega
  have hpeek : peek m rxBuffer s.received.2 = rx.take s.received.2 := by
    rw [← hbuffer, peek_take hle]
  have htake : (rx.take s.received.2).length = s.received.2 := by
    rw [List.length_take]
    omega
  unfold kVirtioNetHeaderSize kEthernetMinFrameSize at hlong
  obtain ⟨m', hbuilt, htx⟩ := exec_buildTxReplyFromRx txPacket o.rxBufferSize rxBuffer o.replySrcMac
    (by rw [← hpieces, htake]; exact hpeek) (by rw [List.length_take]; omega)
    (by rw [List.length_take, List.length_drop]; omega)
    (by rw [List.length_take, List.length_drop]; omega) (by omega) (by omega) (by
      unfold Region.Disjoint Region.stop at hdisjoint ⊢
      dsimp only at hdisjoint ⊢
      omega)
  rw [hused] at hbuilt htx
  have hmax : 12 + max (12 + ((rx.take s.received.2).drop 24).length) 60 =
      kVirtioNetHeaderSize + max (s.received.2 - kVirtioNetHeaderSize) kEthernetMinFrameSize := by
    unfold kVirtioNetHeaderSize kEthernetMinFrameSize
    omega
  rw [hmax] at hbuilt
  show built.1 = _ ∧ peek built.2 txPacket _ = _
  rw [show built = _ from hbuilt]
  refine ⟨rfl, htx.trans ?_⟩
  show _ = Function.update s.txBuf s.txSlot (replyBytes o rx s.received.2) s.txSlot
  rw [Function.update_self]
  rfl

/-! ## Completions -/

theorem usedDelta_eq (a b : BitVec 16) : usedDelta a.toNat b.toNat = (b - a).toNat := by
  rw [BitVec.toNat_sub, usedDelta]
  have ha := a.isLt
  congr 1
  omega

theorem slotOf_eq {layout : VringLayout} (hpos : 0 < layout.queueSize)
    (hsize : layout.queueSize ≤ 2 ^ 16) (idx i : Nat) :
    slotOf layout idx i = (idx + i) % layout.queueSize :=
  Nat.mod_eq_of_lt ((Nat.mod_lt _ hpos).trans_le hsize)

section Completions

variable {layout : VringLayout} (hqueue : layout.queueSize = o.txQueueSize)
  (hpos : 0 < layout.queueSize) (hsize : layout.queueSize ≤ 2 ^ 16)
include hqueue hpos hsize

/-- The loop over the used entries, of which `n` are to go. -/
theorem completion_completes (c : Caller) (n : Nat) : ∀ s : State, s.pc = .completion c →
    s.j + n = s.txCount → ShowsUsed m queueBase layout s.tx →
    ∃ t, (machine o).exec s (List.replicate (n + 1) .run) = some (afterConsume t true c) ∧
      t.lastTxUsedIdx = s.currentTxUsed ∧
      Shared.exec m (completeTx queueBase layout s.lastTxUsedIdx.toNat s.j n s.txSlots
        s.completedTx) = (.ok (t.txSlots, t.completedTx), m) := by
  induction n with
  | zero =>
    intro s hpc hj hused
    have hstep : (machine o).step s .run = some (completion o c s) := by
      show EchoLoop.run o s = _
      simp only [EchoLoop.run, hpc]
    rw [completion, if_neg (by omega)] at hstep
    exact ⟨{ s with lastTxUsedIdx := s.currentTxUsed }, Machine.exec_cons.2 ⟨_, hstep, rfl⟩, rfl, rfl⟩
  | succ n ih =>
    intro s hpc hj hused
    have hlt : s.j < s.txCount := by omega
    have hstep : (machine o).step s .run = some (completion o c s) := by
      show EchoLoop.run o s = _
      simp only [EchoLoop.run, hpc]
    have hslot : slotOf layout s.lastTxUsedIdx.toNat s.j =
        (s.lastTxUsedIdx.toNat + s.j) % o.txQueueSize := by
      rw [slotOf_eq hpos hsize, hqueue]
    have hin : (s.lastTxUsedIdx.toNat + s.j) % o.txQueueSize < layout.queueSize := by
      rw [← hqueue]
      exact Nat.mod_lt _ hpos
    have hid := hused.id _ hin
    rw [completeTx, hslot]
    simp only [Shared.exec_bind, exec_readUsedId, exec_readUsedLen, hid]
    unfold completion at hstep
    rw [if_pos hlt] at hstep
    dsimp only at hstep
    generalize s.tx.usedRing ((s.lastTxUsedIdx.toNat + s.j) % o.txQueueSize) = e at hstep ⊢
    split
    · rename_i hskip
      rw [if_pos hskip] at hstep
      obtain ⟨t, hexec, hlast, hcomplete⟩ := ih
        { s with j := s.j + 1, consumedTx := s.consumedTx ++ [e] } hpc
        (by show s.j + 1 + n = s.txCount; omega) hused
      exact ⟨t, Machine.exec_cons.2 ⟨_, hstep, hexec⟩, hlast, hcomplete⟩
    · rename_i hskip
      rw [if_neg hskip] at hstep
      obtain ⟨t, hexec, hlast, hcomplete⟩ := ih
        { s with
          j := s.j + 1, txSlots := s.txSlots.set e.1 ⟨false⟩
          completedTx := (s.completedTx + 1) % 2 ^ 32, consumedTx := s.consumedTx ++ [e] } hpc
        (by show s.j + 1 + n = s.txCount; omega) hused
      refine ⟨t, Machine.exec_cons.2 ⟨_, hstep, hexec⟩, hlast, ?_⟩
      simp only [Shared.exec_bind, Shared.exec_touch]
      exact hcomplete

/-- **`consume` and `completion` are `consume_tx_completions`**, up to its return. -/
theorem consume_completes (c : Caller) (hpc : s.pc = .consume c)
    (hused : ShowsUsed m queueBase layout s.tx) :
    ∃ n t progress, (machine o).exec s (List.replicate n .run) = some (afterConsume t progress c) ∧
      Shared.exec m (consumeTxCompletions queueBase layout s.lastTxUsedIdx.toNat s.txSlots
        s.completedTx) =
          (.ok (progress, t.lastTxUsedIdx.toNat, t.txSlots, t.completedTx), m) := by
  have hstep : (machine o).step s .run = some (consume c s) := by
    show EchoLoop.run o s = _
    simp only [EchoLoop.run, hpc]
  have hcount := usedDelta_eq s.lastTxUsedIdx s.tx.usedIdx
  have hread : Shared.exec m (readUsedIdx queueBase layout) = (.ok s.tx.usedIdx.toNat, m) := by
    rw [← hused.idx]
    rfl
  have hrest := Shared.exec_bind_ok hread fun current => do
    let count := usedDelta s.lastTxUsedIdx.toNat current
    if count = 0 then return (false, s.lastTxUsedIdx.toNat, s.txSlots, s.completedTx)
    else
      let r ← completeTx queueBase layout s.lastTxUsedIdx.toNat 0 count s.txSlots s.completedTx
      return (true, current, r.1, r.2)
  unfold consume at hstep
  split at hstep
  · rename_i hsame
    refine ⟨1, s, false, Machine.exec_cons.2 ⟨_, hstep, rfl⟩, hrest.trans ?_⟩
    dsimp only
    rw [hcount, hsame, BitVec.sub_self, if_pos (show (0#16).toNat = 0 from rfl)]
    rfl
  · rename_i hne
    obtain ⟨t, hexec, hlast, hcomplete⟩ := completion_completes hqueue hpos hsize c
      (s.tx.usedIdx - s.lastTxUsedIdx).toNat
      { s with pc := .completion c, currentTxUsed := s.tx.usedIdx, j := 0 } rfl (Nat.zero_add _) hused
    refine ⟨(s.tx.usedIdx - s.lastTxUsedIdx).toNat + 1 + 1, t, true,
      Machine.exec_cons.2 ⟨_, hstep, hexec⟩, hrest.trans ?_⟩
    have hnonzero : ¬(s.tx.usedIdx - s.lastTxUsedIdx).toNat = 0 := by
      intro hzero
      have hsub : s.tx.usedIdx - s.lastTxUsedIdx = 0#16 := BitVec.eq_of_toNat_eq hzero
      exact hne (by rw [← BitVec.sub_add_cancel s.tx.usedIdx s.lastTxUsedIdx, hsub, BitVec.zero_add])
    dsimp only
    rw [hcount, if_neg hnonzero, Shared.exec_bind_ok hcomplete, hlast]
    rfl

end Completions

end Bytes

end AdvCpp.Virtio.EchoLoop
