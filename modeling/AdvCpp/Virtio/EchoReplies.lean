import AdvCpp.Lib.UsedScan
import AdvCpp.Virtio.TxOwnership

/-!
# What the echo loop answers

The echo loop from end to end: the packets that the device delivers, in the order in which it
returns them, and the frames that it takes from the TX queue.

* `Trace`, `record`, `traced` — a run with a record of what was delivered, answered, sent and taken.
* `replyFrame` — the answer to a packet.
* `Traced` — the invariant, `Traced.step` — every step keeps it.
* `echo_answers` — every accepted packet is answered once, in order, or dropped when all slots are in
  flight.
-/

namespace AdvCpp.Virtio.EchoLoop

open AdvCpp.Lib

/-- A used entry, with what was in its buffer when the device returned it. -/
abbrev Delivery := (Nat × Nat) × List UInt8

/-- What becomes of an accepted packet; `slots` are the TX slots at the time. -/
inductive Answer where
  | echoed
  | dropped (slots : List TxSlot)
  deriving DecidableEq

def Answer.isEcho : Answer → Bool
  | .echoed => true
  | .dropped _ => false

/-- The packets delivered, the answers to those accepted, the frames posted, and those that the device
has taken. -/
structure Trace where
  delivered : List Delivery
  answers : List (Delivery × Answer)
  sent : List (List UInt8)
  taken : List (List UInt8)

/-- The packet that the loop is at. -/
def State.current (s : State) : Delivery := (s.received, s.rxBuf s.received.1)

/-- What the device reads for an id of the TX queue. -/
def frameOf (s : State) (id : Nat) : List UInt8 := (s.txBuf id).take (s.txDesc id).len

/-- The step decides about the packet. -/
def answerOf (s s' : State) : List (Delivery × Answer) :=
  match s.pc, s'.pc with
  | .publishTxIdx, .recycle true => [(s.current, .echoed)]
  | .consume .beforeReply, .recycle false => [(s.current, .dropped s'.txSlots)]
  | .completion .beforeReply, .recycle false => [(s.current, .dropped s'.txSlots)]
  | _, _ => []

section Replies

variable (o : Options)

def record (s s' : State) (t : Trace) : Trace where
  delivered := Virtqueue.logged s.rx s'.rx s.rxBuf t.delivered
  answers := t.answers ++ answerOf s s'
  sent := t.sent ++ if s.pc = .publishTxIdx ∧ s'.pc = .recycle true then [frameOf s s.txSlot] else []
  taken := t.taken ++
    if s'.tx.nextAvail = s.tx.nextAvail then []
    else [frameOf s (s.tx.availRing (s.tx.nextAvail.toNat % o.txQueueSize))]

/-- The machine with a record of its run. -/
def traced : Machine (State × Trace) Event where
  init := (init o, ⟨[], [], [], []⟩)
  step p e := (step o p.1 e).map fun s' => (s', record o p.1 s' p.2)

/-- `read_rx_used_packet` takes the packet. -/
def accepts (d : Delivery) : Bool :=
  rxAccepts o.rxBuffers o.rxBufferSize o.matchEthertype d.1.1 d.1.2 (ethertypeOf d.2)

/-- A frame of at least 60 bytes. -/
def padded (frame : List UInt8) : List UInt8 :=
  frame ++ List.replicate (kEthernetMinFrameSize - frame.length) 0

/-- **The answer**: back to where the packet came from, from `replySrcMac`, with its ethertype and
payload. -/
def replyFrame (d : Delivery) : List UInt8 :=
  List.replicate kVirtioNetHeaderSize 0 ++
    padded ((d.2.drop 18).take 6 ++ o.replySrcMac.toList ++ (d.2.take d.1.2).drop 24)

/-- How many of the delivered packets have been decided about. -/
def State.answered (s : State) : Nat :=
  match s.pc with
  | .recycle _ | .recycleIdx _ => s.processedRx.length + 1
  | _ => s.processedRx.length

/-- What holds of the packet that the loop is at. -/
def Current (s : State) : Prop :=
  match s.pc with
  | .consume .beforeReply | .completion .beforeReply | .reply => accepts o s.current = true
  | .reread => accepts o s.current = false
  | .publishTx => accepts o s.current = true ∧
      (s.txBuf s.txSlot).take s.txUsedLen = replyFrame o s.current
  | .publishTxIdx => accepts o s.current = true ∧ frameOf s s.txSlot = replyFrame o s.current
  | _ => True

/-- What the device has delivered; behind the first `n` packets, with which the driver is done, it is
still in the buffers. -/
def Logged (s : State) (n : Nat) (delivered : List Delivery) : Prop :=
  (∀ id, (s.rxBuf id).length = o.rxBufferSize) ∧ delivered.map Prod.fst = s.rx.returned ∧
    (s.pc.rxPhase ≠ .exited → ∀ d ∈ delivered.drop n, s.rxBuf d.1.1 = d.2)

/-- The record of a run that has come to `s`. -/
structure Traced (s : State) (t : Trace) : Prop where
  log : Logged o s s.processedRx.length t.delivered
  le : s.answered ≤ t.delivered.length
  answers : t.answers.map Prod.fst = (t.delivered.take s.answered).filter (accepts o)
  dropped : ∀ d slots, (d, .dropped slots) ∈ t.answers → ∀ slot ∈ slots, slot.inFlight = true
  sent : t.sent = (t.answers.filter fun a => a.2.isEcho).map fun a => replyFrame o a.1
  taken : t.sent = t.taken ++ (s.tx.waiting o.txQueueSize).map (frameOf s)
  count : t.sent.length = s.echoedTx
  current : Current o s

variable {o} {s s' : State} {t : Trace}

/-! ## The answer -/

theorem take_replyBytes {rx : List UInt8} {id len : Nat} (hrx : rx.length = o.rxBufferSize)
    (hlen : 26 ≤ len) (hle : len ≤ o.rxBufferSize)
    (hfit : kVirtioNetHeaderSize + max (len - kVirtioNetHeaderSize) kEthernetMinFrameSize ≤
      o.rxBufferSize) :
    (replyBytes o rx len).take
        (kVirtioNetHeaderSize + max (len - kVirtioNetHeaderSize) kEthernetMinFrameSize) =
      replyFrame o ((id, len), rx) := by
  have hframe : ((rx.drop 18).take 6 ++ o.replySrcMac.toList ++ (rx.take len).drop 24).length =
      len - 12 := by
    simp only [List.length_append, List.length_take, List.length_drop, Vector.length_toList]
    omega
  unfold replyBytes replyFrame padded
  rw [hframe]
  generalize (rx.drop 18).take 6 ++ o.replySrcMac.toList ++ (rx.take len).drop 24 = frame at hframe
  unfold kVirtioNetHeaderSize kEthernetMinFrameSize at *
  rw [List.append_assoc, List.take_append, List.length_replicate, List.take_of_length_le (by simp),
    List.take_append, hframe, List.take_of_length_le (by omega), List.take_replicate]
  congr 3
  omega

/-! ## What the driver leaves alone -/

/-- The RX buffers, what the RX device has returned, and how far the TX device has come. -/
def State.devices (s : State) : (Nat → List UInt8) × List (Nat × Nat) × BitVec 16 :=
  (s.rxBuf, s.rx.returned, s.tx.nextAvail)

theorem afterConsume_devices (s : State) (progress : Bool) (c : Caller) :
    (afterConsume s progress c).devices = s.devices := by
  cases c with
  | beforeReply =>
    unfold afterConsume
    dsimp only
    split <;> rfl
  | top | drain => rfl

theorem afterPoll_devices (s : State) (l : Loop) : (afterPoll s l).devices = s.devices := by
  cases l <;> rfl

theorem run_devices (hs : EchoLoop.run o s = some s') : s'.devices = s.devices := by
  have hran := run_ran hs
  generalize s.pc = pc at hran
  cases hran with
  | publishRxIdx | readInitialRx | readInitialTx | driverOk | readRx | publishTxIdx
  | recycle echoed => rfl
  | publishRx | reread | reply | publishTx | recycleIdx echoed =>
    simp only [publishRx, reread, reply, publishTx, recycleIdx]
    split <;> rfl
  | consume c =>
    unfold consume
    split
    · exact afterConsume_devices _ _ _
    · rfl
  | completion c =>
    unfold completion
    dsimp only
    split
    · split <;> rfl
    · exact afterConsume_devices _ _ _
  | entry =>
    unfold entry endBatch
    dsimp only
    split
    · split <;> rfl
    · split
      · rfl
      · split <;> rfl
  | drainRx l =>
    unfold drainRx
    split
    · split
      · exact afterPoll_devices _ _
      · rfl
    · rfl
  | drainTx l =>
    unfold drainTx
    split
    · exact afterPoll_devices _ _
    · rfl

theorem turns_exited {pc pc' : Pc} (h : Turns pc pc') (hpc : pc.rxPhase = .exited) :
    pc'.rxPhase = .exited := by
  cases h with
  | startDrain | stopDrain | waitEnds | waitDrainEnds | timeout | timeoutDrain | failed l => rfl
  | poll l | readable l | interrupted l =>
    cases l with
    | drain => rfl
    | main => cases hpc
  | start | stop => cases hpc

theorem run_exited (hs : EchoLoop.run o s = some s') (h : s.pc.rxPhase = .exited) :
    s'.pc.rxPhase = .exited := by
  have hran := run_ran hs
  generalize hpc : s.pc = pc at h hran
  cases hran with
  | consume c =>
    cases c with
    | drain =>
      unfold consume
      split <;> rfl
    | top | beforeReply => cases h
  | completion c =>
    cases c with
    | drain =>
      unfold completion
      dsimp only
      split
      · split <;> exact congrArg Pc.rxPhase hpc
      · rfl
    | top | beforeReply => cases h
  | drainRx l =>
    cases l with
    | drain =>
      unfold drainRx
      split
      · split <;> rfl
      · exact congrArg Pc.rxPhase hpc
    | main => cases h
  | drainTx l =>
    cases l with
    | drain =>
      unfold drainTx
      split
      · rfl
      · exact congrArg Pc.rxPhase hpc
    | main => cases h
  | publishRx | publishRxIdx | readInitialRx | readInitialTx | driverOk | readRx | entry | reread
  | reply | publishTx | publishTxIdx | recycle echoed | recycleIdx echoed => cases h

/-- Once the main loop has ended it is not entered again. -/
theorem exited_stays {e : Event} (hs : EchoLoop.step o s e = some s')
    (h : s.pc.rxPhase = .exited) : s'.pc.rxPhase = .exited := by
  cases step_stepped hs with
  | ran hs => exact run_exited hs h
  | turned _ hturn _ => exact turns_exited hturn h
  | acted _ hs =>
    obtain ⟨rx, tx, rxBuf, rxEvent, txEvent, rxSignalled, txSignalled, rfl⟩ := hs.shared
    exact h

/-! ## What the driver decides -/

/-- The loop goes on to hand the buffer back. -/
structure Recycles (s s' : State) : Prop where
  before : s.answered = s.processedRx.length
  pc : ∃ b, s'.pc = .recycle b
  processed : s'.processedRx = s.processedRx
  received : s'.received = s.received
  buffers : s'.rxBuf = s.rxBuf

/-- What a step of the driver means for the packet it is at. -/
inductive Decides (o : Options) (s s' : State) : Prop where
  | nothing (hanswer : answerOf s s' = [])
      (hpost : ¬(s.pc = .publishTxIdx ∧ s'.pc = .recycle true))
      (hanswered : s'.answered = s.answered)
      (hprocessed : s.processedRx.length ≤ s'.processedRx.length)
      (hecho : s'.echoedTx = s.echoedTx)
  | skips (hanswer : answerOf s s' = [])
      (hpost : ¬(s.pc = .publishTxIdx ∧ s'.pc = .recycle true)) (hrecycles : Recycles s s')
      (haccepts : accepts o s.current = false) (hecho : s'.echoedTx = s.echoedTx)
  | drops (hanswer : answerOf s s' = [(s.current, .dropped s'.txSlots)])
      (hpost : ¬(s.pc = .publishTxIdx ∧ s'.pc = .recycle true)) (hrecycles : Recycles s s')
      (haccepts : accepts o s.current = true)
      (hfull : ∀ slot ∈ s'.txSlots, slot.inFlight = true) (hecho : s'.echoedTx = s.echoedTx)
  | sends (hanswer : answerOf s s' = [(s.current, .echoed)])
      (hpost : s.pc = .publishTxIdx ∧ s'.pc = .recycle true) (hrecycles : Recycles s s')
      (haccepts : accepts o s.current = true)
      (hframe : frameOf s s.txSlot = replyFrame o s.current)
      (hecho : s'.echoedTx = (s.echoedTx + 1) % 2 ^ 32)

def Pc.recycles : Pc → Bool
  | .recycle _ | .recycleIdx _ => true
  | _ => false

/-- The loop is at a packet that is not decided about yet. -/
def Pc.looks : Pc → Bool
  | .consume .beforeReply | .completion .beforeReply | .reply => true
  | .reread | .publishTx | .publishTxIdx => true
  | _ => false

theorem answered_of (h : s.pc.recycles = false) : s.answered = s.processedRx.length := by
  unfold State.answered
  split
  · rename_i hpc
    rw [hpc] at h
    cases h
  · rename_i hpc
    rw [hpc] at h
    cases h
  · rfl

theorem current_of (h : s.pc.looks = false) : Current o s := by
  unfold Current
  split <;> first | trivial | (rename_i hpc; rw [hpc] at h; cases h)

/-- A step that is none of those that decide. -/
theorem Decides.of_pc (hpost : s.pc ≠ .publishTxIdx) (hconsume : s.pc ≠ .consume .beforeReply)
    (hcompletion : s.pc ≠ .completion .beforeReply) (hanswered : s'.answered = s.answered)
    (hprocessed : s.processedRx.length ≤ s'.processedRx.length)
    (hecho : s'.echoedTx = s.echoedTx) : Decides o s s' := by
  refine .nothing ?_ (fun h => hpost h.1) hanswered hprocessed hecho
  unfold answerOf
  split
  · exact absurd ‹_› hpost
  · exact absurd ‹_› hconsume
  · exact absurd ‹_› hcompletion
  · rfl

/-- A step away from any packet. -/
theorem decides_quiet (hlooks : s.pc.looks = false) (hlooks' : s'.pc.looks = false)
    (hrecycles : s.pc.recycles = false) (hrecycles' : s'.pc.recycles = false)
    (hprocessed : s'.processedRx = s.processedRx) (hecho : s'.echoedTx = s.echoedTx) :
    Decides o s s' ∧ Current o s' := by
  have hne : ∀ pc, pc.looks = true → s.pc ≠ pc := by
    rintro _ hpc rfl
    rw [hlooks] at hpc
    cases hpc
  refine ⟨.of_pc (hne _ rfl) (hne _ rfl) (hne _ rfl) ?_ (by rw [hprocessed]) hecho,
    current_of hlooks'⟩
  rw [answered_of hrecycles, answered_of hrecycles', hprocessed]

/-- `consume_tx_completions` before a reply: there is a slot, or the packet is dropped. -/
theorem afterConsume_decides {s₁ : State} {progress : Bool}
    (hpc : s.pc = .consume .beforeReply ∨ s.pc = .completion .beforeReply)
    (haccepts : accepts o s.current = true) (hreceived : s₁.received = s.received)
    (hbuf : s₁.rxBuf = s.rxBuf) (hprocessed : s₁.processedRx = s.processedRx)
    (hecho : s₁.echoedTx = s.echoedTx) :
    Decides o s (afterConsume s₁ progress .beforeReply) ∧
      Current o (afterConsume s₁ progress .beforeReply) := by
  have hbefore : s.answered = s.processedRx.length := by
    obtain hpc | hpc := hpc
    · exact answered_of (by rw [hpc]; rfl)
    · exact answered_of (by rw [hpc]; rfl)
  have hpost : s.pc ≠ .publishTxIdx := by
    obtain hpc | hpc := hpc
    · rw [hpc]
      nofun
    · rw [hpc]
      nofun
  unfold afterConsume
  dsimp only
  split
  · rename_i hnone
    have hfull := List.findIdx?_eq_none_iff.1 hnone
    refine ⟨.drops ?_ (fun h => hpost h.1) ⟨hbefore, ⟨false, rfl⟩, hprocessed, hreceived, hbuf⟩ haccepts
      (fun slot hslot => by simpa using hfull slot hslot) hecho, trivial⟩
    obtain hpc | hpc := hpc
    · rw [answerOf, hpc]
    · rw [answerOf, hpc]
  · refine ⟨.nothing ?_ (fun h => hpost h.1) ?_ (by rw [hprocessed]) hecho, ?_⟩
    · obtain hpc | hpc := hpc
      · rw [answerOf, hpc]
      · rw [answerOf, hpc]
    · rw [hbefore, ← hprocessed]
      rfl
    · show accepts o (s₁.received, s₁.rxBuf s₁.received.1) = true
      rw [hreceived, hbuf]
      exact haccepts

/-- Completions are consumed before a reply. -/
theorem completing_decides
    (hpc : s.pc = .consume .beforeReply ∨ s.pc = .completion .beforeReply)
    (hpc' : s'.pc = .completion .beforeReply) (haccepts : accepts o s.current = true)
    (hreceived : s'.received = s.received) (hbuf : s'.rxBuf = s.rxBuf)
    (hprocessed : s'.processedRx = s.processedRx) (hecho : s'.echoedTx = s.echoedTx) :
    Decides o s s' ∧ Current o s' := by
  have hbefore : s.answered = s.processedRx.length := by
    obtain hpc | hpc := hpc
    · exact answered_of (by rw [hpc]; rfl)
    · exact answered_of (by rw [hpc]; rfl)
  have hafter : s'.answered = s'.processedRx.length := answered_of (by rw [hpc']; rfl)
  refine ⟨.nothing ?_ (fun h => by rw [hpc'] at h; cases h.2) ?_ (by rw [hprocessed]) hecho, ?_⟩
  · obtain hpc | hpc := hpc
    · rw [answerOf, hpc, hpc']
    · rw [answerOf, hpc, hpc']
  · rw [hbefore, hafter, hprocessed]
  · rw [Current, hpc']
    show accepts o (s'.received, s'.rxBuf s'.received.1) = true
    rw [hreceived, hbuf]
    exact haccepts

theorem consume_decides (c : Caller) (hpc : s.pc = .consume c) (hcurrent : Current o s) :
    Decides o s (consume c s) ∧ Current o (consume c s) := by
  rw [Current, hpc] at hcurrent
  cases c with
  | beforeReply =>
    unfold consume
    split
    · exact afterConsume_decides (.inl hpc) hcurrent rfl rfl rfl rfl
    · exact completing_decides (.inl hpc) rfl hcurrent rfl rfl rfl rfl
  | top | drain =>
    have hlooks : s.pc.looks = false := by rw [hpc]; rfl
    have hrecycles : s.pc.recycles = false := by rw [hpc]; rfl
    unfold consume
    split
    · exact decides_quiet hlooks rfl hrecycles rfl rfl rfl
    · exact decides_quiet hlooks rfl hrecycles rfl rfl rfl

theorem completion_decides (c : Caller) (hpc : s.pc = .completion c) (hcurrent : Current o s) :
    Decides o s (completion o c s) ∧ Current o (completion o c s) := by
  rw [Current, hpc] at hcurrent
  unfold completion
  cases c with
  | beforeReply =>
    dsimp only
    split
    · split
      · exact completing_decides (.inr hpc) hpc hcurrent rfl rfl rfl rfl
      · exact completing_decides (.inr hpc) hpc hcurrent rfl rfl rfl rfl
    · exact afterConsume_decides (.inr hpc) hcurrent rfl rfl rfl rfl
  | top | drain =>
    have hlooks : s.pc.looks = false := by rw [hpc]; rfl
    have hrecycles : s.pc.recycles = false := by rw [hpc]; rfl
    dsimp only
    split
    · split
      · exact decides_quiet hlooks hlooks hrecycles hrecycles rfl rfl
      · exact decides_quiet hlooks hlooks hrecycles hrecycles rfl rfl
    · exact decides_quiet hlooks rfl hrecycles rfl rfl rfl

theorem afterPoll_decides (l : Loop) (hlooks : s.pc.looks = false)
    (hrecycles : s.pc.recycles = false) : Decides o s (afterPoll s l) ∧ Current o (afterPoll s l) := by
  cases l with
  | main | drain => exact decides_quiet hlooks rfl hrecycles rfl rfl rfl

theorem drainRx_decides (l : Loop) (hpc : s.pc = .drainRx l) :
    Decides o s (drainRx o l s) ∧ Current o (drainRx o l s) := by
  have hlooks : s.pc.looks = false := by rw [hpc]; rfl
  have hrecycles : s.pc.recycles = false := by rw [hpc]; rfl
  unfold drainRx
  split
  · split
    · exact afterPoll_decides l hlooks hrecycles
    · exact decides_quiet hlooks rfl hrecycles rfl rfl rfl
  · exact decides_quiet hlooks hlooks hrecycles hrecycles rfl rfl

theorem drainTx_decides (l : Loop) (hpc : s.pc = .drainTx l) :
    Decides o s (drainTx l s) ∧ Current o (drainTx l s) := by
  have hlooks : s.pc.looks = false := by rw [hpc]; rfl
  have hrecycles : s.pc.recycles = false := by rw [hpc]; rfl
  unfold drainTx
  split
  · exact afterPoll_decides l hlooks hrecycles
  · exact decides_quiet hlooks hlooks hrecycles hrecycles rfl rfl

theorem entry_decides (hpc : s.pc = .entry) :
    Decides o s (entry o s) ∧ Current o (entry o s) := by
  have hne : ∀ pc, pc ≠ .entry → s.pc ≠ pc := by
    rintro _ h rfl
    exact h hpc
  have hlooks : s.pc.looks = false := by rw [hpc]; rfl
  have hrecycles : s.pc.recycles = false := by rw [hpc]; rfl
  unfold entry endBatch
  dsimp only
  split
  · split
    · rename_i haccepts
      exact ⟨.of_pc (hne _ nofun) (hne _ nofun) (hne _ nofun) (answered_of hrecycles).symm le_rfl rfl,
        haccepts⟩
    · rename_i haccepts
      exact ⟨.of_pc (hne _ nofun) (hne _ nofun) (hne _ nofun) (answered_of hrecycles).symm le_rfl rfl,
        Bool.eq_false_iff.2 haccepts⟩
  · split
    · exact decides_quiet hlooks rfl hrecycles rfl rfl rfl
    · split
      · exact decides_quiet hlooks rfl hrecycles rfl rfl rfl
      · exact decides_quiet hlooks rfl hrecycles rfl rfl rfl

/-- A skipped entry still holds the same id. -/
theorem reread_decides (ho : o.RxValid) (h : RxInv o s) (hpc : s.pc = .reread)
    (haccepts : accepts o s.current = false) :
    Decides o s (reread o s) ∧ Current o (reread o s) := by
  unfold RxInv at h
  rw [hpc] at h
  obtain ⟨hbatch, hlt, hsame⟩ := h
  have hid : s.received.1 < o.rxBuffers := hsame ▸ List.mem_range.1 (hbatch.take ho.dvd hlt).mem_ids
  unfold reread
  rw [hsame, if_pos hid]
  refine ⟨.skips ?_ (fun h => by rw [hpc] at h; cases h.1)
    ⟨answered_of (by rw [hpc]; rfl), ⟨false, rfl⟩, rfl, rfl, rfl⟩ haccepts rfl, trivial⟩
  rw [answerOf, hpc]

theorem reply_decides (hsizes : ∀ id, (s.rxBuf id).length = o.rxBufferSize) (hpc : s.pc = .reply)
    (haccepts : accepts o s.current = true) :
    Decides o s (reply o s) ∧ Current o (reply o s) := by
  have hne : ∀ pc, pc ≠ .reply → s.pc ≠ pc := by
    rintro _ h rfl
    exact h hpc
  have hanswered : s.answered = s.processedRx.length := answered_of (by rw [hpc]; rfl)
  unfold reply
  dsimp only
  split
  · exact ⟨.of_pc (hne _ nofun) (hne _ nofun) (hne _ nofun) hanswered.symm le_rfl rfl, trivial⟩
  · rename_i hfits
    obtain ⟨hlen, hfit⟩ := not_or.1 hfits
    have hle : s.received.2 ≤ o.rxBufferSize := by
      have hall : (decide (s.received.1 < o.rxBuffers) && decide (s.received.2 ≤ o.rxBufferSize) &&
          decide (kVirtioNetHeaderSize + kEthernetHeaderSize ≤ s.received.2) && _) = true := haccepts
      simp only [Bool.and_eq_true, decide_eq_true_eq] at hall
      exact hall.1.1.2
    refine ⟨.of_pc (hne _ nofun) (hne _ nofun) (hne _ nofun) hanswered.symm le_rfl rfl,
      haccepts, ?_⟩
    show (Function.update s.txBuf s.txSlot _ s.txSlot).take _ = _
    rw [Function.update_self]
    exact take_replyBytes (hsizes _) (Nat.not_lt.1 hlen) hle (Nat.not_lt.1 hfit)

theorem publishTx_decides (hpc : s.pc = .publishTx) (haccepts : accepts o s.current = true)
    (hframe : (s.txBuf s.txSlot).take s.txUsedLen = replyFrame o s.current) :
    Decides o s (publishTx o s) ∧ Current o (publishTx o s) := by
  have hne : ∀ pc, pc ≠ .publishTx → s.pc ≠ pc := by
    rintro _ h rfl
    exact h hpc
  have hanswered : s.answered = s.processedRx.length := answered_of (by rw [hpc]; rfl)
  unfold publishTx
  split
  · exact ⟨.of_pc (hne _ nofun) (hne _ nofun) (hne _ nofun) hanswered.symm le_rfl rfl, trivial⟩
  · refine ⟨.of_pc (hne _ nofun) (hne _ nofun) (hne _ nofun) hanswered.symm le_rfl rfl,
      haccepts, ?_⟩
    show (s.txBuf s.txSlot).take (Function.update s.txDesc s.txSlot _ s.txSlot).len = _
    rw [Function.update_self]
    exact hframe

theorem publishTxIdx_decides (hpc : s.pc = .publishTxIdx) (haccepts : accepts o s.current = true)
    (hframe : frameOf s s.txSlot = replyFrame o s.current) :
    Decides o s (publishTxIdx s) ∧ Current o (publishTxIdx s) := by
  refine ⟨.sends ?_ ⟨hpc, rfl⟩ ⟨answered_of (by rw [hpc]; rfl), ⟨true, rfl⟩, rfl, rfl, rfl⟩ haccepts
    hframe rfl, trivial⟩
  rw [answerOf, hpc]
  rfl

theorem recycle_decides (echoed : Bool) (hpc : s.pc = .recycle echoed) :
    Decides o s (recycle o echoed s) ∧ Current o (recycle o echoed s) := by
  have hne : ∀ pc, pc ≠ .recycle echoed → s.pc ≠ pc := by
    rintro _ h rfl
    exact h hpc
  refine ⟨.of_pc (hne _ nofun) (hne _ nofun) (hne _ nofun) ?_ le_rfl rfl, trivial⟩
  show s.processedRx.length + 1 = s.answered
  rw [State.answered, hpc]

theorem recycleIdx_decides (echoed : Bool) (hpc : s.pc = .recycleIdx echoed) :
    Decides o s (recycleIdx o echoed s) ∧ Current o (recycleIdx o echoed s) := by
  have hne : ∀ pc, pc ≠ .recycleIdx echoed → s.pc ≠ pc := by
    rintro _ h rfl
    exact h hpc
  have hanswered : s.answered = s.processedRx.length + 1 := by rw [State.answered, hpc]
  have hlen : (s.processedRx ++ [s.received]).length = s.answered := by
    rw [hanswered, List.length_append, List.length_singleton]
  unfold recycleIdx
  dsimp only
  split
  · exact ⟨.of_pc (hne _ nofun) (hne _ nofun) (hne _ nofun) hlen (by simp) rfl, trivial⟩
  · exact ⟨.of_pc (hne _ nofun) (hne _ nofun) (hne _ nofun) hlen (by simp) rfl, trivial⟩

/-- **Every step of the driver that waits for nothing.** -/
theorem run_decides (ho : o.RxValid) (h : RxInv o s)
    (hsizes : ∀ id, (s.rxBuf id).length = o.rxBufferSize) (hcurrent : Current o s)
    (hs : EchoLoop.run o s = some s') : Decides o s s' ∧ Current o s' := by
  have hlook := hcurrent
  have hran := run_ran hs
  unfold Current at hlook
  generalize hpc : s.pc = pc at hlook hran
  cases hran with
  | publishRx =>
    have hlooks : s.pc.looks = false := by rw [hpc]; rfl
    have hrecycles : s.pc.recycles = false := by rw [hpc]; rfl
    unfold publishRx
    split
    · exact decides_quiet hlooks hlooks hrecycles hrecycles rfl rfl
    · exact decides_quiet hlooks rfl hrecycles rfl rfl rfl
  | publishRxIdx | readInitialRx | readInitialTx | driverOk | readRx =>
    have hlooks : s.pc.looks = false := by rw [hpc]; rfl
    have hrecycles : s.pc.recycles = false := by rw [hpc]; rfl
    exact decides_quiet hlooks rfl hrecycles rfl rfl rfl
  | consume c => exact consume_decides c hpc hcurrent
  | completion c => exact completion_decides c hpc hcurrent
  | entry => exact entry_decides hpc
  | reread => exact reread_decides ho h hpc hlook
  | reply => exact reply_decides hsizes hpc hlook
  | publishTx => exact publishTx_decides hpc hlook.1 hlook.2
  | publishTxIdx => exact publishTxIdx_decides hpc hlook.1 hlook.2
  | recycle echoed => exact recycle_decides echoed hpc
  | recycleIdx echoed => exact recycleIdx_decides echoed hpc
  | drainRx l => exact drainRx_decides l hpc
  | drainTx l => exact drainTx_decides l hpc

theorem turn_decides {pc : Pc} (hturn : Turns s.pc pc) :
    Decides o s { s with pc := pc } ∧ Current o { s with pc := pc } := by
  generalize hold : s.pc = old at hturn
  cases hturn with
  | _ => exact decides_quiet (by rw [hold]; rfl) rfl (by rw [hold]; rfl) rfl rfl rfl

/-- **The packet the loop is at** is not with the device. -/
theorem current_kept (ho : o.RxValid) (hpc : s.pc.looks = true) (h : RxInv o s) {id : Nat}
    (hid : id ∈ s.rx.held) : id ≠ s.received.1 := by
  have htaken : Virtqueue.Taken o.rxQueueSize (List.range o.rxBuffers) s.rx s.rxScan [] s.processedRx
      s.received := by
    unfold RxInv at h
    generalize s.pc = pc at h hpc
    cases pc with
    | reread =>
      obtain ⟨hbatch, hlt, hsame⟩ := h
      exact hsame ▸ hbatch.take ho.dvd hlt
    | consume c | completion c =>
      cases c with
      | beforeReply => exact h
      | top | drain => cases hpc
    | reply | publishTx | publishTxIdx => exact h
    | _ => cases hpc
  exact htaken.ne_held List.nodup_range hid

theorem Current.congr (h : Current o s) (hpc : s'.pc = s.pc)
    (hcurrent : s.pc.looks = true → s'.current = s.current) (hbuf : s'.txBuf = s.txBuf)
    (hdesc : s'.txDesc = s.txDesc) (hslot : s'.txSlot = s.txSlot)
    (hlen : s'.txUsedLen = s.txUsedLen) : Current o s' := by
  by_cases hlooks : s.pc.looks = true
  · simpa only [Current, frameOf, hpc, hcurrent hlooks, hbuf, hdesc, hslot, hlen] using h
  · refine current_of ?_
    rw [hpc]
    exact Bool.eq_false_iff.2 hlooks

/-- The device writes into the buffers that it holds. -/
theorem Acted.rxBuf {e : Event} (hs : Acted o s e s') {id : Nat} (hid : id ∉ s.rx.held) :
    s'.rxBuf id = s.rxBuf id := by
  cases hs with
  | fill hheld _ => exact Function.update_of_ne (fun h => hid (by rw [h]; exact hheld)) _ _
  | rx _ _ | rxSignal | tx _ | txShared _ | txDistinct _ => rfl

theorem answerOf_same (hpc : s'.pc = s.pc) : answerOf s s' = [] := by
  unfold answerOf
  rw [hpc]
  split <;> simp_all

theorem acted_decides (ho : o.RxValid) (h : RxInv o s) (hcurrent : Current o s) {e : Event}
    (hs : Acted o s e s') : Decides o s s' ∧ Current o s' := by
  have hbuf : s.pc.looks = true → s'.rxBuf s.received.1 = s.rxBuf s.received.1 := fun hlooks =>
    hs.rxBuf fun hid => current_kept ho hlooks h hid rfl
  obtain ⟨rx, tx, rxBuf, rxEvent, txEvent, rxSignalled, txSignalled, rfl⟩ := hs.shared
  refine ⟨.nothing (answerOf_same rfl) (fun h => ?_) rfl le_rfl rfl,
    hcurrent.congr rfl (fun hlooks => ?_) rfl rfl rfl rfl⟩
  · have hpc : s.pc = .recycle true := h.2
    rw [hpc] at h
    cases h.1
  · exact Prod.ext rfl (hbuf hlooks)

/-- **Every step.** -/
theorem step_decides (ho : o.RxValid) (h : RxInv o s)
    (hsizes : ∀ id, (s.rxBuf id).length = o.rxBufferSize) (hcurrent : Current o s) {e : Event}
    (hs : EchoLoop.step o s e = some s') : Decides o s s' ∧ Current o s' := by
  cases step_stepped hs with
  | ran hs => exact run_decides ho h hsizes hcurrent hs
  | turned _ hturn _ => exact turn_decides hturn
  | acted _ hs => exact acted_decides ho h hcurrent hs

/-! ## What the device takes -/

/-- Only `publish_tx_packet` posts. -/
theorem run_waiting (ho : o.TxValid) (h : TxInv o s) (hs : EchoLoop.run o s = some s') :
    s'.tx.waiting o.txQueueSize = s.tx.waiting o.txQueueSize ++
      if s.pc = .publishTxIdx ∧ s'.pc = .recycle true then [s.txSlot] else [] := by
  unfold TxInv at h
  by_cases hpc : s.pc = .publishTxIdx
  · simp only [EchoLoop.run, hpc, Option.some.injEq] at hs
    subst hs
    rw [hpc] at h
    obtain ⟨hcore, hslot, hring⟩ := h
    obtain ⟨-, hwaiting⟩ := hcore.conserved.post ho.dvd ho.lt ho.ids hslot hring
    rw [if_pos ⟨hpc, rfl⟩]
    exact hwaiting
  · rw [if_neg fun hpost => hpc hpost.1, List.append_nil]
    obtain htx | ⟨hpc', htx⟩ | ⟨hpc', htx⟩ := run_tx hs
    · rw [htx]
    · rw [hpc'] at h
      obtain ⟨hcore, hslot⟩ := h
      obtain ⟨-, hwaiting⟩ :=
        hcore.conserved.store ho.dvd ho.ids (List.length_pos_of_mem hslot) s.txSlot
      rw [htx, hwaiting]
    · exact absurd hpc' hpc

/-- **The device takes what is posted first.** -/
theorem device_waiting (ho : o.TxValid) {a : DeviceAction} {tx : Virtqueue}
    (hs : s.tx.device o.txQueueSize a = some tx) :
    s.tx.waiting o.txQueueSize =
      (if tx.nextAvail = s.tx.nextAvail then []
        else [s.tx.availRing (s.tx.nextAvail.toNat % o.txQueueSize)]) ++
      tx.waiting o.txQueueSize := by
  obtain ⟨hne, rfl⟩ | ⟨e, -, -, rfl⟩ | ⟨e, -, rfl⟩ := Virtqueue.device_cases hs
  · have hnext : s.tx.nextAvail + 1 ≠ s.tx.nextAvail := by simp
    rw [if_neg hnext]
    exact Virtqueue.waiting_cons ho.dvd hne
  · rw [if_pos rfl]
    rfl
  · rw [if_pos rfl]
    rfl

/-- A step that posts is the last of `publish_tx_packet`. -/
theorem posts_eq {e : Event} (hs : EchoLoop.step o s e = some s')
    (hpost : s.pc = .publishTxIdx ∧ s'.pc = .recycle true) : s' = publishTxIdx s := by
  obtain ⟨hpc, hpc'⟩ := hpost
  cases step_stepped hs with
  | ran hs =>
    have hran := run_ran hs
    rw [hpc] at hran
    cases hran
    rfl
  | turned _ hturn _ =>
    rw [hpc] at hturn
    cases hturn
  | acted _ hs =>
    obtain ⟨rx, tx, rxBuf, rxEvent, txEvent, rxSignalled, txSignalled, rfl⟩ := hs.shared
    cases hpc.symm.trans hpc'

/-- A step that leaves the TX queue alone, and posts nothing. -/
theorem waiting_same (htx : s'.tx = s.tx) (hpc : ¬(s.pc = .publishTxIdx ∧ s'.pc = .recycle true)) :
    (if s'.tx.nextAvail = s.tx.nextAvail then []
      else [s.tx.availRing (s.tx.nextAvail.toNat % o.txQueueSize)]) ++
        s'.tx.waiting o.txQueueSize =
      s.tx.waiting o.txQueueSize ++
        if s.pc = .publishTxIdx ∧ s'.pc = .recycle true then [s.txSlot] else [] := by
  rw [htx, if_pos rfl, if_neg hpc, List.nil_append, List.append_nil]

/-- **What is posted** is taken at the front and added to at the end. -/
theorem step_waiting (ho : o.TxValid) (h : TxInv o s) {e : Event}
    (hs : EchoLoop.step o s e = some s') :
    (if s'.tx.nextAvail = s.tx.nextAvail then []
      else [s.tx.availRing (s.tx.nextAvail.toNat % o.txQueueSize)]) ++
        s'.tx.waiting o.txQueueSize =
      s.tx.waiting o.txQueueSize ++
        if s.pc = .publishTxIdx ∧ s'.pc = .recycle true then [s.txSlot] else [] := by
  have hstays : ¬(s.pc = .publishTxIdx ∧ s.pc = .recycle true) := fun h => by
    cases h.1.symm.trans h.2
  cases step_stepped hs with
  | ran hs =>
    have hnext : s'.tx.nextAvail = s.tx.nextAvail := (Prod.mk.inj (Prod.mk.inj (run_devices hs)).2).2
    rw [if_pos hnext, List.nil_append]
    exact run_waiting ho h hs
  | turned _ hturn _ =>
    refine waiting_same rfl fun hpost => ?_
    rw [hpost.1] at hturn
    cases hturn
  | acted _ hs =>
    cases hs with
    | tx htx =>
      rw [if_neg hstays, List.append_nil]
      exact (device_waiting ho htx).symm
    | rx _ _ | fill _ _ | rxSignal | txShared _ | txDistinct _ => exact waiting_same rfl hstays

/-- The frames that have been taken, and those that are posted. -/
theorem step_taken (ho : o.TxValid) (h : TxInv o s) {e : Event}
    (hs : EchoLoop.step o s e = some s')
    (ht : t.sent = t.taken ++ (s.tx.waiting o.txQueueSize).map (frameOf s)) :
    (record o s s' t).sent = (record o s s' t).taken ++
      (s'.tx.waiting o.txQueueSize).map (frameOf s') := by
  have hflow := step_waiting ho h hs
  have hkept : ∀ id ∈ s'.tx.waiting o.txQueueSize, frameOf s' id = frameOf s id := by
    intro id hid
    have hmem := List.mem_append_right (if s'.tx.nextAvail = s.tx.nextAvail then []
      else [s.tx.availRing (s.tx.nextAvail.toNat % o.txQueueSize)]) hid
    rw [hflow, List.mem_append] at hmem
    obtain hmem | hmem := hmem
    · obtain ⟨hdesc, hbuf⟩ := h.owned_kept hs (List.mem_append_left _ hmem)
      rw [frameOf, frameOf, hdesc, hbuf]
    · split at hmem
      · rename_i hpost
        rw [posts_eq hs hpost]
        rfl
      · cases hmem
  have hmap := congrArg (List.map (frameOf s)) hflow
  rw [List.map_append, List.map_append] at hmap
  have hsent : (record o s s' t).sent = t.sent ++
      (if s.pc = .publishTxIdx ∧ s'.pc = .recycle true then [s.txSlot] else []).map (frameOf s) := by
    simp only [record]
    split <;> rfl
  have htaken : (record o s s' t).taken = t.taken ++ (if s'.tx.nextAvail = s.tx.nextAvail then []
      else [s.tx.availRing (s.tx.nextAvail.toNat % o.txQueueSize)]).map (frameOf s) := by
    simp only [record]
    split <;> rfl
  rw [hsent, htaken, ht, List.map_congr_left hkept, List.append_assoc, ← hmap, List.append_assoc]

/-! ## What the device has delivered -/

theorem logged_same {v v' : Virtqueue} {buf : Nat → List UInt8} {log : List Delivery}
    (h : v'.returned = v.returned) : Virtqueue.logged v v' buf log = log := by
  rw [Virtqueue.logged, h, List.drop_length, List.map_nil, List.append_nil]

theorem live_not_publishing (h : RxInv o s) (hlive : s.live = true) : ¬s.pc.publishing := by
  unfold RxInv at h
  rintro (hpc | hpc)
  · rw [hpc] at h
    exact absurd (hlive.symm.trans h.1.1) Bool.noConfusion
  · rw [hpc] at h
    exact absurd (hlive.symm.trans h.1.1) Bool.noConfusion

theorem Logged.same {n : Nat} {delivered : List Delivery} (h : Logged o s n delivered)
    (hbuf : s'.rxBuf = s.rxBuf) (hreturned : s'.rx.returned = s.rx.returned)
    (hexit : s'.pc.rxPhase ≠ .exited → s.pc.rxPhase ≠ .exited) :
    Logged o s' n (Virtqueue.logged s.rx s'.rx s.rxBuf delivered) := by
  obtain ⟨hsizes, hentries, hkept⟩ := h
  rw [logged_same hreturned]
  refine ⟨?_, hentries.trans hreturned.symm, fun hpc => ?_⟩
  · rw [hbuf]
    exact hsizes
  · rw [hbuf]
    exact hkept (hexit hpc)

/-- The device returns a buffer, or takes or writes one that it has. -/
theorem rxDevice_logged (hrx : RxInv o s) (hlive : s.live = true) {delivered : List Delivery}
    (h : Logged o s s.processedRx.length delivered) {a : DeviceAction} {rx : Virtqueue}
    (hdevice : s.rx.device o.rxQueueSize a = some rx) :
    Logged o { s with rx := rx } s.processedRx.length
      (Virtqueue.logged s.rx rx s.rxBuf delivered) := by
  obtain ⟨hsizes, hentries, hkept⟩ := h
  have hlog : Virtqueue.Log s.rx s.rx.returned.length s.rxBuf delivered := by
    refine ⟨hentries, fun d hd => ?_⟩
    rw [← hentries, List.length_map, List.drop_length] at hd
    cases hd
  refine ⟨hsizes, (hlog.device le_rfl hdevice).entries, fun hpc => ?_⟩
  have hconserved := hrx.conserved ⟨live_not_publishing hrx hlive, hpc⟩
  have hle : s.processedRx.length ≤ s.rx.returned.length := by
    rw [hconserved.history, List.length_append, List.length_append]
    omega
  exact (Virtqueue.Log.device ⟨hentries, hkept hpc⟩ hle hdevice).kept

/-- The device fills a buffer that it holds, and that no entry is about any more. -/
theorem rxFill_logged (hrx : RxInv o s) (hlive : s.live = true) {delivered : List Delivery}
    (h : Logged o s s.processedRx.length delivered) {id : Nat} {data : List UInt8}
    (hheld : id ∈ s.rx.held) (hlen : data.length = o.rxBufferSize) :
    Logged o { s with rxBuf := Function.update s.rxBuf id data } s.processedRx.length
      (Virtqueue.logged s.rx s.rx s.rxBuf delivered) := by
  obtain ⟨hsizes, hentries, hkept⟩ := h
  rw [logged_same rfl]
  refine ⟨fun id' => ?_, hentries, fun hpc => ?_⟩
  · by_cases hid : id' = id
    · rw [hid]
      show (Function.update s.rxBuf id data id).length = _
      rw [Function.update_self]
      exact hlen
    · show (Function.update s.rxBuf id data id').length = _
      rw [Function.update_of_ne hid]
      exact hsizes id'
  · have hconserved := hrx.conserved ⟨live_not_publishing hrx hlive, hpc⟩
    refine (Virtqueue.Log.fill ⟨hentries, hkept hpc⟩ hconserved List.nodup_range
      (fun e he => ?_) hheld data).kept
    rw [List.drop_left] at he
    exact List.mem_map_of_mem he

/-- **Every step**, while the driver is done with the first `s.processedRx.length` entries. -/
theorem step_logged (hrx : RxInv o s) {delivered : List Delivery}
    (h : Logged o s s.processedRx.length delivered) {e : Event}
    (hs : EchoLoop.step o s e = some s') :
    Logged o s' s.processedRx.length (Virtqueue.logged s.rx s'.rx s.rxBuf delivered) := by
  have hexit : s'.pc.rxPhase ≠ .exited → s.pc.rxPhase ≠ .exited := fun hpc' hpc =>
    hpc' (exited_stays hs hpc)
  cases step_stepped hs with
  | ran hs =>
    have hdevices := run_devices hs
    exact h.same (Prod.mk.inj hdevices).1 (Prod.mk.inj (Prod.mk.inj hdevices).2).1 hexit
  | turned _ _ _ => exact h.same rfl rfl hexit
  | acted hlive hs =>
    cases hs with
    | rx _ hdevice => exact rxDevice_logged hrx hlive h hdevice
    | fill hheld hlen => exact rxFill_logged hrx hlive h hheld hlen
    | rxSignal | tx _ | txShared _ | txDistinct _ => exact h.same rfl rfl hexit

theorem Logged.mono {n n' : Nat} {delivered : List Delivery} (h : Logged o s n delivered)
    (hn : n ≤ n') : Logged o s n' delivered := by
  obtain ⟨hsizes, hentries, hkept⟩ := h
  refine ⟨hsizes, hentries, fun hpc d hd => hkept hpc d ?_⟩
  obtain ⟨k, rfl⟩ := Nat.exists_eq_add_of_le hn
  rw [← List.drop_drop] at hd
  exact List.drop_subset k _ hd

/-! ## The record -/

/-- **The packet that is decided about** is the next one that was delivered. -/
theorem current_delivered (hrx' : RxInv o s') (hrecycles : Recycles s s')
    {delivered : List Delivery} (h : Logged o s' s.processedRx.length delivered) :
    s'.answered = s.answered + 1 ∧
      ∃ done rest, delivered = done ++ s.current :: rest ∧ done.length = s.answered := by
  obtain ⟨hbefore, ⟨b, hpc⟩, hprocessed, hreceived, hbuf⟩ := hrecycles
  obtain ⟨-, hentries, hkept⟩ := h
  rw [← hprocessed] at hkept
  unfold RxInv at hrx'
  rw [hpc] at hrx' hkept
  obtain ⟨hconserved, -, -⟩ := hrx'
  obtain ⟨done, rest, hdelivered, hlen⟩ := Virtqueue.Log.current ⟨hentries, hkept nofun⟩ hconserved
  refine ⟨?_, done, rest, ?_, ?_⟩
  · rw [hbefore, State.answered, hpc, hprocessed]
  · rw [hdelivered, State.current, hreceived, hbuf]
  · rw [hlen, hprocessed, hbefore]

/-- What the step posts. -/
def posted (s s' : State) : List (List UInt8) :=
  if s.pc = .publishTxIdx ∧ s'.pc = .recycle true then [frameOf s s.txSlot] else []

/-- A step that answers `answerOf s s'`. -/
theorem Traced.decide (h : Traced o s t)
    (hlog : Logged o s' s'.processedRx.length (record o s s' t).delivered)
    (hle : s'.answered ≤ (record o s s' t).delivered.length)
    (hanswers : ((record o s s' t).delivered.take s'.answered).filter (accepts o) =
      (t.delivered.take s.answered).filter (accepts o) ++ (answerOf s s').map Prod.fst)
    (hdropped : ∀ d slots, (d, .dropped slots) ∈ answerOf s s' → ∀ slot ∈ slots, slot.inFlight = true)
    (hposted : posted s s' =
      ((answerOf s s').filter fun a => a.2.isEcho).map fun a => replyFrame o a.1)
    (hecho : s'.echoedTx = s.echoedTx + (posted s s').length)
    (htaken : (record o s s' t).sent = (record o s s' t).taken ++
      (s'.tx.waiting o.txQueueSize).map (frameOf s'))
    (hcurrent : Current o s') : Traced o s' (record o s s' t) := by
  have hsent : (record o s s' t).sent = t.sent ++ posted s s' := rfl
  refine ⟨hlog, hle, ?_, fun d slots hmem => ?_, ?_, htaken, ?_, hcurrent⟩
  · rw [hanswers, ← h.answers, ← List.map_append]
    rfl
  · obtain hmem | hmem := List.mem_append.1 hmem
    · exact h.dropped d slots hmem
    · exact hdropped d slots hmem
  · rw [hsent, h.sent, hposted, ← List.map_append, ← List.filter_append]
    rfl
  · rw [hsent, List.length_append, h.count, hecho]

/-- **Every step keeps the record.** -/
theorem Traced.step (horx : o.RxValid) (hotx : o.TxValid) (hrx : RxInv o s) (hrx' : RxInv o s')
    (hecho : EchoInv o s) (htx : TxInv o s) (h : Traced o s t) {e : Event}
    (hs : EchoLoop.step o s e = some s') : Traced o s' (record o s s' t) := by
  have hlog : Logged o s' s.processedRx.length (record o s s' t).delivered :=
    step_logged hrx h.log hs
  have htaken := step_taken hotx htx hs h.taken
  obtain ⟨hdecides, hcurrent⟩ := step_decides horx hrx h.log.1 h.current hs
  have htake : (record o s s' t).delivered.take s.answered = t.delivered.take s.answered :=
    List.take_append_of_le_length h.le
  -- the packet that is decided about is the one behind those
  have hnext : Recycles s s' → s'.answered ≤ (record o s s' t).delivered.length ∧
      ((record o s s' t).delivered.take s'.answered).filter (accepts o) =
        (t.delivered.take s.answered).filter (accepts o) ++ [s.current].filter (accepts o) := by
    intro hrecycles
    obtain ⟨hanswered, done, rest, hdelivered, hlen⟩ := current_delivered hrx' hrecycles hlog
    rw [← htake, hanswered, hdelivered, ← hlen, List.take_left, ← List.filter_append]
    refine ⟨by simp, ?_⟩
    rw [List.take_append, List.take_of_length_le (Nat.le_succ _), Nat.add_sub_cancel_left]
    rfl
  cases hdecides with
  | nothing hanswer hpost hanswered hprocessed hechoed =>
    refine h.decide (hlog.mono hprocessed) ?_ ?_ ?_ ?_ ?_ htaken hcurrent
    · rw [hanswered]
      exact h.le.trans (List.prefix_append _ _).length_le
    · rw [hanswered, htake, hanswer, List.map_nil, List.append_nil]
    · rw [hanswer]
      nofun
    · rw [hanswer, posted, if_neg hpost]
      rfl
    · rw [posted, if_neg hpost]
      exact hechoed
  | skips hanswer hpost hrecycles haccepts hechoed =>
    obtain ⟨hle, hanswers⟩ := hnext hrecycles
    refine h.decide (hlog.mono (Nat.le_of_eq (by rw [hrecycles.processed]))) hle ?_ ?_ ?_ ?_ htaken
      hcurrent
    · rw [hanswers, hanswer, List.filter_singleton, haccepts]
      rfl
    · rw [hanswer]
      nofun
    · rw [hanswer, posted, if_neg hpost]
      rfl
    · rw [posted, if_neg hpost]
      exact hechoed
  | drops hanswer hpost hrecycles haccepts hfull hechoed =>
    obtain ⟨hle, hanswers⟩ := hnext hrecycles
    refine h.decide (hlog.mono (Nat.le_of_eq (by rw [hrecycles.processed]))) hle ?_ ?_ ?_ ?_ htaken
      hcurrent
    · rw [hanswers, hanswer, List.filter_singleton, haccepts]
      rfl
    · rw [hanswer]
      intro d slots hmem
      cases List.mem_singleton.1 hmem
      exact hfull
    · rw [hanswer, posted, if_neg hpost]
      rfl
    · rw [posted, if_neg hpost]
      exact hechoed
  | sends hanswer hpost hrecycles haccepts hframe hechoed =>
    obtain ⟨hle, hanswers⟩ := hnext hrecycles
    have hpackets := hotx.packets
    have hmore : s.echoedTx < o.maxPackets := hecho.2 (by rw [hpost.1]; trivial)
    refine h.decide (hlog.mono (Nat.le_of_eq (by rw [hrecycles.processed]))) hle ?_ ?_ ?_ ?_ htaken
      hcurrent
    · rw [hanswers, hanswer, List.filter_singleton, haccepts]
      rfl
    · rw [hanswer]
      intro d slots hmem
      cases List.mem_singleton.1 hmem
    · rw [hanswer, posted, if_pos hpost, hframe]
      rfl
    · rw [posted, if_pos hpost, hechoed, Nat.mod_eq_of_lt (by omega)]
      rfl

/-! ## Every run -/

theorem init_traced : Traced o (init o) ⟨[], [], [], []⟩ := by
  have hpc : (init o).pc = .publishRx ∨ (init o).pc = .threw := by
    unfold init
    dsimp only
    split
    · exact .inr rfl
    · exact .inl rfl
  have hanswered : (init o).answered = 0 := by
    refine answered_of ?_
    obtain hpc | hpc := hpc
    · rw [hpc]
      rfl
    · rw [hpc]
      rfl
  have hcurrent : Current o (init o) := by
    refine current_of ?_
    obtain hpc | hpc := hpc
    · rw [hpc]
      rfl
    · rw [hpc]
      rfl
  refine ⟨⟨fun id => List.length_replicate, rfl, fun _ d hd => ?_⟩, Nat.le_of_eq hanswered, ?_,
    nofun, rfl, ?_, rfl, hcurrent⟩
  · rw [List.drop_nil] at hd
    cases hd
  · rw [List.take_nil]
    rfl
  · have hwaiting : (init o).tx.waiting o.txQueueSize = [] := Virtqueue.waiting_eq_nil.2 rfl
    rw [hwaiting]
    rfl

/-- Every run has a record. -/
theorem exists_traced (horx : o.RxValid) (hotx : o.TxValid) {es : List Event}
    (h : (machine o).run es = some s) :
    (RxInv o s ∧ EchoInv o s ∧ TxInv o s) ∧
      ∃ t, (traced o).run es = some (s, t) ∧ Traced o s t := by
  refine Machine.run_inv_hist (M := machine o)
    (I := fun es s => (RxInv o s ∧ EchoInv o s ∧ TxInv o s) ∧
      ∃ t, (traced o).run es = some (s, t) ∧ Traced o s t)
    ⟨⟨init_rxInv, init_txInv⟩, _, rfl, init_traced⟩ (fun es s e s' hI hs => ?_) h
  obtain ⟨⟨hrx, htx⟩, t, hrun, ht⟩ := hI
  have hrx' := hrx.step horx hs
  refine ⟨⟨hrx', TxInv.step hotx htx hs⟩, record o s s' t, Machine.run_snoc.2 ⟨_, hrun, ?_⟩,
    ht.step horx hotx hrx hrx' htx.1 htx.2 hs⟩
  show (EchoLoop.step o s e).map _ = _
  rw [show EchoLoop.step o s e = some s' from hs]
  rfl

/-- **The echo loop answers what it accepts.**  In every run, against every conforming device: of the
packets delivered, in the order in which they were, those that the loop accepts are answered one by
one, each with its reply, or dropped when all TX slots are in flight; what the device takes is the
replies, unchanged and in that order; and when the loop has caught up with the device, no packet is
left. -/
theorem echo_answers (horx : o.RxValid) (hotx : o.TxValid) {es : List Event}
    (h : (machine o).run es = some s) : ∃ t, (traced o).run es = some (s, t) ∧
    t.delivered.map Prod.fst = s.rx.returned ∧
    t.answers.map Prod.fst = (t.delivered.take s.answered).filter (accepts o) ∧
    (∀ d slots, (d, .dropped slots) ∈ t.answers → ∀ slot ∈ slots, slot.inFlight = true) ∧
    t.sent = (t.answers.filter fun a => a.2.isEcho).map (fun a => replyFrame o a.1) ∧
    t.sent = t.taken ++ (s.tx.waiting o.txQueueSize).map (frameOf s) ∧
    t.sent.length = s.echoedTx ∧
    (s.pc = .head → s.rx.usedIdx = s.lastRxUsedIdx → s.answered = t.delivered.length) := by
  obtain ⟨⟨hrx, -⟩, t, hrun, ht⟩ := exists_traced horx hotx h
  refine ⟨t, hrun, ht.log.2.1, ht.answers, ht.dropped, ht.sent, ht.taken, ht.count,
    fun hpc hidx => ?_⟩
  unfold RxInv at hrx
  rw [hpc] at hrx
  have hhistory := Virtqueue.Conserved.history hrx
  rw [Virtqueue.unseen_eq_nil.2 hidx.symm, List.append_nil, ← ht.log.2.1] at hhistory
  rw [answered_of (by rw [hpc]; rfl), ← hhistory, List.length_map]

/-- The echo of `smallRun`, which the device takes. -/
theorem echo_answers_small : ∃ s t,
    (traced smallOptions).run (smallRun ++ [.txDevice .pop]) = some (s, t) ∧
    t.taken = [replyFrame smallOptions ((1, 72), List.replicate 128 0)] ∧
    t.sent = t.taken ++ (s.tx.waiting 2).map (frameOf s) := by
  have hrx : smallOptions.RxValid := ⟨⟨1, rfl⟩, by decide, by decide⟩
  have htx : smallOptions.TxValid := ⟨⟨1, rfl⟩, by decide, by decide, by decide⟩
  obtain ⟨s, hs⟩ : ∃ s, (machine smallOptions).run (smallRun ++ [.txDevice .pop]) = some s :=
    ⟨_, rfl⟩
  obtain ⟨t, ht, -, -, -, -, htaken, -⟩ := echo_answers hrx htx hs
  obtain ⟨s', t', ht', hframes⟩ : ∃ s' t', (traced smallOptions).run
      (smallRun ++ [.txDevice .pop]) = some (s', t') ∧
        t'.taken = [replyFrame smallOptions ((1, 72), List.replicate 128 0)] := ⟨_, _, rfl, rfl⟩
  cases ht.symm.trans ht'
  exact ⟨s, t, ht, hframes, htaken⟩

end Replies

end AdvCpp.Virtio.EchoLoop
