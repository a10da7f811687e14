import AdvCpp.Lib.Machine
import AdvCpp.Lib.Virtqueue
import AdvCpp.Virtio.Packet

/-!
# The interrupt-driven echo loop

`26_virtio_net_irq_echo_loop.cpp`: `run_irq_echo_loop` from `publish_rx_buffers` to the end of its
two loops, against a device that may act between any two accesses to the shared memory.  A step is
one access and what the driver computes from it; writes of notifications and prints are left out.

* `Device` steps follow `Virtqueue.device`, fill the buffers they hold, and signal after they
  published.
* `run`, `clock`, `pollReturns` — the driver's steps; the clock and `poll` are the environment's.
* `machine` — every interleaving.
* `Ran`, `Turns`, `Acted` — what a step does, `step_stepped` — there are no others.
-/

namespace AdvCpp.Virtio.EchoLoop

open AdvCpp.Lib

/-- What the loop reads of the options and the layout; TX buffers are as large as RX buffers. -/
structure Options where
  rxQueueSize : Nat
  txQueueSize : Nat
  rxBuffers : Nat
  txBuffers : Nat
  rxBufferSize : Nat
  maxPackets : Nat
  matchEthertype : Option Nat
  /-- `tx_vector == rx_vector`: there is no `tx_irq`. -/
  sharedVector : Bool
  rxBufferIova : Nat
  txBuffersIova : Nat
  replySrcMac : Vector UInt8 6

/-- Where `consume_tx_completions` is called. -/
inductive Caller where
  | top
  | beforeReply
  | drain
  deriving DecidableEq

/-- The main loop, or the loop that waits for the last completions. -/
inductive Loop where
  | main
  | drain
  deriving DecidableEq

inductive Pc where
  | publishRx
  | publishRxIdx
  | readInitialRx
  | readInitialTx
  | driverOk
  | head
  | consume (c : Caller)
  | completion (c : Caller)
  | readRx
  | entry
  | reread
  | reply
  | publishTx
  | publishTxIdx
  | recycle (echoed : Bool)
  | recycleIdx (echoed : Bool)
  | wait (l : Loop)
  | poll (l : Loop)
  | drainRx (l : Loop)
  | drainTx (l : Loop)
  | drainHead
  | done
  | threw
  deriving DecidableEq

/-- Shared memory, eventfd counters and the locals of `run_irq_echo_loop`: `i` runs over the RX
entries (and over the descriptors of `publish_rx_buffers`), `j` over the TX entries.  The last four
are a record: how many used entries a sent signal covers, and the entries that were handled. -/
structure State where
  pc : Pc
  live : Bool
  rx : Virtqueue
  tx : Virtqueue
  rxDesc : Nat → VringDesc
  txDesc : Nat → VringDesc
  rxBuf : Nat → List UInt8
  txBuf : Nat → List UInt8
  rxEvent : Nat
  txEvent : Nat
  lastRxUsedIdx : BitVec 16
  lastTxUsedIdx : BitVec 16
  currentRxUsed : BitVec 16
  currentTxUsed : BitVec 16
  i : Nat
  j : Nat
  madeProgress : Bool
  received : Nat × Nat
  txSlot : Nat
  txUsedLen : Nat
  txSlots : List TxSlot
  receivedRx : Nat
  skippedRx : Nat
  echoedTx : Nat
  completedTx : Nat
  rxSignalled : Nat
  txSignalled : Nat
  processedRx : List (Nat × Nat)
  consumedTx : List (Nat × Nat)

section Driver

variable (o : Options)

/-- Everything is zero; `publish_rx_buffers` has checked the size of the buffers. -/
def init : State where
  pc := if 2 ^ 32 - 1 < o.rxBufferSize then .threw else .publishRx
  live := false
  rx := Virtqueue.zero
  tx := Virtqueue.zero
  rxDesc := fun _ => ⟨0, 0, 0, 0⟩
  txDesc := fun _ => ⟨0, 0, 0, 0⟩
  rxBuf := fun _ => List.replicate o.rxBufferSize 0
  txBuf := fun _ => List.replicate o.rxBufferSize 0
  rxEvent := 0
  txEvent := 0
  lastRxUsedIdx := 0
  lastTxUsedIdx := 0
  currentRxUsed := 0
  currentTxUsed := 0
  i := 0
  j := 0
  madeProgress := false
  received := (0, 0)
  txSlot := 0
  txUsedLen := 0
  txSlots := List.replicate o.txBuffers ⟨false⟩
  receivedRx := 0
  skippedRx := 0
  echoedTx := 0
  completedTx := 0
  rxSignalled := 0
  txSignalled := 0
  processedRx := []
  consumedTx := []

/-! ## Setup -/

/-- One turn of the loop of `publish_rx_buffers`. -/
def publishRx (s : State) : State :=
  if s.i < o.rxBuffers then
    { s with
      rxDesc := Function.update s.rxDesc s.i
        ⟨wrap (o.rxBufferIova + s.i * o.rxBufferSize), o.rxBufferSize, kVringDescFWrite, 0⟩
      rx := { s.rx with availRing := Function.update s.rx.availRing s.i s.i }
      i := s.i + 1 }
  else { s with pc := .publishRxIdx }

def publishRxIdx (s : State) : State :=
  { s with pc := .readInitialRx, rx := { s.rx with availIdx := BitVec.ofNat 16 o.rxBuffers } }

/-! ## Completions -/

def findFreeTxSlot (txSlots : List TxSlot) : Option Nat := txSlots.findIdx? fun t => !t.inFlight

/-- `consume_tx_completions` returns. -/
def afterConsume (s : State) (progress : Bool) : Caller → State
  | .top => { s with pc := .readRx, madeProgress := progress }
  | .beforeReply =>
    match findFreeTxSlot s.txSlots with
    | none => { s with pc := .recycle false }
    | some slot => { s with pc := .reply, txSlot := slot }
  | .drain => { s with pc := if progress then .drainHead else .wait .drain }

/-- `used_delta(last_tx_used_idx, current)` -/
def State.txCount (s : State) : Nat := (s.currentTxUsed - s.lastTxUsedIdx).toNat

def consume (c : Caller) (s : State) : State :=
  if s.tx.usedIdx = s.lastTxUsedIdx then afterConsume s false c
  else { s with pc := .completion c, currentTxUsed := s.tx.usedIdx, j := 0 }

def completion (c : Caller) (s : State) : State :=
  if s.j < s.txCount then
    let e := s.tx.usedRing ((s.lastTxUsedIdx.toNat + s.j) % o.txQueueSize)
    if s.txSlots.length ≤ e.1 then { s with j := s.j + 1, consumedTx := s.consumedTx ++ [e] }
    else { s with
      j := s.j + 1, txSlots := s.txSlots.set e.1 ⟨false⟩
      completedTx := (s.completedTx + 1) % 2 ^ 32, consumedTx := s.consumedTx ++ [e] }
  else afterConsume { s with lastTxUsedIdx := s.currentTxUsed } true c

/-! ## Received packets -/

/-- `used_delta(last_rx_used_idx, current_rx_used)` -/
def State.rxCount (s : State) : Nat := (s.currentRxUsed - s.lastRxUsedIdx).toNat

/-- `used_slot` -/
def State.usedSlot (s : State) : Nat := (s.lastRxUsedIdx.toNat + s.i) % o.rxQueueSize

/-- What `read_rx_used_packet` accepts. -/
def rxAccepts (rxBuffers rxBufferSize : Nat) (matchEthertype : Option Nat)
    (id len ethertype : Nat) : Bool :=
  id < rxBuffers && len ≤ rxBufferSize && kVirtioNetHeaderSize + kEthernetHeaderSize ≤ len &&
    !matchEthertype.any (· ≠ ethertype)

/-- The ethertype behind the virtio-net header of a buffer. -/
def ethertypeOf (buffer : List UInt8) : Nat :=
  beValue ((buffer.drop (kVirtioNetHeaderSize + 12)).take 2)

def readRx (s : State) : State :=
  { s with pc := .entry, currentRxUsed := s.rx.usedIdx, i := 0 }

/-- The main loop after the last entry of a batch, or after a `break`. -/
def endBatch (s : State) : State :=
  let s := { s with lastRxUsedIdx := s.currentRxUsed }
  if o.maxPackets ≤ s.echoedTx then { s with pc := .drainHead }
  else if s.madeProgress then { s with pc := .head }
  else { s with pc := .wait .main }

def entry (s : State) : State :=
  if s.i < s.rxCount then
    let e := s.rx.usedRing (s.usedSlot o)
    let s := { s with madeProgress := true, received := e }
    if rxAccepts o.rxBuffers o.rxBufferSize o.matchEthertype e.1 e.2 (ethertypeOf (s.rxBuf e.1)) then
      { s with pc := .consume .beforeReply, receivedRx := (s.receivedRx + 1) % 2 ^ 32 }
    else { s with pc := .reread, skippedRx := (s.skippedRx + 1) % 2 ^ 32 }
  else endBatch o s

/-- A skipped entry: its id is read again. -/
def reread (s : State) : State :=
  let id := (s.rx.usedRing (s.usedSlot o)).1
  if id < o.rxBuffers then { s with pc := .recycle false, received := (id, s.received.2) }
  else { s with pc := .entry, i := s.i + 1 }

/-- What `build_tx_reply_from_rx` leaves in the TX buffer. -/
def replyBytes (rx : List UInt8) (rxUsedLen : Nat) : List UInt8 :=
  List.replicate kVirtioNetHeaderSize 0 ++
    ((rx.drop 18).take 6 ++ o.replySrcMac.toList ++ (rx.take rxUsedLen).drop 24) ++
      List.replicate (o.rxBufferSize - rxUsedLen) 0

def reply (s : State) : State :=
  let txUsedLen := kVirtioNetHeaderSize + max (s.received.2 - kVirtioNetHeaderSize) kEthernetMinFrameSize
  if s.received.2 < kVirtioNetHeaderSize + kEthernetHeaderSize ∨ o.rxBufferSize < txUsedLen then
    { s with pc := .threw }
  else { s with
    pc := .publishTx, txUsedLen := txUsedLen
    txBuf := Function.update s.txBuf s.txSlot (replyBytes o (s.rxBuf s.received.1) s.received.2) }

/-- `publish_tx_packet` up to the slot of the avail ring. -/
def publishTx (s : State) : State :=
  if 2 ^ 32 - 1 < s.txUsedLen then { s with pc := .threw }
  else { s with
    pc := .publishTxIdx
    txDesc := Function.update s.txDesc s.txSlot
      ⟨wrap (o.txBuffersIova + s.txSlot * o.rxBufferSize), s.txUsedLen, 0, 0⟩
    tx := s.tx.store o.txQueueSize s.txSlot }

/-- The counter of the avail ring, and the locals after it. -/
def publishTxIdx (s : State) : State :=
  { s with
    pc := .recycle true, tx := s.tx.post, txSlots := s.txSlots.set s.txSlot ⟨true⟩
    echoedTx := (s.echoedTx + 1) % 2 ^ 32 }

/-- `recycle_rx_buffer` up to the slot of the avail ring. -/
def recycle (echoed : Bool) (s : State) : State :=
  { s with pc := .recycleIdx echoed, rx := s.rx.store o.rxQueueSize (s.received.1 % 2 ^ 16) }

def recycleIdx (echoed : Bool) (s : State) : State :=
  let s := { s with rx := s.rx.post, processedRx := s.processedRx ++ [s.received] }
  if echoed ∧ o.maxPackets ≤ s.echoedTx then { s with pc := .drainHead, lastRxUsedIdx := s.currentRxUsed }
  else { s with pc := .entry, i := s.i + 1 }

/-! ## Interrupts -/

/-- `poll_irq_events` returns true. -/
def afterPoll (s : State) : Loop → State
  | .main => { s with pc := .head }
  | .drain => { s with pc := .drainHead }

/-- The loop that polled ends. -/
def leave (s : State) : Loop → State
  | .main => { s with pc := .drainHead }
  | .drain => { s with pc := .done }

/-- One `read` of the eventfd of `rx_irq`. -/
def drainRx (l : Loop) (s : State) : State :=
  if s.rxEvent = 0 then
    if o.sharedVector then afterPoll s l else { s with pc := .drainTx l }
  else { s with rxEvent := 0 }

def drainTx (l : Loop) (s : State) : State :=
  if s.txEvent = 0 then afterPoll s l else { s with txEvent := 0 }

/-- `poll` finds an eventfd readable. -/
def State.Readable (s : State) : Prop := 0 < s.rxEvent ∨ (o.sharedVector = false ∧ 0 < s.txEvent)

instance (s : State) : Decidable (s.Readable o) := by
  unfold State.Readable
  exact inferInstance

/-! ## All steps -/

/-- The steps that wait for nothing. -/
def run (s : State) : Option State :=
  match s.pc with
  | .publishRx => some (publishRx o s)
  | .publishRxIdx => some (publishRxIdx o s)
  | .readInitialRx => some { s with pc := .readInitialTx, lastRxUsedIdx := s.rx.usedIdx }
  | .readInitialTx => some { s with pc := .driverOk, lastTxUsedIdx := s.tx.usedIdx }
  | .driverOk => some { s with pc := .head, live := true }
  | .consume c => some (consume c s)
  | .completion c => some (completion o c s)
  | .readRx => some (readRx s)
  | .entry => some (entry o s)
  | .reread => some (reread o s)
  | .reply => some (reply o s)
  | .publishTx => some (publishTx o s)
  | .publishTxIdx => some (publishTxIdx s)
  | .recycle echoed => some (recycle o echoed s)
  | .recycleIdx echoed => some (recycleIdx o echoed s)
  | .drainRx l => some (drainRx o l s)
  | .drainTx l => some (drainTx l s)
  | _ => none

/-- The steps that ask whether there is time left. -/
def clock (s : State) (timeLeft : Bool) : Option State :=
  match s.pc with
  | .head =>
    some { s with pc := if s.echoedTx < o.maxPackets ∧ timeLeft then .consume .top else .drainHead }
  | .drainHead =>
    some { s with pc := if s.completedTx < s.echoedTx ∧ timeLeft then .consume .drain else .done }
  | .wait l => some (if timeLeft then { s with pc := .poll l } else leave s l)
  | _ => none

end Driver

inductive PollResult where
  | readable
  | timeout
  | interrupted
  | failed
  deriving DecidableEq

def pollReturns (o : Options) (s : State) (r : PollResult) : Option State :=
  match s.pc, r with
  | .poll l, .readable => if s.Readable o then some { s with pc := .drainRx l } else none
  | .poll l, .timeout => some (leave s l)
  | .poll _, .interrupted => some s
  | .poll _, .failed => some { s with pc := .threw }
  | _, _ => none

/-- The driver's steps, and the device's: a signal covers what is published before it. -/
inductive Event where
  | run
  | clock (timeLeft : Bool)
  | poll (r : PollResult)
  | rxDevice (a : DeviceAction)
  | rxFill (id : Nat) (data : List UInt8)
  | rxSignal
  | txDevice (a : DeviceAction)
  | txSignal
  deriving DecidableEq

/-- The driver takes the step, not the device. -/
def Event.isDriver : Event → Bool
  | .run | .clock _ | .poll _ => true
  | _ => false

/-- A used entry is not longer than its descriptor. -/
def fitsDesc (desc : Nat → VringDesc) : DeviceAction → Bool
  | .write id len => len ≤ (desc id).len
  | _ => true

/-- A conforming device does nothing before `DRIVER_OK`. -/
def deviceStep (o : Options) (s : State) : Event → Option State
  | .rxDevice a =>
    if fitsDesc s.rxDesc a then (s.rx.device o.rxQueueSize a).map fun rx => { s with rx := rx } else none
  | .rxFill id data =>
    if id ∈ s.rx.held ∧ data.length = o.rxBufferSize then
      some { s with rxBuf := Function.update s.rxBuf id data }
    else none
  | .rxSignal => some { s with rxEvent := s.rxEvent + 1, rxSignalled := s.rx.returned.length }
  | .txDevice a => (s.tx.device o.txQueueSize a).map fun tx => { s with tx := tx }
  | .txSignal =>
    some (if o.sharedVector then
        { s with rxEvent := s.rxEvent + 1, txSignalled := s.tx.returned.length }
      else { s with txEvent := s.txEvent + 1, txSignalled := s.tx.returned.length })
  | _ => none

def step (o : Options) (s : State) : Event → Option State
  | .run => run o s
  | .clock timeLeft => clock o s timeLeft
  | .poll r => pollReturns o s r
  | e => if s.live then deviceStep o s e else none

def machine (o : Options) : Machine State Event where
  init := init o
  step := step o

/-! ## The driver's steps -/

/-- What `run` does where the driver stands. -/
inductive Ran (o : Options) (s : State) : Pc → State → Prop where
  | publishRx : Ran o s .publishRx (publishRx o s)
  | publishRxIdx : Ran o s .publishRxIdx (publishRxIdx o s)
  | readInitialRx :
    Ran o s .readInitialRx { s with pc := .readInitialTx, lastRxUsedIdx := s.rx.usedIdx }
  | readInitialTx : Ran o s .readInitialTx { s with pc := .driverOk, lastTxUsedIdx := s.tx.usedIdx }
  | driverOk : Ran o s .driverOk { s with pc := .head, live := true }
  | consume (c : Caller) : Ran o s (.consume c) (consume c s)
  | completion (c : Caller) : Ran o s (.completion c) (completion o c s)
  | readRx : Ran o s .readRx (readRx s)
  | entry : Ran o s .entry (entry o s)
  | reread : Ran o s .reread (reread o s)
  | reply : Ran o s .reply (reply o s)
  | publishTx : Ran o s .publishTx (publishTx o s)
  | publishTxIdx : Ran o s .publishTxIdx (publishTxIdx s)
  | recycle (echoed : Bool) : Ran o s (.recycle echoed) (recycle o echoed s)
  | recycleIdx (echoed : Bool) : Ran o s (.recycleIdx echoed) (recycleIdx o echoed s)
  | drainRx (l : Loop) : Ran o s (.drainRx l) (drainRx o l s)
  | drainTx (l : Loop) : Ran o s (.drainTx l) (drainTx l s)

theorem run_ran {o : Options} {s s' : State} (hs : run o s = some s') : Ran o s s.pc s' := by
  unfold run at hs
  split at hs
  case h_18 => cases hs
  all_goals
    rename_i hpc
    cases hs
    rw [hpc]
    constructor

/-- Where the driver goes after it has looked at the clock, or `poll` has returned. -/
inductive Turns : Pc → Pc → Prop where
  | start : Turns .head (.consume .top)
  | stop : Turns .head .drainHead
  | startDrain : Turns .drainHead (.consume .drain)
  | stopDrain : Turns .drainHead .done
  | poll (l : Loop) : Turns (.wait l) (.poll l)
  | waitEnds : Turns (.wait .main) .drainHead
  | waitDrainEnds : Turns (.wait .drain) .done
  | readable (l : Loop) : Turns (.poll l) (.drainRx l)
  | timeout : Turns (.poll .main) .drainHead
  | timeoutDrain : Turns (.poll .drain) .done
  | interrupted (l : Loop) : Turns (.poll l) (.poll l)
  | failed (l : Loop) : Turns (.poll l) .threw

section Turns

variable {o : Options} {s s' : State}

theorem clock_turns {timeLeft : Bool} (hs : clock o s timeLeft = some s') :
    ∃ pc, s' = { s with pc := pc } ∧ Turns s.pc pc ∧
      (pc = .consume .top → s.echoedTx < o.maxPackets) := by
  unfold clock at hs
  split at hs
  · rename_i hpc
    cases hs
    rw [hpc]
    by_cases hmore : s.echoedTx < o.maxPackets ∧ timeLeft = true
    · exact ⟨.consume .top, by rw [if_pos hmore], .start, fun _ => hmore.1⟩
    · exact ⟨.drainHead, by rw [if_neg hmore], .stop, by rintro ⟨⟩⟩
  · rename_i hpc
    cases hs
    rw [hpc]
    by_cases hmore : s.completedTx < s.echoedTx ∧ timeLeft = true
    · exact ⟨.consume .drain, by rw [if_pos hmore], .startDrain, by rintro ⟨⟩⟩
    · exact ⟨.done, by rw [if_neg hmore], .stopDrain, by rintro ⟨⟩⟩
  · rename_i l hpc
    cases hs
    rw [hpc]
    cases timeLeft
    · cases l
      · exact ⟨.drainHead, rfl, .waitEnds, by rintro ⟨⟩⟩
      · exact ⟨.done, rfl, .waitDrainEnds, by rintro ⟨⟩⟩
    · exact ⟨.poll l, rfl, .poll l, by rintro ⟨⟩⟩
  · cases hs

theorem pollReturns_turns {r : PollResult} (hs : pollReturns o s r = some s') :
    ∃ pc, s' = { s with pc := pc } ∧ Turns s.pc pc ∧ pc ≠ .consume .top := by
  unfold pollReturns at hs
  split at hs
  · rename_i l hpc
    rw [hpc]
    split at hs
    · cases hs
      exact ⟨.drainRx l, rfl, .readable l, by rintro ⟨⟩⟩
    · cases hs
  · rename_i l hpc
    cases hs
    rw [hpc]
    cases l
    · exact ⟨.drainHead, rfl, .timeout, by rintro ⟨⟩⟩
    · exact ⟨.done, rfl, .timeoutDrain, by rintro ⟨⟩⟩
  · rename_i l hpc
    cases hs
    rw [hpc]
    exact ⟨.poll l, by rw [← hpc], .interrupted l, by rintro ⟨⟩⟩
  · rename_i l hpc
    cases hs
    rw [hpc]
    exact ⟨.threw, rfl, .failed l, by rintro ⟨⟩⟩
  · cases hs

end Turns

/-! ## All steps again -/

/-- What the device does, and when. -/
inductive Acted (o : Options) (s : State) : Event → State → Prop where
  | rx {a : DeviceAction} {rx : Virtqueue} (hfits : fitsDesc s.rxDesc a = true)
    (hrx : s.rx.device o.rxQueueSize a = some rx) : Acted o s (.rxDevice a) { s with rx := rx }
  | fill {id : Nat} {data : List UInt8} (hheld : id ∈ s.rx.held)
    (hlen : data.length = o.rxBufferSize) :
    Acted o s (.rxFill id data) { s with rxBuf := Function.update s.rxBuf id data }
  | rxSignal :
    Acted o s .rxSignal { s with rxEvent := s.rxEvent + 1, rxSignalled := s.rx.returned.length }
  | tx {a : DeviceAction} {tx : Virtqueue} (htx : s.tx.device o.txQueueSize a = some tx) :
    Acted o s (.txDevice a) { s with tx := tx }
  | txShared (hshared : o.sharedVector = true) :
    Acted o s .txSignal { s with rxEvent := s.rxEvent + 1, txSignalled := s.tx.returned.length }
  | txDistinct (hdistinct : ¬o.sharedVector = true) :
    Acted o s .txSignal { s with txEvent := s.txEvent + 1, txSignalled := s.tx.returned.length }

/-- A step of the driver that computes, one that only goes on, or a step of the device. -/
inductive Stepped (o : Options) (s : State) : Event → State → Prop where
  | ran {s' : State} (hs : run o s = some s') : Stepped o s .run s'
  | turned {e : Event} {pc : Pc} (he : e.isDriver = true) (hturn : Turns s.pc pc)
    (hstart : pc = .consume .top → s.echoedTx < o.maxPackets) : Stepped o s e { s with pc := pc }
  | acted {e : Event} {s' : State} (hlive : s.live = true) (hs : Acted o s e s') : Stepped o s e s'

section Stepped

variable {o : Options} {s s' : State} {e : Event}

theorem deviceStep_acted (hs : deviceStep o s e = some s') : Acted o s e s' := by
  cases e with
  | rxDevice a =>
    simp only [deviceStep] at hs
    split at hs
    · rename_i hfits
      obtain ⟨rx, hrx, rfl⟩ := Option.map_eq_some_iff.1 hs
      exact .rx hfits hrx
    · cases hs
  | rxFill id data =>
    simp only [deviceStep] at hs
    split at hs
    · rename_i hfill
      cases hs
      exact .fill hfill.1 hfill.2
    · cases hs
  | rxSignal =>
    cases hs
    exact .rxSignal
  | txDevice a =>
    obtain ⟨tx, htx, rfl⟩ := Option.map_eq_some_iff.1 hs
    exact .tx htx
  | txSignal =>
    simp only [deviceStep] at hs
    split at hs
    · rename_i hshared
      cases hs
      exact .txShared hshared
    · rename_i hdistinct
      cases hs
      exact .txDistinct hdistinct
  | run | clock timeLeft | poll r => cases hs

/-- **What a step can do.** -/
theorem step_stepped (hs : step o s e = some s') : Stepped o s e s' := by
  cases e with
  | run => exact .ran hs
  | clock timeLeft =>
    obtain ⟨pc, rfl, hturn, hstart⟩ := clock_turns hs
    exact .turned rfl hturn hstart
  | poll r =>
    obtain ⟨pc, rfl, hturn, hne⟩ := pollReturns_turns hs
    exact .turned rfl hturn fun heq => absurd heq hne
  | rxDevice a | rxFill id data | rxSignal | txDevice a | txSignal =>
    simp only [step] at hs
    split at hs
    · rename_i hlive
      exact .acted hlive (deviceStep_acted hs)
    · cases hs

theorem Acted.not_driver (hs : Acted o s e s') : e.isDriver ≠ true := by
  cases hs <;> nofun

/-- The device changes the rings, the RX buffers and the eventfds. -/
theorem Acted.shared (hs : Acted o s e s') :
    ∃ rx tx rxBuf rxEvent txEvent rxSignalled txSignalled,
      s' = { s with
        rx := rx, tx := tx, rxBuf := rxBuf, rxEvent := rxEvent, txEvent := txEvent
        rxSignalled := rxSignalled, txSignalled := txSignalled } := by
  cases hs with
  | rx _ _ | fill _ _ | rxSignal | tx _ | txShared _ | txDistinct _ =>
    exact ⟨_, _, _, _, _, _, _, rfl⟩

end Stepped

/-! ## Shared memory -/

/-- Where the next step writes descriptors, avail rings or TX buffers. -/
def Pc.writes : Pc → Bool
  | .publishRx | .publishRxIdx | .reply | .publishTx | .publishTxIdx => true
  | .recycle _ | .recycleIdx _ => true
  | _ => false

section Writes

variable {o : Options} {s s' : State}

/-- The memory that the driver writes, and both queues. -/
def State.memory (s : State) :
    Virtqueue × Virtqueue × (Nat → VringDesc) × (Nat → VringDesc) × (Nat → List UInt8) :=
  (s.rx, s.tx, s.rxDesc, s.txDesc, s.txBuf)

theorem afterConsume_memory (s : State) (progress : Bool) (c : Caller) :
    (afterConsume s progress c).memory = s.memory := by
  cases c with
  | beforeReply =>
    unfold afterConsume
    dsimp only
    split <;> rfl
  | top | drain => rfl

theorem afterPoll_memory (s : State) (l : Loop) : (afterPoll s l).memory = s.memory := by
  cases l <;> rfl

/-- **The other steps write nothing.** -/
theorem run_memory (hpc : s.pc.writes = false) (hs : run o s = some s') : s'.memory = s.memory := by
  have hran := run_ran hs
  generalize s.pc = pc at hpc hran
  cases hran with
  | publishRx | publishRxIdx | reply | publishTx | publishTxIdx | recycle echoed
  | recycleIdx echoed => cases hpc
  | readInitialRx | readInitialTx | driverOk | readRx => rfl
  | consume c =>
    unfold consume
    split
    · exact afterConsume_memory _ _ _
    · rfl
  | completion c =>
    unfold completion
    dsimp only
    split
    · split <;> rfl
    · exact afterConsume_memory _ _ _
  | entry =>
    unfold entry endBatch
    dsimp only
    split
    · split <;> rfl
    · split
      · rfl
      · split <;> rfl
  | reread =>
    unfold reread
    dsimp only
    split <;> rfl
  | drainRx l =>
    unfold drainRx
    split
    · split
      · exact afterPoll_memory _ _
      · rfl
    · rfl
  | drainTx l =>
    unfold drainTx
    split
    · exact afterPoll_memory _ _
    · rfl

end Writes

end AdvCpp.Virtio.EchoLoop
