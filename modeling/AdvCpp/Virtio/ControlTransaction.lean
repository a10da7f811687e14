import AdvCpp.Lib.Machine
import AdvCpp.Virtio.ControlQueue

/-!
# A command on the control queue, from publication to its acknowledgement

The samples `28` to `30` publish a command, start the device, wait for the used index of the control
queue with `wait_for_control_ack`, and read the ACK byte.  Meanwhile the device takes the chain,
executes the command, writes the ACK byte, a used entry and the used index, and writes to the other
two queues and the RX buffers whenever it likes.

* `run`, `clock` — the driver, one access to the shared memory in a step.
* `take`, `execute`, `putElem`, `putIdx`, `dma` — the device.
* `Published` — what the device finds; `Kept` — nobody changes it.
* `controlTransaction_sound` — at most one execution, of the very command, and what the driver
  concludes is what the device answered.
-/

namespace AdvCpp.Virtio

open AdvCpp.Lib
open Shared (Assign assign)

namespace ControlTransaction

/-! ## The driver -/

def kVirtioNetOk : UInt8 := 0

/-- What `run_promisc_observe` and its siblings have computed when they publish the command. -/
structure Setup where
  dmaBase : Nat
  baseIova : Nat
  layout : CtrlqDmaLayout
  command : ControlCommand

inductive Pc where
  | publish
  | readBase
  | setDriverOk
  /-- `steady_clock::now() < deadline` -/
  | head
  | poll
  | readAfter
  | readAck
  | accepted
  /-- `control command did not return VIRTIO_NET_OK` -/
  | rejected (ack : UInt8)
  | thrown (e : String)
  deriving DecidableEq

/-- How far the device is with the chain that it has taken. -/
inductive Progress where
  | idle
  | taken (head : Nat) (command : List UInt8) (ack : VringDesc)
  | acked (head : Nat)
  | listed
  deriving DecidableEq

/-- The DMA buffer, the locals `base_idx` and `after` of the driver, and the device.  `executed`
records the commands that the device has executed, with their results. -/
structure State where
  pc : Pc
  mem : Mem
  base : UInt16
  after : UInt16
  live : Bool
  lastAvail : UInt16
  progress : Progress
  executed : List (List UInt8 × UInt8)

inductive Event where
  | run
  | clock (timeLeft : Bool)
  | take
  | execute (result : UInt8)
  | putElem
  | putIdx
  | dma (a : Nat) (d : List UInt8)
  deriving DecidableEq

namespace Setup

variable (t : Setup)

/-- `ctrl_queue_base` -/
def queueBase : Nat := t.dmaBase + t.layout.ctrlVringOffset

/-- The address of `used->idx`. -/
def usedIdx : Nat := t.queueBase + t.layout.ctrlVring.usedOffset + 2

/-- `&elems[slot]` -/
def usedElem (slot : Nat) : Nat :=
  t.queueBase + t.layout.ctrlVring.usedOffset + 4 + kVringUsedElemSize * slot

/-- `dma_base + layout.ctrl_ack_offset` -/
def ackAddr : Nat := t.dmaBase + t.layout.ctrlAckOffset

end Setup

/-- `buffer.zero()` -/
def zeroed (m : Mem) (base size i : Nat) : UInt8 := if base ≤ i ∧ i < base + size then 0 else m i

section Machine

variable (t : Setup) (m : Mem)

def init : State where
  pc := .publish
  mem := zeroed m t.dmaBase t.layout.totalSize
  base := 0
  after := 0
  live := false
  lastAvail := 0
  progress := .idle
  executed := []

def publish (s : State) : State :=
  match Shared.exec s.mem
      (t.command.publish t.queueBase t.dmaBase t.layout t.baseIova) with
  | (.ok (), mem) => { s with pc := .readBase, mem := mem }
  | (.error e, mem) => { s with pc := .thrown e, mem := mem }

/-- The condition behind `read_used_idx`; the pause behind it is no step. -/
def poll (s : State) : State :=
  if 1 ≤ (u16At s.mem t.usedIdx - s.base).toNat then { s with pc := .readAfter }
  else { s with pc := .head }

def readAck (s : State) : State :=
  let ack := u8At s.mem t.ackAddr
  { s with pc := if ack ≠ kVirtioNetOk then .rejected ack else .accepted }

/-- The steps that do not ask for the time.  The notifications behind `DRIVER_OK` do not reach the
memory; the lines that `print_used_entries` prints are left out. -/
def run (s : State) : Option State :=
  match s.pc with
  | .publish => some (publish t s)
  | .readBase => some { s with pc := .setDriverOk, base := u16At s.mem t.usedIdx }
  | .setDriverOk => some { s with pc := .head, live := true }
  | .poll => some (poll t s)
  | .readAfter => some { s with pc := .readAck, after := u16At s.mem t.usedIdx }
  | .readAck => some (readAck t s)
  | .head | .accepted | .rejected _ | .thrown _ => none

def clock (timeLeft : Bool) (s : State) : Option State :=
  if s.pc = .head then some { s with pc := if timeLeft then .poll else .readAfter } else none

/-! ## The device -/

instance (d : VringDesc) : Decidable d.deviceWrites := by
  unfold VringDesc.deviceWrites
  exact inferInstance

/-- The head in the device's next slot of the avail ring. -/
def nextHead (m : Mem) (queueBase : Nat) (v : VringLayout) (lastAvail : UInt16) : Nat :=
  leValue (peek m (availRing queueBase v + 2 * (lastAvail.toNat % v.queueSize)) 2)

/-- The chain behind it, if the driver has made one available. -/
def nextChain (m : Mem) (queueBase : Nat) (v : VringLayout) (lastAvail : UInt16) :
    Option (List VringDesc) :=
  if u16At m (availIdx queueBase v) = lastAvail then none
  else walk m queueBase v v.queueSize (nextHead m queueBase v lastAvail)

/-- Take the next chain: its readable part is the command, and the answer goes to the first
descriptor that the device may write. -/
def take (s : State) : Option State :=
  match s.progress with
  | .idle => do
    let ds ← nextChain s.mem t.queueBase t.layout.ctrlVring s.lastAvail
    let ack ← ds.find? fun d => d.deviceWrites
    let command := (ds.filter fun d => ¬d.deviceWrites).flatMap
      (deviceRead s.mem t.dmaBase t.baseIova)
    return { s with
      progress := .taken (nextHead s.mem t.queueBase t.layout.ctrlVring s.lastAvail) command ack }
  | _ => none

def execute (result : UInt8) (s : State) : Option State :=
  match s.progress with
  | .taken head command ack =>
    some { s with
      progress := .acked head, executed := s.executed ++ [(command, result)]
      mem := poke s.mem (t.dmaBase + (ack.addr - t.baseIova)) [result] }
  | _ => none

/-- One used entry: the head of the chain, and one byte written. -/
def putElem (s : State) : Option State :=
  match s.progress with
  | .acked head =>
    some { s with
      progress := .listed
      mem := poke s.mem (t.usedElem (s.lastAvail.toNat % t.layout.ctrlVring.queueSize))
        (leBytes 4 head ++ leBytes 4 1) }
  | _ => none

def putIdx (s : State) : Option State :=
  match s.progress with
  | .listed =>
    some { s with
      progress := .idle, lastAvail := s.lastAvail + 1
      mem := poke s.mem t.usedIdx (leBytes 2 (s.lastAvail + 1).toNat) }
  | _ => none

/-- The other queues are below the control queue, the RX buffers between it and the command. -/
def DmaOk (a n : Nat) : Prop :=
  (t.dmaBase ≤ a ∧ a + n ≤ t.queueBase) ∨
    (t.dmaBase + t.layout.rxBuffersOffset ≤ a ∧ a + n ≤ t.dmaBase + t.layout.ctrlHdrOffset)

instance (a n : Nat) : Decidable (DmaOk t a n) := by
  unfold DmaOk
  exact inferInstance

/-- The device does nothing before `DRIVER_OK`. -/
def device (s : State) (x : Option State) : Option State := if s.live then x else none

def step (s : State) : Event → Option State
  | .run => run t s
  | .clock timeLeft => clock timeLeft s
  | .take => device s (take t s)
  | .execute result => device s (execute t result s)
  | .putElem => device s (putElem t s)
  | .putIdx => device s (putIdx t s)
  | .dma a d => device s (if DmaOk t a d.length then some { s with mem := poke s.mem a d } else none)

def machine : Machine State Event := ⟨init t m, step t⟩

end Machine

/-! ## What the device finds -/

namespace Setup

variable (t : Setup)

/-- The descriptors of the command that the device reads. -/
def readable : List VringDesc :=
  let hdr : VringDesc := ⟨t.baseIova + t.layout.ctrlHdrOffset, kVirtioNetCtrlHdrSize, kVringDescFNext, 1⟩
  let data (size : Nat) : VringDesc :=
    ⟨t.baseIova + t.layout.ctrlDataOffset, size, kVringDescFNext, 2⟩
  match t.command with
  | .rxPromisc _ => [hdr, data 1]
  | .macAddr _ => [hdr, data 6]
  | .macTable _ =>
    [hdr, data unicastTableSize,
      ⟨t.baseIova + (t.layout.ctrlDataOffset + unicastTableSize), multicastTableSize,
        kVringDescFNext, 3⟩]

def ackDesc : VringDesc :=
  ⟨t.baseIova + t.layout.ctrlAckOffset, kVirtioNetCtrlAckSize, kVringDescFWrite, 0⟩

end Setup

/-- **The published command**: one chain is available, it encodes the command, and the ACK byte is
not an answer yet. -/
structure Published (t : Setup) (m : Mem) : Prop where
  availIdx : u16At m (availIdx t.queueBase t.layout.ctrlVring) = 1
  chain : nextChain m t.queueBase t.layout.ctrlVring 0 = some (t.readable ++ [t.ackDesc])
  command : t.readable.flatMap (deviceRead m t.dmaBase t.baseIova) = t.command.bytes
  ack : u8At m t.ackAddr = kVirtioNetCtrlAckInitial
  inside : ∀ d ∈ t.readable, t.baseIova + t.layout.ctrlHdrOffset ≤ d.addr ∧
    d.addr + d.len ≤ t.baseIova + t.layout.ctrlAckOffset

section Publishing

variable {t : Setup} {align : UInt64} {ctrlQueueSize : UInt16} {m m' : Mem}

/-- The last assignment can be read back. -/
theorem peek_assign_last (ws : List Assign) (a : Nat) (d : List UInt8) :
    peek (assign m (ws ++ [(a, d)])) a d.length = d := by
  rw [assign, List.foldl_append]
  exact peek_poke_self _ a d

theorem u16At_of_peek {a : Nat} {n : UInt16} (h : peek m a 2 = leBytes 2 n.toNat) :
    u16At m a = n := by
  unfold u16At
  rw [h, leValue_leBytes_of_lt (show n.toNat < 256 ^ 2 from n.toNat_lt), UInt16.ofNat_toNat]

/-- At the start, the device's next chain is the one in the first slot. -/
theorem nextChain_zero {queueBase : Nat} {v : VringLayout}
    (hidx : u16At m (Virtio.availIdx queueBase v) = 1) :
    nextChain m queueBase v 0 = deviceChain m queueBase v := by
  have hone : ¬(1 : UInt16) = 0 := by decide
  have hne : ¬leValue (peek m (Virtio.availIdx queueBase v) 2) = 0 := by
    intro hzero
    unfold u16At at hidx
    rw [hzero] at hidx
    exact absurd hidx (by decide)
  have hslot : 2 * ((0 : UInt16).toNat % v.queueSize) = 0 := by
    rw [show (0 : UInt16).toNat = 0 from rfl, Nat.zero_mod]
  unfold nextChain deviceChain nextHead
  rw [hidx, if_neg hone, if_neg hne, hslot, Nat.add_zero]

/-- The chain, the bytes behind it and the head, once the command has been written. -/
theorem Published.of_assign (hok : CtrlqOk align ctrlQueueSize t.layout) {command : List Assign}
    {ds : List VringDesc} (hds : t.readable ++ [t.ackDesc] = ds)
    (hcommand : Stacked (t.dmaBase + t.layout.ctrlHdrOffset) (t.dmaBase + t.layout.totalSize)
      (command.map Assign.region))
    (hlinked : Linked 0 ds) (hlen : ds.length ≤ 4) (hfits : ∀ d ∈ ds, d.Fits)
    (hinside : ∀ d ∈ t.readable, t.baseIova + t.layout.ctrlHdrOffset ≤ d.addr ∧
      d.addr + d.len ≤ t.baseIova + t.layout.ctrlAckOffset)
    (hm' : m' = assign m (command ++ (writeDescs t.queueBase t.layout.ctrlVring 0 ds ++
      publishHead t.queueBase t.layout.ctrlVring)))
    (hencodes : Encodes m' t.dmaBase t.baseIova t.layout t.command.bytes) : Published t m' := by
  have hchain : deviceChain m' t.queueBase t.layout.ctrlVring = some ds := by
    rw [hm']
    exact (command_read_back hok hcommand hlinked hlen hfits).1
  have hhead : publishHead t.queueBase t.layout.ctrlVring =
      [(availRing t.queueBase t.layout.ctrlVring, leBytes 2 0)] ++
        [(Virtio.availIdx t.queueBase t.layout.ctrlVring, leBytes 2 1)] := rfl
  have hidx : u16At m' (Virtio.availIdx t.queueBase t.layout.ctrlVring) = 1 := by
    refine u16At_of_peek (n := 1) ?_
    rw [hm', hhead, ← List.append_assoc, ← List.append_assoc]
    exact peek_assign_last _ _ (leBytes 2 1)
  rw [← hds] at hchain
  obtain ⟨chain, ack, hchain', -, hbytes, -, -, hack, -⟩ := hencodes
  obtain ⟨hreadable, hdesc⟩ := List.append_inj' (Option.some.inj (hchain.symm.trans hchain')) rfl
  cases hreadable
  cases hdesc
  refine ⟨hidx, (nextChain_zero hidx).trans hchain, hbytes, ?_, hinside⟩
  have hbyte : peek m' t.ackAddr 1 = [0xff] := (deviceRead_iova _ _ _ _).symm.trans hack
  unfold u8At
  rw [hbyte]
  rfl

/-- **One piece of data.** -/
theorem publishControlCommand_published (hok : CtrlqOk align ctrlQueueSize t.layout)
    (hiova : t.baseIova + t.layout.totalSize ≤ 2 ^ 64) {class_ command : UInt8} {data : List UInt8}
    (hfit : data.length ≤ t.layout.ctrlDataSize) (hlen : data.length < 2 ^ 32) (tooSmall : String)
    (hreadable : t.readable =
      [⟨t.baseIova + t.layout.ctrlHdrOffset, kVirtioNetCtrlHdrSize, kVringDescFNext, 1⟩,
        ⟨t.baseIova + t.layout.ctrlDataOffset, data.length, kVringDescFNext, 2⟩])
    (hbytes : t.command.bytes = class_ :: command :: data) (m : Mem) :
    ∃ m', Shared.exec m (publishControlCommand t.queueBase t.dmaBase t.layout t.baseIova class_
      command data tooSmall) = (.ok (), m') ∧ Published t m' := by
  obtain ⟨m', hexec, hencodes⟩ : ∃ m', Shared.exec m (publishControlCommand t.queueBase t.dmaBase
      t.layout t.baseIova class_ command data tooSmall) = (.ok (), m') ∧
      Encodes m' t.dmaBase t.baseIova t.layout (class_ :: command :: data) :=
    publishControlCommand_encodes hok hiova class_ command hfit hlen tooSmall m
  refine ⟨m', hexec, ?_⟩
  have hdata := hok.data
  have hack := hok.ack
  have htotal := hok.total
  have hnowrap : ∀ off, off < t.layout.totalSize → wrap (t.baseIova + off) = t.baseIova + off :=
    fun off hoff => Nat.mod_eq_of_lt (by omega)
  have hassign := hexec.symm.trans
    ((Shared.exec_bind_ok (Shared.exec_ensure hfit m tooSmall) _).trans (Shared.exec_stores _ _))
  rw [hnowrap _ (by omega), hnowrap _ (by omega), hnowrap _ (by omega)] at hassign
  rw [← hbytes] at hencodes
  refine Published.of_assign hok (by rw [hreadable]; rfl) ?_ ?_ ?_ ?_ ?_
    (Prod.mk.inj hassign).2 hencodes
  · simp only [Assign.region, List.map_cons, List.map_nil, Stacked, Region.stop, List.length_cons,
      List.length_nil]
    omega
  · exact ⟨VringDesc.hasNext_next _ _ _, rfl, VringDesc.hasNext_next _ _ _, rfl,
      VringDesc.not_hasNext_write _ _ _⟩
  · exact Nat.le_succ 3
  · simp only [List.forall_mem_cons, VringDesc.Fits, kVirtioNetCtrlHdrSize, kVirtioNetCtrlAckSize,
      kVringDescFNext, kVringDescFWrite]
    refine ⟨by omega, by omega, by omega, by rintro _ ⟨⟩⟩
  · simp only [hreadable, List.forall_mem_cons, kVirtioNetCtrlHdrSize]
    refine ⟨by omega, by omega, by rintro _ ⟨⟩⟩

/-- **A table**, in two pieces. -/
theorem publishMacTable_published (hok : CtrlqOk align ctrlQueueSize t.layout)
    (hiova : t.baseIova + t.layout.totalSize ≤ 2 ^ 64) {mac : Vector UInt8 6}
    (hcommand : t.command = .macTable mac)
    (hfit : unicastTableSize + multicastTableSize ≤ t.layout.ctrlDataSize) (m : Mem) :
    ∃ m', Shared.exec m (publishMacTableControlCommand t.queueBase t.dmaBase t.layout t.baseIova
      mac) = (.ok (), m') ∧ Published t m' := by
  obtain ⟨m', hexec, hencodes⟩ : ∃ m', Shared.exec m (publishMacTableControlCommand t.queueBase
      t.dmaBase t.layout t.baseIova mac) = (.ok (), m') ∧
      Encodes m' t.dmaBase t.baseIova t.layout (ControlCommand.macTable mac).bytes :=
    publishMacTable_encodes hok hiova mac hfit m
  refine ⟨m', hexec, ?_⟩
  have hdata := hok.data
  have hack := hok.ack
  have htotal := hok.total
  have htable : unicastTableSize = 10 := rfl
  have hempty : multicastTableSize = 4 := rfl
  have hnowrap : ∀ off, off < t.layout.totalSize → wrap (t.baseIova + off) = t.baseIova + off :=
    fun off hoff => Nat.mod_eq_of_lt (by omega)
  have hassign := hexec.symm.trans ((Shared.exec_bind_ok (Shared.exec_ensure hok.queueSize m _) _).trans
    ((Shared.exec_bind_ok (Shared.exec_ensure hfit m _) _).trans (Shared.exec_stores _ _)))
  rw [Nat.add_assoc t.baseIova, hnowrap _ (by omega), hnowrap _ (by omega), hnowrap _ (by omega),
    hnowrap _ (by omega)] at hassign
  rw [← hcommand] at hencodes
  refine Published.of_assign hok (by rw [Setup.readable, hcommand]; rfl) ?_ ?_ ?_ ?_ ?_
    (Prod.mk.inj hassign).2 hencodes
  · simp only [Assign.region, List.map_cons, List.map_nil, Stacked, Region.stop, List.length_cons,
      List.length_nil, leBytes_length, Vector.length_toList, htable, kVirtioNetCtrlMacTableCountSize]
    omega
  · exact ⟨VringDesc.hasNext_next _ _ _, rfl, VringDesc.hasNext_next _ _ _, rfl,
      VringDesc.hasNext_next _ _ _, rfl, VringDesc.not_hasNext_write _ _ _⟩
  · exact Nat.le_refl 4
  · simp only [List.forall_mem_cons, VringDesc.Fits, kVirtioNetCtrlHdrSize, kVirtioNetCtrlAckSize,
      kVringDescFNext, kVringDescFWrite, htable, hempty]
    refine ⟨by omega, by omega, by omega, by omega, by rintro _ ⟨⟩⟩
  · simp only [Setup.readable, hcommand, List.forall_mem_cons, kVirtioNetCtrlHdrSize, htable, hempty]
    refine ⟨by omega, by omega, by omega, by rintro _ ⟨⟩⟩

/-- **Publishing**: the device finds the command, or nothing has been written. -/
theorem publish_cases (hok : CtrlqOk align ctrlQueueSize t.layout)
    (hiova : t.baseIova + t.layout.totalSize ≤ 2 ^ 64) (m : Mem) :
    (∃ m', Shared.exec m (t.command.publish t.queueBase t.dmaBase t.layout t.baseIova) = (.ok (), m') ∧
      Published t m') ∨
    ∃ e, Shared.exec m (t.command.publish t.queueBase t.dmaBase t.layout t.baseIova) = (.error e, m) := by
  cases hcommand : t.command with
  | rxPromisc promisc =>
    by_cases hfit : [if promisc then (1 : UInt8) else 0].length ≤ t.layout.ctrlDataSize
    · exact .inl (publishControlCommand_published hok hiova hfit (by decide : 1 < 2 ^ 32) _
        (by rw [Setup.readable, hcommand]; rfl) (by rw [hcommand]; rfl) m)
    · exact .inr ⟨_, Shared.exec_ensure_bind_error hfit m _ _⟩
  | macAddr mac =>
    have hlen : mac.toList.length = 6 := Vector.length_toList
    by_cases hfit : mac.toList.length ≤ t.layout.ctrlDataSize
    · exact .inl (publishControlCommand_published hok hiova hfit (by omega) _
        (by rw [Setup.readable, hcommand, hlen]) (by rw [hcommand]; rfl) m)
    · exact .inr ⟨_, Shared.exec_ensure_bind_error hfit m _ _⟩
  | macTable mac =>
    by_cases hfit : unicastTableSize + multicastTableSize ≤ t.layout.ctrlDataSize
    · exact .inl (publishMacTable_published hok hiova hcommand hfit m)
    · exact .inr ⟨_, (Shared.exec_bind_ok (Shared.exec_ensure hok.queueSize m _) _).trans
        (Shared.exec_ensure_bind_error hfit m _ _)⟩

end Publishing

/-! ## What nobody changes -/

/-- The descriptors, the avail ring, the header and the data are as they were in `m₀`. -/
structure Kept (t : Setup) (m₀ m : Mem) : Prop where
  rings : SameOn m m₀ t.queueBase (t.queueBase + t.layout.ctrlVring.usedOffset)
  command : SameOn m m₀ (t.dmaBase + t.layout.ctrlHdrOffset) t.ackAddr

/-- The bounds that the steps need. -/
structure Placed (t : Setup) : Prop where
  desc : t.layout.ctrlVring.descOffset = 0
  avail : t.layout.ctrlVring.availOffset = 16 * t.layout.ctrlVring.queueSize
  used : t.layout.ctrlVring.availOffset + 2 * (3 + t.layout.ctrlVring.queueSize) ≤
    t.layout.ctrlVring.usedOffset
  size : 4 ≤ t.layout.ctrlVring.queueSize ∧ t.layout.ctrlVring.queueSize < 2 ^ 16
  total : t.layout.ctrlVringOffset + t.layout.ctrlVring.usedOffset + 6 +
    8 * t.layout.ctrlVring.queueSize ≤ t.layout.rxBuffersOffset
  rxBuffers : t.layout.rxBuffersOffset ≤ t.layout.ctrlHdrOffset
  data : t.layout.ctrlDataOffset = t.layout.ctrlHdrOffset + 2
  ack : t.layout.ctrlAckOffset = t.layout.ctrlDataOffset + t.layout.ctrlDataSize

section Kept

variable {t : Setup} {m₀ m : Mem}

theorem Kept.readDesc (hp : Placed t) (h : Kept t m₀ m) {i : Nat}
    (hi : i < t.layout.ctrlVring.queueSize) :
    readDesc m t.queueBase t.layout.ctrlVring i = readDesc m₀ t.queueBase t.layout.ctrlVring i := by
  have hdesc := hp.desc
  have havail := hp.avail
  have hused := hp.used
  have hread : ∀ off n, off + n ≤ 16 →
      peek m (descAddr t.queueBase t.layout.ctrlVring i + off) n =
        peek m₀ (descAddr t.queueBase t.layout.ctrlVring i + off) n := by
    intro off n hoff
    refine h.rings.peek ?_ ?_
    · unfold descAddr
      omega
    · unfold descAddr kVringDescSize
      omega
  unfold Virtio.readDesc
  rw [hread 8 4 (by omega), hread 12 2 (by omega), hread 14 2 (by omega),
    ← Nat.add_zero (descAddr _ _ _), hread 0 8 (by omega)]

theorem Kept.walk (hp : Placed t) (h : Kept t m₀ m) : ∀ fuel i,
    walk m t.queueBase t.layout.ctrlVring fuel i = walk m₀ t.queueBase t.layout.ctrlVring fuel i
  | 0, _ => rfl
  | fuel + 1, i => by
    unfold Virtio.walk
    by_cases hi : t.layout.ctrlVring.queueSize ≤ i
    · rw [if_pos hi, if_pos hi]
    · rw [if_neg hi, if_neg hi, h.readDesc hp (by omega)]
      simp only [Kept.walk hp h fuel]

theorem Kept.availIdx (hp : Placed t) (h : Kept t m₀ m) :
    u16At m (availIdx t.queueBase t.layout.ctrlVring) =
      u16At m₀ (availIdx t.queueBase t.layout.ctrlVring) := by
  have hused := hp.used
  unfold u16At
  rw [h.rings.peek (by unfold Virtio.availIdx; omega) (by unfold Virtio.availIdx; omega)]

/-- The first chain is the published one. -/
theorem Kept.nextChain_zero (hp : Placed t) (h : Kept t m₀ m) (hm : Published t m₀) :
    nextChain m t.queueBase t.layout.ctrlVring 0 = some (t.readable ++ [t.ackDesc]) := by
  have hused := hp.used
  have hhead : nextHead m t.queueBase t.layout.ctrlVring 0 =
      nextHead m₀ t.queueBase t.layout.ctrlVring 0 := by
    have hslot : (0 : UInt16).toNat % t.layout.ctrlVring.queueSize = 0 := Nat.zero_mod _
    unfold nextHead
    rw [hslot, h.rings.peek (by unfold availRing; omega) (by unfold availRing; omega)]
  rw [← hm.chain]
  unfold nextChain
  rw [h.availIdx hp, h.walk hp, hhead]

/-- There is no second chain. -/
theorem Kept.nextChain_one (hp : Placed t) (h : Kept t m₀ m) (hm : Published t m₀) :
    nextChain m t.queueBase t.layout.ctrlVring 1 = none := by
  unfold nextChain
  rw [h.availIdx hp, hm.availIdx, if_pos rfl]

theorem Kept.command_bytes (hp : Placed t) (h : Kept t m₀ m) (hm : Published t m₀) :
    t.readable.flatMap (deviceRead m t.dmaBase t.baseIova) = t.command.bytes := by
  rw [← hm.command]
  refine List.flatMap_congr fun d hd => ?_
  obtain ⟨hlo, hhi⟩ := hm.inside d hd
  have hdata := hp.data
  have hack := hp.ack
  unfold deviceRead
  refine h.command.peek (by omega) ?_
  unfold Setup.ackAddr
  omega

/-- A store outside of what the driver published. -/
theorem Kept.poke (h : Kept t m₀ m) {a : Nat} {d : List UInt8}
    (hrings : a + d.length ≤ t.queueBase ∨ t.queueBase + t.layout.ctrlVring.usedOffset ≤ a)
    (hcommand : a + d.length ≤ t.dmaBase + t.layout.ctrlHdrOffset ∨ t.ackAddr ≤ a) :
    Kept t m₀ (poke m a d) :=
  ⟨h.rings.poke hrings, h.command.poke hcommand⟩

end Kept

section Chain

variable {t : Setup}

theorem readable_reads : ∀ d ∈ t.readable, ¬d.deviceWrites := by
  unfold Setup.readable
  cases t.command <;> simp [VringDesc.not_deviceWrites_next]

theorem filter_chain : (t.readable ++ [t.ackDesc]).filter (fun d => ¬d.deviceWrites) = t.readable := by
  have hack : t.ackDesc.deviceWrites := VringDesc.deviceWrites_write _ _ _
  rw [List.filter_append, List.filter_eq_self.2 (by simpa using readable_reads)]
  simp [hack]

theorem find_chain : (t.readable ++ [t.ackDesc]).find? (fun d => d.deviceWrites) = some t.ackDesc := by
  have hack : t.ackDesc.deviceWrites := VringDesc.deviceWrites_write _ _ _
  rw [List.find?_append, List.find?_eq_none.2 (by simpa using readable_reads)]
  simp [hack]

end Chain

/-! ## What one step keeps -/

/-- What the device has done, `byte` being the ACK byte. -/
def DeviceFacts (t : Setup) (s : State) (byte : UInt8) : Prop :=
  match s.progress with
  | .idle => (s.lastAvail = 0 ∧ s.executed = [] ∧ byte = kVirtioNetCtrlAckInitial) ∨
      (s.lastAvail = 1 ∧ s.executed = [(t.command.bytes, byte)])
  | .taken _ command ack => s.lastAvail = 0 ∧ command = t.command.bytes ∧ ack = t.ackDesc ∧
      s.executed = [] ∧ byte = kVirtioNetCtrlAckInitial
  | .acked _ | .listed => s.lastAvail = 0 ∧ s.executed = [(t.command.bytes, byte)]

/-- **What the driver may conclude** from the ACK byte `a`. -/
structure Concluded (t : Setup) (s : State) (a : UInt8) : Prop where
  answer : a = kVirtioNetCtrlAckInitial ∨ s.executed = [(t.command.bytes, a)]
  seen : s.after ≠ s.base → s.executed = [(t.command.bytes, a)]

/-- What the driver knows at each of its steps. -/
def PcFacts (t : Setup) (s : State) : Pc → Prop
  | .publish | .thrown _ => False
  | .readBase => s.live = false
  | .setDriverOk => s.live = false ∧ s.base = u16At s.mem t.usedIdx
  | .head | .poll | .readAfter => s.lastAvail = 0 → u16At s.mem t.usedIdx = s.base
  | .readAck => (s.lastAvail = 0 → u16At s.mem t.usedIdx = s.base) ∧
      (s.after ≠ s.base → s.lastAvail = 1)
  | .accepted => Concluded t s kVirtioNetOk
  | .rejected a => a ≠ kVirtioNetOk ∧ Concluded t s a

/-- Nothing has reached the device. -/
structure Before (s : State) : Prop where
  live : s.live = false
  progress : s.progress = .idle
  lastAvail : s.lastAvail = 0
  executed : s.executed = []

/-- **The invariant** once the command has been published. -/
structure After (t : Setup) (s : State) : Prop where
  kept : ∃ m₀, Published t m₀ ∧ Kept t m₀ s.mem
  device : DeviceFacts t s (u8At s.mem t.ackAddr)
  before : s.live = false → Before s
  pc : PcFacts t s s.pc

def Inv (t : Setup) (s : State) : Prop :=
  match s.pc with
  | .publish | .thrown _ => Before s
  | _ => After t s

section Steps

variable {t : Setup} {s s' : State}

theorem Inv.after (h : Inv t s) (hlive : s.live = true) : After t s := by
  unfold Inv at h
  split at h
  · exact absurd (h.live.symm.trans hlive) Bool.false_ne_true
  · exact absurd (h.live.symm.trans hlive) Bool.false_ne_true
  · exact h

theorem After.inv (h : After t s) : Inv t s := by
  have hpc := h.pc
  unfold Inv
  split
  · rename_i heq
    rw [heq] at hpc
    exact hpc.elim
  · rename_i heq
    rw [heq] at hpc
    exact hpc.elim
  · exact h

/-- The locals of the driver do not reach the device. -/
theorem Before.locals (h : Before s) (pc : Pc) (m : Mem) (base after : UInt16) :
    Before { s with pc := pc, mem := m, base := base, after := after } :=
  ⟨h.live, h.progress, h.lastAvail, h.executed⟩

/-- What the driver knows outlives a step of the device. -/
theorem PcFacts.device (h : PcFacts t s s.pc) (hlive : s.live = true) {m' : Mem} {p : Progress}
    {l : UInt16} {x : List (List UInt8 × UInt8)}
    (hidx : l = 0 → s.lastAvail = 0 ∧ u16At m' t.usedIdx = u16At s.mem t.usedIdx)
    (hone : s.lastAvail = 1 → l = 1) (hexec : ∀ y, s.executed = [y] → x = [y]) :
    PcFacts t { s with mem := m', progress := p, lastAvail := l, executed := x } s.pc := by
  have hbase : (s.lastAvail = 0 → u16At s.mem t.usedIdx = s.base) →
      l = 0 → u16At m' t.usedIdx = s.base := by
    intro hs hl
    obtain ⟨hzero, hsame⟩ := hidx hl
    exact hsame.trans (hs hzero)
  have hconcluded : ∀ {a} pc, Concluded t s a →
      Concluded t { s with pc := pc, mem := m', progress := p, lastAvail := l, executed := x } a :=
    fun _ hc => ⟨hc.answer.imp_right (hexec _), fun hne => hexec _ (hc.seen hne)⟩
  cases hpc : s.pc with
  | publish | thrown e =>
    rw [hpc] at h
    exact h
  | readBase =>
    rw [hpc] at h
    exact absurd (h.symm.trans hlive) Bool.false_ne_true
  | setDriverOk =>
    rw [hpc] at h
    exact absurd (h.1.symm.trans hlive) Bool.false_ne_true
  | head | poll | readAfter =>
    rw [hpc] at h
    exact hbase h
  | readAck =>
    rw [hpc] at h
    exact ⟨hbase h.1, fun hne => hone (h.2 hne)⟩
  | accepted =>
    rw [hpc] at h
    exact hconcluded _ h
  | rejected a =>
    rw [hpc] at h
    exact ⟨h.1, hconcluded _ h.2⟩

/-- One step of the device, once what it writes is known. -/
theorem After.deviceStep (h : After t s) (hlive : s.live = true) {m' : Mem} {p : Progress}
    {l : UInt16} {x : List (List UInt8 × UInt8)}
    (hkept : ∀ m₀, Kept t m₀ s.mem → Kept t m₀ m')
    (hfacts : DeviceFacts t { s with mem := m', progress := p, lastAvail := l, executed := x }
      (u8At m' t.ackAddr))
    (hidx : l = 0 → s.lastAvail = 0 ∧ u16At m' t.usedIdx = u16At s.mem t.usedIdx)
    (hone : s.lastAvail = 1 → l = 1) (hexec : ∀ y, s.executed = [y] → x = [y]) :
    After t { s with mem := m', progress := p, lastAvail := l, executed := x } := by
  obtain ⟨m₀, hm₀, hk⟩ := h.kept
  exact
    { kept := ⟨m₀, hm₀, hkept m₀ hk⟩
      device := hfacts
      before := fun hl => absurd (hl.symm.trans hlive) Bool.false_ne_true
      pc := h.pc.device hlive hidx hone hexec }

theorem take_after (hp : Placed t) (h : After t s) (hlive : s.live = true)
    (hs : take t s = some s') : After t s' := by
  unfold take at hs
  split at hs
  swap
  · cases hs
  rename_i hidle
  obtain ⟨ds, hds, hs⟩ := Option.bind_eq_some_iff.1 hs
  obtain ⟨ack, hack, hs⟩ := Option.bind_eq_some_iff.1 hs
  cases hs
  obtain ⟨m₀, hm₀, hk⟩ := h.kept
  have hfacts := h.device
  unfold DeviceFacts at hfacts
  rw [hidle] at hfacts
  rcases hfacts with ⟨hzero, hexec, hbyte⟩ | ⟨hone, -⟩
  · rw [hzero, hk.nextChain_zero hp hm₀] at hds
    cases hds
    rw [find_chain] at hack
    cases hack
    refine h.deviceStep hlive (fun _ hk => hk) ?_ (fun _ => ⟨hzero, rfl⟩) id fun _ => id
    refine ⟨hzero, ?_, rfl, hexec, hbyte⟩
    rw [filter_chain]
    exact hk.command_bytes hp hm₀
  · rw [hone, hk.nextChain_one hp hm₀] at hds
    cases hds

theorem u8At_poke (m : Mem) (a : Nat) (b : UInt8) : u8At (poke m a [b]) a = b := by
  have hself : peek (poke m a [b]) a 1 = [b] := peek_poke_self m a [b]
  unfold u8At
  rw [hself]
  exact (congrArg UInt8.ofNat (Nat.add_zero _)).trans UInt8.ofNat_toNat

theorem u8At_poke_of_disjoint {m : Mem} {a b : Nat} {d : List UInt8}
    (h : a + d.length ≤ b ∨ b + 1 ≤ a) : u8At (poke m a d) b = u8At m b := by
  unfold u8At
  rw [peek_poke_of_disjoint h]

theorem u16At_poke_of_disjoint {m : Mem} {a b : Nat} {d : List UInt8}
    (h : a + d.length ≤ b ∨ b + 2 ≤ a) : u16At (poke m a d) b = u16At m b := by
  unfold u16At
  rw [peek_poke_of_disjoint h]

/-- The used index is in front of the command. -/
theorem Placed.usedIdx_le (hp : Placed t) :
    t.usedIdx + 2 ≤ t.dmaBase + t.layout.ctrlHdrOffset ∧
      t.dmaBase + t.layout.ctrlHdrOffset ≤ t.ackAddr := by
  have htotal := hp.total
  have hrx := hp.rxBuffers
  have hdata := hp.data
  have hack := hp.ack
  unfold Setup.usedIdx Setup.queueBase Setup.ackAddr
  omega

theorem execute_after (hp : Placed t) (h : After t s) (hlive : s.live = true) {result : UInt8}
    (hs : execute t result s = some s') : After t s' := by
  have hfacts := h.device
  unfold execute at hs
  split at hs
  swap
  · cases hs
  rename_i head command ack htaken
  cases hs
  unfold DeviceFacts at hfacts
  rw [htaken] at hfacts
  obtain ⟨hzero, rfl, rfl, hexec, -⟩ := hfacts
  have haddr : t.dmaBase + (t.ackDesc.addr - t.baseIova) = t.ackAddr := by
    have hack : t.ackDesc.addr = t.baseIova + t.layout.ctrlAckOffset := rfl
    unfold Setup.ackAddr
    omega
  obtain ⟨hidx, hcommand⟩ := hp.usedIdx_le
  have hring : t.queueBase + t.layout.ctrlVring.usedOffset ≤ t.usedIdx := by
    unfold Setup.usedIdx
    omega
  rw [haddr]
  refine h.deviceStep hlive (fun m₀ hk => hk.poke (.inr (by omega)) (.inr (Nat.le_refl _))) ?_
    (fun _ => ⟨hzero, u16At_poke_of_disjoint (.inr (by omega))⟩) id ?_
  · refine ⟨hzero, ?_⟩
    rw [u8At_poke, hexec]
    rfl
  · intro y hy
    rw [hexec] at hy
    cases hy

theorem putElem_after (hp : Placed t) (h : After t s) (hlive : s.live = true)
    (hs : putElem t s = some s') : After t s' := by
  have hfacts := h.device
  unfold putElem at hs
  split at hs
  swap
  · cases hs
  rename_i head hacked
  cases hs
  unfold DeviceFacts at hfacts
  rw [hacked] at hfacts
  have hslot : s.lastAvail.toNat % t.layout.ctrlVring.queueSize < t.layout.ctrlVring.queueSize :=
    Nat.mod_lt _ (by have := hp.size; omega)
  have hlen : (leBytes 4 head ++ leBytes 4 1).length = 8 := by
    rw [List.length_append, leBytes_length, leBytes_length]
  obtain ⟨-, hcommand⟩ := hp.usedIdx_le
  have hlo : t.usedIdx + 2 ≤ t.usedElem (s.lastAvail.toNat % t.layout.ctrlVring.queueSize) := by
    unfold Setup.usedIdx Setup.usedElem
    omega
  have hring : t.queueBase + t.layout.ctrlVring.usedOffset ≤ t.usedIdx := by
    unfold Setup.usedIdx
    omega
  have hhi : t.usedElem (s.lastAvail.toNat % t.layout.ctrlVring.queueSize) + 8 ≤
      t.dmaBase + t.layout.ctrlHdrOffset := by
    have htotal := hp.total
    have hrx := hp.rxBuffers
    unfold Setup.usedElem Setup.queueBase kVringUsedElemSize
    omega
  refine h.deviceStep hlive (fun m₀ hk => hk.poke (.inr (by omega)) (.inl (by omega))) ?_
    (fun _ => ⟨hfacts.1, u16At_poke_of_disjoint (.inr hlo)⟩) id fun _ => id
  refine ⟨hfacts.1, ?_⟩
  rw [u8At_poke_of_disjoint (.inl (by omega))]
  exact hfacts.2

theorem putIdx_after (hp : Placed t) (h : After t s) (hlive : s.live = true)
    (hs : putIdx t s = some s') : After t s' := by
  have hfacts := h.device
  unfold putIdx at hs
  split at hs
  swap
  · cases hs
  rename_i hlisted
  cases hs
  unfold DeviceFacts at hfacts
  rw [hlisted] at hfacts
  obtain ⟨hidx, hcommand⟩ := hp.usedIdx_le
  have hring : t.queueBase + t.layout.ctrlVring.usedOffset ≤ t.usedIdx := by
    unfold Setup.usedIdx
    omega
  rw [hfacts.1]
  refine h.deviceStep hlive
    (fun m₀ hk => hk.poke (.inr hring) (.inl (by rw [leBytes_length]; exact hidx))) ?_
    (fun hl => absurd hl (by decide)) (fun hone => absurd (hfacts.1.symm.trans hone) (by decide))
    fun _ => id
  refine .inr ⟨rfl, ?_⟩
  rw [u8At_poke_of_disjoint (.inl (by rw [leBytes_length]; omega))]
  exact hfacts.2

theorem dma_after (hp : Placed t) (h : After t s) (hlive : s.live = true) {a : Nat} {d : List UInt8}
    (hd : DmaOk t a d.length) : After t { s with mem := poke s.mem a d } := by
  obtain ⟨hidx, hcommand⟩ := hp.usedIdx_le
  have hring : t.queueBase + t.layout.ctrlVring.usedOffset + 2 = t.usedIdx := rfl
  have htotal : t.queueBase + t.layout.ctrlVring.usedOffset + 6 ≤
      t.dmaBase + t.layout.rxBuffersOffset := by
    have htotal := hp.total
    unfold Setup.queueBase
    omega
  have hd' : a + d.length ≤ t.queueBase ∨ (t.dmaBase + t.layout.rxBuffersOffset ≤ a ∧
      a + d.length ≤ t.dmaBase + t.layout.ctrlHdrOffset) := hd.imp_left And.right
  have hbyte : u8At (poke s.mem a d) t.ackAddr = u8At s.mem t.ackAddr :=
    u8At_poke_of_disjoint (.inl (by omega))
  refine h.deviceStep hlive (fun m₀ hk => hk.poke (by omega) (by omega)) ?_
    (fun hl => ⟨hl, u16At_poke_of_disjoint (by omega)⟩) id fun _ => id
  rw [hbyte]
  exact h.device

theorem DeviceFacts.cases {byte : UInt8} (h : DeviceFacts t s byte) :
    (s.lastAvail = 0 ∧ s.executed = [] ∧ byte = kVirtioNetCtrlAckInitial) ∨
      ((s.lastAvail = 0 ∨ s.lastAvail = 1) ∧ s.executed = [(t.command.bytes, byte)]) := by
  unfold DeviceFacts at h
  split at h
  · exact h.imp_right fun hdone => ⟨.inr hdone.1, hdone.2⟩
  · exact .inl ⟨h.1, h.2.2.2⟩
  · exact .inr ⟨.inl h.1, h.2⟩
  · exact .inr ⟨.inl h.1, h.2⟩

theorem publish_inv {align : UInt64} {ctrlQueueSize : UInt16}
    (hok : CtrlqOk align ctrlQueueSize t.layout)
    (hiova : t.baseIova + t.layout.totalSize ≤ 2 ^ 64) (h : Before s) : Inv t (publish t s) := by
  rcases publish_cases hok hiova s.mem with ⟨m', hexec, hm'⟩ | ⟨e, hexec⟩
  · unfold publish
    rw [hexec]
    refine After.inv ⟨⟨m', hm', SameOn.refl _ _ _, SameOn.refl _ _ _⟩, ?_, fun _ => ?_, h.live⟩
    · unfold DeviceFacts
      rw [h.progress]
      exact .inl ⟨h.lastAvail, h.executed, hm'.ack⟩
    · exact h.locals _ _ _ _
  · unfold publish
    rw [hexec]
    exact h.locals _ _ _ _

/-- The ACK byte, and what it says about the command. -/
theorem readAck_after (h : After t s) (hpc : s.pc = .readAck) : After t (readAck t s) := by
  have hfacts := h.pc
  rw [hpc] at hfacts
  obtain ⟨-, hseen⟩ := hfacts
  have hcases := h.device.cases
  have hconcluded : ∀ pc, Concluded t { s with pc := pc } (u8At s.mem t.ackAddr) := by
    refine fun _ => ⟨hcases.imp And.right And.right |>.imp_left And.right, fun hne => ?_⟩
    rcases hcases with ⟨hzero, -⟩ | ⟨-, hexec⟩
    · exact absurd (hzero.symm.trans (hseen hne)) (by decide)
    · exact hexec
  refine ⟨h.kept, h.device, fun hl => (h.before hl).locals _ _ _ _, ?_⟩
  unfold readAck
  by_cases hack : u8At s.mem t.ackAddr ≠ kVirtioNetOk
  · simp only [if_pos hack]
    exact ⟨hack, hconcluded _⟩
  · simp only [if_neg hack]
    have hzero := hconcluded .accepted
    rw [not_not.1 hack] at hzero
    exact hzero

theorem run_step {align : UInt64} {ctrlQueueSize : UInt16}
    (hok : CtrlqOk align ctrlQueueSize t.layout)
    (hiova : t.baseIova + t.layout.totalSize ≤ 2 ^ 64) (h : Inv t s) (hs : run t s = some s') :
    Inv t s' := by
  unfold run at hs
  cases hpc : s.pc with
  | publish =>
    rw [hpc] at hs
    cases hs
    unfold Inv at h
    rw [hpc] at h
    exact publish_inv hok hiova h
  | head | accepted | rejected a | thrown e =>
    rw [hpc] at hs
    cases hs
  | readBase =>
    rw [hpc] at hs
    cases hs
    unfold Inv at h
    rw [hpc] at h
    have hlive := h.pc
    rw [hpc] at hlive
    exact After.inv ⟨h.kept, h.device, fun hl => (h.before hl).locals _ _ _ _, hlive, rfl⟩
  | setDriverOk =>
    rw [hpc] at hs
    cases hs
    unfold Inv at h
    rw [hpc] at h
    have hfacts := h.pc
    rw [hpc] at hfacts
    exact After.inv ⟨h.kept, h.device, fun hl => absurd hl.symm Bool.false_ne_true,
      fun _ => hfacts.2.symm⟩
  | poll =>
    rw [hpc] at hs
    cases hs
    unfold Inv at h
    rw [hpc] at h
    have hfacts := h.pc
    rw [hpc] at hfacts
    unfold poll
    split
    · exact After.inv ⟨h.kept, h.device, fun hl => (h.before hl).locals _ _ _ _, hfacts⟩
    · exact After.inv ⟨h.kept, h.device, fun hl => (h.before hl).locals _ _ _ _, hfacts⟩
  | readAfter =>
    rw [hpc] at hs
    cases hs
    unfold Inv at h
    rw [hpc] at h
    have hfacts := h.pc
    rw [hpc] at hfacts
    refine After.inv
      ⟨h.kept, h.device, fun hl => (h.before hl).locals _ _ _ _, hfacts, fun hne => ?_⟩
    rcases h.device.cases with ⟨hzero, -⟩ | ⟨hzero | hone, -⟩
    · exact absurd (hfacts hzero) hne
    · exact absurd (hfacts hzero) hne
    · exact hone
  | readAck =>
    rw [hpc] at hs
    cases hs
    unfold Inv at h
    rw [hpc] at h
    exact (readAck_after h hpc).inv

theorem Inv.step {align : UInt64} {ctrlQueueSize : UInt16}
    (hok : CtrlqOk align ctrlQueueSize t.layout) (hp : Placed t)
    (hiova : t.baseIova + t.layout.totalSize ≤ 2 ^ 64) (h : Inv t s) {e : Event}
    (hs : step t s e = some s') : Inv t s' := by
  have hdevice : ∀ {x : Option State}, device s x = some s' → s.live = true ∧ x = some s' := by
    intro x hx
    unfold device at hx
    split at hx
    · exact ⟨‹_›, hx⟩
    · cases hx
  cases e with
  | run => exact run_step hok hiova h hs
  | clock timeLeft =>
    change clock timeLeft s = some s' at hs
    unfold clock at hs
    split at hs
    swap
    · cases hs
    rename_i hpc
    cases hs
    unfold Inv at h
    rw [hpc] at h
    have hfacts := h.pc
    rw [hpc] at hfacts
    refine After.inv ⟨h.kept, h.device, fun hl => (h.before hl).locals _ _ _ _, ?_⟩
    cases timeLeft
    · exact hfacts
    · exact hfacts
  | take =>
    obtain ⟨hlive, hs⟩ := hdevice hs
    exact (take_after hp (h.after hlive) hlive hs).inv
  | execute result =>
    obtain ⟨hlive, hs⟩ := hdevice hs
    exact (execute_after hp (h.after hlive) hlive hs).inv
  | putElem =>
    obtain ⟨hlive, hs⟩ := hdevice hs
    exact (putElem_after hp (h.after hlive) hlive hs).inv
  | putIdx =>
    obtain ⟨hlive, hs⟩ := hdevice hs
    exact (putIdx_after hp (h.after hlive) hlive hs).inv
  | dma a d =>
    obtain ⟨hlive, hs⟩ := hdevice hs
    split at hs
    swap
    · cases hs
    rename_i hd
    cases hs
    exact (dma_after hp (h.after hlive) hlive hd).inv

theorem init_inv (m : Mem) : Inv t (init t m) := ⟨rfl, rfl, rfl, rfl⟩

end Steps

/-! ## Every interleaving -/

/-- **What the transaction guarantees** in every state. -/
structure Sound (t : Setup) (s : State) : Prop where
  /-- At most one execution, of the bytes of the command. -/
  executed : s.executed = [] ∨ ∃ result, s.executed = [(t.command.bytes, result)]
  accepted : s.pc = .accepted → s.executed = [(t.command.bytes, kVirtioNetOk)]
  /-- A refusal is the device's answer, or the driver found no answer. -/
  rejected : ∀ a, s.pc = .rejected a → a ≠ kVirtioNetOk ∧
    (a = kVirtioNetCtrlAckInitial ∨ s.executed = [(t.command.bytes, a)])
  /-- Once the used index has moved, the driver has the answer. -/
  seen : ∀ a, s.pc = .rejected a → s.after ≠ s.base → s.executed = [(t.command.bytes, a)]
  thrown : ∀ e, s.pc = .thrown e → s.live = false ∧ s.executed = []

/-- A state with a verdict has the facts of its verdict. -/
theorem Inv.verdict {t : Setup} {s : State} (h : Inv t s) {a : UInt8}
    (hpc : s.pc = .rejected a ∨ (s.pc = .accepted ∧ a = kVirtioNetOk)) : Concluded t s a := by
  unfold Inv at h
  rcases hpc with hpc | ⟨hpc, rfl⟩
  · rw [hpc] at h
    have hfacts := h.pc
    rw [hpc] at hfacts
    exact hfacts.2
  · rw [hpc] at h
    have hfacts := h.pc
    rw [hpc] at hfacts
    exact hfacts

theorem Inv.sound {t : Setup} {s : State} (h : Inv t s) : Sound t s where
  executed := by
    unfold Inv at h
    split at h
    · exact .inl h.executed
    · exact .inl h.executed
    · exact h.device.cases.imp (fun hc => hc.2.1) fun hc => ⟨_, hc.2⟩
  accepted hpc := by
    have hne : ¬kVirtioNetOk = kVirtioNetCtrlAckInitial := by decide
    exact (h.verdict (.inr ⟨hpc, rfl⟩)).answer.resolve_left hne
  rejected a hpc := by
    refine ⟨?_, (h.verdict (.inl hpc)).answer⟩
    unfold Inv at h
    rw [hpc] at h
    have hfacts := h.pc
    rw [hpc] at hfacts
    exact hfacts.1
  seen a hpc := (h.verdict (.inl hpc)).seen
  thrown e hpc := by
    unfold Inv at h
    rw [hpc] at h
    exact ⟨h.live, h.executed⟩

/-- The layout gives the bounds. -/
theorem Placed.of_layout {t : Setup} {page align rxBufferSize ctrlDataSize : UInt64}
    {rxQueueSize txQueueSize ctrlQueueSize rxBuffers : UInt16}
    (h : computeCtrlqDmaLayout page rxQueueSize txQueueSize ctrlQueueSize align rxBuffers
      rxBufferSize ctrlDataSize = .ok t.layout) (hwrap : t.layout.NoWrap) : Placed t := by
  have hplaced := computeCtrlqDmaLayout_placed h
  have hok := computeCtrlqDmaLayout_ok h hwrap
  have hring := hok.ctrlVring
  obtain ⟨hrx, -⟩ := roundUpToPage_ok hplaced.rxBuffersOffset
  obtain ⟨hhdr, -⟩ := roundUpToPage_ok hplaced.hdr
  have hsize := hring.size_eq
  have havail := hring.avail
  have hused := hring.used
  have htotal := hring.total
  have hq := ctrlQueueSize.toNat_lt
  exact
    { desc := hring.desc.1
      avail := by omega
      used := by omega
      size := ⟨hok.queueSize, by omega⟩
      total := by omega
      rxBuffers := by omega
      data := hok.data
      ack := hok.ack }

/-- **A command on the control queue.**  For every layout without wrap-around, every base IOVA that
leaves room for it, every command, every earlier contents of the memory and every interleaving of
the driver with the device: the device executes at most one command, which is the published one;
the driver accepts only what the device has executed with `VIRTIO_NET_OK`; if it refuses, the byte
it found is the device's answer or the initial `0xff`, and it is the answer if the used index had
moved. -/
theorem controlTransaction_sound {t : Setup} {page align rxBufferSize ctrlDataSize : UInt64}
    {rxQueueSize txQueueSize ctrlQueueSize rxBuffers : UInt16}
    (h : computeCtrlqDmaLayout page rxQueueSize txQueueSize ctrlQueueSize align rxBuffers
      rxBufferSize ctrlDataSize = .ok t.layout) (hwrap : t.layout.NoWrap)
    (hiova : t.baseIova + t.layout.totalSize ≤ 2 ^ 64) (m : Mem) {es : List Event} {s : State}
    (hrun : (machine t m).run es = some s) : Sound t s := by
  have hok := computeCtrlqDmaLayout_ok h hwrap
  have hinv : Inv t s := Machine.run_inv (I := Inv t) (init_inv m)
    (fun s e s' hs he => hs.step hok (Placed.of_layout h hwrap) hiova he) hrun
  exact hinv.sound

/-- Four descriptors in each queue, and one RX buffer. -/
def smallLayout : CtrlqDmaLayout :=
  let ring : VringLayout := ⟨4, 64, 0, 64, 64, 14, 128, 38, 166⟩
  { rxVring := ring, txVring := ring, ctrlVring := ring
    rxVringOffset := 0, txVringOffset := 4096, ctrlVringOffset := 8192
    rxBuffersOffset := 12288, rxBuffersSize := 64
    ctrlCommandOffset := 16384, ctrlHdrOffset := 16384, ctrlDataOffset := 16386, ctrlDataSize := 1
    ctrlStateOffset := 16386, ctrlAckOffset := 16387, totalSize := 20480 }

/-- `RX_PROMISC=1`; the device answers between two polls, and writes to an RX buffer. -/
theorem controlTransaction_sound_promisc : ∃ s,
    (machine ⟨0, 0x100000000, smallLayout, .rxPromisc true⟩ fun _ => 0xab).run
      [.run, .run, .run, .clock true, .run, .take, .dma 12288 [7], .execute 0, .putElem, .putIdx,
        .clock true, .run, .run, .run] = some s ∧
    s.pc = .accepted ∧ Sound ⟨0, 0x100000000, smallLayout, .rxPromisc true⟩ s := by
  have hpc : ((machine ⟨0, 0x100000000, smallLayout, .rxPromisc true⟩ fun _ => 0xab).run
      [.run, .run, .run, .clock true, .run, .take, .dma 12288 [7], .execute 0, .putElem, .putIdx,
        .clock true, .run, .run, .run]).map State.pc = some .accepted := by decide +kernel
  obtain ⟨s, hs, haccepted⟩ := Option.map_eq_some_iff.1 hpc
  have hlayout : computeCtrlqDmaLayout 4096 4 4 4 64 1 64 1 = .ok smallLayout := rfl
  exact ⟨s, hs, haccepted, controlTransaction_sound hlayout (by unfold CtrlqDmaLayout.NoWrap; decide)
    (by decide) _ hs⟩

end ControlTransaction

end AdvCpp.Virtio
