import AdvCpp.Lib.Bytes
import AdvCpp.Lib.Exclusive
import AdvCpp.Lib.Machine
import AdvCpp.Lib.Numeral
import AdvCpp.Uring.EchoCommon
import AdvCpp.Uring.Net
import Mathlib.Algebra.Ring.Int.Defs

/-!
# The benchmark client

`main` of `08_echo_bench.cpp` with its ring: the clients connect, and each sends its message and
receives the echo, round after round, with one request in flight at a time.  Submissions wait in the
submission queue, `submit_and_wait` hands them to the kernel, which executes them in any order and
with any result, and the completions are handled batch by batch.  A signed overflow ends in
`undefined`.

* `onConnect`, `onSend`, `onRecv` — the three handlers, each of which asks for the next request of its
  client or ends the client.
* `machine` — the program with the kernel.
* `Inv` — one request for each client that has not ended, and how far that client is.
* `accounted_iff` — the accounting is right in every state of a run exactly if nothing overflows.
-/

namespace AdvCpp.Uring.EchoBench

open AdvCpp.Lib

/-! ## The source -/

def OP_CONNECT : BitVec 64 := 1#64 <<< 56
def OP_SEND : BitVec 64 := 2#64 <<< 56
def OP_RECV : BitVec 64 := 3#64 <<< 56

/-- The encoding is that of the server, with the number of the client for the descriptor. -/
def decodeId (ud : BitVec 64) : Int := decodeFd ud

def MSG_SIZE : Nat := 32

def INT_MIN : Int := -2 ^ 31
def INT_MAX : Int := 2 ^ 31 - 1

/-- A value of type `int`. -/
def IsInt (x : Int) : Prop := INT_MIN ≤ x ∧ x ≤ INT_MAX

/-- `-n` and `-r`, as `std::stoi` returns them. -/
structure Options where
  numClients : Int
  rounds : Int
  numClients_isInt : IsInt numClients
  rounds_isInt : IsInt rounds

/-- `remaining` counts the rounds that are left. -/
structure Client where
  fd : Int
  remaining : Int
  ok : Bool
  sendLen : Nat
  sendOff : Nat
  recvOff : Nat
  sendBuf : List UInt8
  recvBuf : List UInt8
  deriving DecidableEq

/-- `"client %d ping\n"` -/
def message (id : Nat) : List UInt8 :=
  bytesOf "client " ++ (Nat.toDigits 10 id).map Char.toUInt8 ++ bytesOf " ping\n"

/-- A client as `main` allocates it; `snprintf` returns the length of the message. -/
def Client.init (rounds : Int) (id : Nat) : Client :=
  ⟨-1, rounds, true, (message id).length, 0, 0, message id, List.replicate MSG_SIZE 0⟩

/-- A request; `buf` is the client whose `send_buf` or `recv_buf` it uses. -/
inductive Prep where
  | connect
  | send (buf off len : Nat)
  | recv (buf off len : Nat)
  deriving DecidableEq

structure Sqe where
  fd : Int
  prep : Prep
  userData : BitVec 64
  deriving DecidableEq

def connectSqe (id : Nat) (fd : Int) : Sqe := ⟨fd, .connect, encode OP_CONNECT id⟩

/-- The part of the message that has not been sent. -/
def sendSqe (id : Nat) (c : Client) : Sqe :=
  ⟨c.fd, .send id c.sendOff (c.sendLen - c.sendOff), encode OP_SEND id⟩

/-- The part of the echo that has not been received. -/
def recvSqe (id : Nat) (c : Client) : Sqe :=
  ⟨c.fd, .recv id c.recvOff (c.sendLen - c.recvOff), encode OP_RECV id⟩

/-- How a handler leaves its client: with the next request, or ended (`++clients_done`), with the
descriptor that it closes, or after a signed overflow. -/
inductive Reply where
  | next (c : Client) (q : Sqe)
  | ends (c : Client) (close : Option Int)
  | overflow
  deriving DecidableEq

/-- `if (c.fd >= 0) { close(c.fd); c.fd = -1; }` -/
def failClient (c : Client) : Reply :=
  if 0 ≤ c.fd then .ends { c with ok := false, fd := -1 } (some c.fd)
  else .ends { c with ok := false } none

def onConnect (id : Nat) (c : Client) (res : Int) : Reply :=
  if res < 0 then .ends { c with ok := false } none
  else
    let c := { c with sendOff := 0, recvOff := 0 }
    .next c (sendSqe id c)

def onSend (id : Nat) (c : Client) (res : Int) : Reply :=
  if res ≤ 0 then failClient c
  else
    let c := { c with sendOff := c.sendOff + res.toNat }
    if c.sendOff < c.sendLen then .next c (sendSqe id c)
    else
      let c := { c with recvOff := 0 }
      .next c (recvSqe id c)

/-- `memcmp(c.recv_buf, c.send_buf, c.send_len) != 0` -/
def Client.mismatch (c : Client) : Bool := c.recvBuf.take c.sendLen != c.sendBuf.take c.sendLen

/-- The whole echo has come. -/
def echoDone (id : Nat) (c : Client) : Reply :=
  let c := if c.mismatch then { c with ok := false } else c
  if c.remaining = INT_MIN then .overflow -- `--c.remaining`
  else
    let c := { c with remaining := c.remaining - 1 }
    if c.remaining ≤ 0 ∨ ¬c.ok then .ends { c with fd := -1 } (some c.fd)
    else
      let c := { c with sendOff := 0 }
      .next c (sendSqe id c)

def onRecv (id : Nat) (c : Client) (res : Int) : Reply :=
  if res ≤ 0 then failClient c
  else
    let c := { c with recvOff := c.recvOff + res.toNat }
    if c.recvOff < c.sendLen then .next c (recvSqe id c) else echoDone id c

/-! ## The program and the kernel -/

/-- What has gone over a connection. -/
inductive Transfer where
  | sent (bytes : List UInt8)
  | received (bytes : List UInt8)
  deriving DecidableEq

/-- Before the clients or the ring are allocated, in the loop over the sockets, inside
`submit_and_wait`, in the loop over the `ready` completions, behind the event loop, after an
exception, after an exception of `get_sqe`, and after a signed overflow. -/
inductive Pc where
  | start
  | ring
  | setup (i : Nat)
  | wait
  | batch (ready : Nat)
  | exit
  | failed
  | queueFull
  | undefined
  deriving DecidableEq

/-- The program, its ring with `entries` submission slots, and the kernel's side: the sockets behind
the descriptors, numbered in the order in which they were created, what went over them, and the
requests in flight with the socket that their descriptor named at submission. -/
structure State where
  clients : List Client
  clientsDone : Nat
  entries : Nat
  pc : Pc
  sq : List Sqe
  cq : List (BitVec 64 × Int)
  files : Int → Option Nat
  traffic : Nat → List Transfer
  flight : List (Sqe × Option Nat)

/-- `allocate`: the vector of clients can be had or not.  `ring`: `io_uring_queue_init` fails or
provides a ring.  `socket`: the next descriptor, or a failure.  `submit`: the next submission reaches
the kernel.  `exec`: the kernel executes a request in flight.  `ready`: `submit_and_wait` returns.
`fail`: it throws.  `next`: the program goes on with the event loop. -/
inductive Ev where
  | allocate (ok : Bool)
  | ring (entries : Option Nat)
  | socket (fd : Int)
  | submit
  | exec (k : Nat) (res : Int) (data : List UInt8)
  | ready
  | fail
  | next
  deriving DecidableEq

namespace State

/-- `Ring::get_sqe` -/
def getSqe (s : State) (q : Sqe) : State :=
  if s.sq.length < s.entries then { s with sq := s.sq ++ [q] } else { s with pc := .queueFull }

def close (s : State) : Option Int → State
  | none => s
  | some fd => { s with files := Function.update s.files fd none }

def reply (s : State) (id : Nat) : Reply → State
  | .next c q => getSqe { s with clients := s.clients.set id c } q
  | .ends c fd =>
    { s.close fd with clients := s.clients.set id c, clientsDone := s.clientsDone + 1 }
  | .overflow => { s with pc := .undefined }

/-- `while (clients_done < num_clients)` -/
def loopTop (o : Options) (s : State) : State :=
  if (s.clientsDone : Int) < o.numClients then { s with pc := .wait } else { s with pc := .exit }

/-- The body of the loop over the completions. -/
def handleCqe (s : State) (ud : BitVec 64) (res : Int) : State :=
  let id := (decodeId ud).toNat
  if decodeId ud < 0 then { s with pc := .undefined }
  else
    match s.clients[id]? with
    | none => { s with pc := .undefined }
    | some c =>
      if decodeOp ud = OP_CONNECT then s.reply id (onConnect id c res)
      else if decodeOp ud = OP_SEND then s.reply id (onSend id c res)
      else if decodeOp ud = OP_RECV then s.reply id (onRecv id c res)
      else s

end State

/-- The results the kernel may give. -/
def KernelMay (q : Sqe) (file : Option Nat) (res : Int) (data : List UInt8) : Prop :=
  match file, q.prep with
  | none, _ => res < 0 ∧ data = []
  | some _, .connect => res ≤ 0 ∧ data = []
  | some _, .send _ _ len => res ≤ len ∧ data = []
  | some _, .recv _ _ len => (res < 0 ∧ data = []) ∨ (res = data.length ∧ data.length ≤ len)

instance kernelMayDecidable (q : Sqe) (file : Option Nat) (res : Int) (data : List UInt8) :
    Decidable (KernelMay q file res data) := by
  unfold KernelMay
  exact match file, q.prep with
    | none, _ => inferInstance
    | some _, .connect => inferInstance
    | some _, .send _ _ _ => inferInstance
    | some _, .recv _ _ _ => inferInstance

/-- What an executed request does to the connection and the buffers. -/
def transfer (s : State) (q : Sqe) (file : Option Nat) (res : Int) (data : List UInt8) : State :=
  match file, q.prep with
  | some n, .send buf off _ =>
    match s.clients[buf]? with
    | some c =>
      { s with
        traffic := Function.update s.traffic n
          (s.traffic n ++ [.sent (pread c.sendBuf off res.toNat)]) }
    | none => s
  | some n, .recv buf off _ =>
    match s.clients[buf]? with
    | some c =>
      { s with
        clients := s.clients.set buf { c with recvBuf := pwrite 0 c.recvBuf off data }
        traffic := Function.update s.traffic n (s.traffic n ++ [.received data]) }
    | none => s
  | _, _ => s

def step (o : Options) (s : State) : Ev → Option State
  | .allocate ok =>
    if s.pc ≠ .start then none
    else if ¬ok then some { s with pc := .failed }
    else if o.numClients < 0 then none -- `std::length_error`
    else
      let s := { s with clients := (List.range o.numClients.toNat).map (Client.init o.rounds) }
      if INT_MAX < o.numClients * 2 then some { s with pc := .undefined }
      else some { s with pc := .ring }
  | .ring entries =>
    if s.pc ≠ .ring then none
    else
      match entries with
      | none => some { s with pc := .failed }
      | some n =>
        -- the kernel rounds up to a power of two
        if max 4096 (o.numClients * 2) ≤ n then some { s with entries := n, pc := .setup 0 }
        else none
  | .socket fd =>
    match s.pc with
    | .setup i =>
      match s.clients[i]? with
      | none => none
      | some c =>
        if fd < 0 then some { s with pc := .failed }
        else if s.files fd ≠ none then none
        else
          some (({ s with
            clients := s.clients.set i { c with fd := fd }
            files := Function.update s.files fd (some i), pc := .setup (i + 1) } : State).getSqe
              (connectSqe i fd))
    | _ => none
  | .submit =>
    match s.pc, s.sq with
    | .wait, q :: sq => some { s with sq := sq, flight := s.flight ++ [(q, s.files q.fd)] }
    | _, _ => none
  | .exec k res data =>
    match s.flight[k]? with
    | none => none
    | some (q, file) =>
      if KernelMay q file res data then
        some (transfer { s with flight := s.flight.eraseIdx k, cq := s.cq ++ [(q.userData, res)] }
          q file res data)
      else none
  | .ready =>
    -- without waiting if not everything was submitted
    if s.pc = .wait ∧ (s.sq ≠ [] ∨ s.cq ≠ []) then some { s with pc := .batch s.cq.length } else none
  | .fail => if s.pc = .wait then some { s with pc := .failed } else none
  | .next =>
    match s.pc with
    | .setup i => if i < s.clients.length then none else some (s.loopTop o)
    | .batch 0 => some (s.loopTop o)
    | .batch (ready + 1) =>
      match s.cq with
      | [] => some (s.loopTop o)
      | (ud, res) :: cq => some (({ s with cq := cq, pc := .batch ready } : State).handleCqe ud res)
    | _ => none

def State.init : State := ⟨[], 0, 0, .start, [], [], fun _ => none, fun _ => [], []⟩

def machine (o : Options) : Machine State Ev := ⟨State.init, step o⟩

/-! ## What is claimed -/

/-- A request that waits in the submission queue, one in flight, or a completion that waits. -/
inductive Pending where
  | queued (q : Sqe)
  | armed (q : Sqe) (file : Option Nat)
  | done (ud : BitVec 64) (res : Int)
  deriving DecidableEq

def Pending.userData : Pending → BitVec 64
  | .queued q => q.userData
  | .armed q _ => q.userData
  | .done ud _ => ud

/-- The client that a request is for. -/
def Pending.owner (p : Pending) : Nat := (decodeId p.userData).toNat

namespace State

/-- All that is outstanding. -/
def pending (s : State) : List Pending :=
  s.flight.map (fun r => .armed r.1 r.2) ++ (s.sq.map .queued ++ s.cq.map fun e => .done e.1 e.2)

def outstanding (s : State) (i : Nat) : Nat := (s.pending.map Pending.owner).count i

end State

/-- The client has not ended. -/
def Client.live (c : Client) : Bool := c.ok && decide (0 ≤ c.fd)

def liveAt (clients : List Client) (i : Nat) : Bool := clients[i]?.any Client.live

/-- Rounds in which the message was sent, in pieces, and then came back, in pieces. -/
inductive Rounds (msg : List UInt8) : Nat → List Transfer → Prop
  | zero : Rounds msg 0 []
  | succ {k : Nat} {t : List Transfer} {out inn : List (List UInt8)} (h : Rounds msg k t)
      (hout : out.flatten = msg) (hin : inn.flatten = msg) :
      Rounds msg (k + 1) (t ++ out.map .sent ++ inn.map .received)

/-- In the event loop, or behind it. -/
def State.InLoop (s : State) : Prop := s.pc = .wait ∨ s.pc = .exit ∨ ∃ ready, s.pc = .batch ready

/-- The accounting of the clients. -/
structure Accounted (o : Options) (s : State) : Prop where
  defined : s.pc ≠ .undefined
  fits : s.pc ≠ .queueFull
  all : s.InLoop → (s.clients.length : Int) = o.numClients
  one : s.InLoop → ∀ i, s.outstanding i = if liveAt s.clients i then 1 else 0
  done : s.InLoop → s.clientsDone = s.clients.countP fun c => !c.live
  goesOn : s.pc = .wait → (∃ c ∈ s.clients, c.live = true) ∧ s.pending ≠ []
  ended : s.pc = .exit → ∀ c ∈ s.clients, c.live = false
  rounds : s.pc = .exit → ∀ i c, s.clients[i]? = some c → c.ok = true →
    Rounds (message i) (max 1 o.rounds).toNat (s.traffic i)

/-- No `int` overflows: neither `num_clients * 2` nor, when the last piece of an echo has come,
`--c.remaining`. -/
def NoOverflow (o : Options) (s : State) : Ev → Prop
  | .allocate ok => ok = true → o.numClients * 2 ≤ INT_MAX
  | .next => ∀ ready ud res cq c, s.pc = .batch (ready + 1) → s.cq = (ud, res) :: cq →
    s.clients[(decodeId ud).toNat]? = some c → decodeOp ud = OP_RECV → 0 < res →
    c.sendLen ≤ c.recvOff + res.toNat → c.remaining ≠ INT_MIN
  | _ => True

/-! ## A client -/

theorem isOp_connect : IsOp OP_CONNECT := by unfold IsOp; decide
theorem isOp_send : IsOp OP_SEND := by unfold IsOp; decide
theorem isOp_recv : IsOp OP_RECV := by unfold IsOp; decide

theorem message_pos (id : Nat) : 0 < (message id).length := by
  simp [message, bytesOf]

section Client

variable {msg bytes d : List UInt8} {k : Nat} {t : List Transfer}

/-- `bytes` of the message have been sent in the round after `k` rounds. -/
def SentSoFar (msg : List UInt8) (k : Nat) (bytes : List UInt8) (t : List Transfer) : Prop :=
  ∃ (t₀ : List Transfer) (out : List (List UInt8)), Rounds msg k t₀ ∧ t = t₀ ++ out.map .sent ∧
    out.flatten = bytes

/-- The message has been sent and `bytes` have come back. -/
def ReceivedSoFar (msg : List UInt8) (k : Nat) (bytes : List UInt8) (t : List Transfer) : Prop :=
  ∃ (t₀ : List Transfer) (out inn : List (List UInt8)), Rounds msg k t₀ ∧
    t = t₀ ++ out.map .sent ++ inn.map .received ∧ out.flatten = msg ∧ inn.flatten = bytes

theorem Rounds.start (h : Rounds msg k t) : SentSoFar msg k [] t :=
  ⟨t, [], h, (List.append_nil t).symm, rfl⟩

theorem SentSoFar.send (h : SentSoFar msg k bytes t) (d : List UInt8) :
    SentSoFar msg k (bytes ++ d) (t ++ [.sent d]) := by
  obtain ⟨t₀, out, hrounds, rfl, rfl⟩ := h
  exact ⟨t₀, out ++ [d], hrounds, by simp, by simp⟩

theorem SentSoFar.turn (h : SentSoFar msg k msg t) : ReceivedSoFar msg k [] t := by
  obtain ⟨t₀, out, hrounds, rfl, hout⟩ := h
  exact ⟨t₀, out, [], hrounds, by simp, hout, rfl⟩

theorem ReceivedSoFar.receive (h : ReceivedSoFar msg k bytes t) (d : List UInt8) :
    ReceivedSoFar msg k (bytes ++ d) (t ++ [.received d]) := by
  obtain ⟨t₀, out, inn, hrounds, rfl, hout, rfl⟩ := h
  exact ⟨t₀, out, inn ++ [d], hrounds, by simp, hout, by simp⟩

theorem ReceivedSoFar.finish (h : ReceivedSoFar msg k msg t) : Rounds msg (k + 1) t := by
  obtain ⟨t₀, out, inn, hrounds, rfl, hout, hin⟩ := h
  exact hrounds.succ hout hin

end Client

/-- A live client after `k` rounds: the fields that change only when a round ends. -/
structure Steady (rounds : Int) (i : Nat) (c : Client) (k : Nat) : Prop where
  ok : c.ok = true
  fd : 0 ≤ c.fd
  sendBuf : c.sendBuf = message i
  sendLen : c.sendLen = (message i).length
  remaining : c.remaining = rounds - k
  goesOn : k = 0 ∨ 0 < c.remaining

/-- What the client `c` has asked for, and how far it is; `t` is what went over its connection. -/
inductive Asked (i : Nat) (c : Client) (k : Nat) (t : List Transfer) : Sqe → Prop
  | connect (hk : k = 0) (ht : t = []) : Asked i c k t (connectSqe i c.fd)
  | send (hoff : c.sendOff < c.sendLen)
      (h : SentSoFar (message i) k ((message i).take c.sendOff) t) : Asked i c k t (sendSqe i c)
  | recv (hoff : c.recvOff < c.sendLen) (hlen : c.recvOff ≤ c.recvBuf.length)
      (h : ReceivedSoFar (message i) k (c.recvBuf.take c.recvOff) t) : Asked i c k t (recvSqe i c)

/-- What the client was answered. -/
inductive Answered (i : Nat) (c : Client) (k : Nat) (t : List Transfer) (res : Int) :
    BitVec 64 → Prop
  | connect (hk : k = 0) (ht : t = []) : Answered i c k t res (encode OP_CONNECT i)
  | send (hle : c.sendOff + res.toNat ≤ c.sendLen)
      (h : SentSoFar (message i) k ((message i).take (c.sendOff + res.toNat)) t) :
      Answered i c k t res (encode OP_SEND i)
  | recv (hle : c.recvOff + res.toNat ≤ c.sendLen)
      (hlen : c.recvOff + res.toNat ≤ c.recvBuf.length)
      (h : ReceivedSoFar (message i) k (c.recvBuf.take (c.recvOff + res.toNat)) t) :
      Answered i c k t res (encode OP_RECV i)

/-- A handler either asks for the next request or ends its client, unless `--c.remaining`
overflows. -/
inductive ReplyOk (rounds : Int) (i : Nat) (fd : Int) (t : List Transfer) : Reply → Prop
  | next {c' : Client} {q : Sqe} {k : Nat} (hsteady : Steady rounds i c' k) (h : Asked i c' k t q)
      (hfd : c'.fd = fd) : ReplyOk rounds i fd t (.next c' q)
  | ends {c' : Client} {close : Option Int} (hdead : c'.live = false)
      (hclose : close = none ∧ c'.fd = fd ∨ close = some fd ∧ c'.fd = -1)
      (hrounds : c'.ok = true → Rounds (message i) (max 1 rounds).toNat t) :
      ReplyOk rounds i fd t (.ends c' close)

section Handlers

variable {rounds : Int} {i : Nat} {c : Client} {k : Nat} {t : List Transfer} {res : Int}

theorem Steady.live (h : Steady rounds i c k) : c.live = true := by
  rw [Client.live, h.ok, Bool.true_and, decide_eq_true_iff]
  exact h.fd

theorem Steady.setOff (h : Steady rounds i c k) (sendOff recvOff : Nat) :
    Steady rounds i { c with sendOff := sendOff, recvOff := recvOff } k :=
  ⟨h.ok, h.fd, h.sendBuf, h.sendLen, h.remaining, h.goesOn⟩

theorem failClient_ok (h : Steady rounds i c k) : ReplyOk rounds i c.fd t (failClient c) := by
  rw [failClient, if_pos h.fd]
  exact .ends rfl (.inr ⟨rfl, rfl⟩) (by rintro ⟨⟩)

/-- The first message, or the message of the next round. -/
theorem asked_send (h : Rounds (message i) k t) (hs : Steady rounds i c k) (hoff : c.sendOff = 0) :
    Asked i c k t (sendSqe i c) := by
  refine .send ?_ ?_
  · rw [hoff, hs.sendLen]
    exact message_pos i
  · rw [hoff, List.take_zero]
    exact h.start

theorem onConnect_ok (h : Steady rounds i c k) (hk : k = 0) (ht : t = []) :
    ReplyOk rounds i c.fd t (onConnect i c res) := by
  unfold onConnect
  by_cases hres : res < 0
  · rw [if_pos hres]
    exact .ends rfl (.inl ⟨rfl, rfl⟩) (by rintro ⟨⟩)
  · rw [if_neg hres]
    have hsteady := h.setOff 0 0
    subst hk ht
    exact .next hsteady (asked_send .zero hsteady rfl) rfl

theorem onSend_ok (h : Steady rounds i c k) (hle : c.sendOff + res.toNat ≤ c.sendLen)
    (hsent : SentSoFar (message i) k ((message i).take (c.sendOff + res.toNat)) t) :
    ReplyOk rounds i c.fd t (onSend i c res) := by
  unfold onSend
  by_cases hres : res ≤ 0
  · rw [if_pos hres]
    exact failClient_ok h
  · rw [if_neg hres]
    by_cases hmore : c.sendOff + res.toNat < c.sendLen
    · rw [if_pos hmore]
      exact .next (h.setOff (c.sendOff + res.toNat) c.recvOff) (.send hmore hsent) rfl
    · rw [if_neg hmore]
      refine .next (h.setOff (c.sendOff + res.toNat) 0) ?_ rfl
      have hall : c.sendOff + res.toNat = (message i).length := by
        rw [← h.sendLen]
        omega
      rw [hall, List.take_length] at hsent
      refine .recv ?_ (Nat.zero_le _) hsent.turn
      rw [h.sendLen]
      exact message_pos i

theorem echoDone_ok (h : Steady rounds i c k)
    (hrecv : ReceivedSoFar (message i) k (c.recvBuf.take c.sendLen) t)
    (hmin : c.remaining ≠ INT_MIN) : ReplyOk rounds i c.fd t (echoDone i c) := by
  have hbuf : c.sendBuf.take c.sendLen = message i := by
    rw [h.sendBuf, h.sendLen, List.take_length]
  by_cases hmatch : c.mismatch = true
  · rw [echoDone, if_pos hmatch, if_neg hmin, if_pos (.inr Bool.false_ne_true)]
    exact .ends rfl (.inr ⟨rfl, rfl⟩) (by rintro ⟨⟩)
  · have hsame : c.recvBuf.take c.sendLen = message i := by
      rw [← hbuf]
      simpa [Client.mismatch] using hmatch
    rw [hsame] at hrecv
    rw [echoDone, if_neg hmatch, if_neg hmin]
    by_cases hlast : c.remaining - 1 ≤ 0
    · -- the last round
      rw [if_pos (.inl hlast)]
      refine .ends (by simp [Client.live]) (.inr ⟨rfl, rfl⟩) fun _ => ?_
      have hk : (max 1 rounds).toNat = k + 1 := by
        have hrem := h.remaining
        have hgo := h.goesOn
        omega
      rw [hk]
      exact hrecv.finish
    · have hgo : ¬(c.remaining - 1 ≤ 0 ∨ ¬c.ok = true) := not_or.2 ⟨hlast, not_not.2 h.ok⟩
      rw [if_neg hgo]
      have hrem : c.remaining - 1 = rounds - ((k + 1 : Nat) : Int) := by
        rw [h.remaining]
        omega
      have hsteady : Steady rounds i { c with remaining := c.remaining - 1, sendOff := 0 } (k + 1) :=
        ⟨h.ok, h.fd, h.sendBuf, h.sendLen, hrem, .inr (Int.not_le.1 hlast)⟩
      exact .next hsteady (asked_send hrecv.finish hsteady rfl) rfl

theorem onRecv_ok (h : Steady rounds i c k) (hle : c.recvOff + res.toNat ≤ c.sendLen)
    (hlen : c.recvOff + res.toNat ≤ c.recvBuf.length)
    (hrecv : ReceivedSoFar (message i) k (c.recvBuf.take (c.recvOff + res.toNat)) t)
    (hmin : 0 < res → c.sendLen ≤ c.recvOff + res.toNat → c.remaining ≠ INT_MIN) :
    ReplyOk rounds i c.fd t (onRecv i c res) := by
  by_cases hres : res ≤ 0
  · rw [onRecv, if_pos hres]
    exact failClient_ok h
  · have hsteady := h.setOff c.sendOff (c.recvOff + res.toNat)
    by_cases hmore : c.recvOff + res.toNat < c.sendLen
    · rw [onRecv, if_neg hres, if_pos hmore]
      exact .next hsteady (.recv hmore hlen hrecv) rfl
    · have hall : c.recvOff + res.toNat = c.sendLen := by omega
      rw [onRecv, if_neg hres, if_neg hmore]
      rw [hall] at hrecv
      have hnot := hmin (Int.not_le.1 hres) (Nat.le_of_eq hall.symm)
      exact echoDone_ok hsteady hrecv hnot

/-- `--c.remaining` overflows. -/
theorem onRecv_overflow (hpos : 0 < res) (hall : c.sendLen ≤ c.recvOff + res.toNat)
    (hmin : c.remaining = INT_MIN) : onRecv i c res = .overflow := by
  rw [onRecv, if_neg (Int.not_le.2 hpos), if_neg (Nat.not_lt.2 hall), echoDone]
  by_cases hmatch : ({ c with recvOff := c.recvOff + res.toNat } : Client).mismatch = true
  · rw [if_pos hmatch, if_pos hmin]
  · rw [if_neg hmatch, if_pos hmin]

/-- The numbers of clients are positive `int` values. -/
theorem decodeId_encode {op : BitVec 64} (hop : IsOp op) (hi : i < 2 ^ 31) :
    decodeId (encode op i) = i :=
  decodeFd_encode hop ⟨Int.natCast_nonneg i, by omega⟩

theorem Asked.owner {q : Sqe} (h : Asked i c k t q) (hi : i < 2 ^ 31) :
    (decodeId q.userData).toNat = i := by
  cases h with
  | connect hk ht => exact congrArg Int.toNat (decodeId_encode isOp_connect hi)
  | send hoff h => exact congrArg Int.toNat (decodeId_encode isOp_send hi)
  | recv hoff hlen h => exact congrArg Int.toNat (decodeId_encode isOp_recv hi)

theorem Asked.fd {q : Sqe} (h : Asked i c k t q) : q.fd = c.fd := by
  cases h with
  | connect hk ht => rfl
  | send hoff h => rfl
  | recv hoff hlen h => rfl

/-- **The kernel executes the request of a client.** -/
theorem transfer_asked {s : State} {q : Sqe} {data : List UInt8} (h : Steady rounds i c k)
    (ha : Asked i c k (s.traffic i) q) (hc : s.clients[i]? = some c)
    (hmay : KernelMay q (some i) res data) :
    ∃ c' t', transfer s q (some i) res data =
        { s with clients := s.clients.set i c', traffic := Function.update s.traffic i t' } ∧
      Steady rounds i c' k ∧ Answered i c' k t' res q.userData ∧ c'.fd = c.fd := by
  have hself : s.clients.set i c = s.clients := by
    obtain ⟨hlt, rfl⟩ := List.getElem?_eq_some_iff.1 hc
    exact List.set_getElem_self hlt
  cases ha with
  | connect hk ht =>
    refine ⟨c, s.traffic i, ?_, h, .connect hk ht, rfl⟩
    rw [hself, Function.update_eq_self]
    rfl
  | send hoff hsent =>
    obtain ⟨hres, -⟩ := hmay
    refine ⟨c, s.traffic i ++ [.sent (pread c.sendBuf c.sendOff res.toNat)], ?_, h, ?_, rfl⟩
    · rw [hself]
      simp only [transfer, sendSqe, hc]
    · refine .send (by omega) ?_
      have hnext := hsent.send (pread c.sendBuf c.sendOff res.toNat)
      rw [h.sendBuf, pread, ← List.take_add] at hnext
      rw [h.sendBuf]
      exact hnext
  | recv hoff hlen hrecv =>
    obtain ⟨hnat, -, hle⟩ : res.toNat = data.length ∧ res ≤ ((c.sendLen - c.recvOff : Nat) : Int) ∧
        data.length ≤ c.sendLen - c.recvOff := received_length hmay
    refine ⟨{ c with recvBuf := pwrite 0 c.recvBuf c.recvOff data },
      s.traffic i ++ [.received data], ?_, ⟨h.ok, h.fd, h.sendBuf, h.sendLen, h.remaining, h.goesOn⟩,
      ?_, rfl⟩
    · simp only [transfer, recvSqe, hc]
    · refine .recv ?_ ?_ ?_
      · show c.recvOff + res.toNat ≤ c.sendLen
        omega
      · rw [hnat]
        exact le_length_pwrite hlen data
      · rw [hnat]
        show ReceivedSoFar _ k ((pwrite 0 c.recvBuf c.recvOff data).take (c.recvOff + data.length)) _
        rw [take_pwrite hlen]
        exact hrecv.receive data

/-- **The program handles the completion of a client.** -/
theorem handleCqe_answered {s : State} {ud : BitVec 64} (hi : i < 2 ^ 31) (h : Steady rounds i c k)
    (ha : Answered i c k t res ud) (hc : s.clients[i]? = some c)
    (hmin : decodeOp ud = OP_RECV → 0 < res → c.sendLen ≤ c.recvOff + res.toNat →
      c.remaining ≠ INT_MIN) :
    ∃ r, s.handleCqe ud res = s.reply i r ∧ ReplyOk rounds i c.fd t r := by
  have hfd : IsFd i := ⟨Int.natCast_nonneg i, by omega⟩
  have hneg : ¬((i : Int) < 0) := by omega
  cases ha with
  | connect hk ht =>
    refine ⟨onConnect i c res, ?_, onConnect_ok h hk ht⟩
    simp only [State.handleCqe, decodeId_encode isOp_connect hi, decodeOp_encode isOp_connect hfd,
      hneg, Int.toNat_natCast, hc, if_false, if_true]
  | send hle hsent =>
    refine ⟨onSend i c res, ?_, onSend_ok h hle hsent⟩
    have hne : OP_SEND ≠ OP_CONNECT := by decide
    simp only [State.handleCqe, decodeId_encode isOp_send hi, decodeOp_encode isOp_send hfd,
      hneg, Int.toNat_natCast, hc, if_false, if_true, hne]
  | recv hle hlen hrecv =>
    have hop : decodeOp (encode OP_RECV i) = OP_RECV := decodeOp_encode isOp_recv hfd
    refine ⟨onRecv i c res, ?_, onRecv_ok h hle hlen hrecv (hmin hop)⟩
    have hne : OP_RECV ≠ OP_CONNECT := by decide
    have hne' : OP_RECV ≠ OP_SEND := by decide
    simp only [State.handleCqe, decodeId_encode isOp_recv hi, hop, hneg, Int.toNat_natCast, hc,
      if_false, if_true, hne, hne']

end Handlers

/-! ## The requests of the clients -/

inductive PendingOk (rounds : Int) (i : Nat) (c : Client) (t : List Transfer) : Pending → Prop
  | queued {q : Sqe} {k : Nat} (hs : Steady rounds i c k) (h : Asked i c k t q) :
      PendingOk rounds i c t (.queued q)
  | armed {q : Sqe} {k : Nat} (hs : Steady rounds i c k) (h : Asked i c k t q) :
      PendingOk rounds i c t (.armed q (some i))
  | done {ud : BitVec 64} {res : Int} {k : Nat} (hs : Steady rounds i c k)
      (h : Answered i c k t res ud) : PendingOk rounds i c t (.done ud res)

/-- Each live client has one request, which says how far it is. -/
structure Ledger (rounds : Int) (clients : List Client) (traffic : Nat → List Transfer)
    (ps : List Pending) : Prop where
  roster : Roster ps Pending.owner fun i => liveAt clients i = true
  ops : ∀ p ∈ ps, ∃ c, clients[p.owner]? = some c ∧
    PendingOk rounds p.owner c (traffic p.owner) p

section Ledger

variable {rounds : Int} {clients : List Client} {traffic : Nat → List Transfer} {p p' : Pending}
  {ps ps' : List Pending} {i j : Nat} {c c' : Client} {t : List Transfer}

theorem PendingOk.live (h : PendingOk rounds i c t p) : c.live = true := by
  cases h with
  | queued hs h => exact hs.live
  | armed hs h => exact hs.live
  | done hs h => exact hs.live

theorem PendingOk.of_armed {q : Sqe} {file : Option Nat}
    (h : PendingOk rounds i c t (.armed q file)) :
    file = some i ∧ ∃ k, Steady rounds i c k ∧ Asked i c k t q := by
  cases h with
  | armed hs h => exact ⟨rfl, _, hs, h⟩

theorem PendingOk.of_done {ud : BitVec 64} {res : Int} (h : PendingOk rounds i c t (.done ud res)) :
    ∃ k, Steady rounds i c k ∧ Answered i c k t res ud := by
  cases h with
  | done hs h => exact ⟨_, hs, h⟩

theorem getElem?_set_self (hc : clients[i]? = some c) (c' : Client) :
    (clients.set i c')[i]? = some c' := by
  obtain ⟨hlt, -⟩ := List.getElem?_eq_some_iff.1 hc
  exact List.getElem?_set_self hlt

theorem liveAt_of (hc : clients[i]? = some c) : liveAt clients i = c.live := by
  rw [liveAt, hc]
  rfl

theorem liveAt_set_ne (hne : j ≠ i) (c' : Client) :
    liveAt (clients.set i c') j = liveAt clients j := by
  rw [liveAt, liveAt, List.getElem?_set_ne (Ne.symm hne)]

namespace Ledger

theorem perm (h : Ledger rounds clients traffic ps) (hp : ps.Perm ps') :
    Ledger rounds clients traffic ps' :=
  ⟨h.roster.perm hp, fun p hmem => h.ops p (hp.mem_iff.2 hmem)⟩

theorem tail_ne (h : Ledger rounds clients traffic (p :: ps)) (hp : p.owner = i) :
    ∀ p' ∈ ps, p'.owner ≠ i :=
  fun _ hmem => hp ▸ h.roster.owner_ne hmem

/-- The request of a client goes on to its next state. -/
theorem advance (h : Ledger rounds clients traffic (p :: ps)) (p' : Pending)
    (hp' : p'.owner = p.owner)
    (hok : ∀ c, clients[p.owner]? = some c → PendingOk rounds p.owner c (traffic p.owner) p →
      PendingOk rounds p.owner c (traffic p.owner) p') :
    Ledger rounds clients traffic (p' :: ps) := by
  refine ⟨h.roster.requeue hp', fun p₁ hp₁ => ?_⟩
  obtain rfl | hp₁ := List.mem_cons.1 hp₁
  · rw [hp']
    obtain ⟨c, hc, hbefore⟩ := h.ops p List.mem_cons_self
    exact ⟨c, hc, hok c hc hbefore⟩
  · exact h.ops p₁ (List.mem_cons_of_mem _ hp₁)

/-- The next request of the client `i`, or the answer to its request. -/
theorem requeue (h : Ledger rounds clients traffic (p :: ps)) (hp : p.owner = i)
    (hc : clients[i]? = some c) (p' : Pending) (hp' : p'.owner = i) (hok : PendingOk rounds i c' t p') :
    Ledger rounds (clients.set i c') (Function.update traffic i t) (p' :: ps) := by
  have hlive : liveAt clients i = true := (h.roster.live_iff i).2 (by simp [hp])
  refine ⟨(h.roster.requeue (hp'.trans hp.symm)).congr fun j => ?_, ?_⟩
  · by_cases hj : j = i
    · rw [hj, liveAt_of (getElem?_set_self hc c')]
      exact iff_of_true hok.live hlive
    · rw [liveAt_set_ne hj]
  · intro p₁ hp₁
    obtain rfl | hp₁ := List.mem_cons.1 hp₁
    · rw [hp', Function.update_self]
      exact ⟨c', getElem?_set_self hc c', hok⟩
    · have hne := h.tail_ne hp p₁ hp₁
      rw [List.getElem?_set_ne (Ne.symm hne), Function.update_of_ne hne]
      exact h.ops p₁ (List.mem_cons_of_mem _ hp₁)

/-- The client `i` ends. -/
theorem retire (h : Ledger rounds clients traffic (p :: ps)) (hp : p.owner = i)
    (hc : clients[i]? = some c) (hdead : c'.live = false) :
    Ledger rounds (clients.set i c') traffic ps := by
  refine ⟨h.roster.retire fun j => ?_, fun p₁ hp₁ => ?_⟩
  · rw [hp]
    by_cases hj : j = i
    · rw [hj, liveAt_of (getElem?_set_self hc c'), hdead]
      exact iff_of_false Bool.false_ne_true fun hlive => hlive.2 rfl
    · rw [liveAt_set_ne hj]
      exact (and_iff_left hj).symm
  · rw [List.getElem?_set_ne (Ne.symm (h.tail_ne hp p₁ hp₁))]
    exact h.ops p₁ (List.mem_cons_of_mem _ hp₁)

/-- The first request of the client `i`. -/
theorem spawn (h : Ledger rounds clients traffic ps) (hc : clients[i]? = some c)
    (hnew : c.live = false) (hp : p.owner = i) (hok : PendingOk rounds i c' (traffic i) p) :
    Ledger rounds (clients.set i c') traffic (p :: ps) := by
  have hnot : ¬liveAt clients i = true := by
    rw [liveAt_of hc, hnew]
    exact Bool.false_ne_true
  refine ⟨h.roster.spawn (hp ▸ hnot) fun j => ?_, fun p₁ hp₁ => ?_⟩
  · rw [hp]
    by_cases hj : j = i
    · rw [hj, liveAt_of (getElem?_set_self hc c')]
      exact iff_of_true hok.live (.inr rfl)
    · rw [liveAt_set_ne hj]
      exact (or_iff_left hj).symm
  · obtain rfl | hp₁ := List.mem_cons.1 hp₁
    · rw [hp]
      exact ⟨c', getElem?_set_self hc c', hok⟩
    · have hne : p₁.owner ≠ i := by
        rintro rfl
        exact hnot ((h.roster.live_iff _).2 (List.mem_map_of_mem hp₁))
      rw [List.getElem?_set_ne (Ne.symm hne)]
      exact h.ops p₁ hp₁

/-- There are no more requests than clients. -/
theorem length_le (h : Ledger rounds clients traffic ps) {n : Nat}
    (hn : ∀ i, liveAt clients i = true → i < n) : ps.length ≤ n :=
  h.roster.length_le hn

end Ledger

theorem lt_of_liveAt (h : liveAt clients i = true) : i < clients.length := by
  unfold liveAt at h
  cases hc : clients[i]? with
  | none =>
    rw [hc] at h
    cases h
  | some c => exact (List.getElem?_eq_some_iff.1 hc).1

end Ledger

/-! ## The clients -/

/-- The clients below `started` have a socket; those that have ended were counted. -/
structure Books (o : Options) (clients : List Client) (started clientsDone : Nat)
    (files : Int → Option Nat) (traffic : Nat → List Transfer) : Prop where
  fresh : ∀ i c, started ≤ i → clients[i]? = some c → c = Client.init o.rounds i
  untouched : ∀ i, started ≤ i → traffic i = []
  finished : ∀ i c, i < started → clients[i]? = some c → c.live = false → c.ok = true →
    Rounds (message i) (max 1 o.rounds).toNat (traffic i)
  count : clientsDone + (clients.length - started) = clients.countP fun c => !c.live
  files : ∀ i c, clients[i]? = some c → 0 ≤ c.fd → files c.fd = some i

section Books

variable {o : Options} {clients : List Client} {started clientsDone i j : Nat}
  {files : Int → Option Nat} {traffic : Nat → List Transfer} {c c' : Client}

theorem init_dead (rounds : Int) (i : Nat) : (Client.init rounds i).live = false := rfl

/-- What is behind `i` in the vector, and `i` itself. -/
theorem getElem?_set_cases (hc : (clients.set i c')[j]? = some c) :
    j = i ∧ c = c' ∨ j ≠ i ∧ clients[j]? = some c := by
  by_cases hj : j = i
  · subst hj
    rw [List.getElem?_set] at hc
    simp only [if_true] at hc
    split at hc
    · cases hc
      exact .inl ⟨rfl, rfl⟩
    · cases hc
  · rw [List.getElem?_set_ne (Ne.symm hj)] at hc
    exact .inr ⟨hj, hc⟩

/-- One client changes: the number of those that have ended. -/
theorem countP_set_client (hc : clients[i]? = some c) (c' : Client) :
    ((clients.set i c').countP fun c => !c.live) + (if c.live then 0 else 1) =
      (clients.countP fun c => !c.live) + if c'.live then 0 else 1 := by
  obtain ⟨hlt, rfl⟩ := List.getElem?_eq_some_iff.1 hc
  have hpos : clients[i].live = false → 0 < clients.countP fun c => !c.live := fun hdead =>
    List.countP_pos_iff.2 ⟨clients[i], List.getElem_mem hlt, by rw [hdead]; rfl⟩
  rw [List.countP_set hlt]
  cases hlive : clients[i].live <;> cases c'.live <;> simp <;> have := hpos hlive <;> omega

namespace Books

theorem started_of_live (h : Books o clients started clientsDone files traffic)
    (hc : clients[i]? = some c) (hlive : c.live = true) : i < started := by
  by_contra hnot
  rw [h.fresh i c (Nat.not_lt.1 hnot) hc, init_dead] at hlive
  cases hlive

/-- A client goes on. -/
theorem goesOn (h : Books o clients started clientsDone files traffic)
    (hc : clients[i]? = some c) (hlive : c.live = true) (hlive' : c'.live = true)
    (hfd : c'.fd = c.fd) (t : List Transfer) :
    Books o (clients.set i c') started clientsDone files (Function.update traffic i t) where
  fresh j d hj hd := by
    have hne : j ≠ i := Nat.ne_of_gt (Nat.lt_of_lt_of_le (h.started_of_live hc hlive) hj)
    rw [List.getElem?_set_ne (Ne.symm hne)] at hd
    exact h.fresh j d hj hd
  untouched j hj := by
    have hne : j ≠ i := Nat.ne_of_gt (Nat.lt_of_lt_of_le (h.started_of_live hc hlive) hj)
    rw [Function.update_of_ne hne]
    exact h.untouched j hj
  finished j d hj hd hdead hok := by
    obtain ⟨-, rfl⟩ | ⟨hne, hd⟩ := getElem?_set_cases hd
    · rw [hlive'] at hdead
      cases hdead
    · rw [Function.update_of_ne hne]
      exact h.finished j d hj hd hdead hok
  count := by
    have hset := countP_set_client hc c'
    rw [hlive, hlive'] at hset
    rw [List.length_set, h.count]
    exact (Nat.add_right_cancel hset).symm
  files j d hd hfd' := by
    obtain ⟨rfl, rfl⟩ | ⟨-, hd⟩ := getElem?_set_cases hd
    · rw [hfd]
      exact h.files j c hc (hfd ▸ hfd')
    · exact h.files j d hd hfd'

/-- A client ends. -/
theorem ends (h : Books o clients started clientsDone files traffic) {files' : Int → Option Nat}
    (hc : clients[i]? = some c) (hlive : c.live = true) (hdead : c'.live = false)
    (hclose : files' = files ∧ c'.fd = c.fd ∨
      files' = Function.update files c.fd none ∧ c'.fd = -1)
    (hrounds : c'.ok = true → Rounds (message i) (max 1 o.rounds).toNat (traffic i)) :
    Books o (clients.set i c') started (clientsDone + 1) files' traffic where
  fresh j d hj hd := by
    have hne : j ≠ i := Nat.ne_of_gt (Nat.lt_of_lt_of_le (h.started_of_live hc hlive) hj)
    rw [List.getElem?_set_ne (Ne.symm hne)] at hd
    exact h.fresh j d hj hd
  untouched := h.untouched
  finished j d hj hd hdead' hok := by
    obtain ⟨rfl, rfl⟩ | ⟨-, hd⟩ := getElem?_set_cases hd
    · exact hrounds hok
    · exact h.finished j d hj hd hdead' hok
  count := by
    have hset := countP_set_client hc c'
    rw [hlive, hdead] at hset
    have hcount := h.count
    rw [List.length_set]
    simp only [if_true, Bool.false_eq_true, if_false, Nat.add_zero] at hset
    omega
  files j d hd hfd := by
    have hown : files c.fd = some i :=
      h.files i c hc (by simpa using (Bool.and_eq_true_iff.1 hlive).2)
    obtain ⟨rfl, rfl⟩ | ⟨hne, hd⟩ := getElem?_set_cases hd
    · obtain ⟨rfl, hsame⟩ | ⟨-, hclosed⟩ := hclose
      · rw [hsame]
        exact hown
      · rw [hclosed] at hfd
        exact absurd hfd (by decide)
    · have hother := h.files j d hd hfd
      obtain ⟨rfl, -⟩ | ⟨rfl, -⟩ := hclose
      · exact hother
      · have hfds : d.fd ≠ c.fd := by
          intro heq
          rw [heq, hown] at hother
          exact hne (Option.some.inj hother).symm
        rw [Function.update_of_ne hfds]
        exact hother

/-- The next client gets its socket. -/
theorem starts (h : Books o clients started clientsDone files traffic)
    (hc : clients[started]? = some c) {fd : Int} (hfd : 0 ≤ fd) (hfree : files fd = none) :
    Books o (clients.set started { c with fd := fd }) (started + 1) clientsDone
      (Function.update files fd (some started)) traffic where
  fresh j d hj hd := by
    have hne : j ≠ started := Nat.ne_of_gt hj
    rw [List.getElem?_set_ne (Ne.symm hne)] at hd
    exact h.fresh j d (Nat.le_of_succ_le hj) hd
  untouched j hj := h.untouched j (Nat.le_of_succ_le hj)
  finished j d hj hd hdead hok := by
    obtain ⟨-, rfl⟩ | ⟨hne, hd⟩ := getElem?_set_cases hd
    · have hinit := h.fresh started c (Nat.le_refl _) hc
      subst hinit
      simp [Client.live, Client.init, hfd] at hdead
    · exact h.finished j d (by omega) hd hdead hok
  count := by
    have hinit := h.fresh started c (Nat.le_refl _) hc
    have hlive : ({ c with fd := fd } : Client).live = true := by
      simp [hinit, Client.live, Client.init, hfd]
    have hdead : c.live = false := by rw [hinit, init_dead]
    have hset := countP_set_client hc { c with fd := fd }
    have hcount := h.count
    have hlt := (List.getElem?_eq_some_iff.1 hc).1
    rw [hlive, hdead] at hset
    rw [List.length_set]
    simp only [if_true, Bool.false_eq_true, if_false, Nat.add_zero] at hset
    omega
  files j d hd hfd' := by
    obtain ⟨rfl, rfl⟩ | ⟨hne, hd⟩ := getElem?_set_cases hd
    · exact Function.update_self ..
    · have hother := h.files j d hd hfd'
      have hfds : d.fd ≠ fd := by
        intro heq
        rw [heq, hfree] at hother
        cases hother
      rw [Function.update_of_ne hfds]
      exact hother

end Books

end Books

/-! ## The invariant -/

/-- The number of clients that have been given a socket, of `n`. -/
def Pc.started (n : Nat) : Pc → Nat
  | .start | .ring => 0
  | .setup i => i
  | _ => n

/-- Until an exception. -/
structure Inv (o : Options) (s : State) : Prop where
  defined : s.pc ≠ .undefined
  fits : s.pc ≠ .queueFull
  empty : s.pc = .start → s.clients = []
  length : s.pc ≠ .start → (s.clients.length : Int) = o.numClients
  room : s.pc ≠ .start → s.pc ≠ .ring → s.clients.length ≤ s.entries
  started_le : s.pc.started s.clients.length ≤ s.clients.length
  books : Books o s.clients (s.pc.started s.clients.length) s.clientsDone s.files s.traffic
  ledger : Ledger o.rounds s.clients s.traffic s.pending
  waits : s.pc = .wait → s.clientsDone < s.clients.length
  exits : s.pc = .exit → s.clients.length ≤ s.clientsDone

section Inv

variable {o : Options} {s s' : State} {i : Nat} {c : Client} {q : Sqe}

theorem Inv.lt (h : Inv o s) (hi : i < s.clients.length) : i < 2 ^ 31 := by
  have hne : s.pc ≠ .start := by
    intro hpc
    rw [h.empty hpc] at hi
    exact absurd hi (Nat.not_lt_zero i)
  have hlen := h.length hne
  have hmax : o.numClients ≤ INT_MAX := o.numClients_isInt.2
  unfold INT_MAX at hmax
  omega

/-- What a step of the program to another place needs. -/
theorem Inv.goto (h : Inv o s) {pc : Pc} (hdefined : pc ≠ .undefined) (hfits : pc ≠ .queueFull)
    (hstart : pc ≠ .start) (hlength : s.pc ≠ .start) (hroom : s.pc ≠ .ring)
    (hstarted : pc.started s.clients.length = s.pc.started s.clients.length)
    (hwait : pc = .wait → s.clientsDone < s.clients.length)
    (hexit : pc = .exit → s.clients.length ≤ s.clientsDone) : Inv o { s with pc := pc } where
  defined := hdefined
  fits := hfits
  empty hpc := absurd hpc hstart
  length _ := h.length hlength
  room _ _ := h.room hlength hroom
  started_le := hstarted.trans_le h.started_le
  books := by
    rw [hstarted]
    exact h.books
  ledger := h.ledger
  waits := hwait
  exits := hexit

/-- The loop condition. -/
theorem Inv.loopTop (h : Inv o s) (hstart : s.pc ≠ .start) (hring : s.pc ≠ .ring)
    (hstarted : s.pc.started s.clients.length = s.clients.length) : Inv o (s.loopTop o) := by
  have hlen := h.length hstart
  unfold State.loopTop
  by_cases hmore : (s.clientsDone : Int) < o.numClients
  · rw [if_pos hmore]
    refine h.goto (by simp) (by simp) (by simp) hstart hring hstarted.symm ?_ (by simp)
    intro _
    omega
  · rw [if_neg hmore]
    refine h.goto (by simp) (by simp) (by simp) hstart hring hstarted.symm (by simp) ?_
    intro _
    omega

/-- What a step of a client needs. -/
theorem Inv.setClient (h : Inv o s) (hpc : s'.pc = s.pc) (hentries : s'.entries = s.entries)
    (hlen : s'.clients.length = s.clients.length)
    (hbooks : Books o s'.clients (s.pc.started s.clients.length) s'.clientsDone s'.files s'.traffic)
    (hledger : Ledger o.rounds s'.clients s'.traffic s'.pending)
    (hwait : s.pc = .wait → s'.clientsDone < s.clients.length)
    (hexit : s.pc = .exit → s.clients.length ≤ s'.clientsDone) : Inv o s' where
  defined := hpc ▸ h.defined
  fits := hpc ▸ h.fits
  empty hstart := by
    have hempty := h.empty (hpc ▸ hstart)
    rw [← List.length_eq_zero_iff] at hempty ⊢
    exact hlen.trans hempty
  length hstart := (congrArg Nat.cast hlen).trans (h.length (hpc ▸ hstart))
  room hstart hring := by
    rw [hlen, hentries]
    exact h.room (hpc ▸ hstart) (hpc ▸ hring)
  started_le := by
    rw [hpc, hlen]
    exact h.started_le
  books := by
    rw [hpc, hlen]
    exact hbooks
  ledger := hledger
  waits hwait' := by
    rw [hlen]
    exact hwait (hpc ▸ hwait')
  exits hexit' := by
    rw [hlen]
    exact hexit (hpc ▸ hexit')

/-- The next submission reaches the kernel. -/
theorem Inv.submit (h : Inv o s) {sq : List Sqe} (hsq : s.sq = q :: sq) :
    Inv o { s with sq := sq, flight := s.flight ++ [(q, s.files q.fd)] } := by
  have hbefore : s.pending.Perm (.queued q :: ({ s with sq := sq } : State).pending) := by
    rw [State.pending, hsq]
    exact List.perm_middle
  have hafter : (Pending.armed q (s.files q.fd) :: ({ s with sq := sq } : State).pending).Perm
      ({ s with sq := sq, flight := s.flight ++ [(q, s.files q.fd)] } : State).pending := by
    simp only [State.pending, List.map_append, List.map_cons, List.map_nil, List.append_assoc]
    exact List.perm_middle.symm
  have hledger := (h.ledger.perm hbefore).advance (.armed q (s.files q.fd)) rfl (by
    rintro c hc (⟨hs, ha⟩ | _ | _)
    have hfile := h.books.files _ c hc hs.fd
    rw [ha.fd, hfile]
    exact .armed hs ha)
  exact h.setClient rfl rfl rfl h.books (hledger.perm hafter) h.waits h.exits

/-- The kernel executes a request. -/
theorem Inv.exec (h : Inv o s) {k : Nat} {file : Option Nat} {res : Int} {data : List UInt8}
    (hk : s.flight[k]? = some (q, file)) (hmay : KernelMay q file res data) :
    Inv o (transfer { s with flight := s.flight.eraseIdx k, cq := s.cq ++ [(q.userData, res)] }
      q file res data) := by
  let rest : State := { s with flight := s.flight.eraseIdx k }
  have hbefore : s.pending.Perm (.armed q file :: rest.pending) := by
    obtain ⟨hlt, hget⟩ := List.getElem?_eq_some_iff.1 hk
    have hflight := (List.getElem_cons_eraseIdx_perm hlt).symm
    rw [hget] at hflight
    exact (hflight.map fun r => Pending.armed r.1 r.2).append_right _
  have hafter : (Pending.done q.userData res :: rest.pending).Perm
      ({ rest with cq := s.cq ++ [(q.userData, res)] } : State).pending := by
    simp only [State.pending, rest, List.map_append, List.map_cons, List.map_nil]
    rw [← List.append_assoc, ← List.append_assoc, ← List.append_assoc]
    exact (List.perm_append_singleton _ _).symm
  have hledger := h.ledger.perm hbefore
  obtain ⟨c, hc, hok⟩ := hledger.ops _ List.mem_cons_self
  generalize hi : Pending.owner (.armed q file) = i at hc hok
  obtain ⟨rfl, m, hs, ha⟩ := hok.of_armed
  obtain ⟨c', t', htransfer, hs', hanswer, hfd⟩ := transfer_asked
    (s := { rest with cq := s.cq ++ [(q.userData, res)] }) hs ha hc hmay
  rw [htransfer]
  have hnew := hledger.requeue hi hc (.done q.userData res) hi (.done hs' hanswer)
  have hbooks := h.books.goesOn hc hs.live hs'.live hfd t'
  exact h.setClient rfl rfl List.length_set hbooks (hnew.perm hafter) h.waits h.exits

theorem sq_length_le (s : State) : s.sq.length ≤ s.pending.length := by
  simp [State.pending]
  omega

theorem pending_queue (s : State) (q : Sqe) :
    (Pending.queued q :: s.pending).Perm ({ s with sq := s.sq ++ [q] } : State).pending := by
  simp only [State.pending, List.map_append, List.map_cons, List.map_nil, List.append_assoc]
  rw [← List.append_assoc, ← List.append_assoc]
  exact List.perm_middle.symm

/-- The next client gets its socket and asks for its connection. -/
theorem Inv.socket (h : Inv o s) (hpc : s.pc = .setup i) (hc : s.clients[i]? = some c) {fd : Int}
    (hfd : 0 ≤ fd) (hfree : s.files fd = none) :
    Inv o (({ s with
      clients := s.clients.set i { c with fd := fd }
      files := Function.update s.files fd (some i), pc := .setup (i + 1) } : State).getSqe
        (connectSqe i fd)) := by
  have hlt := (List.getElem?_eq_some_iff.1 hc).1
  have hstart : s.pc ≠ .start := by simp [hpc]
  have hring : s.pc ≠ .ring := by simp [hpc]
  have hbooks := h.books
  rw [hpc] at hbooks
  have hinit := hbooks.fresh i c (Nat.le_refl _) hc
  have htraffic : s.traffic i = [] := hbooks.untouched i (Nat.le_refl _)
  have hsteady : Steady o.rounds i { c with fd := fd } 0 := by
    rw [hinit]
    exact ⟨rfl, hfd, rfl, rfl, (Int.sub_zero _).symm, .inl rfl⟩
  have hdead : c.live = false := by rw [hinit, init_dead]
  have howner : Pending.owner (.queued (connectSqe i fd)) = i :=
    congrArg Int.toNat (decodeId_encode isOp_connect (h.lt hlt))
  have hask : Asked i { c with fd := fd } 0 (s.traffic i) (connectSqe i fd) := .connect rfl htraffic
  have hledger := h.ledger.spawn hc hdead howner (.queued hsteady hask)
  have hlen : (s.clients.set i { c with fd := fd }).length = s.clients.length := List.length_set
  have hfewer : s.pending.length < s.clients.length := by
    refine Nat.lt_of_le_of_lt (h.ledger.length_le (n := i) fun j hj => ?_) hlt
    have hjlt := lt_of_liveAt hj
    rw [liveAt_of (List.getElem?_eq_getElem hjlt)] at hj
    exact hbooks.started_of_live (List.getElem?_eq_getElem hjlt) hj
  -- so that `get_sqe` finds a slot
  have hslot : s.sq.length < s.entries :=
    ((sq_length_le s).trans_lt hfewer).trans_le (h.room hstart hring)
  rw [State.getSqe, if_pos hslot]
  exact
    { defined := by rintro ⟨⟩
      fits := by rintro ⟨⟩
      empty := by rintro ⟨⟩
      length := fun _ => (congrArg Nat.cast hlen).trans (h.length hstart)
      room := fun _ _ => hlen.trans_le (h.room hstart hring)
      started_le := hlt.trans_eq hlen.symm
      books := hbooks.starts hc hfd hfree
      ledger := hledger.perm (pending_queue _ _)
      waits := by rintro ⟨⟩
      exits := by rintro ⟨⟩ }

/-- The reply to a completion. -/
theorem Inv.reply (h : Inv o s) {ready : Nat} (hpc : s.pc = .batch (ready + 1)) {ud : BitVec 64}
    {res : Int} {cq : List (BitVec 64 × Int)} (hcq : s.cq = (ud, res) :: cq)
    (howner : (decodeId ud).toNat = i) (hc : s.clients[i]? = some c) (hlive : c.live = true)
    (hi : i < 2 ^ 31) {r : Reply} (hr : ReplyOk o.rounds i c.fd (s.traffic i) r) :
    Inv o (({ s with cq := cq, pc := .batch ready } : State).reply i r) := by
  let rest : State := { s with cq := cq, pc := .batch ready }
  have hstart : s.pc ≠ .start := by simp [hpc]
  have hring : s.pc ≠ .ring := by simp [hpc]
  have hpending : s.pending.Perm (.done ud res :: rest.pending) := by
    rw [State.pending, hcq, List.map_cons, ← List.append_assoc]
    refine List.perm_middle.trans (.cons _ ?_)
    rw [List.append_assoc]
    exact List.Perm.refl _
  have hledger := h.ledger.perm hpending
  have hrest : Inv o { s with pc := .batch ready } := by
    refine h.goto (by simp) (by simp) (by simp) hstart hring ?_ (by simp) (by simp)
    simp [hpc, Pc.started]
  cases hr with
  | @next c' q k hs ha hfd =>
    have hfewer : rest.pending.length < s.clients.length := by
      have hle := hledger.length_le fun j hj => lt_of_liveAt hj
      exact hle
    have hlen : (s.clients.set i c').length = s.clients.length := List.length_set
    have hnew := hledger.requeue howner hc (.queued q) (ha.owner hi) (.queued hs ha)
    have hbooks := hrest.books.goesOn hc hlive hs.live hfd (s.traffic i)
    rw [Function.update_eq_self] at hnew hbooks
    have hslot : s.sq.length < s.entries :=
      ((sq_length_le rest).trans_lt hfewer).trans_le (h.room hstart hring)
    rw [State.reply, State.getSqe, if_pos hslot]
    exact hrest.setClient rfl rfl hlen hbooks (hnew.perm (pending_queue _ _)) (by simp) (by simp)
  | @ends c' close hdead hclose hrounds =>
    have hnew := hledger.retire howner hc hdead
    obtain ⟨rfl, hfd⟩ | ⟨rfl, hfd⟩ := hclose
    · have hbooks := hrest.books.ends hc hlive hdead (.inl ⟨rfl, hfd⟩) hrounds
      exact hrest.setClient rfl rfl List.length_set hbooks hnew (by simp) (by simp)
    · have hbooks := hrest.books.ends hc hlive hdead (.inr ⟨rfl, hfd⟩) hrounds
      exact hrest.setClient rfl rfl List.length_set hbooks hnew (by simp) (by simp)

/-- The clients are allocated. -/
theorem Inv.allocate (h : Inv o s) (hpc : s.pc = .start) (hn : 0 ≤ o.numClients) :
    Inv o { s with
      clients := (List.range o.numClients.toNat).map (Client.init o.rounds), pc := .ring } := by
  have hclients := h.empty hpc
  have hbooks := h.books
  have hledger := h.ledger
  rw [hpc, hclients] at hbooks
  have hnone : s.pending = [] := by
    rw [hclients] at hledger
    refine List.length_eq_zero_iff.1 (Nat.le_zero.1 (hledger.length_le fun j hj => ?_))
    exact lt_of_liveAt hj
  have hdone : s.clientsDone = 0 := by simpa using hbooks.count
  have hget : ∀ i c, ((List.range o.numClients.toNat).map (Client.init o.rounds))[i]? = some c →
      c = Client.init o.rounds i := by
    intro i c hc
    obtain ⟨hlt, rfl⟩ := List.getElem?_eq_some_iff.1 hc
    simp
  have hdead : ∀ i, ¬liveAt ((List.range o.numClients.toNat).map (Client.init o.rounds)) i = true := by
    intro i hi
    have hc := List.getElem?_eq_getElem (lt_of_liveAt hi)
    rw [liveAt_of hc, hget i _ hc, init_dead] at hi
    cases hi
  exact
    { defined := by rintro ⟨⟩
      fits := by rintro ⟨⟩
      empty := by rintro ⟨⟩
      length := fun _ => by
        rw [List.length_map, List.length_range]
        omega
      room := fun _ hring => absurd rfl hring
      started_le := Nat.zero_le _
      books :=
        { fresh := fun i c _ hc => hget i c hc
          untouched := hbooks.untouched
          finished := fun i c hi => absurd hi (Nat.not_lt_zero i)
          count := by
            rw [hdone, Nat.zero_add]
            refine (List.countP_eq_length.2 fun c hc => ?_).symm
            obtain ⟨i, -, rfl⟩ := List.mem_map.1 hc
            rw [init_dead]
            rfl
          files := fun i c hc hfd => by
            rw [hget i c hc] at hfd
            exact absurd hfd (show ¬(0 : Int) ≤ -1 by decide) }
      ledger := by
        have hroster : Ledger o.rounds ((List.range o.numClients.toNat).map (Client.init o.rounds))
            s.traffic [] := ⟨.nil hdead, by rintro _ ⟨⟩⟩
        rw [← hnone] at hroster
        exact hroster
      waits := by rintro ⟨⟩
      exits := by rintro ⟨⟩ }

/-- **The accounting is right.** -/
theorem Inv.accounted (h : Inv o s) : Accounted o s := by
  have hloop : s.InLoop → s.pc ≠ .start ∧ s.pc.started s.clients.length = s.clients.length := by
    rintro (hpc | hpc | ⟨ready, hpc⟩) <;> rw [hpc] <;> exact ⟨by rintro ⟨⟩, rfl⟩
  have hdone : s.InLoop → s.clientsDone = s.clients.countP fun c => !c.live := by
    intro hin
    have hcount := h.books.count
    rw [(hloop hin).2, Nat.sub_self, Nat.add_zero] at hcount
    exact hcount
  have hended : s.pc = .exit → ∀ c ∈ s.clients, c.live = false := by
    intro hpc c hc
    have hle := h.exits hpc
    rw [hdone (.inr (.inl hpc))] at hle
    have hall := List.countP_eq_length.1 (Nat.le_antisymm List.countP_le_length hle) c hc
    simpa using hall
  refine ⟨h.defined, h.fits, fun hin => h.length (hloop hin).1, fun _ i => ?_, hdone, ?_, hended, ?_⟩
  · exact h.ledger.roster.count i
  · intro hpc
    have hlt := h.waits hpc
    rw [hdone (.inl hpc)] at hlt
    obtain ⟨c, hc, hlive⟩ : ∃ c ∈ s.clients, c.live = true := by
      by_contra hnone
      have hall : (s.clients.countP fun c => !c.live) = s.clients.length :=
        List.countP_eq_length.2 fun c hc => by simpa using fun hlive => hnone ⟨c, hc, hlive⟩
      exact absurd hall (Nat.ne_of_lt hlt)
    refine ⟨⟨c, hc, hlive⟩, fun hnil => ?_⟩
    obtain ⟨i, hi⟩ := List.mem_iff_getElem?.1 hc
    have hmem := (h.ledger.roster.live_iff i).1 (by rw [liveAt_of hi, hlive])
    rw [hnil] at hmem
    cases hmem
  · intro hpc i c hc hok
    obtain ⟨hlt, hget⟩ := List.getElem?_eq_some_iff.1 hc
    have hdead := hended hpc c (hget ▸ List.getElem_mem hlt)
    have hstarted := (hloop (.inr (.inl hpc))).2
    exact h.books.finished i c (hlt.trans_eq hstarted.symm) hc hdead hok

/-- The ring has two slots for each client. -/
theorem Inv.ring (h : Inv o s) (hpc : s.pc = .ring) {n : Nat}
    (hn : max 4096 (o.numClients * 2) ≤ n) : Inv o { s with entries := n, pc := .setup 0 } := by
  have hstart : s.pc ≠ .start := by simp [hpc]
  have hlen := h.length hstart
  have hbooks := h.books
  rw [hpc] at hbooks
  exact
    { defined := by rintro ⟨⟩
      fits := by rintro ⟨⟩
      empty := by rintro ⟨⟩
      length := fun _ => hlen
      room := fun _ _ => by
        show s.clients.length ≤ n
        omega
      started_le := Nat.zero_le _
      books := hbooks
      ledger := h.ledger
      waits := by rintro ⟨⟩
      exits := by rintro ⟨⟩ }

/-- The program handles the next completion of the batch. -/
theorem Inv.handleCqe (h : Inv o s) {ready : Nat} (hpc : s.pc = .batch (ready + 1)) {ud : BitVec 64}
    {res : Int} {cq : List (BitVec 64 × Int)} (hcq : s.cq = (ud, res) :: cq)
    (hok : NoOverflow o s .next) :
    Inv o (({ s with cq := cq, pc := .batch ready } : State).handleCqe ud res) := by
  have hmem : Pending.done ud res ∈ s.pending := by
    rw [State.pending, hcq]
    simp
  obtain ⟨c, hc, hpending⟩ := h.ledger.ops _ hmem
  obtain ⟨k, hs, hanswer⟩ := hpending.of_done
  have hi := h.lt (List.getElem?_eq_some_iff.1 hc).1
  obtain ⟨r, hreply, hr⟩ := handleCqe_answered (s := { s with cq := cq, pc := .batch ready }) hi hs
    hanswer hc (hok ready ud res cq c hpc hcq hc)
  rw [hreply]
  exact h.reply hpc hcq rfl hc hs.live hi hr

/-- The program goes on with the event loop. -/
theorem Inv.next (h : Inv o s) (hs : EchoBench.step o s .next = some s')
    (hok : NoOverflow o s .next) : s'.pc = .failed ∨ Inv o s' := by
  simp only [EchoBench.step] at hs
  split at hs
  · rename_i i hpc
    split at hs
    · cases hs
    · rename_i hlast
      cases hs
      have hle : i ≤ s.clients.length := by simpa [hpc, Pc.started] using h.started_le
      have hall : i = s.clients.length := by omega
      exact .inr (h.loopTop (by simp [hpc]) (by simp [hpc]) (by simp [hpc, Pc.started, hall]))
  · rename_i hpc
    cases hs
    exact .inr (h.loopTop (by simp [hpc]) (by simp [hpc]) (by simp [hpc, Pc.started]))
  · rename_i ready hpc
    split at hs
    · cases hs
      exact .inr (h.loopTop (by simp [hpc]) (by simp [hpc]) (by simp [hpc, Pc.started]))
    · rename_i ud res cq hcq
      cases hs
      exact .inr (h.handleCqe hpc hcq hok)
  · cases hs

theorem transfer_pc (s : State) (q : Sqe) (file : Option Nat) (res : Int) (data : List UInt8) :
    (transfer s q file res data).pc = s.pc := by
  unfold transfer
  split
  · split <;> rfl
  · split <;> rfl
  · rfl

/-- An exception is the end. -/
theorem step_failed {e : Ev} (hpc : s.pc = .failed) (hs : step o s e = some s') :
    s'.pc = .failed := by
  cases e with
  | exec k res data =>
    simp only [step] at hs
    split at hs
    · cases hs
    · split at hs
      · cases hs
        rw [transfer_pc]
        exact hpc
      · cases hs
  | allocate ok => simp [step, hpc] at hs
  | ring entries => simp [step, hpc] at hs
  | socket fd => simp [step, hpc] at hs
  | submit => simp [step, hpc] at hs
  | ready => simp [step, hpc] at hs
  | fail => simp [step, hpc] at hs
  | next => simp [step, hpc] at hs

/-- **One step.** -/
theorem Inv.step {e : Ev} (h : Inv o s) (hs : step o s e = some s') (hok : NoOverflow o s e) :
    s'.pc = .failed ∨ Inv o s' := by
  cases e with
  | allocate ok =>
    simp only [EchoBench.step] at hs
    split at hs
    · cases hs
    · rename_i hpc
      split at hs
      · cases hs
        exact .inl rfl
      · rename_i htrue
        split at hs
        · cases hs
        · rename_i hn
          rw [if_neg (Int.not_lt.2 (hok (not_not.1 htrue)))] at hs
          cases hs
          exact .inr (h.allocate (not_not.1 hpc) (Int.not_lt.1 hn))
  | ring entries =>
    simp only [EchoBench.step] at hs
    split at hs
    · cases hs
    · rename_i hpc
      have hring := not_not.1 hpc
      cases entries with
      | none =>
        cases hs
        exact .inl rfl
      | some n =>
        simp only at hs
        split at hs
        · rename_i hle
          cases hs
          exact .inr (h.ring hring hle)
        · cases hs
  | socket fd =>
    simp only [EchoBench.step] at hs
    split at hs
    · rename_i i hpc
      split at hs
      · cases hs
      · rename_i c hc
        split at hs
        · cases hs
          exact .inl rfl
        · rename_i hfd
          split at hs
          · cases hs
          · rename_i hfree
            cases hs
            exact .inr (h.socket hpc hc (Int.not_lt.1 hfd) (not_not.1 hfree))
    · cases hs
  | submit =>
    simp only [EchoBench.step] at hs
    split at hs
    · rename_i q sq hpc hsq
      cases hs
      exact .inr (h.submit hsq)
    · cases hs
  | exec k res data =>
    simp only [EchoBench.step] at hs
    split at hs
    · cases hs
    · rename_i q file hk
      split at hs
      · rename_i hmay
        cases hs
        exact .inr (h.exec hk hmay)
      · cases hs
  | ready =>
    simp only [EchoBench.step] at hs
    split at hs
    · rename_i hwait
      cases hs
      refine .inr (h.goto (by simp) (by simp) (by simp) ?_ ?_ ?_ (by simp) (by simp))
      · simp [hwait.1]
      · simp [hwait.1]
      · simp [hwait.1, Pc.started]
    · cases hs
  | fail =>
    simp only [EchoBench.step] at hs
    split at hs
    · cases hs
      exact .inl rfl
    · cases hs
  | next => exact h.next hs hok

end Inv

/-- A signed overflow is not the end of the program, but nothing can be said about what follows. -/
theorem step_overflow {o : Options} {s s' : State} {e : Ev} (hs : step o s e = some s')
    (hbad : ¬NoOverflow o s e) : s'.pc = .undefined := by
  cases e with
  | allocate ok =>
    obtain ⟨htrue, hbig⟩ := Classical.not_imp.1 hbad
    have hlt : INT_MAX < o.numClients * 2 := Int.not_le.1 hbig
    simp only [step, htrue, not_true, if_false] at hs
    split at hs
    · cases hs
    · split at hs
      · cases hs
      · cases hs
        rfl
  | next =>
    simp only [NoOverflow, Classical.not_forall, not_not] at hbad
    obtain ⟨ready, ud, res, cq, c, hpc, hcq, hc, hop, hpos, hall, hmin⟩ := hbad
    simp only [step, hpc, hcq] at hs
    cases hs
    simp only [State.handleCqe]
    split
    · rfl
    · have hne : OP_RECV ≠ OP_CONNECT := by decide
      have hne' : OP_RECV ≠ OP_SEND := by decide
      simp only [hc, hop, hne, hne', if_false, onRecv_overflow hpos hall hmin, State.reply]
  | ring entries => exact absurd trivial hbad
  | socket fd => exact absurd trivial hbad
  | submit => exact absurd trivial hbad
  | exec k res data => exact absurd trivial hbad
  | ready => exact absurd trivial hbad
  | fail => exact absurd trivial hbad

theorem init_inv (o : Options) : Inv o (machine o).init where
  defined := by rintro ⟨⟩
  fits := by rintro ⟨⟩
  empty _ := rfl
  length hpc := absurd rfl hpc
  room hpc := absurd rfl hpc
  started_le := Nat.le_refl _
  books := ⟨by rintro _ _ _ ⟨⟩, fun _ _ => rfl, by rintro _ _ _ ⟨⟩, rfl, by rintro _ _ ⟨⟩⟩
  ledger := ⟨.nil fun i => Bool.false_ne_true, by rintro _ ⟨⟩⟩
  waits := by rintro ⟨⟩
  exits := by rintro ⟨⟩

theorem Inv.orFailed_accounted {o : Options} {s : State} (h : s.pc = .failed ∨ Inv o s) :
    Accounted o s := by
  obtain hpc | hinv := h
  · refine ⟨?_, ?_, ?_, ?_, ?_, ?_, ?_, ?_⟩ <;> simp [hpc, State.InLoop]
  · exact hinv.accounted

/-- Only `-r -2147483648` and `-n` from 2^30 on overflow. -/
theorem Inv.noOverflow {o : Options} {s : State} (h : Inv o s) (hn : o.numClients * 2 ≤ INT_MAX)
    (hr : o.rounds ≠ INT_MIN) (e : Ev) : NoOverflow o s e := by
  cases e with
  | allocate ok => exact fun _ => hn
  | next =>
    intro ready ud res cq c hpc hcq hc _ _ _ hmin
    have hmem : Pending.done ud res ∈ s.pending := by
      rw [State.pending, hcq]
      simp
    obtain ⟨d, hd, hpending⟩ := h.ledger.ops _ hmem
    obtain ⟨k, hs, -⟩ := hpending.of_done
    have hcd : d = c := Option.some.inj (hd.symm.trans hc)
    subst hcd
    have hrem := hs.remaining
    unfold INT_MIN at hmin hr
    rcases hs.goesOn with hk | hpos <;> omega
  | ring entries => trivial
  | socket fd => trivial
  | submit => trivial
  | exec k res data => trivial
  | ready => trivial
  | fail => trivial

/-- **The accounting is right in every run** with other options. -/
theorem run_accounted {o : Options} (hn : o.numClients * 2 ≤ INT_MAX) (hr : o.rounds ≠ INT_MIN)
    {es : List Ev} {s : State} (h : (machine o).run es = some s) : Accounted o s := by
  refine Inv.orFailed_accounted (Machine.run_inv (I := fun s => s.pc = .failed ∨ Inv o s)
    (.inr (init_inv o)) ?_ h)
  rintro s e s' (hpc | hinv) hs
  · exact .inl (step_failed hpc hs)
  · exact hinv.step hs (hinv.noOverflow hn hr e)

/-- **When the accounting is right.** -/
theorem accounted_iff (o : Options) {es : List Ev} {s : State} (h : (machine o).run es = some s) :
    (machine o).Always (Accounted o) (machine o).init es ↔
      (machine o).Meets (NoOverflow o) (machine o).init es := by
  refine Machine.always_iff_meets (I := fun s => s.pc = .failed ∨ Inv o s)
    (fun _ => Inv.orFailed_accounted) ?_ ?_ (.inr (init_inv o)) h
  · rintro s e s' (hpc | hinv) hs hok
    · exact .inl (step_failed hpc hs)
    · exact hinv.step hs hok
  · intro s e s' _ hs hbad hacc
    exact hacc.defined (step_overflow hs hbad)

/-- One client, for one round. -/
def oneRound : Options := ⟨1, 1, by unfold IsInt; decide, by unfold IsInt; decide⟩

/-- The client sends its message and receives it. -/
def oneEcho : List Ev :=
  [.allocate true, .ring (some 4096), .socket 3, .next, .submit, .exec 0 0 [], .ready, .next, .next,
    .submit, .exec 0 14 [], .ready, .next, .next, .submit, .exec 0 14 (message 0), .ready, .next]

theorem accounted_iff_oneRound : ∃ s, (machine oneRound).run (oneEcho ++ [.next]) = some s ∧
    s.pc = .exit ∧ ((machine oneRound).Always (Accounted oneRound) (machine oneRound).init
        (oneEcho ++ [.next]) ↔
      (machine oneRound).Meets (NoOverflow oneRound) (machine oneRound).init (oneEcho ++ [.next])) := by
  have hrun : ((machine oneRound).run (oneEcho ++ [.next])).map State.pc = some .exit := by decide
  obtain ⟨s, hs, hpc⟩ := Option.map_eq_some_iff.1 hrun
  exact ⟨s, hs, hpc, accounted_iff oneRound hs⟩

/-- `-n 1 -r -2147483648` -/
def minRounds : Options := ⟨1, INT_MIN, by unfold IsInt; decide, by unfold IsInt; decide⟩

/-- **The accounting can go wrong**: after the first echo, `--c.remaining` overflows. -/
theorem accounting_wrong :
    ∃ s, (machine minRounds).run oneEcho = some s ∧ ¬Accounted minRounds s := by
  have hrun : ((machine minRounds).run oneEcho).map State.pc = some .undefined := by decide
  obtain ⟨s, hs, hpc⟩ := Option.map_eq_some_iff.1 hrun
  exact ⟨s, hs, fun h => h.defined hpc⟩

end AdvCpp.Uring.EchoBench
