import AdvCpp.Lib.CounterRing
import AdvCpp.Lib.Exclusive
import AdvCpp.Lib.Machine
import AdvCpp.Lib.Memory
import AdvCpp.Lib.Table
import AdvCpp.Uring.Net

/-!
# Provided buffers, multi-shot requests and heap events

What `10_provided_buffers.cpp` and `11_multishot.cpp` share: the ring of provided buffers, the
buffer pool, the `Event` objects behind `user_data`, and the kernel.  A multi-shot request posts
completions with `IORING_CQE_F_MORE` until its last one; the completions of one request are handled
in their order, those of different requests in any order.

* `State` — the program's memory and the kernel.  `ub` records the use of an object that is not
  alive.
* `serve` — both event loops as one function of what differs between them.
* `step` — submitting, executing and completing requests.
-/

namespace AdvCpp.Uring.BufferSelect

open AdvCpp.Lib

def NUM_BUFS : Nat := 4096
def BUF_SIZE : Nat := 4096
def ENOBUFS : Int := 105

/-- A byte and the connection it was received on; the pool starts with bytes of none. -/
structure Byte where
  val : UInt8
  src : Option Nat
  deriving DecidableEq

/-- An entry of the ring of provided buffers; addresses are offsets into `buf_pool`. -/
structure Buf where
  addr : Nat
  len : Nat
  bid : Nat
  deriving DecidableEq

/-! ## Requests and completions -/

/-- `recv` selects its buffer from the ring. -/
inductive Prep where
  | accept (multishot : Bool)
  | recv (multishot : Bool)
  | send (addr len : Nat)
  deriving DecidableEq

def Prep.multishot : Prep → Bool
  | .accept ms => ms
  | .recv ms => ms
  | .send _ _ => false

/-- `userData` is the address of an event. -/
structure Sqe where
  fd : Int
  prep : Prep
  userData : Nat
  deriving DecidableEq

/-- A completion as the program reads it: `more` is `IORING_CQE_F_MORE`, `buffer` the identifier
that comes with `IORING_CQE_F_BUFFER`. -/
structure Cqe where
  res : Int
  more : Bool
  buffer : Option Nat
  deriving DecidableEq

/-- A completion before it is handled.  `conn` is the connection it is about: the one the request
was armed on, or the new one of an accept. -/
structure Shot where
  res : Int
  buffer : Option Nat
  conn : Option Nat
  deriving DecidableEq

/-- Prepared, in the kernel's hands with the file its descriptor named at submission, or over. -/
inductive Phase where
  | queued
  | armed (file : Option Nat)
  | ended (file : Option Nat) (last : Shot)
  deriving DecidableEq

/-- A request: `conn` is the connection whose completion caused it, `shots` are the completions
with `IORING_CQE_F_MORE` that are not handled yet. -/
structure Op where
  sqe : Sqe
  conn : Option Nat
  phase : Phase
  shots : List Shot
  deriving DecidableEq

/-- The completion without `IORING_CQE_F_MORE`. -/
def Phase.last : Phase → List Shot
  | .ended _ sh => [sh]
  | _ => []

/-- The file the request was armed on. -/
def Phase.file : Phase → Option (Option Nat)
  | .queued => none
  | .armed file => some file
  | .ended file _ => some file

/-- All completions that are not handled yet. -/
def Op.posted (o : Op) : List Shot := o.shots ++ o.phase.last

/-- The next completion to handle, whether more follow, and what is left of the request. -/
def Op.pop (o : Op) : Option (Shot × Bool × Option Op) :=
  match o.shots, o.phase with
  | sh :: shots, _ => some (sh, true, some { o with shots := shots })
  | [], .ended _ sh => some (sh, false, none)
  | [], _ => none

/-! ## The program's state -/

/-- `Event` and `SendEvent`; `ρ` is the type of `rearm_recv`. -/
inductive Event (ρ : Type) where
  | accept (fd : Int)
  | recv (fd : Int)
  | send (fd : Int) (bid len offset : Nat) (rearmRecv : ρ)

/-- The heap (`new` gives out the addresses in order, `freed` lists what was deleted) and the set
of clients. -/
structure Server (ρ : Type) where
  heap : Nat → Option (Event ρ)
  next : Nat
  freed : List Nat
  clients : List Int

/-- Requests under the number of their submission, of which the first `submitted` have reached the
kernel; the ring and the pool.  The other fields are a record: the connection of the completion
being handled, the connections whose accept was handled, the pairs (connection of the completion,
connection that was closed), and the buffers handed out and recycled. -/
structure Kernel where
  ops : Nat → Option Op
  nextOp : Nat
  submitted : Nat
  net : Net Byte
  br : CounterRing Buf
  mem : Nat → Byte
  cur : Option Nat
  accepted : List Nat
  closed : List (Option Nat × Option Nat)
  handed : List Nat
  recycled : List Nat

structure State (ρ : Type) where
  app : Server ρ
  kern : Kernel
  ub : Bool

def Kernel.setOp (K : Kernel) (k : Nat) (o : Option Op) : Kernel :=
  { K with ops := Function.update K.ops k o }

section Program

variable {ρ : Type}

namespace State

variable (s : State ρ)

/-- Undefined behaviour. -/
def fault : State ρ := { s with ub := true }

/-- `new`; the address is `s.app.next`. -/
def newEvent (e : Event ρ) : State ρ :=
  { s with app := { s.app with
      heap := Function.update s.app.heap s.app.next (some e), next := s.app.next + 1 } }

/-- `delete`. -/
def delete (p : Nat) : State ρ :=
  match s.app.heap p with
  | some _ =>
    { s with app := { s.app with
        heap := Function.update s.app.heap p none, freed := p :: s.app.freed } }
  | none => s.fault

/-- Write the fields of an event. -/
def setEvent (p : Nat) (e : Event ρ) : State ρ :=
  { s with app := { s.app with heap := Function.update s.app.heap p (some e) } }

/-- `get_sqe` and the preparation of a request. -/
def queue (q : Sqe) : State ρ :=
  { s with kern := { s.kern with
      ops := Function.update s.kern.ops s.kern.nextOp (some ⟨q, s.kern.cur, .queued, []⟩)
      nextOp := s.kern.nextOp + 1 } }

def closeFd (fd : Int) : State ρ :=
  { s with kern := { s.kern with
      net := s.kern.net.close fd
      closed := (s.kern.cur, s.kern.net.fds fd) :: s.kern.closed } }

def insertClient (fd : Int) : State ρ :=
  { s with
    app := { s.app with clients := s.app.clients.insert fd }
    kern := { s.kern with accepted := s.kern.cur.toList ++ s.kern.accepted } }

def eraseClient (fd : Int) : State ρ :=
  { s with app := { s.app with clients := s.app.clients.filter (· ≠ fd) } }

end State

/-- `io_uring_buf_ring_add` for buffer `bid`. -/
def bufRingAdd (br : CounterRing Buf) (bid off : Nat) : CounterRing Buf :=
  br.put NUM_BUFS ⟨bid * BUF_SIZE, BUF_SIZE, bid⟩ off

def recycleBuf (s : State ρ) (bid : Nat) : State ρ :=
  { s with kern := { s.kern with
      br := (bufRingAdd s.kern.br bid 0).advance 1, recycled := bid :: s.kern.recycled } }

def queueAccept (multishot : Bool) (s : State ρ) (listenFd : Int) : State ρ :=
  (s.queue ⟨listenFd, .accept multishot, s.app.next⟩).newEvent (.accept listenFd)

def queueRecv (multishot : Bool) (s : State ρ) (fd : Int) : State ρ :=
  (s.queue ⟨fd, .recv multishot, s.app.next⟩).newEvent (.recv fd)

def queueSend (s : State ρ) (ev : Nat) : State ρ :=
  match s.app.heap ev with
  | some (.send fd bid len offset _) =>
    s.queue ⟨fd, .send (bid * BUF_SIZE + offset) (len - offset), ev⟩
  | _ => s.fault

/-! ## What differs between the two programs -/

/-- Whether requests are multi-shot, and how `rearm_recv` is set and read. -/
structure Variant (ρ : Type) where
  multishot : Bool
  mark : Bool → ρ
  rearm : ρ → Bool

/-- One turn of the event loop for the completion `cqe` of the request with the event `ev`. -/
def serve (V : Variant ρ) (listenFd : Int) (s : State ρ) (ev : Nat) (cqe : Cqe) : State ρ :=
  let more := V.multishot && cqe.more
  match s.app.heap ev with
  | none => s.fault
  | some (.accept _) =>
    let s₁ :=
      if 0 ≤ cqe.res then queueRecv V.multishot (s.insertClient cqe.res) cqe.res else s
    if more then s₁ else (queueAccept V.multishot s₁ listenFd).delete ev
  | some (.recv fd) =>
    let s₁ :=
      if cqe.res = -ENOBUFS then queueRecv V.multishot s fd
      else if cqe.res ≤ 0 then (s.closeFd fd).eraseClient fd
      else
        match cqe.buffer with
        | none => (s.closeFd fd).eraseClient fd
        | some bid =>
          queueSend (s.newEvent (.send fd bid cqe.res.toNat 0 (V.mark (!more)))) s.app.next
    if more then s₁ else s₁.delete ev
  | some (.send fd bid len offset r) =>
    if cqe.res ≤ 0 then (((recycleBuf s bid).closeFd fd).eraseClient fd).delete ev
    else
      let s₁ := s.setEvent ev (.send fd bid len (offset + cqe.res.toNat) r)
      if offset + cqe.res.toNat < len then queueSend s₁ ev
      else
        let s₂ := recycleBuf s₁ bid
        (if V.rearm r && decide (fd ∈ s₂.app.clients) then queueRecv V.multishot s₂ fd
          else s₂).delete ev

/-! ## The kernel -/

/-- One step: the next queued request reaches the kernel, an armed one posts a completion with the
given result (`more` says that it stays armed, `data` is what it received), or the program handles
the next completion of a request. -/
inductive Ev where
  | submit
  | exec (k : Nat) (res : Int) (more : Bool) (data : List UInt8)
  | complete (k : Nat)
  deriving DecidableEq

def Kernel.submit (K : Kernel) : Option Kernel :=
  match K.ops K.submitted with
  | some ⟨q, conn, .queued, shots⟩ =>
    some
      { K with
        ops := Function.update K.ops K.submitted
          (some ⟨q, conn, .armed (K.net.fds q.fd), shots⟩)
        submitted := K.submitted + 1 }
  | _ => none

/-- The completions the kernel may post.  An accept takes a descriptor that is not open, a receive
with data takes the next buffer of the ring and no more than fits into it, a send takes at most
`len` bytes; without a file there is only an error. -/
def KernelMay (K : Kernel) (q : Sqe) (file : Option Nat) (res : Int) (more : Bool)
    (data : List UInt8) : Prop :=
  (more = true → q.prep.multishot = true) ∧
    match file, q.prep with
    | none, _ => res < 0 ∧ more = false ∧ data = []
    | some _, .accept _ => data = [] ∧ (res < 0 ∨ (K.net.fds res = none ∧ res < 2 ^ 31))
    | some _, .recv _ =>
      (res ≤ 0 ∧ data = []) ∨
        (data ≠ [] ∧ res = data.length ∧ ∃ b ∈ K.br.take NUM_BUFS, data.length ≤ b.1.len)
    | some _, .send _ len => res ≤ len ∧ data = []

instance (K : Kernel) (q : Sqe) (file : Option Nat) (res : Int) (more : Bool)
    (data : List UInt8) : Decidable (KernelMay K q file res more data) := by
  unfold KernelMay
  refine @instDecidableAnd _ _ _ ?_
  split <;> exact inferInstance

/-- The request posts a completion and stays armed or not. -/
def Kernel.post (K : Kernel) (k : Nat) (o : Op) (file : Option Nat) (more : Bool) (sh : Shot) :
    Kernel :=
  K.setOp k (some (if more then { o with shots := o.shots ++ [sh] }
    else { o with phase := .ended file sh }))

/-- What a completed request does to the connections, the ring and the pool. -/
def Kernel.perform (K : Kernel) (k : Nat) (o : Op) (file : Option Nat) (res : Int) (more : Bool)
    (data : List UInt8) : Kernel :=
  match file, o.sqe.prep with
  | some _, .accept _ =>
    if 0 ≤ res then
      ({ K with net := K.net.accept res }).post k o file more ⟨res, none, some K.net.next⟩
    else K.post k o file more ⟨res, none, none⟩
  | some c, .recv _ =>
    match data, K.br.take NUM_BUFS with
    | _ :: _, some (b, br) =>
      ({ K with
          br := br
          mem := poke K.mem b.addr (data.map (⟨·, some c⟩))
          net := K.net.receive c (data.map (⟨·, some c⟩))
          handed := b.bid :: K.handed }).post k o file more ⟨res, some b.bid, some c⟩
    | _, _ => K.post k o file more ⟨res, none, some c⟩
  | some c, .send addr _ =>
    ({ K with net := K.net.transmit c (peek K.mem addr res.toNat) }).post k o file more
      ⟨res, none, some c⟩
  | none, _ => K.post k o file more ⟨res, none, none⟩

def Kernel.exec (K : Kernel) (k : Nat) (res : Int) (more : Bool) (data : List UInt8) :
    Option Kernel :=
  match K.ops k with
  | some ⟨q, conn, .armed file, shots⟩ =>
    if KernelMay K q file res more data then
      some (K.perform k ⟨q, conn, .armed file, shots⟩ file res more data)
    else none
  | _ => none

/-- A turn of the event loop. -/
abbrev Handler (ρ : Type) := State ρ → Nat → Cqe → State ρ

def step (handle : Handler ρ) (s : State ρ) : Ev → Option (State ρ)
  | .submit => s.kern.submit.map fun K => { s with kern := K }
  | .exec k res more data => (s.kern.exec k res more data).map fun K => { s with kern := K }
  | .complete k =>
    (s.kern.ops k).bind fun o =>
      o.pop.map fun (sh, more, o') =>
        handle { s with kern := { s.kern.setOp k o' with cur := sh.conn } } o.sqe.userData
          ⟨sh.res, more, sh.buffer⟩

/-! ## What a step does -/

variable {K K' : Kernel} {k : Nat} {o : Op}

/-- The next completion is the first one with more to come, or the last one. -/
theorem Op.pop_cases {sh : Shot} {more : Bool} {r : Option Op} (h : o.pop = some (sh, more, r)) :
    (more = true ∧ ∃ shots, o.shots = sh :: shots ∧ r = some { o with shots := shots }) ∨
      (more = false ∧ o.shots = [] ∧ (∃ file, o.phase = .ended file sh) ∧ r = none) := by
  unfold Op.pop at h
  split at h
  · rename_i sh' shots hs
    cases h
    exact Or.inl ⟨rfl, shots, hs, rfl⟩
  · rename_i file sh' hs hp
    cases h
    exact Or.inr ⟨rfl, hs, ⟨file, hp⟩, rfl⟩
  · cases h

theorem Kernel.submit_cases (hs : K.submit = some K') :
    ∃ q conn shots, K.ops K.submitted = some ⟨q, conn, .queued, shots⟩ ∧
      K' = { K.setOp K.submitted (some ⟨q, conn, .armed (K.net.fds q.fd), shots⟩) with
        submitted := K.submitted + 1 } := by
  unfold Kernel.submit at hs
  split at hs
  · rename_i q conn shots hk
    cases hs
    exact ⟨q, conn, shots, hk, rfl⟩
  · cases hs

/-- What an executed request has done. -/
inductive Outcome (K : Kernel) (k : Nat) (o : Op) (res : Int) (more : Bool) :
    Option Nat → List UInt8 → Kernel → Prop where
  | noFile (hres : res < 0) :
    Outcome K k o res more none [] (K.post k o none more ⟨res, none, none⟩)
  | refused {c : Nat} {ms : Bool} (hp : o.sqe.prep = .accept ms) (hres : res < 0) :
    Outcome K k o res more (some c) [] (K.post k o (some c) more ⟨res, none, none⟩)
  | accepted {c : Nat} {ms : Bool} (hp : o.sqe.prep = .accept ms) (hres : 0 ≤ res)
    (hlt : res < 2 ^ 31) (hfree : K.net.fds res = none) :
    Outcome K k o res more (some c) []
      (({ K with net := K.net.accept res }).post k o (some c) more ⟨res, none, some K.net.next⟩)
  | empty {c : Nat} {ms : Bool} (hp : o.sqe.prep = .recv ms) (hres : res ≤ 0) :
    Outcome K k o res more (some c) [] (K.post k o (some c) more ⟨res, none, some c⟩)
  | received {c : Nat} {ms : Bool} {b : Buf} {br : CounterRing Buf} {data : List UInt8}
    (hp : o.sqe.prep = .recv ms) (hdata : data ≠ []) (hres : res = data.length)
    (hb : K.br.take NUM_BUFS = some (b, br)) (hfit : data.length ≤ b.len) :
    Outcome K k o res more (some c) data
      (({ K with
          br := br
          mem := poke K.mem b.addr (data.map (⟨·, some c⟩))
          net := K.net.receive c (data.map (⟨·, some c⟩))
          handed := b.bid :: K.handed }).post k o (some c) more ⟨res, some b.bid, some c⟩)
  | sent {c addr len : Nat} (hp : o.sqe.prep = .send addr len) (hres : res ≤ len) :
    Outcome K k o res more (some c) []
      (({ K with net := K.net.transmit c (peek K.mem addr res.toNat) }).post k o (some c) more
        ⟨res, none, some c⟩)

/-- **Executing a request.** -/
theorem Kernel.exec_cases {res : Int} {more : Bool} {data : List UInt8}
    (hs : K.exec k res more data = some K') :
    ∃ q conn file shots, K.ops k = some ⟨q, conn, .armed file, shots⟩ ∧
      (more = true → q.prep.multishot = true) ∧
      Outcome K k ⟨q, conn, .armed file, shots⟩ res more file data K' := by
  unfold Kernel.exec at hs
  split at hs
  · rename_i q conn file shots hk
    split at hs
    · rename_i hmay
      cases hs
      refine ⟨q, conn, file, shots, hk, hmay.1, ?_⟩
      obtain ⟨-, hmay⟩ := hmay
      obtain ⟨fd, prep, ud⟩ := q
      unfold Kernel.perform
      cases file with
      | none =>
        obtain ⟨hres, -, rfl⟩ := hmay
        exact .noFile hres
      | some c =>
        cases prep with
        | accept ms =>
          obtain ⟨rfl, hres⟩ := hmay
          by_cases hpos : 0 ≤ res
          · have hfree := hres.resolve_left (Int.not_lt.2 hpos)
            simp only [hpos, if_true]
            exact .accepted rfl hpos hfree.2 hfree.1
          · simp only [hpos, if_false]
            exact .refused rfl (Int.not_le.1 hpos)
        | recv ms =>
          rcases hmay with ⟨hres, rfl⟩ | ⟨hdata, hres, ⟨b, br⟩, hb, hfit⟩
          · exact .empty rfl hres
          · have hb : K.br.take NUM_BUFS = some (b, br) := hb
            obtain ⟨byte, rest, rfl⟩ := List.exists_cons_of_ne_nil hdata
            simp only [hb]
            exact .received rfl hdata hres hb hfit
        | send addr len =>
          obtain ⟨hres, rfl⟩ := hmay
          exact .sent rfl hres
    · cases hs
  · cases hs

/-! ## The initial state -/

/-- `io_uring_setup_buf_ring` and the loop that adds the buffers. -/
def setupBufRing : CounterRing Buf :=
  ((List.range NUM_BUFS).foldl (fun br i => bufRingAdd br i i) ⟨fun _ => ⟨0, 0, 0⟩, 0, 0⟩).advance
    NUM_BUFS

/-- The state before the first accept is queued; `buf_pool` is zeroed memory. -/
def State.boot (listenFd : Int) : State ρ where
  app := ⟨fun _ => none, 0, [], []⟩
  kern := ⟨fun _ => none, 0, 0, Net.init [listenFd], setupBufRing, fun _ => ⟨0, none⟩, none, [], [],
    [], []⟩
  ub := false

def machine (V : Variant ρ) (handle : Int → Handler ρ) (listenFd : Int) :
    Machine (State ρ) Ev :=
  ⟨queueAccept V.multishot (State.boot listenFd) listenFd, step (handle listenFd)⟩

end Program

end AdvCpp.Uring.BufferSelect
