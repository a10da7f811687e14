import AdvCpp.Lib.Bytes
import AdvCpp.Uring.EchoCommon
import AdvCpp.Uring.Kernel

/-!
# The state-machine echo server

`handle_cqe` of `07_echo_common.hpp` under the event loop of `07_echo_server.cpp`: a map from
descriptors to clients, one buffer per client, the operation and the descriptor in `user_data`.

* `OpOk` — what an outstanding operation says about its client, its buffer and its connection.
* `Inv`, `run_inv` — the invariant of the server.
* `handleCqe_invariant` — one accept, one operation for every client, echo as a prefix.
-/

namespace AdvCpp.Uring.EchoServer

open AdvCpp.Lib

def CLIENT_BUF_SIZE : Nat := 4096

structure Client where
  fd : Int
  buf : List UInt8
  sendLen : Nat
  sendOffset : Nat
  deriving DecidableEq

/-- `Client{fd}`: a zeroed buffer and nothing to send. -/
def Client.new (fd : Int) : Client := ⟨fd, List.replicate CLIENT_BUF_SIZE 0, 0, 0⟩

/-- `std::unordered_map<int, Client>`. -/
abbrev Clients := Int → Option Client

def acceptSqe (listenFd : Int) : Sqe Int (BitVec 64) :=
  ⟨listenFd, .accept, encode OP_ACCEPT listenFd⟩

def recvSqe (fd : Int) : Sqe Int (BitVec 64) :=
  ⟨fd, .recv fd 0 CLIENT_BUF_SIZE, encode OP_RECV fd⟩

def sendSqe (fd : Int) (off len : Nat) : Sqe Int (BitVec 64) :=
  ⟨fd, .send fd off len, encode OP_SEND fd⟩

/-- `handle_cqe`.  `clients[fd]` inserts a value-initialized client where there is none. -/
def handleCqe (listenFd : Int) (clients : Clients) (op : BitVec 64) (fd res : Int) :
    Clients × List (Act Int (BitVec 64)) :=
  if op = OP_ACCEPT then
    if 0 ≤ res then
      (Function.update clients res (some (Client.new res)),
        [.queue (recvSqe res), .queue (acceptSqe listenFd)])
    else (clients, [.queue (acceptSqe listenFd)])
  else if op = OP_RECV then
    if res ≤ 0 then (Function.update clients fd none, [.close fd])
    else
      let c := { (clients fd).getD (Client.new 0) with sendLen := res.toNat, sendOffset := 0 }
      (Function.update clients fd (some c), [.queue (sendSqe fd 0 c.sendLen)])
  else if op = OP_SEND then
    match clients fd with
    | none => (clients, [])
    | some c =>
      if res ≤ 0 then (Function.update clients fd none, [.close fd])
      else
        let c := { c with sendOffset := c.sendOffset + res.toNat }
        if c.sendOffset < c.sendLen then
          (Function.update clients fd (some c),
            [.queue (sendSqe fd c.sendOffset (c.sendLen - c.sendOffset))])
        else (Function.update clients fd (some c), [.queue (recvSqe fd)])
  else (clients, [])

/-- The bytes at `off` in the buffer of a client. -/
def loadBuf (clients : Clients) (fd : Int) (off len : Nat) : List UInt8 :=
  match clients fd with
  | some c => pread c.buf off len
  | none => []

def storeBuf (clients : Clients) (fd : Int) (off : Nat) (data : List UInt8) : Clients :=
  match clients fd with
  | some c => Function.update clients fd (some { c with buf := pwrite 0 c.buf off data })
  | none => clients

def program (listenFd : Int) : Program Clients Int (BitVec 64) where
  start := (fun _ => none, [.queue (acceptSqe listenFd)])
  handle := fun clients ud res => handleCqe listenFd clients (decodeOp ud) (decodeFd ud) res
  load := loadBuf
  store := storeBuf

/-- The server from its first accept on. -/
def echoServer (listenFd : Int) : Machine (State Clients Int (BitVec 64)) Ev :=
  machine (program listenFd) [listenFd]

/-! ## What a completion does -/

section Handle

variable {listenFd fd res : Int} {clients : Clients} {c : Client}

theorem handle_accept (hl : IsFd listenFd) :
    (program listenFd).handle clients (acceptSqe listenFd).userData res =
      if 0 ≤ res then
        (Function.update clients res (some (Client.new res)),
          [.queue (recvSqe res), .queue (acceptSqe listenFd)])
      else (clients, [.queue (acceptSqe listenFd)]) := by
  show handleCqe _ _ (decodeOp (encode OP_ACCEPT listenFd)) _ _ = _
  rw [decodeOp_encode isOp_accept hl, handleCqe, if_pos rfl]

theorem handle_recv (hf : IsFd fd) (hc : clients fd = some c) :
    (program listenFd).handle clients (recvSqe fd).userData res =
      if res ≤ 0 then (Function.update clients fd none, [.close fd])
      else
        (Function.update clients fd (some { c with sendLen := res.toNat, sendOffset := 0 }),
          [.queue (sendSqe fd 0 res.toNat)]) := by
  show handleCqe _ _ (decodeOp (encode OP_RECV fd)) (decodeFd (encode OP_RECV fd)) _ = _
  rw [decodeOp_encode isOp_recv hf, decodeFd_encode isOp_recv hf, handleCqe, if_neg (by decide),
    if_pos rfl, hc, Option.getD_some]

theorem handle_send (hf : IsFd fd) (hc : clients fd = some c) (off len : Nat) :
    (program listenFd).handle clients (sendSqe fd off len).userData res =
      if res ≤ 0 then (Function.update clients fd none, [.close fd])
      else if c.sendOffset + res.toNat < c.sendLen then
        (Function.update clients fd (some { c with sendOffset := c.sendOffset + res.toNat }),
          [.queue (sendSqe fd (c.sendOffset + res.toNat)
            (c.sendLen - (c.sendOffset + res.toNat)))])
      else
        (Function.update clients fd (some { c with sendOffset := c.sendOffset + res.toNat }),
          [.queue (recvSqe fd)]) := by
  show handleCqe _ _ (decodeOp (encode OP_SEND fd)) (decodeFd (encode OP_SEND fd)) _ = _
  rw [decodeOp_encode isOp_send hf, decodeFd_encode isOp_send hf, handleCqe, if_neg (by decide),
    if_neg (by decide), if_pos rfl, hc]

end Handle

/-! ## Invariant -/

/-- Whom an operation is for. -/
inductive Owner where
  | acceptor
  | client (fd : Int)
  deriving DecidableEq

def own (o : Op Int (BitVec 64)) : Option Owner :=
  match o.sqe.prep with
  | .accept => some .acceptor
  | .recv .. | .send .. => some (.client o.sqe.fd)
  | _ => none

/-- The acceptor and the clients in the map. -/
def Live (clients : Clients) : Owner → Prop
  | .acceptor => True
  | .client fd => clients fd ≠ none

/-- The result does not exceed what was asked for. -/
def Within (len : Nat) : Phase → Prop
  | .done res => res ≤ len
  | _ => True

/-- Received and not accepted by the socket, while a receive is outstanding. -/
def recvRest (c : Client) : Phase → List UInt8
  | .done res => c.buf.take res.toNat
  | _ => []

/-- Received and not accepted by the socket, while a send is outstanding. -/
def sendRest (c : Client) : Phase → List UInt8
  | .done res => (c.buf.take c.sendLen).drop (c.sendOffset + res.toNat)
  | _ => (c.buf.take c.sendLen).drop c.sendOffset

/-- A client with its descriptor and connection. -/
structure ClientOk (clients : Clients) (net : Net) (fd : Int) (c : Client) (conn : Nat) : Prop where
  client : clients fd = some c
  file : net.fds fd = some conn
  isFd : IsFd fd
  buf : c.buf.length = CLIENT_BUF_SIZE

/-- A connection the kernel has accepted and the program does not know yet. -/
structure Newborn (listenFd : Int) (clients : Clients) (net : Net) (fd : Int) (conn : Nat) :
    Prop where
  client : clients fd = none
  file : net.fds fd = some conn
  isFd : IsFd fd
  ne : fd ≠ listenFd
  rx : net.rx conn = []
  tx : net.tx conn = []

/-- What an outstanding operation says about its client and connection. -/
inductive OpOk (listenFd : Int) (clients : Clients) (net : Net) : Op Int (BitVec 64) → Prop where
  | accept {ph : Phase} (bound : Bound net listenFd ph)
      (new : ∀ res, ph = .done res → 0 ≤ res → ∃ conn, Newborn listenFd clients net res conn) :
      OpOk listenFd clients net ⟨acceptSqe listenFd, ph⟩
  | recv {fd : Int} {c : Client} {conn : Nat} {ph : Phase} (ok : ClientOk clients net fd c conn)
      (bound : Bound net fd ph) (within : Within CLIENT_BUF_SIZE ph)
      (sent : c.sendOffset = c.sendLen) (rest : net.rx conn = net.tx conn ++ recvRest c ph) :
      OpOk listenFd clients net ⟨recvSqe fd, ph⟩
  | send {fd : Int} {c : Client} {conn : Nat} {ph : Phase} (ok : ClientOk clients net fd c conn)
      (bound : Bound net fd ph) (within : Within (c.sendLen - c.sendOffset) ph)
      (more : c.sendOffset < c.sendLen) (len : c.sendLen ≤ CLIENT_BUF_SIZE)
      (rest : net.rx conn = net.tx conn ++ sendRest c ph) :
      OpOk listenFd clients net ⟨sendSqe fd c.sendOffset (c.sendLen - c.sendOffset), ph⟩

/-- **The invariant of the server.** -/
structure Inv (listenFd : Int) (s : State Clients Int (BitVec 64)) : Prop where
  wf : s.kern.Wf
  listen : s.kern.net.fds listenFd ≠ none
  noClient : s.app listenFd = none
  excl : Exclusive s.kern.ops own (Live s.app)
  ops : ∀ k o, s.kern.ops k = some o → OpOk listenFd s.app s.kern.net o
  echo : ∀ conn, s.kern.net.tx conn <+: s.kern.net.rx conn

/-! ## Operations do not touch each other -/

/-- The descriptor whose client or connection an operation speaks of. -/
def touch (o : Op Int (BitVec 64)) : Option Int :=
  match o.sqe.prep, o.phase with
  | .accept, .done res => if 0 ≤ res then some res else none
  | .accept, _ => none
  | _, _ => some o.sqe.fd

section Frame

variable {listenFd : Int} {clients clients' : Clients} {net net' : Net} {o : Op Int (BitVec 64)}
  {s : State Clients Int (BitVec 64)} {k : Nat}

@[simp] theorem touch_recv (fd : Int) (ph : Phase) : touch ⟨recvSqe fd, ph⟩ = some fd := by
  cases ph <;> rfl

@[simp] theorem touch_send (fd : Int) (off len : Nat) (ph : Phase) :
    touch ⟨sendSqe fd off len, ph⟩ = some fd := by
  cases ph <;> rfl

theorem touch_accept {ph : Phase} {fd : Int} (h : touch ⟨acceptSqe listenFd, ph⟩ = some fd) :
    ph = .done fd ∧ 0 ≤ fd := by
  cases ph with
  | queued => cases h
  | armed file => cases h
  | done res =>
    simp only [touch, acceptSqe] at h
    split at h
    · cases h
      exact ⟨rfl, by assumption⟩
    · cases h

/-- What an operation says depends only on what it touches. -/
theorem OpOk.frame (h : OpOk listenFd clients net o)
    (hl : net'.fds listenFd = net.fds listenFd)
    (hx : ∀ fd, touch o = some fd → clients' fd = clients fd ∧ net'.fds fd = net.fds fd ∧
      ∀ conn, net.fds fd = some conn → net'.rx conn = net.rx conn ∧ net'.tx conn = net.tx conn) :
    OpOk listenFd clients' net' o := by
  cases h with
  | accept bound new =>
    refine .accept (bound.frame hl) fun res hres h0 => ?_
    obtain ⟨conn, hn⟩ := new res hres h0
    obtain ⟨hc, hf, hs⟩ := hx res (by simp [touch, acceptSqe, hres, h0])
    obtain ⟨hrx, htx⟩ := hs conn hn.file
    exact ⟨conn, hc.trans hn.client, hf.trans hn.file, hn.isFd, hn.ne, hrx.trans hn.rx,
      htx.trans hn.tx⟩
  | @recv fd c conn ph ok bound within sent rest =>
    obtain ⟨hc, hf, hs⟩ := hx fd (touch_recv fd ph)
    obtain ⟨hrx, htx⟩ := hs conn ok.file
    exact .recv ⟨hc.trans ok.client, hf.trans ok.file, ok.isFd, ok.buf⟩ (bound.frame hf) within sent
      (by rw [hrx, htx]; exact rest)
  | @send fd c conn ph ok bound within more len rest =>
    obtain ⟨hc, hf, hs⟩ := hx fd (touch_send fd _ _ ph)
    obtain ⟨hrx, htx⟩ := hs conn ok.file
    exact .send ⟨hc.trans ok.client, hf.trans ok.file, ok.isFd, ok.buf⟩ (bound.frame hf) within more
      len (by rw [hrx, htx]; exact rest)

/-- A touched descriptor is open. -/
theorem OpOk.touch_open {fd : Int} (h : OpOk listenFd clients net o) (ht : touch o = some fd) :
    ∃ conn, net.fds fd = some conn := by
  cases h with
  | accept bound new =>
    obtain ⟨rfl, h0⟩ := touch_accept ht
    obtain ⟨conn, hn⟩ := new fd rfl h0
    exact ⟨conn, hn.file⟩
  | recv ok => rw [touch_recv] at ht; cases ht; exact ⟨_, ok.file⟩
  | send ok => rw [touch_send] at ht; cases ht; exact ⟨_, ok.file⟩

/-- An operation touches the descriptor of its client, or that of an accepted connection which
has no client. -/
theorem OpOk.touch_own {fd : Int} (h : OpOk listenFd clients net o) (ht : touch o = some fd) :
    (own o = some (.client fd) ∧ clients fd ≠ none) ∨
      (own o = some .acceptor ∧ clients fd = none) := by
  cases h with
  | accept bound new =>
    obtain ⟨rfl, h0⟩ := touch_accept ht
    obtain ⟨conn, hn⟩ := new fd rfl h0
    exact Or.inr ⟨rfl, hn.client⟩
  | recv ok =>
    rw [touch_recv] at ht
    cases ht
    exact Or.inl ⟨rfl, by rw [ok.client]; exact Option.some_ne_none _⟩
  | send ok =>
    rw [touch_send] at ht
    cases ht
    exact Or.inl ⟨rfl, by rw [ok.client]; exact Option.some_ne_none _⟩

/-- Two operations touch different descriptors. -/
theorem Inv.touch_ne (h : Inv listenFd s) {k' : Nat} {o' : Op Int (BitVec 64)} {fd fd' : Int}
    (hk : s.kern.ops k = some o) (hk' : s.kern.ops k' = some o') (hne : k' ≠ k)
    (ht : touch o = some fd) (ht' : touch o' = some fd') : fd' ≠ fd := by
  rintro rfl
  rcases (h.ops k o hk).touch_own ht with ⟨h1, h2⟩ | ⟨h1, h2⟩ <;>
    rcases (h.ops k' o' hk').touch_own ht' with ⟨h3, h4⟩ | ⟨h3, h4⟩
  · exact h.excl.own_ne hk h1 hk' hne h3
  · exact h2 h4
  · exact h4 h2
  · exact h.excl.own_ne hk h1 hk' hne h3

theorem Inv.touch_ne_listen (h : Inv listenFd s) (hk : s.kern.ops k = some o) :
    touch o ≠ some listenFd := by
  intro ht
  have hok := h.ops k o hk
  cases hok with
  | accept bound new =>
    obtain ⟨rfl, h0⟩ := touch_accept ht
    obtain ⟨conn, hn⟩ := new listenFd rfl h0
    exact hn.ne rfl
  | recv ok =>
    rw [touch_recv] at ht
    cases ht
    have := ok.client
    rw [h.noClient] at this
    cases this
  | send ok =>
    rw [touch_send] at ht
    cases ht
    have := ok.client
    rw [h.noClient] at this
    cases this

theorem Inv.isFd (h : Inv listenFd s) {fd : Int} (hk : s.kern.ops k = some o)
    (ho : own o = some (.client fd)) : IsFd fd := by
  cases h.ops k o hk with
  | accept => cases ho
  | recv ok => cases ho; exact ok.isFd
  | send ok => cases ho; exact ok.isFd

/-- An accepted connection the program has not heard of. -/
theorem Inv.newborn (h : Inv listenFd s) {res : Int}
    (hk : s.kern.ops k = some ⟨acceptSqe listenFd, .done res⟩) (h0 : 0 ≤ res) :
    ∃ conn, Newborn listenFd s.app s.kern.net res conn := by
  have hok := h.ops k _ hk
  generalize hq : (⟨acceptSqe listenFd, .done res⟩ : Op Int (BitVec 64)) = o at hok
  cases hok with
  | accept bound new => cases hq; exact new res rfl h0
  | recv => cases hq
  | send => cases hq

/-- What one operation does to the descriptor and the connection it touches leaves the others
alone. -/
theorem Inv.others (h : Inv listenFd s) (clients' : Clients) (net' : Net) {x : Int} {cx : Nat}
    (hk : s.kern.ops k = some o)
    (hx : touch o = some x) (hcx : s.kern.net.fds x = some cx)
    (hclients : ∀ fd, fd ≠ x → clients' fd = s.app fd)
    (hfds : ∀ fd, fd ≠ x → net'.fds fd = s.kern.net.fds fd)
    (hstreams : ∀ c, c ≠ cx → net'.rx c = s.kern.net.rx c ∧ net'.tx c = s.kern.net.tx c) :
    ∀ k' o', k' ≠ k → s.kern.ops k' = some o' → OpOk listenFd clients' net' o' := by
  intro k' o' hne hk'
  have hl : listenFd ≠ x := by
    rintro rfl
    exact h.touch_ne_listen hk hx
  refine (h.ops k' o' hk').frame (hfds _ hl) fun fd ht => ?_
  have hfd := h.touch_ne hk hk' hne hx ht
  refine ⟨hclients fd hfd, hfds fd hfd, fun conn hconn => hstreams conn ?_⟩
  rintro rfl
  exact hfd (h.wf.net.inj hconn hcx)

end Frame

/-! ## Steps -/

section Steps

variable {listenFd : Int} {s s' : State Clients Int (BitVec 64)} {k : Nat}
  {o : Op Int (BitVec 64)} {clients : Clients}

theorem live_update {fd : Int} {c c' : Client} (h : clients fd = some c) (i : Owner) :
    Live (Function.update clients fd (some c')) i ↔ Live clients i := by
  cases i with
  | acceptor => rfl
  | client fd' =>
    by_cases he : fd' = fd
    · subst he
      simp [Live, h]
    · simp [Live, Function.update_of_ne he]

/-- The next submission reaches the kernel. -/
theorem Inv.submit {K : Kernel Int (BitVec 64)} (h : Inv listenFd s)
    (hs : s.kern.submit = some K) : Inv listenFd { s with kern := K } := by
  have hwf := h.wf.submit hs
  obtain ⟨q, hq, -⟩ := Kernel.submit_ops hs
  have hok := h.ops _ _ hq
  have hcancel : q.prep.isCancel = false := by cases hok <;> rfl
  rw [Kernel.submit_of_queued hq hcancel] at hs
  cases hs
  have hown : own ⟨q, .armed (s.kern.net.fds q.fd)⟩ = own ⟨q, .queued⟩ := rfl
  have harmed : OpOk listenFd s.app s.kern.net ⟨q, .armed (s.kern.net.fds q.fd)⟩ := by
    cases hok with
    | accept bound new => exact .accept rfl (by rintro _ ⟨⟩)
    | recv ok bound within sent rest => exact .recv ok rfl trivial sent rest
    | send ok bound within more len rest => exact .send ok rfl trivial more len rest
  exact
    { wf := hwf
      listen := h.listen
      noClient := h.noClient
      excl := h.excl.set hq hown
      ops := forall_update (by rintro _ ⟨⟩; exact harmed) fun k' o' _ => h.ops k' o'
      echo := h.echo }

/-- The kernel executes the accept. -/
theorem Inv.execAccept {file : Option Nat} {res : Int} {data : List UInt8} (h : Inv listenFd s)
    (hk : s.kern.ops k = some ⟨acceptSqe listenFd, .armed file⟩)
    (hmay : KernelMay s.kern.net (acceptSqe listenFd) file res data)
    (hwf : (transfer (program listenFd)
      { s with kern := s.kern.setOp k (some ⟨acceptSqe listenFd, .done res⟩) }
      (acceptSqe listenFd) file res data).kern.Wf) :
    Inv listenFd (transfer (program listenFd)
      { s with kern := s.kern.setOp k (some ⟨acceptSqe listenFd, .done res⟩) }
      (acceptSqe listenFd) file res data) := by
  have hexcl := h.excl.set (b := ⟨acceptSqe listenFd, .done res⟩) hk rfl
  have hfail : res < 0 → Inv listenFd
      { s with kern := s.kern.setOp k (some ⟨acceptSqe listenFd, .done res⟩) } := by
    intro hneg
    exact
      { wf := h.wf.finish hk res, listen := h.listen, noClient := h.noClient, excl := hexcl
        ops := forall_update
          (by rintro _ ⟨⟩; exact .accept trivial fun r hr h0 => by cases hr; omega)
          fun k' o' _ => h.ops k' o'
        echo := h.echo }
  cases file with
  | none => exact hfail hmay.1
  | some file =>
    simp only [transfer, acceptSqe] at hwf ⊢
    split
    · rename_i h0
      rw [if_pos h0] at hwf
      obtain ⟨-, hneg | ⟨hfree, hlt⟩⟩ := hmay
      · omega
      · have hne : res ≠ listenFd := by
          rintro rfl
          exact h.listen hfree
        have hnoClient : s.app res = none := by
          by_contra hsome
          obtain ⟨k', o', hk', hown⟩ := (h.excl.live_iff (.client res)).1 hsome
          have htouch : touch o' = some res := by
            have hok := h.ops k' o' hk'
            cases hok with
            | accept => cases hown
            | recv => cases hown; exact touch_recv ..
            | send => cases hown; exact touch_send ..
          obtain ⟨conn, hconn⟩ := (h.ops k' o' hk').touch_open htouch
          rw [hfree] at hconn
          cases hconn
        obtain ⟨hrx, htx⟩ := h.wf.net.fresh s.kern.net.next (Nat.le_refl _)
        have hfds : ∀ fd, fd ≠ res → (s.kern.net.accept res).fds fd = s.kern.net.fds fd :=
          fun fd hfd => Function.update_of_ne hfd _ _
        exact
          { wf := hwf
            listen := by
              show (s.kern.net.accept res).fds listenFd ≠ none
              rw [hfds _ (Ne.symm hne)]
              exact h.listen
            noClient := h.noClient
            excl := hexcl
            ops := by
              refine forall_update ?_ fun k' o' _ hk' => ?_
              · rintro _ ⟨⟩
                refine .accept trivial fun r hr _ => ?_
                cases hr
                exact ⟨s.kern.net.next, hnoClient, Function.update_self .., ⟨h0, hlt⟩, hne, hrx, htx⟩
              · refine (h.ops k' o' hk').frame (hfds _ (Ne.symm hne)) fun fd ht => ?_
                obtain ⟨conn, hconn⟩ := (h.ops k' o' hk').touch_open ht
                have hfd : fd ≠ res := by
                  rintro rfl
                  rw [hfree] at hconn
                  cases hconn
                exact ⟨rfl, hfds fd hfd, fun _ _ => ⟨rfl, rfl⟩⟩
            echo := h.echo }
    · rename_i h0
      exact hfail (Int.not_le.1 h0)

/-- The kernel executes a receive. -/
theorem Inv.execRecv {fd : Int} {file : Option Nat} {res : Int} {data : List UInt8}
    (h : Inv listenFd s) (hk : s.kern.ops k = some ⟨recvSqe fd, .armed file⟩)
    (hmay : KernelMay s.kern.net (recvSqe fd) file res data)
    (hwf : (transfer (program listenFd)
      { s with kern := s.kern.setOp k (some ⟨recvSqe fd, .done res⟩) }
      (recvSqe fd) file res data).kern.Wf) :
    Inv listenFd (transfer (program listenFd)
      { s with kern := s.kern.setOp k (some ⟨recvSqe fd, .done res⟩) } (recvSqe fd) file res data) := by
  have hok := h.ops k _ hk
  generalize hq : (⟨recvSqe fd, .armed file⟩ : Op Int (BitVec 64)) = o at hok
  cases hok with
  | accept => cases hq
  | send => cases hq
  | @recv _ c conn _ ok bound within sent rest =>
    cases hq
    have hfile : file = some conn := bound.trans ok.file
    subst hfile
    obtain ⟨hres, hle, hdata⟩ := received_length hmay
    have hne : fd ≠ listenFd := fun he => h.touch_ne_listen hk (by rw [touch_recv, he])
    have hothers := h.others (Function.update s.app fd
        (some { c with buf := pwrite 0 c.buf 0 data })) (s.kern.net.receive conn data) hk (touch_recv fd _) ok.file (fun fd' hfd => Function.update_of_ne hfd _ _) (fun _ _ => rfl)
      (fun c' hc' => ⟨Function.update_of_ne hc' _ _, rfl⟩)
    have hstore : (program listenFd).store s.app fd 0 data =
        Function.update s.app fd (some { c with buf := pwrite 0 c.buf 0 data }) := by
      simp [program, storeBuf, ok.client]
    simp only [recvRest, List.append_nil] at rest
    have hrx : (s.kern.net.receive conn data).rx conn = s.kern.net.tx conn ++ data := by
      simp [Net.receive, rest]
    simp only [transfer, recvSqe, hstore] at hwf ⊢
    exact
      { wf := hwf
        listen := h.listen
        noClient := (Function.update_of_ne (Ne.symm hne) _ _).trans h.noClient
        excl := (h.excl.set (b := ⟨recvSqe fd, .done res⟩) hk rfl).congr (live_update ok.client)
        ops := by
          refine forall_update ?_ hothers
          rintro _ ⟨⟩
          refine .recv (c := { c with buf := pwrite 0 c.buf 0 data })
            ⟨Function.update_self .., ok.file, ok.isFd, ?_⟩ trivial hle sent ?_
          · have := ok.buf
            rw [pwrite_front]
            simp
            omega
          · show (s.kern.net.receive conn data).rx conn = _ ++ _
            rw [hrx, recvRest, hres, take_pwrite_front]
            rfl
        echo := fun c' => by
          by_cases hc' : c' = conn
          · subst hc'
            show s.kern.net.tx c' <+: (s.kern.net.receive c' data).rx c'
            rw [hrx]
            exact List.prefix_append _ _
          · show s.kern.net.tx c' <+: Function.update s.kern.net.rx conn _ c'
            rw [Function.update_of_ne hc']
            exact h.echo c' }

/-- The kernel executes a send. -/
theorem Inv.execSend {fd : Int} {off len : Nat} {file : Option Nat} {res : Int}
    {data : List UInt8} (h : Inv listenFd s)
    (hk : s.kern.ops k = some ⟨sendSqe fd off len, .armed file⟩)
    (hmay : KernelMay s.kern.net (sendSqe fd off len) file res data)
    (hwf : (transfer (program listenFd)
      { s with kern := s.kern.setOp k (some ⟨sendSqe fd off len, .done res⟩) }
      (sendSqe fd off len) file res data).kern.Wf) :
    Inv listenFd (transfer (program listenFd)
      { s with kern := s.kern.setOp k (some ⟨sendSqe fd off len, .done res⟩) }
      (sendSqe fd off len) file res data) := by
  have hok := h.ops k _ hk
  generalize hq : (⟨sendSqe fd off len, .armed file⟩ : Op Int (BitVec 64)) = o at hok
  cases hok with
  | accept => cases hq
  | recv => cases hq
  | @send _ c conn _ ok bound within more hlen rest =>
    cases hq
    have hfile : file = some conn := bound.trans ok.file
    subst hfile
    have hle : res ≤ (c.sendLen - c.sendOffset : Nat) := hmay.1
    generalize hsent : pread c.buf c.sendOffset res.toNat = sent
    have hload : (program listenFd).load s.app fd c.sendOffset res.toNat = sent := by
      simp [program, loadBuf, ok.client, hsent]
    have hothers := h.others s.app (s.kern.net.transmit conn sent) hk (touch_send fd _ _ _) ok.file (fun _ _ => rfl) (fun _ _ => rfl)
      (fun c' hc' => ⟨rfl, Function.update_of_ne hc' _ _⟩)
    have hrest : s.kern.net.rx conn = (s.kern.net.transmit conn sent).tx conn ++
        sendRest c (.done res) := by
      simp only [Net.transmit, Function.update_self]
      rw [rest, List.append_assoc, ← hsent, sendRest, pread_append_drop (by omega)]
      rfl
    simp only [transfer, sendSqe, hload] at hwf ⊢
    exact
      { wf := hwf
        listen := h.listen
        noClient := h.noClient
        excl := h.excl.set (b := ⟨sendSqe fd c.sendOffset (c.sendLen - c.sendOffset), .done res⟩)
          hk rfl
        ops := by
          refine forall_update ?_ hothers
          rintro _ ⟨⟩
          exact .send ⟨ok.client, ok.file, ok.isFd, ok.buf⟩ trivial hle more hlen hrest
        echo := fun c' => by
          by_cases hc' : c' = conn
          · subst hc'
            show _ <+: s.kern.net.rx c'
            rw [hrest]
            exact List.prefix_append _ _
          · show Function.update s.kern.net.tx conn _ c' <+: _
            rw [Function.update_of_ne hc']
            exact h.echo c' }

/-- The program handles a completion and queues the next operation of the same owner. -/
theorem Inv.requeue {q : Sqe Int (BitVec 64)} {i : Owner} (h : Inv listenFd s)
    (hk : s.kern.ops k = some o) (ho : own o = some i) (hq : own ⟨q, .queued⟩ = some i) (hlive : ∀ i, Live clients i ↔ Live s.app i)
    (hnew : OpOk listenFd clients s.kern.net ⟨q, .queued⟩)
    (hothers : ∀ k' o', k' ≠ k → s.kern.ops k' = some o' → OpOk listenFd clients s.kern.net o') :
    Inv listenFd ⟨clients, (s.kern.setOp k none).performAll [.queue q]⟩ where
  wf := (h.wf.remove k).performAll _
  listen := h.listen
  noClient := by
    have := hlive (.client listenFd)
    simp only [Live, h.noClient] at this
    simpa using this
  excl := (h.excl.requeue hk ho (h.wf.fresh _ (Nat.le_refl _)) hq).congr hlive
  ops := forall_requeue (P := fun _ o => OpOk listenFd clients s.kern.net o) hnew hothers
  echo := h.echo

/-- The program handles a completion by closing the connection. -/
theorem Inv.retire {fd : Int} (h : Inv listenFd s) (hk : s.kern.ops k = some o)
    (hown : own o = some (.client fd)) (ht : touch o = some fd) :
    Inv listenFd
      ⟨Function.update s.app fd none, (s.kern.setOp k none).performAll [.close fd]⟩ := by
  have hne : listenFd ≠ fd := by
    rintro rfl
    exact h.touch_ne_listen hk ht
  obtain ⟨conn, hconn⟩ := (h.ops k o hk).touch_open ht
  have hfds : ∀ fd', fd' ≠ fd → (s.kern.net.close fd).fds fd' = s.kern.net.fds fd' :=
    fun fd' hfd => Function.update_of_ne hfd _ _
  exact
    { wf := (h.wf.remove k).performAll _
      listen := by
        show (s.kern.net.close fd).fds listenFd ≠ none
        rw [hfds _ hne]
        exact h.listen
      noClient := (Function.update_of_ne hne _ _).trans h.noClient
      excl := by
        refine (h.excl.retire hk hown).congr fun i => ?_
        cases i with
        | acceptor => simp [Live]
        | client fd' =>
          by_cases he : fd' = fd
          · subst he
            simp [Live]
          · simp [Live, he]
      ops := forall_update (P := fun _ o => OpOk listenFd (Function.update s.app fd none)
          (s.kern.net.close fd) o) (by rintro _ ⟨⟩)
        (h.others _ _ hk ht hconn (fun fd' hfd => Function.update_of_ne hfd _ _) hfds
          fun _ _ => ⟨rfl, rfl⟩)
      echo := h.echo }

theorem Inv.completeAccept {res : Int} (h : Inv listenFd s) (hl : IsFd listenFd)
    (hk : s.kern.ops k = some ⟨acceptSqe listenFd, .done res⟩) :
    Inv listenFd
      ⟨((program listenFd).handle s.app (acceptSqe listenFd).userData res).1,
        (s.kern.setOp k none).performAll
          ((program listenFd).handle s.app (acceptSqe listenFd).userData res).2⟩ := by
  have hnew : OpOk listenFd s.app s.kern.net ⟨acceptSqe listenFd, .queued⟩ :=
    .accept trivial (by rintro _ ⟨⟩)
  rw [handle_accept hl]
  split
  · -- a new client: its first receive is queued before the next accept
    rename_i h0
    obtain ⟨conn, hn⟩ := h.newborn hk h0
    have hfresh : ∀ n, s.kern.nextOp ≤ n → Function.update s.kern.ops k none n = none :=
      (h.wf.remove k).fresh
    have hothers := h.others (Function.update s.app res (some (Client.new res))) s.kern.net
      hk (x := res) (by simp [touch, acceptSqe, h0]) hn.file
      (fun fd' hfd => Function.update_of_ne hfd _ _) (fun _ _ => rfl) (fun _ _ => ⟨rfl, rfl⟩)
    have hexcl : Exclusive
        (Function.update (Function.update (Function.update s.kern.ops k none) s.kern.nextOp
          (some ⟨recvSqe res, .queued⟩)) (s.kern.nextOp + 1)
          (some ⟨acceptSqe listenFd, .queued⟩)) own
        (Live (Function.update s.app res (some (Client.new res)))) := by
      have hspawn := (h.excl.retire hk rfl).spawn (b := ⟨recvSqe res, .queued⟩)
        (i := .client res) (hfresh _ (Nat.le_refl _)) rfl (by simp [Live, hn.client])
      refine (hspawn.spawn (b := ⟨acceptSqe listenFd, .queued⟩) (i := .acceptor) ?_ rfl
        (by simp)).congr fun i => ?_
      · rw [Function.update_of_ne (Nat.succ_ne_self _)]
        exact hfresh _ (Nat.le_succ _)
      · cases i with
        | acceptor => simp [Live]
        | client fd' =>
          by_cases he : fd' = res
          · subst he
            simp [Live]
          · simp [Live, he]
    exact
      { wf := (h.wf.remove k).performAll _
        listen := h.listen
        noClient := (Function.update_of_ne (Ne.symm hn.ne) _ _).trans h.noClient
        excl := hexcl
        ops := by
          refine forall_update (P := fun _ o => OpOk listenFd
            (Function.update s.app res (some (Client.new res))) s.kern.net o) ?_ fun k' o' _ => ?_
          · rintro _ ⟨⟩
            exact .accept trivial (by rintro _ ⟨⟩)
          · refine forall_requeue (P := fun _ o => OpOk listenFd
              (Function.update s.app res (some (Client.new res))) s.kern.net o) ?_ hothers k' o'
            exact .recv ⟨Function.update_self .., hn.file, hn.isFd, by simp [Client.new]⟩
              trivial trivial rfl (by rw [hn.rx, hn.tx]; rfl)
        echo := h.echo }
  · exact h.requeue hk rfl rfl (fun _ => Iff.rfl) hnew fun k' o' _ => h.ops k' o'

theorem Inv.completeRecv {fd : Int} {c : Client} {conn : Nat} {res : Int} (h : Inv listenFd s)
    (hk : s.kern.ops k = some ⟨recvSqe fd, .done res⟩) (ok : ClientOk s.app s.kern.net fd c conn)
    (hle : res ≤ CLIENT_BUF_SIZE)
    (rest : s.kern.net.rx conn = s.kern.net.tx conn ++ recvRest c (.done res)) :
    Inv listenFd
      ⟨((program listenFd).handle s.app (recvSqe fd).userData res).1,
        (s.kern.setOp k none).performAll
          ((program listenFd).handle s.app (recvSqe fd).userData res).2⟩ := by
  rw [handle_recv ok.isFd ok.client]
  split
  · exact h.retire hk rfl (touch_recv fd _)
  · refine h.requeue hk rfl rfl (live_update ok.client) ?_
      (h.others _ _ hk (touch_recv fd _) ok.file (fun fd' hfd => Function.update_of_ne hfd _ _)
        (fun _ _ => rfl) fun _ _ => ⟨rfl, rfl⟩)
    have hlen : res.toNat ≤ CLIENT_BUF_SIZE := by omega
    exact .send (c := { c with sendLen := res.toNat, sendOffset := 0 })
      ⟨Function.update_self .., ok.file, ok.isFd, ok.buf⟩ trivial trivial (by simp; omega) hlen
      (by simpa [sendRest, recvRest] using rest)

theorem Inv.completeSend {fd : Int} {c : Client} {conn : Nat} {res : Int} (h : Inv listenFd s)
    (hk : s.kern.ops k = some ⟨sendSqe fd c.sendOffset (c.sendLen - c.sendOffset), .done res⟩)
    (ok : ClientOk s.app s.kern.net fd c conn) (hle : res ≤ (c.sendLen - c.sendOffset : Nat))
    (more : c.sendOffset < c.sendLen) (len : c.sendLen ≤ CLIENT_BUF_SIZE)
    (rest : s.kern.net.rx conn = s.kern.net.tx conn ++ sendRest c (.done res)) :
    Inv listenFd
      ⟨((program listenFd).handle s.app
          (sendSqe fd c.sendOffset (c.sendLen - c.sendOffset)).userData res).1,
        (s.kern.setOp k none).performAll ((program listenFd).handle s.app
          (sendSqe fd c.sendOffset (c.sendLen - c.sendOffset)).userData res).2⟩ := by
  rw [handle_send ok.isFd ok.client]
  have hothers := h.others
    (Function.update s.app fd (some { c with sendOffset := c.sendOffset + res.toNat })) s.kern.net
    hk (touch_send fd _ _ _) ok.file (fun fd' hfd => Function.update_of_ne hfd _ _)
    (fun _ _ => rfl) fun _ _ => ⟨rfl, rfl⟩
  split
  · exact h.retire hk rfl (touch_send fd _ _ _)
  · split
    · rename_i hlt
      refine h.requeue hk rfl rfl (live_update ok.client) ?_ hothers
      exact .send (c := { c with sendOffset := c.sendOffset + res.toNat })
        ⟨Function.update_self .., ok.file, ok.isFd, ok.buf⟩ trivial trivial hlt len rest
    · rename_i hge
      refine h.requeue hk rfl rfl (live_update ok.client) ?_ hothers
      have hend : c.sendOffset + res.toNat = c.sendLen := by omega
      refine .recv (c := { c with sendOffset := c.sendOffset + res.toNat })
        ⟨Function.update_self .., ok.file, ok.isFd, ok.buf⟩ trivial trivial hend ?_
      rw [rest, sendRest, hend, List.drop_eq_nil_of_le (List.length_take_le _ _)]
      rfl

/-- One step of the server or the kernel. -/
theorem step_inv (hl : IsFd listenFd) {e : Ev} (h : Inv listenFd s)
    (hs : step (program listenFd) s e = some s') : Inv listenFd s' := by
  have hwf := step_wf h.wf hs
  cases e with
  | submit =>
    obtain ⟨K, hK, rfl⟩ := Option.map_eq_some_iff.1 hs
    exact h.submit hK
  | exec k res data =>
    simp only [step] at hs
    split at hs
    · rename_i q file hk
      split at hs
      · rename_i hmay
        cases hs
        have hok := h.ops k _ hk
        generalize hq : (⟨q, .armed file⟩ : Op Int (BitVec 64)) = o at hok
        cases hok with
        | accept => cases hq; exact h.execAccept hk hmay hwf
        | recv => cases hq; exact h.execRecv hk hmay hwf
        | send => cases hq; exact h.execSend hk hmay hwf
      · cases hs
    · cases hs
  | complete k =>
    simp only [step] at hs
    split at hs
    · rename_i q res hk
      cases hs
      have hok := h.ops k _ hk
      generalize hq : (⟨q, .done res⟩ : Op Int (BitVec 64)) = o at hok
      cases hok with
      | accept => cases hq; exact h.completeAccept hl hk
      | recv ok bound within sent rest => cases hq; exact h.completeRecv hk ok within rest
      | send ok bound within more len rest =>
        cases hq
        exact h.completeSend hk ok within more len rest
    · cases hs

theorem init_inv : Inv listenFd (echoServer listenFd).init where
  wf := machine_wf _ _
  listen := by
    simp [echoServer, machine, program, Kernel.performAll, Kernel.perform, Kernel.init, Net.init]
  noClient := rfl
  excl := by
    refine ((Exclusive.empty own).spawn (k := 0) (b := ⟨acceptSqe listenFd, .queued⟩)
      (i := .acceptor) rfl rfl id).congr fun i => ?_
    cases i with
    | acceptor => simp [Live]
    | client fd => simp [Live, echoServer, machine, program]
  ops := by
    refine forall_update (k := 0) ?_ (by rintro _ _ _ ⟨⟩)
    rintro _ ⟨⟩
    exact .accept trivial (by rintro _ ⟨⟩)
  echo := fun _ => List.nil_prefix

/-- **The invariant holds after every schedule.** -/
theorem run_inv (hl : IsFd listenFd) {es : List Ev} (h : (echoServer listenFd).run es = some s) :
    Inv listenFd s :=
  Machine.run_inv (M := echoServer listenFd) init_inv (fun _ _ _ hi hs => step_inv hl hi hs) h

end Steps

/-! ## The server as its clients see it -/

/-- The operation code of a submission. -/
def opCode : Prep Int → BitVec 64
  | .accept => OP_ACCEPT
  | .recv .. => OP_RECV
  | .send .. => OP_SEND
  | _ => 0

/-- What holds of the server after every schedule. -/
structure Served (listenFd : Int) (s : State Clients Int (BitVec 64)) : Prop where
  /-- Nothing but accepts, receives and sends is outstanding. -/
  kinds : ∀ k o, s.kern.ops k = some o →
    o.sqe = acceptSqe listenFd ∨ (∃ fd, o.sqe = recvSqe fd) ∨ ∃ fd off len, o.sqe = sendSqe fd off len
  oneAccept : ∃! k, ∃ o, s.kern.ops k = some o ∧ own o = some .acceptor
  oneForClient : ∀ fd, s.app fd ≠ none →
    ∃! k, ∃ o, s.kern.ops k = some o ∧ own o = some (.client fd)
  noneForOthers : ∀ fd k o, s.app fd = none → s.kern.ops k = some o → own o ≠ some (.client fd)
  /-- While a receive is outstanding, nothing in the buffer is still to be sent and what has been
  received is what has been sent, up to the bytes of the receive's own completion. -/
  receiving : ∀ k fd ph, s.kern.ops k = some ⟨recvSqe fd, ph⟩ →
    ∃ c conn, s.app fd = some c ∧ s.kern.net.fds fd = some conn ∧ c.sendOffset = c.sendLen ∧
      s.kern.net.rx conn = s.kern.net.tx conn ++ recvRest c ph
  echo : ∀ conn, s.kern.net.tx conn <+: s.kern.net.rx conn
  decode : ∀ k o, s.kern.ops k = some o →
    decodeOp o.sqe.userData = opCode o.sqe.prep ∧ decodeFd o.sqe.userData = o.sqe.fd

/-- **One accept, one operation for every client, and an echo that is a prefix of what was
received**, after every schedule of submissions, executions and completions. -/
theorem handleCqe_invariant {listenFd : Int} (hl : IsFd listenFd) {es : List Ev}
    {s : State Clients Int (BitVec 64)} (h : (echoServer listenFd).run es = some s) :
    Served listenFd s := by
  have hinv := run_inv hl h
  refine
    { kinds := fun k o hk => ?_
      oneAccept := hinv.excl.existsUnique (i := .acceptor) trivial
      oneForClient := fun fd hfd => hinv.excl.existsUnique (i := .client fd) hfd
      noneForOthers := fun fd k o hfd hk => hinv.excl.not_mem (i := .client fd) (fun hlive => hlive hfd) hk
      receiving := fun k fd ph hk => ?_
      echo := hinv.echo
      decode := fun k o hk => ?_ }
  · cases hinv.ops k o hk with
    | accept => exact Or.inl rfl
    | recv => exact Or.inr (Or.inl ⟨_, rfl⟩)
    | send => exact Or.inr (Or.inr ⟨_, _, _, rfl⟩)
  · have hok := hinv.ops k _ hk
    generalize hq : (⟨recvSqe fd, ph⟩ : Op Int (BitVec 64)) = o at hok
    cases hok with
    | accept => cases hq
    | recv ok bound within sent rest => cases hq; exact ⟨_, _, ok.client, ok.file, sent, rest⟩
    | send => cases hq
  · cases hinv.ops k o hk with
    | accept => exact ⟨decodeOp_encode isOp_accept hl, decodeFd_encode isOp_accept hl⟩
    | recv ok => exact ⟨decodeOp_encode isOp_recv ok.isFd, decodeFd_encode isOp_recv ok.isFd⟩
    | send ok => exact ⟨decodeOp_encode isOp_send ok.isFd, decodeFd_encode isOp_send ok.isFd⟩

/-- One client whose two bytes are echoed in two sends. -/
def twoSends : List Ev :=
  [.submit, .exec 0 5 [], .complete 0, .submit, .submit, .exec 1 2 [104, 105], .complete 1, .submit,
    .exec 3 1 [], .complete 3, .submit, .exec 4 1 []]

theorem handleCqe_twoSends : ∃ s, (echoServer 3).run twoSends = some s ∧ Served 3 s := by
  obtain ⟨s, hs⟩ : ∃ s, (echoServer 3).run twoSends = some s := ⟨_, rfl⟩
  exact ⟨s, hs, handleCqe_invariant (by unfold IsFd; decide) hs⟩

end AdvCpp.Uring.EchoServer
