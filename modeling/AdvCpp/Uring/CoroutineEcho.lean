import AdvCpp.Uring.EchoServer

/-!
# The coroutine echo server

`12_coroutine_echo.cpp`: every connection is a coroutine that suspends at a receive or a send, and
`user_data` points to the request in the suspended frame.  A frame is its local variables and the
point where it waits.

* `Sim` — suspension points against the map of clients of the state machine.
* `coroutineEcho_eq_echoServer` — the same calls and the same bytes for every schedule.
-/

namespace AdvCpp.Uring.CoroutineEcho

open AdvCpp.Lib
open EchoServer (Clients Client echoServer)

/-- Where a client handler waits. -/
inductive Point where
  | recv
  | send (n totalSent : Nat)
  deriving DecidableEq

/-- A suspended coroutine. -/
inductive Frame where
  | acceptLoop
  | clientHandler (fd : Int) (buf : List UInt8) (point : Point)
  deriving DecidableEq

/-- The coroutine frames, `next` being the one allocated next. -/
structure Coroutines where
  frames : Nat → Option Frame
  next : Nat

def Coroutines.suspend (σ : Coroutines) (p : Nat) (f : Frame) : Coroutines :=
  { σ with frames := Function.update σ.frames p (some f) }

/-- The coroutine runs off its end and destroys itself. -/
def Coroutines.finish (σ : Coroutines) (p : Nat) : Coroutines :=
  { σ with frames := Function.update σ.frames p none }

/-- `AsyncAccept`. -/
def asyncAccept (listenFd : Int) (p : Nat) : Sqe Nat Nat := ⟨listenFd, .accept, p⟩

/-- `AsyncRecv`. -/
def asyncRecv (fd : Int) (p : Nat) : Sqe Nat Nat := ⟨fd, .recv p 0 4096, p⟩

/-- `AsyncSend`. -/
def asyncSend (fd : Int) (p off len : Nat) : Sqe Nat Nat := ⟨fd, .send p off len, p⟩

/-- `client_handler` from its start to the first receive. -/
def clientHandler (σ : Coroutines) (fd : Int) : Coroutines × List (Act Nat Nat) :=
  ({ frames := Function.update σ.frames σ.next
        (some (.clientHandler fd (List.replicate 4096 0) .recv))
     next := σ.next + 1 },
    [.queue (asyncRecv fd σ.next)])

/-- The head of `while (total_sent < n)`, and the next receive behind it. -/
def sendLoop (σ : Coroutines) (p : Nat) (fd : Int) (buf : List UInt8) (n totalSent : Nat) :
    Coroutines × List (Act Nat Nat) :=
  if totalSent < n then
    (σ.suspend p (.clientHandler fd buf (.send n totalSent)),
      [.queue (asyncSend fd p totalSent (n - totalSent))])
  else (σ.suspend p (.clientHandler fd buf .recv), [.queue (asyncRecv fd p)])

/-- `req->handle.resume()`: the coroutine runs to its next suspension. -/
def resume (listenFd : Int) (σ : Coroutines) (p : Nat) (res : Int) :
    Coroutines × List (Act Nat Nat) :=
  match σ.frames p with
  | some .acceptLoop =>
    if res < 0 then (σ, [.queue (asyncAccept listenFd p)])
    else
      let r := clientHandler σ res
      (r.1, r.2 ++ [.queue (asyncAccept listenFd p)])
  | some (.clientHandler fd buf .recv) =>
    if res ≤ 0 then (σ.finish p, [.close fd]) else sendLoop σ p fd buf res.toNat 0
  | some (.clientHandler fd buf (.send n totalSent)) =>
    if res ≤ 0 then (σ.finish p, [.close fd])
    else sendLoop σ p fd buf n (totalSent + res.toNat)
  | none => (σ, [])

/-- The bytes at `off` in the buffer of a frame. -/
def loadBuf (σ : Coroutines) (p off len : Nat) : List UInt8 :=
  match σ.frames p with
  | some (.clientHandler _ buf _) => pread buf off len
  | _ => []

def storeBuf (σ : Coroutines) (p off : Nat) (data : List UInt8) : Coroutines :=
  match σ.frames p with
  | some (.clientHandler fd buf pt) => σ.suspend p (.clientHandler fd (pwrite 0 buf off data) pt)
  | _ => σ

def program (listenFd : Int) : Program Coroutines Nat Nat where
  start := (⟨Function.update (fun _ => none) 0 (some .acceptLoop), 1⟩,
    [.queue (asyncAccept listenFd 0)])
  handle := resume listenFd
  load := loadBuf
  store := storeBuf

def coroutineEcho (listenFd : Int) : Machine (State Coroutines Nat Nat) Ev :=
  machine (program listenFd) [listenFd]

/-! ## The simulation -/

/-- An operation of the state machine against one of a coroutine: the client's fields are the
local variables of the frame. -/
inductive OpSim (listenFd : Int) (clients : Clients) (frames : Nat → Option Frame) :
    Option (Op Int (BitVec 64)) → Option (Op Nat Nat) → Prop where
  | idle : OpSim listenFd clients frames none none
  | accept {p : Nat} {ph : Phase} (hf : frames p = some .acceptLoop) :
      OpSim listenFd clients frames (some ⟨EchoServer.acceptSqe listenFd, ph⟩)
        (some ⟨asyncAccept listenFd p, ph⟩)
  | recv {p : Nat} {ph : Phase} {fd : Int} {c : Client} (hc : clients fd = some c)
      (hf : frames p = some (.clientHandler fd c.buf .recv)) :
      OpSim listenFd clients frames (some ⟨EchoServer.recvSqe fd, ph⟩) (some ⟨asyncRecv fd p, ph⟩)
  | send {p : Nat} {ph : Phase} {fd : Int} {c : Client} (hc : clients fd = some c)
      (hf : frames p = some (.clientHandler fd c.buf (.send c.sendLen c.sendOffset))) :
      OpSim listenFd clients frames
        (some ⟨EchoServer.sendSqe fd c.sendOffset (c.sendLen - c.sendOffset), ph⟩)
        (some ⟨asyncSend fd p c.sendOffset (c.sendLen - c.sendOffset), ph⟩)

/-- The simulation relation. -/
structure Sim (listenFd : Int) (s : State Clients Int (BitVec 64)) (t : State Coroutines Nat Nat) :
    Prop where
  nextOp : t.kern.nextOp = s.kern.nextOp
  submitted : t.kern.submitted = s.kern.submitted
  net : t.kern.net = s.kern.net
  log : t.kern.log = s.kern.log
  ops : ∀ k, OpSim listenFd s.app t.app.frames (s.kern.ops k) (t.kern.ops k)
  frames : Exclusive t.kern.ops (fun o => some o.sqe.userData) (fun p => t.app.frames p ≠ none)
  fresh : ∀ p, t.app.next ≤ p → t.app.frames p = none

section Simulation

variable {listenFd : Int} {clients clients' : Clients} {frames frames' : Nat → Option Frame}
  {s : State Clients Int (BitVec 64)} {t : State Coroutines Nat Nat}
  {ops : Nat → Option (Op Int (BitVec 64))} {ops' : Nat → Option (Op Nat Nat)}
  {x : Option (Op Int (BitVec 64))} {y : Option (Op Nat Nat)} {k : Nat}

theorem OpSim.frame (h : OpSim listenFd clients frames x y)
    (hc : ∀ o fd, x = some o → EchoServer.own o = some (.client fd) → clients fd ≠ none →
      clients' fd = clients fd)
    (hf : ∀ o, y = some o → frames o.sqe.userData ≠ none →
      frames' o.sqe.userData = frames o.sqe.userData) :
    OpSim listenFd clients' frames' x y := by
  cases h with
  | idle => exact .idle
  | @accept p ph h =>
    exact .accept ((hf _ rfl (by rw [show (asyncAccept listenFd p).userData = p from rfl, h]; simp)).trans h)
  | @recv p ph fd c hcl h =>
    exact .recv ((hc _ fd rfl rfl (by rw [hcl]; simp)).trans hcl)
      ((hf _ rfl (by rw [show (asyncRecv fd p).userData = p from rfl, h]; simp)).trans h)
  | @send p ph fd c hcl h =>
    exact .send ((hc _ fd rfl rfl (by rw [hcl]; simp)).trans hcl)
      ((hf _ rfl (by
        rw [show (asyncSend fd p c.sendOffset (c.sendLen - c.sendOffset)).userData = p from rfl, h]
        simp)).trans h)

/-- A frame that is suspended again is still there. -/
theorem suspend_live {σ : Coroutines} {p : Nat} {f : Frame} (hf : σ.frames p = some f) (f' : Frame)
    (p' : Nat) : (σ.suspend p f').frames p' ≠ none ↔ σ.frames p' ≠ none := by
  by_cases hp : p' = p
  · subst hp
    simp [Coroutines.suspend, hf]
  · simp [Coroutines.suspend, Function.update_of_ne hp]

theorem suspend_fresh {σ : Coroutines} {p : Nat} {f : Frame}
    (h : ∀ p, σ.next ≤ p → σ.frames p = none) (hf : σ.frames p = some f) (f' : Frame) (p' : Nat)
    (hp' : (σ.suspend p f').next ≤ p') : (σ.suspend p f').frames p' = none := by
  have hne : p' ≠ p := by
    rintro rfl
    rw [h p' hp'] at hf
    cases hf
  exact (Function.update_of_ne hne _ _).trans (h p' hp')

/-- Both tables change at one key. -/
theorem opSim_update (h : OpSim listenFd clients frames x y)
    (hothers : ∀ k', k' ≠ k → OpSim listenFd clients frames (ops k') (ops' k')) (k' : Nat) :
    OpSim listenFd clients frames (Function.update ops k x k') (Function.update ops' k y k') := by
  by_cases hk : k' = k
  · subst hk
    rw [Function.update_self, Function.update_self]
    exact h
  · rw [Function.update_of_ne hk, Function.update_of_ne hk]
    exact hothers k' hk

/-- What happens to one client and its frame leaves the other operations alone. -/
theorem Sim.others (h : Sim listenFd s t) (hi : EchoServer.Inv listenFd s) (clients' : Clients)
    (frames' : Nat → Option Frame) {fd : Int} {p : Nat}
    {o : Op Int (BitVec 64)} {o' : Op Nat Nat} (hk : s.kern.ops k = some o)
    (hk' : t.kern.ops k = some o') (hown : EchoServer.own o = some (.client fd)) (hp : o'.sqe.userData = p)
    (hclients : ∀ fd', fd' ≠ fd → clients' fd' = s.app fd')
    (hframes : ∀ p', p' ≠ p → frames' p' = t.app.frames p') :
    ∀ j, j ≠ k → OpSim listenFd clients' frames' (s.kern.ops j) (t.kern.ops j) := by
  intro j hj
  refine (h.ops j).frame (fun o₁ fd₁ ho₁ hfd₁ _ => hclients fd₁ ?_)
    (fun o₁ ho₁ _ => hframes _ ?_)
  · rintro rfl
    exact hi.excl.own_ne hk hown ho₁ hj hfd₁
  · intro he
    exact h.frames.own_ne hk' (congrArg some hp) ho₁ hj (congrArg some he)

theorem Sim.submit (h : Sim listenFd s t) :
    Option.Rel (Sim listenFd) (step (EchoServer.program listenFd) s .submit)
      (step (program listenFd) t .submit) := by
  have hop := h.ops s.kern.submitted
  generalize hx : s.kern.ops s.kern.submitted = x at hop
  generalize hy : t.kern.ops s.kern.submitted = y at hop
  rw [← h.submitted] at hy
  -- nothing is queued on either side
  have hskip : (∀ q, x ≠ some ⟨q, .queued⟩) → (∀ q, y ≠ some ⟨q, .queued⟩) →
      Option.Rel (Sim listenFd) (step (EchoServer.program listenFd) s .submit)
        (step (program listenFd) t .submit) := by
    intro h₁ h₂
    simp only [step, Kernel.submit_eq_none (fun q => by rw [hx]; exact h₁ q),
      Kernel.submit_eq_none (fun q => by rw [hy]; exact h₂ q)]
    exact .none
  -- a queued operation is armed on both sides
  have harm : ∀ {q : Sqe Int (BitVec 64)} {q' : Sqe Nat Nat},
      x = some ⟨q, .queued⟩ → y = some ⟨q', .queued⟩ → q.prep.isCancel = false →
      q'.prep.isCancel = false →
      OpSim listenFd s.app t.app.frames (some ⟨q, .armed (s.kern.net.fds q.fd)⟩)
        (some ⟨q', .armed (t.kern.net.fds q'.fd)⟩) →
      Option.Rel (Sim listenFd) (step (EchoServer.program listenFd) s .submit)
        (step (program listenFd) t .submit) := by
    rintro q q' rfl rfl hc hc' hsim
    simp only [step, Kernel.submit_of_queued hx hc, Kernel.submit_of_queued hy hc']
    exact .some
      { nextOp := h.nextOp, submitted := by rw [h.submitted], net := h.net, log := h.log
        ops := by rw [h.submitted]; exact opSim_update hsim fun k' _ => h.ops k'
        frames := h.frames.set hy rfl, fresh := h.fresh }
  cases hop with
  | idle => exact hskip (by simp) (by simp)
  | @accept p ph hf =>
    cases ph with
    | queued => exact harm rfl rfl rfl rfl (by rw [h.net]; exact .accept hf)
    | _ => exact hskip (by simp) (by simp)
  | @recv p ph fd c hc hf =>
    cases ph with
    | queued => exact harm rfl rfl rfl rfl (by rw [h.net]; exact .recv hc hf)
    | _ => exact hskip (by simp) (by simp)
  | @send p ph fd c hc hf =>
    cases ph with
    | queued => exact harm rfl rfl rfl rfl (by rw [h.net]; exact .send hc hf)
    | _ => exact hskip (by simp) (by simp)

/-- Up to the bytes moved, both sides complete an operation alike. -/
theorem Sim.done {q : Sqe Int (BitVec 64)} {q' : Sqe Nat Nat} {file : Option Nat}
    (h : Sim listenFd s t) (res : Int) (hy : t.kern.ops k = some ⟨q', .armed file⟩)
    (hsim : OpSim listenFd s.app t.app.frames (some ⟨q, .done res⟩) (some ⟨q', .done res⟩)) :
    Sim listenFd { s with kern := s.kern.setOp k (some ⟨q, .done res⟩) }
      { t with kern := t.kern.setOp k (some ⟨q', .done res⟩) } where
  nextOp := h.nextOp
  submitted := h.submitted
  net := h.net
  log := h.log
  ops := opSim_update hsim fun k' _ => h.ops k'
  frames := h.frames.set hy rfl
  fresh := h.fresh

/-- What a client sent is stored in its buffer: a field of the map, a local variable of the
frame. -/
theorem Sim.received {p conn : Nat} {fd res : Int} {c : Client} (h : Sim listenFd s t)
    (hi : EchoServer.Inv listenFd s)
    (hx : s.kern.ops k = some ⟨EchoServer.recvSqe fd, .armed (some conn)⟩)
    (hy : t.kern.ops k = some ⟨asyncRecv fd p, .armed (some conn)⟩) (hc : s.app fd = some c)
    (hf : t.app.frames p = some (.clientHandler fd c.buf .recv)) (data : List UInt8) :
    Sim listenFd
      (transfer (EchoServer.program listenFd)
        { s with kern := s.kern.setOp k (some ⟨EchoServer.recvSqe fd, .done res⟩) }
        (EchoServer.recvSqe fd) (some conn) res data)
      (transfer (program listenFd)
        { t with kern := t.kern.setOp k (some ⟨asyncRecv fd p, .done res⟩) }
        (asyncRecv fd p) (some conn) res data) := by
  have hstore : (EchoServer.program listenFd).store s.app fd 0 data =
      Function.update s.app fd (some { c with buf := pwrite 0 c.buf 0 data }) := by
    simp [EchoServer.program, EchoServer.storeBuf, hc]
  have hstore' : (program listenFd).store t.app p 0 data =
      t.app.suspend p (.clientHandler fd (pwrite 0 c.buf 0 data) .recv) := by
    simp [program, storeBuf, hf]
  have hothers := h.others hi
    (Function.update s.app fd (some { c with buf := pwrite 0 c.buf 0 data }))
    (t.app.suspend p (.clientHandler fd (pwrite 0 c.buf 0 data) .recv)).frames
    hx hy rfl rfl (fun fd' hfd => Function.update_of_ne hfd _ _)
    (fun p' hp => Function.update_of_ne hp _ _)
  simp only [transfer, EchoServer.recvSqe, asyncRecv, hstore, hstore']
  exact
    { nextOp := h.nextOp, submitted := h.submitted
      net := congrArg (Net.receive · conn data) h.net, log := h.log
      ops := opSim_update (.recv (c := { c with buf := pwrite 0 c.buf 0 data })
        (Function.update_self ..) (Function.update_self ..)) hothers
      frames := (h.frames.set (b := ⟨asyncRecv fd p, .done res⟩) hy rfl).congr
        (suspend_live hf _)
      fresh := suspend_fresh h.fresh hf _ }

/-- The kernel executes an operation. -/
theorem Sim.exec (h : Sim listenFd s t) (hi : EchoServer.Inv listenFd s) (k : Nat) (res : Int)
    (data : List UInt8) :
    Option.Rel (Sim listenFd) (step (EchoServer.program listenFd) s (.exec k res data))
      (step (program listenFd) t (.exec k res data)) := by
  have hop := h.ops k
  generalize hx : s.kern.ops k = x at hop
  generalize hy : t.kern.ops k = y at hop
  have hskip : (∀ q file, x ≠ some ⟨q, .armed file⟩) → (∀ q file, y ≠ some ⟨q, .armed file⟩) →
      Option.Rel (Sim listenFd) (step (EchoServer.program listenFd) s (.exec k res data))
        (step (program listenFd) t (.exec k res data)) := by
    intro h₁ h₂
    rw [step_exec_eq_none (by rw [hx]; exact h₁), step_exec_eq_none (by rw [hy]; exact h₂)]
    exact .none
  cases hop with
  | idle => exact hskip (by simp) (by simp)
  | @accept p ph hf =>
    cases ph with
    | armed file =>
      rw [step_exec hx, step_exec hy]
      have hbase := h.done res hy (.accept hf)
      refine Machine.rel_guard (by rw [h.net]; cases file <;> exact Iff.rfl) fun _ => ?_
      cases file with
      | none => exact hbase
      | some conn =>
        simp only [transfer, EchoServer.acceptSqe, asyncAccept]
        by_cases h0 : 0 ≤ res
        · rw [if_pos h0, if_pos h0]
          exact { hbase with net := congrArg (Net.accept · res) h.net }
        · rw [if_neg h0, if_neg h0]
          exact hbase
    | _ => exact hskip (by simp) (by simp)
  | @recv p ph fd c hc hf =>
    cases ph with
    | armed file =>
      rw [step_exec hx, step_exec hy]
      have hbase := h.done res hy (.recv hc hf)
      refine Machine.rel_guard (by rw [h.net]; cases file <;> exact Iff.rfl) fun _ => ?_
      cases file with
      | none => exact hbase
      | some conn =>
        exact h.received hi hx hy hc hf data
    | _ => exact hskip (by simp) (by simp)
  | @send p ph fd c hc hf =>
    cases ph with
    | armed file =>
      rw [step_exec hx, step_exec hy]
      have hbase := h.done res hy (.send hc hf)
      refine Machine.rel_guard (by rw [h.net]; cases file <;> exact Iff.rfl) fun _ => ?_
      cases file with
      | none => exact hbase
      | some conn =>
        have hload : (program listenFd).load t.app p c.sendOffset res.toNat =
            (EchoServer.program listenFd).load s.app fd c.sendOffset res.toNat := by
          simp [program, loadBuf, hf, EchoServer.program, EchoServer.loadBuf, hc]
        simp only [transfer, EchoServer.sendSqe, asyncSend, hload]
        exact { hbase with net := congrArg (Net.transmit · conn _) h.net }
    | _ => exact hskip (by simp) (by simp)

/-- Both programs queue the next operation of the same client. -/
theorem Sim.requeue (h : Sim listenFd s t) {σ : Coroutines} {o' : Op Nat Nat} {q : Sqe Int (BitVec 64)}
    {q' : Sqe Nat Nat} (hk' : t.kern.ops k = some o') (hfree : t.kern.ops t.kern.nextOp = none)
    (hfd : q'.fd = q.fd) (hprep : q'.prep.erase = q.prep.erase)
    (hp : q'.userData = o'.sqe.userData)
    (hsim : OpSim listenFd clients σ.frames (some ⟨q, .queued⟩) (some ⟨q', .queued⟩))
    (hothers : ∀ j, j ≠ k → OpSim listenFd clients σ.frames (s.kern.ops j) (t.kern.ops j))
    (hlive : ∀ p, σ.frames p ≠ none ↔ t.app.frames p ≠ none)
    (hfresh : ∀ p, σ.next ≤ p → σ.frames p = none) :
    Sim listenFd ⟨clients, (s.kern.setOp k none).performAll [.queue q]⟩
      ⟨σ, (t.kern.setOp k none).performAll [.queue q']⟩ where
  nextOp := congrArg (· + 1) h.nextOp
  submitted := h.submitted
  net := h.net
  log := by
    show t.kern.log ++ _ = s.kern.log ++ _
    rw [h.log, hfd, hprep]
  ops := by
    show ∀ j, OpSim listenFd clients σ.frames
      (Function.update (Function.update s.kern.ops k none) s.kern.nextOp _ j)
      (Function.update (Function.update t.kern.ops k none) t.kern.nextOp _ j)
    rw [h.nextOp]
    exact opSim_update hsim fun j _ => opSim_update .idle hothers j
  frames := (h.frames.requeue hk' rfl hfree (congrArg some hp)).congr hlive
  fresh := hfresh

/-- Both programs close the connection. -/
theorem Sim.retire (h : Sim listenFd s t) (hi : EchoServer.Inv listenFd s) {fd : Int} {p : Nat}
    {o : Op Int (BitVec 64)} {o' : Op Nat Nat} (hk : s.kern.ops k = some o)
    (hk' : t.kern.ops k = some o') (hown : EchoServer.own o = some (.client fd))
    (hp : o'.sqe.userData = p) :
    Sim listenFd ⟨Function.update s.app fd none, (s.kern.setOp k none).performAll [.close fd]⟩
      ⟨t.app.finish p, (t.kern.setOp k none).performAll [.close fd]⟩ where
  nextOp := h.nextOp
  submitted := h.submitted
  net := congrArg (Net.close · fd) h.net
  log := congrArg (· ++ _) h.log
  ops := opSim_update .idle (h.others hi _ _ hk hk' hown hp
    (fun fd' hfd => Function.update_of_ne hfd _ _) fun p' hp' => Function.update_of_ne hp' _ _)
  frames := by
    refine (h.frames.retire hk' (congrArg some hp)).congr fun p' => ?_
    by_cases he : p' = p
    · subst he
      simp [Coroutines.finish]
    · simp [Coroutines.finish, he]
  fresh := by
    intro p' hp'
    by_cases he : p' = p
    · subst he
      exact Function.update_self ..
    · exact (Function.update_of_ne he _ _).trans (h.fresh p' hp')

/-- Both programs take a new connection: its first receive, then the next accept. -/
theorem Sim.spawn (h : Sim listenFd s t) (hi : EchoServer.Inv listenFd s) {res : Int} {p : Nat}
    (hk : s.kern.ops k = some ⟨EchoServer.acceptSqe listenFd, .done res⟩)
    (hk' : t.kern.ops k = some ⟨asyncAccept listenFd p, .done res⟩)
    (hf : t.app.frames p = some .acceptLoop) (h0 : 0 ≤ res) (hwf : t.kern.Wf) :
    Sim listenFd
      ⟨Function.update s.app res (some (Client.new res)), (s.kern.setOp k none).performAll
        [.queue (EchoServer.recvSqe res), .queue (EchoServer.acceptSqe listenFd)]⟩
      ⟨(clientHandler t.app res).1, (t.kern.setOp k none).performAll
        ((clientHandler t.app res).2 ++ [.queue (asyncAccept listenFd p)])⟩ := by
  obtain ⟨conn, hn⟩ := hi.newborn hk h0
  have hnew : t.app.frames t.app.next = none := h.fresh _ (Nat.le_refl _)
  have hpn : p ≠ t.app.next := by
    rintro rfl
    rw [hnew] at hf
    cases hf
  have hframes : ∀ p', p' ≠ t.app.next →
      (clientHandler t.app res).1.frames p' = t.app.frames p' :=
    fun p' hp' => Function.update_of_ne hp' _ _
  have hothers : ∀ j, OpSim listenFd (Function.update s.app res (some (Client.new res)))
      (clientHandler t.app res).1.frames (s.kern.ops j) (t.kern.ops j) := by
    intro j
    refine (h.ops j).frame (fun o fd _ _ hsome => Function.update_of_ne ?_ _ _)
      (fun o _ hsome => hframes _ ?_)
    · rintro rfl
      exact hsome hn.client
    · intro he
      rw [he] at hsome
      exact hsome hnew
  have hfree : ∀ n, t.kern.nextOp ≤ n → Function.update t.kern.ops k none n = none :=
    (hwf.remove k).fresh
  refine
    { nextOp := congrArg (· + 1 + 1) h.nextOp, submitted := h.submitted, net := h.net
      log := ?_, ops := ?_, frames := ?_, fresh := fun p' hp' => ?_ }
  · show (t.kern.log ++ _) ++ _ = (s.kern.log ++ _) ++ _
    rw [h.log]
    rfl
  · show ∀ j, OpSim listenFd _ _
      (Function.update (Function.update (Function.update s.kern.ops k none) s.kern.nextOp _)
        (s.kern.nextOp + 1) _ j)
      (Function.update (Function.update (Function.update t.kern.ops k none) t.kern.nextOp _)
        (t.kern.nextOp + 1) _ j)
    rw [h.nextOp]
    refine opSim_update (.accept ((hframes p hpn).trans hf)) fun j _ => ?_
    refine opSim_update (.recv (c := Client.new res) (Function.update_self ..)
      (Function.update_self ..)) (fun j _ => ?_) j
    exact opSim_update .idle (fun j _ => hothers j) j
  · have hspawn := (h.frames.retire hk' rfl).spawn (b := ⟨asyncRecv res t.app.next, .queued⟩)
      (hfree _ (Nat.le_refl _)) rfl (by simp [asyncRecv, hnew])
    refine (hspawn.spawn (k := t.kern.nextOp + 1) (b := ⟨asyncAccept listenFd p, .queued⟩)
      ?_ rfl ?_).congr fun p' => ?_
    · rw [Function.update_of_ne (Nat.succ_ne_self _)]
      exact hfree _ (Nat.le_succ _)
    · simp [asyncAccept, asyncRecv, hpn]
    · by_cases he : p' = t.app.next
      · subst he
        have hself : (clientHandler t.app res).1.frames t.app.next = some
            (.clientHandler res (List.replicate 4096 0) .recv) := Function.update_self ..
        exact iff_of_true (by rw [hself]; exact Option.some_ne_none _) (Or.inl (Or.inr rfl))
      · rw [hframes p' he]
        by_cases hep : p' = p
        · subst hep
          simp [asyncAccept, hf]
        · simp [asyncAccept, asyncRecv, he, hep]
  · have hlt : t.app.next < p' := hp'
    rw [hframes p' (Nat.ne_of_gt hlt)]
    exact h.fresh p' (Nat.le_of_lt hlt)

/-- The program handles a completion. -/
theorem Sim.complete (h : Sim listenFd s t) (hi : EchoServer.Inv listenFd s) (hl : IsFd listenFd)
    (hwf : t.kern.Wf) (k : Nat) :
    Option.Rel (Sim listenFd) (step (EchoServer.program listenFd) s (.complete k))
      (step (program listenFd) t (.complete k)) := by
  have hop := h.ops k
  have hfree := hwf.fresh _ (Nat.le_refl _)
  generalize hx : s.kern.ops k = x at hop
  generalize hy : t.kern.ops k = y at hop
  have hskip : (∀ q res, x ≠ some ⟨q, .done res⟩) → (∀ q res, y ≠ some ⟨q, .done res⟩) →
      Option.Rel (Sim listenFd) (step (EchoServer.program listenFd) s (.complete k))
        (step (program listenFd) t (.complete k)) := by
    intro h₁ h₂
    rw [step_complete_eq_none (by rw [hx]; exact h₁), step_complete_eq_none (by rw [hy]; exact h₂)]
    exact .none
  cases hop with
  | idle => exact hskip (by simp) (by simp)
  | @accept p ph hf =>
    cases ph with
    | done res =>
      rw [step_complete hx, step_complete hy, EchoServer.handle_accept hl]
      refine .some ?_
      simp only [program, asyncAccept, resume, hf]
      by_cases h0 : 0 ≤ res
      · rw [if_pos h0, if_neg (by omega)]
        exact h.spawn hi hx hy hf h0 hwf
      · rw [if_neg h0, if_pos (by omega)]
        exact h.requeue hy hfree rfl rfl rfl (.accept hf) (fun j _ => h.ops j)
          (fun _ => Iff.rfl) h.fresh
    | _ => exact hskip (by simp) (by simp)
  | @recv p ph fd c hc hf =>
    cases ph with
    | done res =>
      have hfd : IsFd fd := hi.isFd hx rfl
      rw [step_complete hx, step_complete hy, EchoServer.handle_recv hfd hc]
      refine .some ?_
      simp only [program, asyncRecv, resume, hf]
      by_cases h0 : res ≤ 0
      · rw [if_pos h0, if_pos h0]
        exact h.retire hi hx hy rfl rfl
      · have hlt : 0 < res.toNat := by omega
        rw [if_neg h0, if_neg h0, sendLoop, if_pos hlt, Nat.sub_zero]
        refine h.requeue hy hfree rfl rfl rfl ?_
          (h.others hi _ _ hx hy rfl rfl (fun fd' hfd => Function.update_of_ne hfd _ _)
            fun p' hp' => Function.update_of_ne hp' _ _)
          (suspend_live hf _) (suspend_fresh h.fresh hf _)
        exact .send (c := { c with sendLen := res.toNat, sendOffset := 0 })
          (Function.update_self ..) (Function.update_self ..)
    | _ => exact hskip (by simp) (by simp)
  | @send p ph fd c hc hf =>
    cases ph with
    | done res =>
      have hfd : IsFd fd := hi.isFd hx rfl
      rw [step_complete hx, step_complete hy, EchoServer.handle_send hfd hc]
      refine .some ?_
      simp only [program, asyncSend, resume, hf]
      by_cases h0 : res ≤ 0
      · rw [if_pos h0, if_pos h0]
        exact h.retire hi hx hy rfl rfl
      · have hothers := fun pt : Point => h.others hi
          (Function.update s.app fd (some { c with sendOffset := c.sendOffset + res.toNat }))
          (t.app.suspend p (.clientHandler fd c.buf pt)).frames hx hy rfl rfl (fun fd' hfd => Function.update_of_ne hfd _ _)
          fun p' hp' => Function.update_of_ne hp' _ _
        rw [if_neg h0, if_neg h0, sendLoop]
        by_cases hlt : c.sendOffset + res.toNat < c.sendLen
        · rw [if_pos hlt, if_pos hlt]
          refine h.requeue hy hfree rfl rfl rfl ?_ (hothers _) (suspend_live hf _)
            (suspend_fresh h.fresh hf _)
          exact .send (c := { c with sendOffset := c.sendOffset + res.toNat })
            (Function.update_self ..) (Function.update_self ..)
        · rw [if_neg hlt, if_neg hlt]
          refine h.requeue hy hfree rfl rfl rfl ?_ (hothers _) (suspend_live hf _)
            (suspend_fresh h.fresh hf _)
          exact .recv (c := { c with sendOffset := c.sendOffset + res.toNat })
            (Function.update_self ..) (Function.update_self ..)
    | _ => exact hskip (by simp) (by simp)

/-- The state machine with its invariant, and the coroutines. -/
structure Coupled (listenFd : Int) (s : State Clients Int (BitVec 64))
    (t : State Coroutines Nat Nat) : Prop where
  inv : EchoServer.Inv listenFd s
  wf : t.kern.Wf
  sim : Sim listenFd s t

theorem step_coupled (hl : IsFd listenFd) (h : Coupled listenFd s t) (e : Ev) :
    Option.Rel (Coupled listenFd) (step (EchoServer.program listenFd) s e)
      (step (program listenFd) t e) := by
  have hsim : Option.Rel (Sim listenFd) (step (EchoServer.program listenFd) s e)
      (step (program listenFd) t e) := by
    cases e with
    | submit => exact h.sim.submit
    | exec k res data => exact h.sim.exec h.inv k res data
    | complete k => exact h.sim.complete h.inv hl h.wf k
  generalize hs : step (EchoServer.program listenFd) s e = s' at hsim
  generalize ht : step (program listenFd) t e = t' at hsim
  cases hsim with
  | some hsim => exact .some ⟨EchoServer.step_inv hl h.inv hs, step_wf h.wf ht, hsim⟩
  | none => exact .none

theorem init_coupled : Coupled listenFd (echoServer listenFd).init (coroutineEcho listenFd).init where
  inv := EchoServer.init_inv
  wf := machine_wf _ _
  sim :=
    { nextOp := rfl, submitted := rfl, net := rfl, log := rfl
      ops := opSim_update (k := 0) (.accept (p := 0) rfl) fun _ _ => .idle
      frames := by
        refine ((Exclusive.empty fun o : Op Nat Nat => some o.sqe.userData).spawn (k := 0)
          (b := ⟨asyncAccept listenFd 0, .queued⟩) rfl rfl id).congr fun p => ?_
        by_cases hp : p = 0
        · subst hp
          simp [coroutineEcho, machine, program, asyncAccept]
        · simp [coroutineEcho, machine, program, asyncAccept, hp]
      fresh := fun p hp => by
        have hp0 : p ≠ 0 := Nat.ne_of_gt hp
        simp [coroutineEcho, machine, program, hp0] }

end Simulation

/-- What is seen of a server: its submissions and `close` calls in order, the open descriptors
and the bytes on every connection. -/
def observe {σ β δ : Type} (s : State σ β δ) : List Call × Net := (s.kern.log, s.kern.net)

/-- **The coroutines and the state machine are observationally equal**: a schedule that one of
them can follow the other can follow, with the same calls and the same bytes. -/
theorem coroutineEcho_eq_echoServer {listenFd : Int} (hl : IsFd listenFd) (es : List Ev) :
    ((coroutineEcho listenFd).run es).map observe = ((echoServer listenFd).run es).map observe := by
  have hrel := Machine.run_rel (M := echoServer listenFd) (N := coroutineEcho listenFd)
    init_coupled (fun _ _ e h => step_coupled hl h e) es
  generalize (echoServer listenFd).run es = s at hrel
  generalize (coroutineEcho listenFd).run es = t at hrel
  cases hrel with
  | some h => simp [observe, h.sim.log, h.sim.net]
  | none => rfl

/-- The schedule with two sends of one byte each. -/
theorem coroutineEcho_twoSends :
    ((coroutineEcho 3).run EchoServer.twoSends).map observe =
      ((echoServer 3).run EchoServer.twoSends).map observe :=
  coroutineEcho_eq_echoServer (by unfold IsFd; decide) EchoServer.twoSends

end AdvCpp.Uring.CoroutineEcho
