import AdvCpp.Uring.CoroutineEcho

/-!
# Graceful shutdown

`15_graceful_shutdown.cpp`: the coroutine server with a third coroutine that waits for a signal,
sets `shutting_down` and queues a cancel request for the listening descriptor and for every
client.  Neither `accept_loop` nor `client_handler` looks at `shutting_down`.

* `Inv` — frames, descriptors and outstanding operations, whatever the server does.
* `Inert` — completions after which nothing is queued.
* `shutdown_iff` — after the signal every operation stays covered by a cancel request exactly if
  every completion that is still handled is inert.
-/

namespace AdvCpp.Uring.GracefulShutdown

open AdvCpp.Lib
open CoroutineEcho (Point)

/-- A suspended coroutine. -/
inductive Frame where
  | acceptLoop
  | signalWatcher
  | clientHandler (fd : Int) (buf : List UInt8) (point : Point)
  deriving DecidableEq

/-- The coroutine frames and `ServerState`. -/
structure Server where
  frames : Nat → Option Frame
  next : Nat
  clientFds : List Int
  shuttingDown : Bool

def Server.suspend (σ : Server) (p : Nat) (f : Frame) : Server :=
  { σ with frames := Function.update σ.frames p (some f) }

def Server.finish (σ : Server) (p : Nat) : Server :=
  { σ with frames := Function.update σ.frames p none }

def asyncAccept (listenFd : Int) (p : Nat) : Sqe Nat (Option Nat) := ⟨listenFd, .accept, some p⟩

def asyncRecv (fd : Int) (p : Nat) : Sqe Nat (Option Nat) := ⟨fd, .recv p 0 4096, some p⟩

def asyncSend (fd : Int) (p off len : Nat) : Sqe Nat (Option Nat) :=
  ⟨fd, .send p off len, some p⟩

def asyncPoll (fd : Int) (p : Nat) : Sqe Nat (Option Nat) := ⟨fd, .poll, some p⟩

/-- `io_uring_prep_cancel_fd` with `nullptr` as `user_data`. -/
def cancelFd (fd : Int) : Sqe Nat (Option Nat) := ⟨fd, .cancelFd, none⟩

/-- `client_handler` from its start to the first receive. -/
def clientHandler (σ : Server) (fd : Int) : Server × List (Act Nat (Option Nat)) :=
  ({ σ with
      frames := Function.update σ.frames σ.next
        (some (.clientHandler fd (List.replicate 4096 0) .recv))
      next := σ.next + 1, clientFds := σ.clientFds.insert fd },
    [.queue (asyncRecv fd σ.next)])

/-- The end of `client_handler`. -/
def clientDone (σ : Server) (p : Nat) (fd : Int) : Server × List (Act Nat (Option Nat)) :=
  ({ σ.finish p with clientFds := σ.clientFds.filter (· ≠ fd) }, [.close fd])

/-- The head of `while (total_sent < n)`, and the next receive behind it. -/
def sendLoop (σ : Server) (p : Nat) (fd : Int) (buf : List UInt8) (n totalSent : Nat) :
    Server × List (Act Nat (Option Nat)) :=
  if totalSent < n then
    (σ.suspend p (.clientHandler fd buf (.send n totalSent)),
      [.queue (asyncSend fd p totalSent (n - totalSent))])
  else (σ.suspend p (.clientHandler fd buf .recv), [.queue (asyncRecv fd p)])

/-- `req->handle.resume()`.  `iter` is the order in which the set of clients is walked. -/
def resume (iter : List Int → List Int) (listenFd : Int) (σ : Server) (p : Nat) (res : Int) :
    Server × List (Act Nat (Option Nat)) :=
  match σ.frames p with
  | some .acceptLoop =>
    if res < 0 then
      if res = -ECANCELED then (σ.finish p, []) else (σ, [.queue (asyncAccept listenFd p)])
    else
      let r := clientHandler σ res
      (r.1, r.2 ++ [.queue (asyncAccept listenFd p)])
  | some .signalWatcher =>
    ({ σ.finish p with shuttingDown := true },
      ((listenFd :: iter σ.clientFds).map cancelFd).map .queue)
  | some (.clientHandler fd buf .recv) =>
    if res ≤ 0 then clientDone σ p fd else sendLoop σ p fd buf res.toNat 0
  | some (.clientHandler fd buf (.send n totalSent)) =>
    if res ≤ 0 then clientDone σ p fd else sendLoop σ p fd buf n (totalSent + res.toNat)
  | none => (σ, [])

def loadBuf (σ : Server) (p off len : Nat) : List UInt8 :=
  match σ.frames p with
  | some (.clientHandler _ buf _) => pread buf off len
  | _ => []

def storeBuf (σ : Server) (p off : Nat) (data : List UInt8) : Server :=
  match σ.frames p with
  | some (.clientHandler fd buf pt) => σ.suspend p (.clientHandler fd (pwrite 0 buf off data) pt)
  | _ => σ

/-- `accept_loop` is frame 0, `signal_watcher` frame 1.  The completion of a cancel request
(`nullptr`) is skipped. -/
def program (iter : List Int → List Int) (listenFd signalFd : Int) :
    Program Server Nat (Option Nat) where
  start :=
    (⟨Function.update (Function.update (fun _ => none) 0 (some .acceptLoop)) 1
        (some .signalWatcher), 2, [], false⟩,
      [.queue (asyncAccept listenFd 0), .queue (asyncPoll signalFd 1)])
  handle := fun σ ud res =>
    match ud with
    | none => (σ, [])
    | some p => resume iter listenFd σ p res
  load := loadBuf
  store := storeBuf

/-- The server, and whether its event loop is still running. -/
structure Loop where
  srv : State Server Nat (Option Nat)
  running : Bool

inductive LoopEv where
  | ring (e : Ev)
  | batchEnd
  deriving DecidableEq

/-- The loop leaves at the end of a batch when it is shutting down and has no clients. -/
def loopStep (iter : List Int → List Int) (listenFd signalFd : Int) (s : Loop) :
    LoopEv → Option Loop
  | .ring e =>
    if s.running then
      (step (program iter listenFd signalFd) s.srv e).map fun srv => { s with srv := srv }
    else none
  | .batchEnd =>
    if s.running then
      if s.srv.app.shuttingDown ∧ s.srv.app.clientFds = [] then some { s with running := false }
      else some s
    else none

def gracefulShutdown (iter : List Int → List Int) (listenFd signalFd : Int) :
    Machine Loop LoopEv :=
  ⟨⟨(machine (program iter listenFd signalFd) [listenFd, signalFd]).init, true⟩,
    loopStep iter listenFd signalFd⟩

/-! ## Frames and descriptors -/

/-- What a coroutine is, wherever it waits. -/
inductive Role where
  | acceptor
  | watcher
  | client (fd : Int)
  deriving DecidableEq

def Frame.role : Frame → Role
  | .acceptLoop => .acceptor
  | .signalWatcher => .watcher
  | .clientHandler fd _ _ => .client fd

def Server.role (σ : Server) (p : Nat) : Option Role := (σ.frames p).map Frame.role

/-- The set of clients is the set of descriptors with a handler, and no two handlers share one. -/
structure AppOk (σ : Server) : Prop where
  fresh : ∀ p, σ.next ≤ p → σ.role p = none
  two_le : 2 ≤ σ.next
  clients : ∀ fd, fd ∈ σ.clientFds ↔ ∃ p, σ.role p = some (.client fd)
  inj : ∀ {p p' : Nat} {fd : Int}, σ.role p = some (.client fd) → σ.role p' = some (.client fd) →
    p = p'
  watcher : σ.role 1 = some .watcher → σ.shuttingDown = false
  notClient : ∀ fd, σ.role 0 ≠ some (.client fd) ∧ σ.role 1 ≠ some (.client fd)

section App

variable {σ : Server} {p : Nat} {fd : Int}

theorem Server.role_of_frame {f : Frame} (hf : σ.frames p = some f) : σ.role p = some f.role := by
  rw [Server.role, hf]
  rfl

theorem Server.role_finish (p' : Nat) :
    (σ.finish p).role p' = if p' = p then none else σ.role p' := by
  by_cases hp : p' = p
  · subst hp
    simp [Server.role, Server.finish]
  · simp [Server.role, Server.finish, hp]

/-- Suspending again does not change what a coroutine is. -/
theorem Server.role_suspend {f : Frame} (hf : σ.role p = some f.role) :
    (σ.suspend p f).role = σ.role := by
  funext p'
  by_cases hp : p' = p
  · subst hp
    rw [hf]
    simp [Server.role, Server.suspend]
  · simp [Server.role, Server.suspend, hp]

theorem AppOk.suspend (h : AppOk σ) {f : Frame} (hf : σ.role p = some f.role) :
    AppOk (σ.suspend p f) := by
  have hrole := Server.role_suspend hf
  exact
    { fresh := by rw [hrole]; exact h.fresh
      two_le := h.two_le
      clients := by rw [hrole]; exact h.clients
      inj := by rw [hrole]; exact h.inj
      watcher := by rw [hrole]; exact h.watcher
      notClient := by rw [hrole]; exact h.notClient }

theorem AppOk.clientDone (h : AppOk σ) (hp : σ.role p = some (.client fd)) :
    AppOk (clientDone σ p fd).1 := by
  have hrole : ∀ p', (GracefulShutdown.clientDone σ p fd).1.role p' =
      if p' = p then none else σ.role p' := Server.role_finish
  have hother : ∀ {p' r}, (GracefulShutdown.clientDone σ p fd).1.role p' = some r →
      p' ≠ p ∧ σ.role p' = some r := by
    intro p' r hr
    rw [hrole] at hr
    split at hr
    · cases hr
    · exact ⟨by assumption, hr⟩
  refine
    { fresh := fun p' hp' => ?_, two_le := h.two_le, clients := fun fd' => ?_
      inj := fun h₁ h₂ => h.inj (hother h₁).2 (hother h₂).2
      watcher := fun hw => h.watcher (hother hw).2
      notClient := fun fd' => ⟨fun h₁ => (h.notClient fd').1 (hother h₁).2,
        fun h₁ => (h.notClient fd').2 (hother h₁).2⟩ }
  · rw [hrole]
    split
    · rfl
    · exact h.fresh p' hp'
  · show fd' ∈ σ.clientFds.filter (· ≠ fd) ↔ _
    rw [List.mem_filter, h.clients]
    constructor
    · rintro ⟨⟨p', hp'⟩, hne⟩
      refine ⟨p', ?_⟩
      rw [hrole, if_neg]
      · exact hp'
      · rintro rfl
        rw [hp] at hp'
        cases hp'
        simp at hne
    · rintro ⟨p', hp'⟩
      obtain ⟨hne, hr⟩ := hother hp'
      refine ⟨⟨p', hr⟩, ?_⟩
      simp only [ne_eq, decide_eq_true_eq]
      rintro rfl
      exact hne (h.inj hr hp)

theorem AppOk.clientHandler (h : AppOk σ) (hfd : fd ∉ σ.clientFds) :
    AppOk (clientHandler σ fd).1 := by
  have hrole : ∀ p', (GracefulShutdown.clientHandler σ fd).1.role p' =
      if p' = σ.next then some (.client fd) else σ.role p' := by
    intro p'
    show (Function.update σ.frames σ.next _ p').map Frame.role = _
    by_cases hp : p' = σ.next
    · rw [hp, Function.update_self, if_pos rfl]
      rfl
    · rw [Function.update_of_ne hp, if_neg hp]
      rfl
  have hno : ∀ p', σ.role p' ≠ some (.client fd) := fun p' hp' => hfd ((h.clients fd).2 ⟨p', hp'⟩)
  have h0 : (0 : Nat) ≠ σ.next := by have := h.two_le; omega
  have h1 : (1 : Nat) ≠ σ.next := by have := h.two_le; omega
  refine
    { fresh := fun p' hp' => ?_, two_le := Nat.le_succ_of_le h.two_le, clients := fun fd' => ?_
      inj := fun {p₁ p₂ fd'} h₁ h₂ => ?_
      watcher := fun hw => h.watcher (by rw [hrole, if_neg h1] at hw; exact hw)
      notClient := fun fd' => by rw [hrole, if_neg h0, hrole, if_neg h1]; exact h.notClient fd' }
  · have hlt : σ.next < p' := hp'
    rw [hrole, if_neg (Nat.ne_of_gt hlt)]
    exact h.fresh p' (Nat.le_of_lt hlt)
  · show fd' ∈ σ.clientFds.insert fd ↔ _
    rw [List.mem_insert_iff, h.clients]
    constructor
    · rintro (rfl | ⟨p', hp'⟩)
      · exact ⟨σ.next, by rw [hrole, if_pos rfl]⟩
      · refine ⟨p', ?_⟩
        rw [hrole, if_neg]
        · exact hp'
        · rintro rfl
          rw [h.fresh _ (Nat.le_refl _)] at hp'
          cases hp'
    · rintro ⟨p', hp'⟩
      rw [hrole] at hp'
      split at hp'
      · cases hp'
        exact Or.inl rfl
      · exact Or.inr ⟨p', hp'⟩
  · rw [hrole] at h₁ h₂
    split at h₁ <;> split at h₂
    · rename_i e₁ e₂
      rw [e₁, e₂]
    · cases h₁
      exact absurd h₂ (hno _)
    · cases h₂
      exact absurd h₁ (hno _)
    · exact h.inj h₁ h₂

/-- A coroutine that is no client handler ends; `shutting_down` may be set by the last one. -/
theorem AppOk.finish (h : AppOk σ) (hp : ∀ fd, σ.role p ≠ some (.client fd)) (b : Bool)
    (hb : p = 1 ∨ b = σ.shuttingDown) : AppOk { σ.finish p with shuttingDown := b } := by
  have hrole : ∀ p', Server.role { σ.finish p with shuttingDown := b } p' =
      if p' = p then none else σ.role p' := Server.role_finish
  have hother : ∀ {p' r}, Server.role { σ.finish p with shuttingDown := b } p' = some r →
      p' ≠ p ∧ σ.role p' = some r := by
    intro p' r hr
    rw [hrole] at hr
    split at hr
    · cases hr
    · exact ⟨by assumption, hr⟩
  refine
    { fresh := fun p' hp' => ?_, two_le := h.two_le, clients := fun fd => ?_
      inj := fun h₁ h₂ => h.inj (hother h₁).2 (hother h₂).2
      watcher := fun hw => ?_
      notClient := fun fd => ⟨fun h₁ => (h.notClient fd).1 (hother h₁).2,
        fun h₁ => (h.notClient fd).2 (hother h₁).2⟩ }
  · rw [hrole]
    split
    · rfl
    · exact h.fresh p' hp'
  · show fd ∈ σ.clientFds ↔ _
    rw [h.clients]
    constructor
    · rintro ⟨p', hp'⟩
      refine ⟨p', ?_⟩
      rw [hrole, if_neg]
      · exact hp'
      · rintro rfl
        exact hp fd hp'
    · rintro ⟨p', hp'⟩
      exact ⟨p', (hother hp').2⟩
  · obtain ⟨hne, hw'⟩ := hother hw
    rcases hb with rfl | rfl
    · exact absurd rfl hne
    · exact h.watcher hw'

end App

/-! ## Invariant -/

/-- The coroutine an operation belongs to. -/
def own (o : Op Nat (Option Nat)) : Option Nat := o.sqe.userData

/-- A connection the kernel has accepted and the program does not know yet. -/
structure Newborn (listenFd : Int) (σ : Server) (net : Net) (fd : Int) : Prop where
  ne : fd ≠ listenFd
  file : net.fds fd ≠ none
  client : fd ∉ σ.clientFds

/-- What an outstanding operation says about its coroutine and its descriptor. -/
inductive OpOk (listenFd signalFd : Int) (σ : Server) (net : Net) : Op Nat (Option Nat) → Prop where
  | accept {ph : Phase} (frame : σ.frames 0 = some .acceptLoop) (bound : Bound net listenFd ph)
      (new : ∀ res, ph = .done res → 0 ≤ res → Newborn listenFd σ net res) :
      OpOk listenFd signalFd σ net ⟨asyncAccept listenFd 0, ph⟩
  | recv {p : Nat} {fd : Int} {buf : List UInt8} {ph : Phase}
      (frame : σ.frames p = some (.clientHandler fd buf .recv)) (bound : Bound net fd ph) :
      OpOk listenFd signalFd σ net ⟨asyncRecv fd p, ph⟩
  | send {p : Nat} {fd : Int} {buf : List UInt8} {n totalSent : Nat} {ph : Phase}
      (frame : σ.frames p = some (.clientHandler fd buf (.send n totalSent)))
      (bound : Bound net fd ph) :
      OpOk listenFd signalFd σ net ⟨asyncSend fd p totalSent (n - totalSent), ph⟩
  | poll {ph : Phase} (frame : σ.frames 1 = some .signalWatcher) :
      OpOk listenFd signalFd σ net ⟨asyncPoll signalFd 1, ph⟩
  | cancel {fd : Int} {ph : Phase} : OpOk listenFd signalFd σ net ⟨cancelFd fd, ph⟩

/-- **The invariant of the server**, with or without a signal. -/
structure Inv (listenFd signalFd : Int) (s : State Server Nat (Option Nat)) : Prop where
  wf : s.kern.Wf
  listen : s.kern.net.fds listenFd ≠ none
  app : AppOk s.app
  openFds : ∀ fd ∈ s.app.clientFds, fd ≠ listenFd ∧ s.kern.net.fds fd ≠ none
  excl : Exclusive s.kern.ops own (fun p => s.app.role p ≠ none)
  ops : ∀ k o, s.kern.ops k = some o → OpOk listenFd signalFd s.app s.kern.net o

section Frame

variable {listenFd signalFd : Int} {σ σ' : Server} {net net' : Net} {o : Op Nat (Option Nat)}
  {s : State Server Nat (Option Nat)} {k : Nat}

/-- What an operation says depends only on its coroutine and that coroutine's descriptor. -/
theorem OpOk.frame (h : OpOk listenFd signalFd σ net o)
    (hframe : ∀ p, own o = some p → σ'.frames p = σ.frames p)
    (hlisten : net'.fds listenFd = net.fds listenFd)
    (hfd : ∀ p fd, own o = some p → σ.role p = some (.client fd) → net'.fds fd = net.fds fd)
    (hnew : own o = some 0 → ∀ fd, Newborn listenFd σ net fd → Newborn listenFd σ' net' fd) :
    OpOk listenFd signalFd σ' net' o := by
  cases h with
  | accept frame bound new =>
    exact .accept ((hframe 0 rfl).trans frame) (bound.frame hlisten)
      fun res hres h0 => hnew rfl res (new res hres h0)
  | recv frame bound =>
    exact .recv ((hframe _ rfl).trans frame)
      (bound.frame (hfd _ _ rfl (Server.role_of_frame frame)))
  | send frame bound =>
    exact .send ((hframe _ rfl).trans frame)
      (bound.frame (hfd _ _ rfl (Server.role_of_frame frame)))
  | poll frame => exact .poll ((hframe 1 rfl).trans frame)
  | cancel => exact .cancel

/-- The coroutine of an operation is there. -/
theorem Inv.role_ne (h : Inv listenFd signalFd s) {p : Nat} (hk : s.kern.ops k = some o)
    (ho : own o = some p) : s.app.role p ≠ none :=
  h.excl.live_own hk ho

/-- What happens to a client handler and its descriptor leaves the other operations alone. -/
theorem Inv.others (h : Inv listenFd signalFd s) (σ' : Server) (net' : Net) {p : Nat} {fd : Int}
    (hk : s.kern.ops k = some o) (ho : own o = some p) (hp : s.app.role p = some (.client fd))
    (hframes : ∀ p', p' ≠ p → σ'.frames p' = s.app.frames p')
    (hfds : ∀ fd', fd' ≠ fd → net'.fds fd' = s.kern.net.fds fd')
    (hclients : ∀ fd' ∈ σ'.clientFds, fd' ∈ s.app.clientFds) :
    ∀ k' o', k' ≠ k → s.kern.ops k' = some o' → OpOk listenFd signalFd σ' net' o' := by
  intro k' o' hne hk'
  have hmem : fd ∈ s.app.clientFds := (h.app.clients fd).2 ⟨p, hp⟩
  have hp' : ∀ p', own o' = some p' → p' ≠ p := by
    rintro p' ho' rfl
    exact h.excl.own_ne hk ho hk' hne ho'
  refine (h.ops k' o' hk').frame (fun p' ho' => hframes p' (hp' p' ho'))
    (hfds _ (Ne.symm (h.openFds fd hmem).1)) (fun p' fd' ho' hr => hfds fd' ?_)
    (fun _ fd' hn => ⟨hn.ne, ?_, fun hc => hn.client (hclients fd' hc)⟩)
  · rintro rfl
    exact hp' p' ho' (h.app.inj hr hp)
  · have hfd' : fd' ≠ fd := by
      rintro rfl
      exact hn.client hmem
    rw [hfds fd' hfd']
    exact hn.file

end Frame

/-! ## The kernel's steps -/

section Steps

variable {iter : List Int → List Int} {listenFd signalFd : Int} {σ : Server}
  {s s' : State Server Nat (Option Nat)} {k : Nat} {o : Op Nat (Option Nat)}

/-- A cancelled operation still belongs to its coroutine. -/
theorem OpOk.cancelled {net : Net} (file : Option Nat) (h : OpOk listenFd signalFd σ net o) :
    OpOk listenFd signalFd σ net (o.cancel file) := by
  rcases o.cancel_phase file with heq | ⟨-, heq⟩
  · rw [heq]; exact h
  · rw [heq]
    cases h with
    | accept frame bound new =>
      refine .accept frame trivial fun res hres h0 => ?_
      cases hres
      exact absurd h0 (by decide)
    | recv frame bound => exact .recv frame trivial
    | send frame bound => exact .send frame trivial
    | poll frame => exact .poll frame
    | cancel => exact .cancel

theorem Inv.submit {K : Kernel Nat (Option Nat)} (h : Inv listenFd signalFd s)
    (hs : s.kern.submit = some K) : Inv listenFd signalFd { s with kern := K } := by
  have hwf := h.wf.submit hs
  obtain ⟨q, hq, hK, hself, hother⟩ := Kernel.submit_ops hs
  have hnet : K.net = s.kern.net := by rw [hK]
  refine
    { wf := hwf
      listen := by rw [hnet]; exact h.listen
      app := h.app
      openFds := by rw [hnet]; exact h.openFds
      excl := h.excl.of_own_eq fun k => ?_
      ops := fun k o hk => ?_ }
  · by_cases he : k = s.kern.submitted
    · subst he
      rw [hself, hq]
      rfl
    · rw [hother k he]
      split
      · cases s.kern.ops k with
        | none => rfl
        | some o => exact congrArg Sqe.userData (o.cancel_sqe _)
      · rfl
  · show OpOk listenFd signalFd s.app K.net o
    rw [hnet]
    by_cases he : k = s.kern.submitted
    · subst he
      obtain rfl : ⟨q, .armed (s.kern.net.fds q.fd)⟩ = o := Option.some.inj (hself.symm.trans hk)
      have hok := h.ops _ _ hq
      generalize ho : (⟨q, .queued⟩ : Op Nat (Option Nat)) = o at hok
      cases hok with
      | accept frame => cases ho; exact .accept frame rfl (by rintro _ ⟨⟩)
      | recv frame => cases ho; exact .recv frame rfl
      | send frame => cases ho; exact .send frame rfl
      | poll frame => cases ho; exact .poll frame
      | cancel => cases ho; exact .cancel
    · rw [hother k he] at hk
      split at hk
      · obtain ⟨o', ho', rfl⟩ := Option.map_eq_some_iff.1 hk
        exact (h.ops k o' ho').cancelled _
      · exact h.ops k o hk

/-- An operation is executed without any effect on the server or the descriptors. -/
theorem Inv.finish {q : Sqe Nat (Option Nat)} {file : Option Nat} (h : Inv listenFd signalFd s)
    (hk : s.kern.ops k = some ⟨q, .armed file⟩) (res : Int)
    (hnew : q.prep = .accept → 0 ≤ res → Newborn listenFd s.app s.kern.net res) :
    Inv listenFd signalFd { s with kern := s.kern.setOp k (some ⟨q, .done res⟩) } where
  wf := h.wf.finish hk res
  listen := h.listen
  app := h.app
  openFds := h.openFds
  excl := h.excl.set hk rfl
  ops := by
    refine forall_update (P := fun _ o => OpOk listenFd signalFd s.app s.kern.net o) ?_
      fun k' o _ => h.ops k' o
    rintro _ ⟨⟩
    have hok := h.ops k _ hk
    generalize ho : (⟨q, .armed file⟩ : Op Nat (Option Nat)) = o at hok
    cases hok with
    | accept frame =>
      cases ho
      refine .accept frame trivial fun res' hres h0 => ?_
      cases hres
      exact hnew rfl h0
    | recv frame => cases ho; exact .recv frame trivial
    | send frame => cases ho; exact .send frame trivial
    | poll frame => cases ho; exact .poll frame
    | cancel => cases ho; exact .cancel

/-- Open descriptors stay as they are. -/
theorem Inv.setNet (h : Inv listenFd signalFd s) {net : Net} (hok : net.Ok)
    (hle : s.kern.net.next ≤ net.next)
    (hfds : ∀ fd, s.kern.net.fds fd ≠ none → net.fds fd = s.kern.net.fds fd) :
    Inv listenFd signalFd { s with kern := { s.kern with net := net } } where
  wf := h.wf.setNet hok hle
  listen := by
    show net.fds listenFd ≠ none
    rw [hfds _ h.listen]
    exact h.listen
  app := h.app
  openFds := fun fd hfd => by
    show _ ∧ net.fds fd ≠ none
    rw [hfds fd (h.openFds fd hfd).2]
    exact h.openFds fd hfd
  excl := h.excl
  ops := fun k o hk => by
    refine (h.ops k o hk).frame (fun _ _ => rfl) (hfds _ h.listen)
      (fun p fd _ hr => hfds fd (h.openFds fd ((h.app.clients fd).2 ⟨p, hr⟩)).2)
      fun _ fd hn => ⟨hn.ne, ?_, hn.client⟩
    rw [hfds fd hn.file]
    exact hn.file

/-- The buffer of the coroutine whose operation is executed. -/
theorem Inv.setBuf {p : Nat} {fd : Int} {buf buf' : List UInt8} {pt : Point}
    (h : Inv listenFd signalFd s) (hk : s.kern.ops k = some o) (ho : own o = some p)
    (hf : s.app.frames p = some (.clientHandler fd buf pt)) :
    Inv listenFd signalFd { s with app := s.app.suspend p (.clientHandler fd buf' pt) } := by
  have hrole : s.app.role p = some (Frame.clientHandler fd buf' pt).role :=
    (Server.role_of_frame hf).trans rfl
  have hself : (s.app.suspend p (.clientHandler fd buf' pt)).frames p =
      some (.clientHandler fd buf' pt) := Function.update_self ..
  have hothers := h.others (s.app.suspend p (.clientHandler fd buf' pt)) s.kern.net hk ho hrole (fun p' hp' => Function.update_of_ne hp' _ _)
    (fun _ _ => rfl) (fun _ hfd => hfd)
  refine
    { wf := h.wf, listen := h.listen, app := h.app.suspend hrole, openFds := h.openFds
      excl := by rw [Server.role_suspend hrole]; exact h.excl
      ops := fun k' o' hk' => ?_ }
  by_cases hne : k' = k
  · subst hne
    have heq : o' = o := Option.some.inj (hk'.symm.trans hk)
    subst heq
    cases h.ops k' o' hk' with
    | accept frame => cases ho; rw [frame] at hf; cases hf
    | recv frame bound =>
      cases ho
      rw [frame] at hf
      cases hf
      exact .recv hself bound
    | send frame bound =>
      cases ho
      rw [frame] at hf
      cases hf
      exact .send hself bound
    | poll frame => cases ho; rw [frame] at hf; cases hf
    | cancel => cases ho
  · exact hothers k' o' hne hk'

/-- The kernel executes an operation. -/
theorem Inv.exec {q : Sqe Nat (Option Nat)} {file : Option Nat} {res : Int} {data : List UInt8}
    (h : Inv listenFd signalFd s) (hk : s.kern.ops k = some ⟨q, .armed file⟩)
    (hmay : KernelMay s.kern.net q file res data) :
    Inv listenFd signalFd (transfer (program iter listenFd signalFd)
      { s with kern := s.kern.setOp k (some ⟨q, .done res⟩) } q file res data) := by
  have hlt := h.wf.armed_lt k _ hk
  have hok := h.ops k _ hk
  generalize ho : (⟨q, .armed file⟩ : Op Nat (Option Nat)) = o at hok
  cases hok with
  | accept frame =>
    cases ho
    cases file with
    | none => exact h.finish hk res fun _ h0 => absurd hmay.1 (Int.not_lt.2 h0)
    | some c =>
      simp only [transfer, asyncAccept]
      split
      · rename_i h0
        obtain ⟨-, hneg | ⟨hfree, -⟩⟩ := hmay
        · omega
        · have hne : ∀ fd, s.kern.net.fds fd ≠ none → fd ≠ res := by
            rintro fd hopen rfl
            exact hopen hfree
          have hnet := h.setNet (h.wf.net.accept res) (Nat.le_succ _)
            (fun fd hopen => Function.update_of_ne (hne fd hopen) _ _)
          refine hnet.finish hk res fun _ _ => ⟨Ne.symm (hne _ h.listen), ?_, fun hmem => ?_⟩
          · show (s.kern.net.accept res).fds res ≠ none
            simp [Net.accept]
          · exact hne res (h.openFds res hmem).2 rfl
      · rename_i h0
        exact h.finish hk res fun _ h0' => absurd h0' h0
  | @recv p fd buf _ frame bound =>
    cases ho
    cases file with
    | none => exact h.finish hk res (by rintro ⟨⟩)
    | some c =>
      have hstore : (program iter listenFd signalFd).store s.app p 0 data =
          s.app.suspend p (.clientHandler fd (pwrite 0 buf 0 data) .recv) := by
        simp [program, storeBuf, frame]
      simp only [transfer, asyncRecv, hstore]
      exact ((h.setBuf hk rfl frame).setNet (h.wf.net.receive (hlt c rfl) data) (Nat.le_refl _)
        fun _ _ => rfl).finish hk res (by rintro ⟨⟩)
  | send frame bound =>
    cases ho
    cases file with
    | none => exact h.finish hk res (by rintro ⟨⟩)
    | some c =>
      exact (h.setNet (h.wf.net.transmit (hlt c rfl) _) (Nat.le_refl _) fun _ _ => rfl).finish hk res
        (by rintro ⟨⟩)
  | poll frame => cases ho; cases file <;> exact h.finish hk res (by rintro ⟨⟩)
  | cancel => cases ho; cases file <;> exact h.finish hk res (by rintro ⟨⟩)

/-! ## The server's steps -/

/-- A coroutine suspends again with another operation. -/
theorem Inv.requeue {q : Sqe Nat (Option Nat)} {p : Nat} (h : Inv listenFd signalFd s)
    (hk : s.kern.ops k = some o) (ho : own o = some p) (hq : q.userData = some p)
    (happ : AppOk σ) (hrole : σ.role = s.app.role) (hclients : σ.clientFds = s.app.clientFds)
    (hnew : OpOk listenFd signalFd σ s.kern.net ⟨q, .queued⟩)
    (hothers : ∀ k' o', k' ≠ k → s.kern.ops k' = some o' →
      OpOk listenFd signalFd σ s.kern.net o') :
    Inv listenFd signalFd ⟨σ, (s.kern.setOp k none).performAll [.queue q]⟩ where
  wf := (h.wf.remove k).performAll _
  listen := h.listen
  app := happ
  openFds := by rw [hclients]; exact h.openFds
  excl := by
    rw [hrole]
    exact h.excl.requeue hk ho (h.wf.fresh _ (Nat.le_refl _)) hq
  ops := forall_requeue (P := fun _ o => OpOk listenFd signalFd σ s.kern.net o) hnew hothers

/-- A client handler goes through the head of its send loop. -/
theorem Inv.sendLoop {p : Nat} {fd : Int} {buf : List UInt8} {pt : Point}
    (h : Inv listenFd signalFd s) (hk : s.kern.ops k = some o) (ho : own o = some p)
    (hf : s.app.frames p = some (.clientHandler fd buf pt)) (n totalSent : Nat) :
    Inv listenFd signalFd ⟨(sendLoop s.app p fd buf n totalSent).1,
      (s.kern.setOp k none).performAll (sendLoop s.app p fd buf n totalSent).2⟩ := by
  have hrole : ∀ pt', s.app.role p = some (Frame.clientHandler fd buf pt').role :=
    fun _ => (Server.role_of_frame hf).trans rfl
  have hothers := fun pt' => h.others (s.app.suspend p (.clientHandler fd buf pt')) s.kern.net hk ho (hrole pt') (fun p' hp' => Function.update_of_ne hp' _ _)
    (fun _ _ => rfl) (fun _ hfd => hfd)
  unfold GracefulShutdown.sendLoop
  split
  · exact h.requeue hk ho rfl (h.app.suspend (hrole _)) (Server.role_suspend (hrole _)) rfl
      (.send (Function.update_self ..) trivial) (hothers _)
  · exact h.requeue hk ho rfl (h.app.suspend (hrole _)) (Server.role_suspend (hrole _)) rfl
      (.recv (Function.update_self ..) trivial) (hothers _)

/-- A client handler ends. -/
theorem Inv.clientDone {p : Nat} {fd : Int} {buf : List UInt8} {pt : Point}
    (h : Inv listenFd signalFd s) (hk : s.kern.ops k = some o) (ho : own o = some p)
    (hf : s.app.frames p = some (.clientHandler fd buf pt)) :
    Inv listenFd signalFd ⟨(clientDone s.app p fd).1,
      (s.kern.setOp k none).performAll (clientDone s.app p fd).2⟩ := by
  have hrole : s.app.role p = some (.client fd) := Server.role_of_frame hf
  have hmem : fd ∈ s.app.clientFds := (h.app.clients fd).2 ⟨p, hrole⟩
  have hfds : ∀ fd', fd' ≠ fd → (s.kern.net.close fd).fds fd' = s.kern.net.fds fd' :=
    fun fd' hfd => Function.update_of_ne hfd _ _
  have hclients : ∀ fd' ∈ (GracefulShutdown.clientDone s.app p fd).1.clientFds,
      fd' ∈ s.app.clientFds ∧ fd' ≠ fd := by
    intro fd' hfd'
    have := List.mem_filter.1 hfd'
    exact ⟨this.1, by simpa using this.2⟩
  exact
    { wf := (h.wf.remove k).performAll _
      listen := by
        show (s.kern.net.close fd).fds listenFd ≠ none
        rw [hfds _ (Ne.symm (h.openFds fd hmem).1)]
        exact h.listen
      app := h.app.clientDone hrole
      openFds := fun fd' hfd' => by
        show _ ∧ (s.kern.net.close fd).fds fd' ≠ none
        rw [hfds _ (hclients fd' hfd').2]
        exact h.openFds fd' (hclients fd' hfd').1
      excl := by
        refine (h.excl.retire hk ho).congr fun p' => ?_
        show (s.app.finish p).role p' ≠ none ↔ _
        rw [Server.role_finish]
        by_cases he : p' = p <;> simp [he]
      ops := forall_update (P := fun _ o => OpOk listenFd signalFd
          (GracefulShutdown.clientDone s.app p fd).1 (s.kern.net.close fd) o) (by rintro _ ⟨⟩)
        (h.others _ _ hk ho hrole (fun p' hp' => Function.update_of_ne hp' _ _) hfds
          fun fd' hfd' => (hclients fd' hfd').1) }

/-- Cancel requests are queued. -/
theorem Inv.queueCancels (fds : List Int) : ∀ {s : State Server Nat (Option Nat)},
    Inv listenFd signalFd s →
    Inv listenFd signalFd
      { s with kern := s.kern.performAll ((fds.map cancelFd).map .queue) } := by
  induction fds with
  | nil => exact id
  | cons fd fds ih =>
    intro s h
    refine ih (s := { s with kern := s.kern.perform (.queue (cancelFd fd)) }) ?_
    exact
      { wf := h.wf.perform (.queue (cancelFd fd))
        listen := h.listen
        app := h.app
        openFds := h.openFds
        excl := h.excl.add_unowned (h.wf.fresh _ (Nat.le_refl _)) rfl
        ops := forall_update (P := fun _ o => OpOk listenFd signalFd s.app s.kern.net o)
          (by rintro _ ⟨⟩; exact .cancel) fun k' o' _ => h.ops k' o' }

/-- `accept_loop` or `signal_watcher` ends. -/
theorem Inv.finishTask {p : Nat} (h : Inv listenFd signalFd s) (hk : s.kern.ops k = some o)
    (ho : own o = some p) (hp : p = 0 ∨ p = 1) (b : Bool) (hb : p = 1 ∨ b = s.app.shuttingDown) :
    Inv listenFd signalFd
      ⟨{ s.app.finish p with shuttingDown := b }, s.kern.setOp k none⟩ := by
  have hnot : ∀ fd, s.app.role p ≠ some (.client fd) := by
    intro fd
    rcases hp with rfl | rfl
    · exact (h.app.notClient fd).1
    · exact (h.app.notClient fd).2
  exact
    { wf := h.wf.remove k
      listen := h.listen
      app := h.app.finish hnot b hb
      openFds := h.openFds
      excl := by
        refine (h.excl.retire hk ho).congr fun p' => ?_
        show (s.app.finish p).role p' ≠ none ↔ _
        rw [Server.role_finish]
        by_cases he : p' = p <;> simp [he]
      ops := by
        refine forall_update (by rintro _ ⟨⟩) fun k' o' hne hk' => ?_
        refine (h.ops k' o' hk').frame (fun p' ho' => Function.update_of_ne ?_ _ _) rfl
          (fun _ _ _ _ => rfl) fun _ fd hn => ⟨hn.ne, hn.file, hn.client⟩
        rintro rfl
        exact h.excl.own_ne hk ho hk' hne ho' }

/-- A new client handler starts; `accept_loop` waits for the next connection. -/
theorem Inv.spawn {res : Int} (h : Inv listenFd signalFd s)
    (hk : s.kern.ops k = some ⟨asyncAccept listenFd 0, .done res⟩) (h0 : 0 ≤ res) :
    Inv listenFd signalFd ⟨(clientHandler s.app res).1, (s.kern.setOp k none).performAll
      ((clientHandler s.app res).2 ++ [.queue (asyncAccept listenFd 0)])⟩ := by
  obtain ⟨hn, hframe⟩ : Newborn listenFd s.app s.kern.net res ∧
      s.app.frames 0 = some .acceptLoop := by
    have hok := h.ops k _ hk
    generalize hq : (⟨asyncAccept listenFd 0, .done res⟩ : Op Nat (Option Nat)) = o at hok
    cases hok with
    | accept frame bound new => cases hq; exact ⟨new res rfl h0, frame⟩
    | recv => cases hq
    | send => cases hq
    | poll => cases hq
    | cancel => cases hq
  have hnext : ∀ p, s.app.role p ≠ none → p ≠ s.app.next := by
    rintro p hp rfl
    exact hp (h.app.fresh _ (Nat.le_refl _))
  have hframes : ∀ p, p ≠ s.app.next → (clientHandler s.app res).1.frames p = s.app.frames p :=
    fun p hp => Function.update_of_ne hp _ _
  have h0next : (0 : Nat) ≠ s.app.next := by have := h.app.two_le; omega
  have hothers : ∀ k' o', k' ≠ k → s.kern.ops k' = some o' →
      OpOk listenFd signalFd (clientHandler s.app res).1 s.kern.net o' := by
    intro k' o' hne hk'
    refine (h.ops k' o' hk').frame (fun p ho' => hframes p (hnext p (h.role_ne hk' ho'))) rfl
      (fun _ _ _ _ => rfl) fun ho' => ?_
    exact absurd ho' (h.excl.own_ne hk rfl hk' hne)
  have hfresh : ∀ n, s.kern.nextOp ≤ n → Function.update s.kern.ops k none n = none :=
    (h.wf.remove k).fresh
  have hexcl : Exclusive
      (Function.update (Function.update (Function.update s.kern.ops k none) s.kern.nextOp
        (some ⟨asyncRecv res s.app.next, .queued⟩)) (s.kern.nextOp + 1)
        (some ⟨asyncAccept listenFd 0, .queued⟩)) own
      (fun p => (clientHandler s.app res).1.role p ≠ none) := by
    have hspawn := (h.excl.retire hk rfl).spawn (b := ⟨asyncRecv res s.app.next, .queued⟩)
      (i := s.app.next) (hfresh _ (Nat.le_refl _)) rfl
      (by simp [h.app.fresh _ (Nat.le_refl _)])
    refine (hspawn.spawn (b := ⟨asyncAccept listenFd 0, .queued⟩) (i := 0) ?_ rfl
      (by simp [h0next])).congr fun p => ?_
    · rw [Function.update_of_ne (Nat.succ_ne_self _)]
      exact hfresh _ (Nat.le_succ _)
    · show (Function.update s.app.frames s.app.next _ p).map Frame.role ≠ none ↔ _
      by_cases hp : p = s.app.next
      · subst hp
        rw [Function.update_self]
        exact iff_of_true (by rintro ⟨⟩) (Or.inl (Or.inr rfl))
      · rw [Function.update_of_ne hp]
        by_cases hp0 : p = 0
        · subst hp0
          exact iff_of_true (by rw [hframe]; rintro ⟨⟩) (Or.inr rfl)
        · exact ⟨fun hr => Or.inl (Or.inl ⟨hr, hp0⟩), fun hr => by
            rcases hr with (⟨hr, -⟩ | hr) | hr
            · exact hr
            · exact absurd hr hp
            · exact absurd hr hp0⟩
  exact
    { wf := (h.wf.remove k).performAll _
      listen := h.listen
      app := h.app.clientHandler hn.client
      openFds := fun fd hfd => by
        rcases List.mem_insert_iff.1 hfd with rfl | hfd
        · exact ⟨hn.ne, hn.file⟩
        · exact h.openFds fd hfd
      excl := hexcl
      ops := by
        refine forall_update (P := fun _ o => OpOk listenFd signalFd (clientHandler s.app res).1
          s.kern.net o) ?_ fun k' o' _ => ?_
        · rintro _ ⟨⟩
          exact .accept ((hframes 0 h0next).trans hframe) trivial (by rintro _ ⟨⟩)
        · exact forall_requeue (P := fun _ o => OpOk listenFd signalFd
            (clientHandler s.app res).1 s.kern.net o) (b := ⟨asyncRecv res s.app.next, .queued⟩)
            (.recv (Function.update_self ..) trivial) hothers k' o' }

/-- **One step of the server or the kernel.** -/
theorem step_inv {e : Ev} (h : Inv listenFd signalFd s)
    (hs : step (program iter listenFd signalFd) s e = some s') : Inv listenFd signalFd s' := by
  cases e with
  | submit =>
    obtain ⟨K, hK, rfl⟩ := Option.map_eq_some_iff.1 hs
    exact h.submit hK
  | exec k res data =>
    simp only [step] at hs
    split at hs
    · rename_i q file hk
      split at hs
      · rename_i hmay
        cases hs
        exact h.exec hk hmay
      · cases hs
    · cases hs
  | complete k =>
    simp only [step] at hs
    split at hs
    · rename_i q res hk
      cases hs
      have hok := h.ops k _ hk
      generalize ho : (⟨q, .done res⟩ : Op Nat (Option Nat)) = o at hok
      cases hok with
      | accept frame =>
        cases ho
        simp only [program, asyncAccept, resume, frame]
        split
        · split
          · exact h.finishTask hk rfl (Or.inl rfl) _ (Or.inr rfl)
          · exact h.requeue hk rfl rfl h.app rfl rfl (.accept frame trivial (by rintro _ ⟨⟩))
              fun k' o' _ => h.ops k' o'
        · rename_i h0
          exact h.spawn hk (Int.not_lt.1 h0)
      | recv frame =>
        cases ho
        simp only [program, asyncRecv, resume, frame]
        split
        · exact h.clientDone hk rfl frame
        · exact h.sendLoop hk rfl frame _ _
      | send frame =>
        cases ho
        simp only [program, asyncSend, resume, frame]
        split
        · exact h.clientDone hk rfl frame
        · exact h.sendLoop hk rfl frame _ _
      | poll frame =>
        cases ho
        simp only [program, asyncPoll, resume, frame]
        exact (h.finishTask hk rfl (Or.inr rfl) true (Or.inl rfl)).queueCancels _
      | cancel =>
        cases ho
        exact
          { wf := h.wf.remove k, listen := h.listen, app := h.app, openFds := h.openFds
            excl := h.excl.remove_unowned hk rfl
            ops := forall_update (by rintro _ ⟨⟩) fun k' o' _ => h.ops k' o' }
    · cases hs

end Steps

/-! ## After the signal -/

/-- The operations that serve connections. -/
def serves (o : Op Nat (Option Nat)) : Bool :=
  match o.sqe.prep with
  | .accept | .recv .. | .send .. => true
  | _ => false

theorem serves_not_cancel {o : Op Nat (Option Nat)} (h : serves o = true) :
    o.sqe.prep.isCancel = false := by
  unfold serves at h
  split at h
  · rename_i hp; rw [hp]; rfl
  · rename_i hp; rw [hp]; rfl
  · rename_i hp; rw [hp]; rfl
  · cases h

/-- Every accept, receive and send still outstanding has completed, or a cancel request for its
descriptor is queued behind it. -/
def Covered (K : Kernel Nat (Option Nat)) : Prop :=
  ∀ k o, K.ops k = some o → serves o = true →
    (∃ res, o.phase = .done res) ∨
      ∃ kc, k < kc ∧ K.ops kc = some ⟨cancelFd o.sqe.fd, .queued⟩

/-- A result after which the coroutine that waited for it ends. -/
def InertResult : Prep Nat → Int → Prop
  | .accept, res => res = -ECANCELED
  | .recv .., res | .send .., res => res ≤ 0
  | _, _ => True

/-- A completion that is handled is inert. -/
def Inert (s : Loop) : LoopEv → Prop
  | .ring (.complete k) =>
    ∀ q res, s.srv.kern.ops k = some ⟨q, .done res⟩ → InertResult q.prep res
  | _ => True

section Shutdown

variable {iter : List Int → List Int} {listenFd signalFd : Int}
  {s s' : State Server Nat (Option Nat)} {k : Nat} {K : Kernel Nat (Option Nat)}

theorem Inv.serves_fd (h : Inv listenFd signalFd s) {o : Op Nat (Option Nat)}
    (hk : s.kern.ops k = some o) (ho : serves o = true) :
    Bound s.kern.net o.sqe.fd o.phase ∧ s.kern.net.fds o.sqe.fd ≠ none ∧
      (o.sqe.fd = listenFd ∨ o.sqe.fd ∈ s.app.clientFds) := by
  have hclient : ∀ {p fd buf pt}, s.app.frames p = some (.clientHandler fd buf pt) →
      fd ∈ s.app.clientFds :=
    fun hf => (h.app.clients _).2 ⟨_, (Server.role_of_frame hf).trans rfl⟩
  cases h.ops k o hk with
  | accept frame bound => exact ⟨bound, h.listen, Or.inl rfl⟩
  | recv frame bound => exact ⟨bound, (h.openFds _ (hclient frame)).2, Or.inr (hclient frame)⟩
  | send frame bound => exact ⟨bound, (h.openFds _ (hclient frame)).2, Or.inr (hclient frame)⟩
  | poll => cases ho
  | cancel => cases ho

/-- The signal: every outstanding operation gets a cancel request. -/
theorem Inv.covered_signal (h : Inv listenFd signalFd s)
    (hiter : ∀ l fd, fd ∈ l → fd ∈ iter l) :
    Covered ((s.kern.setOp k none).performAll
      (((listenFd :: iter s.app.clientFds).map cancelFd).map .queue)) := by
  intro k' o hk' ho
  rw [Kernel.performAll_queue_ops] at hk'
  have hwf := h.wf.remove k
  split at hk'
  · rename_i hlt
    have hold : s.kern.ops k' = some o := by
      by_cases he : k' = k
      · rw [he] at hk'
        simp [Kernel.setOp] at hk'
      · simpa [Kernel.setOp, he] using hk'
    obtain ⟨-, -, hfd⟩ := h.serves_fd hold ho
    have hmem : o.sqe.fd ∈ listenFd :: iter s.app.clientFds := by
      rcases hfd with hfd | hfd
      · rw [hfd]; exact List.mem_cons_self
      · exact List.mem_cons_of_mem _ (hiter _ _ hfd)
    obtain ⟨i, hi, hget⟩ := List.getElem_of_mem hmem
    refine Or.inr ⟨s.kern.nextOp + i, Nat.lt_of_lt_of_le hlt (Nat.le_add_right _ _), ?_⟩
    rw [Kernel.performAll_queue_ops]
    have hnext : (s.kern.setOp k none).nextOp = s.kern.nextOp := rfl
    rw [if_neg (by rw [hnext]; omega), hnext, Nat.add_sub_cancel_left, List.getElem?_map,
      List.getElem?_eq_getElem hi, hget]
    rfl
  · rename_i hge
    split at hk'
    · rename_i q hq
      cases hk'
      rw [List.getElem?_map] at hq
      obtain ⟨fd, -, rfl⟩ := Option.map_eq_some_iff.1 hq
      cases ho
    · rw [hwf.fresh _ (Nat.not_lt.1 hge)] at hk'
      cases hk'

/-- A fresh operation that serves has no cancel request behind it. -/
theorem not_covered {q : Sqe Nat (Option Nat)} (hwf : K.Wf) (hq : serves ⟨q, .queued⟩ = true) :
    ¬Covered (K.perform (.queue q)) := by
  intro hc
  rcases hc K.nextOp ⟨q, .queued⟩ (Function.update_self ..) hq with ⟨res, ⟨⟩⟩ | ⟨kc, hlt, hkc⟩
  have := (hwf.perform (.queue q)).fresh kc hlt
  rw [this] at hkc
  cases hkc

theorem not_covered_sendLoop (hwf : K.Wf) (σ : Server) (p : Nat) (fd : Int) (buf : List UInt8)
    (n totalSent : Nat) : ¬Covered (K.performAll (sendLoop σ p fd buf n totalSent).2) := by
  unfold sendLoop
  split
  · exact not_covered hwf rfl
  · exact not_covered hwf rfl

theorem Covered.submit (h : Inv listenFd signalFd s) (hc : Covered s.kern)
    (hs : s.kern.submit = some K) : Covered K := by
  obtain ⟨q, hq, hK, hself, hother⟩ := Kernel.submit_ops hs
  -- a cancel request that is still queued stays in the table
  have hkeep : ∀ kc fd, kc ≠ s.kern.submitted →
      s.kern.ops kc = some ⟨cancelFd fd, .queued⟩ → K.ops kc = some ⟨cancelFd fd, .queued⟩ := by
    intro kc fd hne hkc
    rw [hother kc hne, hkc]
    split <;> rfl
  intro k o hk ho
  by_cases he : k = s.kern.submitted
  · subst he
    obtain rfl : ⟨q, .armed (s.kern.net.fds q.fd)⟩ = o := Option.some.inj (hself.symm.trans hk)
    rcases hc _ _ hq ho with ⟨res, ⟨⟩⟩ | ⟨kc, hlt, hkc⟩
    exact Or.inr ⟨kc, hlt, hkeep kc _ (Nat.ne_of_gt hlt) hkc⟩
  · -- the operation before the step, and what may have become of it
    obtain ⟨o', ho', hcase⟩ : ∃ o', s.kern.ops k = some o' ∧
        (o = o' ∧ q.prep.isCancel = false ∨ o = o'.cancel (s.kern.net.fds q.fd)) := by
      rw [hother k he] at hk
      split at hk
      · obtain ⟨o', ho', rfl⟩ := Option.map_eq_some_iff.1 hk
        exact ⟨o', ho', Or.inr rfl⟩
      · rename_i hnot
        exact ⟨o, hk, Or.inl ⟨rfl, eq_false_of_ne_true hnot⟩⟩
    have hsqe : o.sqe = o'.sqe := by
      rcases hcase with ⟨rfl, -⟩ | rfl
      · rfl
      · exact o'.cancel_sqe _
    have hserves : serves o' = true := by
      rw [← ho, serves, serves, hsqe]
    rcases hc k o' ho' hserves with ⟨res, hres⟩ | ⟨kc, hlt, hkc⟩
    · refine Or.inl ?_
      rcases hcase with ⟨rfl, -⟩ | rfl
      · exact ⟨res, hres⟩
      · rcases o'.cancel_phase (s.kern.net.fds q.fd) with heq | ⟨-, heq⟩
        · exact ⟨res, by rw [heq]; exact hres⟩
        · exact ⟨-ECANCELED, by rw [heq]⟩
    · by_cases hkcn : kc = s.kern.submitted
      · -- its cancel request is the submission that reaches the kernel
        subst hkcn
        rw [hq] at hkc
        cases hkc
        obtain ⟨hbound, hopen, -⟩ := h.serves_fd ho' hserves
        obtain rfl : o = o'.cancel (s.kern.net.fds o'.sqe.fd) := by
          rcases hcase with ⟨-, ⟨⟩⟩ | hcase
          exact hcase
        obtain ⟨c, hc'⟩ := Option.ne_none_iff_exists'.1 hopen
        refine Or.inl ?_
        obtain ⟨q', ph⟩ := o'
        have hq' : q'.prep.isCancel = false := serves_not_cancel hserves
        cases ph with
        | queued => exact absurd ((h.wf.queued_iff k _ ho').1 rfl) (Nat.not_le.2 hlt)
        | armed file =>
          have hfile : file = some c := hbound.trans hc'
          refine ⟨-ECANCELED, ?_⟩
          rw [hfile, show s.kern.net.fds q'.fd = some c from hc', Op.cancel_armed hq']
        | done res => exact ⟨res, rfl⟩
      · exact Or.inr ⟨kc, hlt, by rw [hsqe]; exact hkeep kc _ hkcn hkc⟩

/-- An operation that is executed leaves the queued cancel requests where they are. -/
theorem Covered.exec {q : Sqe Nat (Option Nat)} {file : Option Nat} (hc : Covered K)
    (hk : K.ops k = some ⟨q, .armed file⟩) (res : Int) :
    Covered (K.setOp k (some ⟨q, .done res⟩)) := by
  have hkeep : ∀ kc fd, K.ops kc = some ⟨cancelFd fd, .queued⟩ →
      (K.setOp k (some ⟨q, .done res⟩)).ops kc = some ⟨cancelFd fd, .queued⟩ := by
    intro kc fd hkc
    have hne : kc ≠ k := by
      rintro rfl
      rw [hk] at hkc
      cases hkc
    exact (Function.update_of_ne hne _ _).trans hkc
  refine forall_update (by rintro _ ⟨⟩ -; exact Or.inl ⟨res, rfl⟩) fun k' o hne hk' ho => ?_
  exact (hc k' o hk' ho).imp_right fun ⟨kc, hlt, hkc⟩ => ⟨kc, hlt, hkeep kc _ hkc⟩

/-- So does a completion after which nothing is queued. -/
theorem Covered.remove {q : Sqe Nat (Option Nat)} {res : Int} (hc : Covered K)
    (hk : K.ops k = some ⟨q, .done res⟩) : Covered (K.setOp k none) := by
  have hkeep : ∀ kc fd, K.ops kc = some ⟨cancelFd fd, .queued⟩ →
      (K.setOp k none).ops kc = some ⟨cancelFd fd, .queued⟩ := by
    intro kc fd hkc
    have hne : kc ≠ k := by
      rintro rfl
      rw [hk] at hkc
      cases hkc
    exact (Function.update_of_ne hne _ _).trans hkc
  refine forall_update (by rintro _ ⟨⟩) fun k' o hne hk' ho => ?_
  exact (hc k' o hk' ho).imp_right fun ⟨kc, hlt, hkc⟩ => ⟨kc, hlt, hkeep kc _ hkc⟩

theorem transfer_clientFds (iter : List Int → List Int) (listenFd signalFd : Int)
    (s : State Server Nat (Option Nat)) (q : Sqe Nat (Option Nat)) (file : Option Nat) (res : Int)
    (data : List UInt8) :
    (transfer (program iter listenFd signalFd) s q file res data).app.clientFds =
        s.app.clientFds ∧
      (transfer (program iter listenFd signalFd) s q file res data).app.shuttingDown =
        s.app.shuttingDown := by
  have hstore : ∀ p off, ((program iter listenFd signalFd).store s.app p off data).clientFds =
      s.app.clientFds ∧ ((program iter listenFd signalFd).store s.app p off data).shuttingDown =
      s.app.shuttingDown := by
    intro p off
    simp only [program, storeBuf]
    split <;> exact ⟨rfl, rfl⟩
  unfold transfer
  split
  · split <;> exact ⟨rfl, rfl⟩
  · exact hstore _ _
  · exact ⟨rfl, rfl⟩
  · exact ⟨rfl, rfl⟩

/-- What the server has promised after the signal. -/
structure Closing (clientFds : List Int) (s : State Server Nat (Option Nat)) : Prop where
  down : s.app.shuttingDown = true
  covered : Covered s.kern
  noNew : ∀ fd ∈ s.app.clientFds, fd ∈ clientFds

/-- **A step after the signal**: an inert completion keeps every operation covered, any other one
does not. -/
theorem Closing.step {clientFds : List Int} {e : Ev} (h : Inv listenFd signalFd s)
    (hc : Closing clientFds s) (hs : step (program iter listenFd signalFd) s e = some s')
    (running : Bool) :
    (Inert ⟨s, running⟩ (.ring e) → Closing clientFds s') ∧
      (¬Inert ⟨s, running⟩ (.ring e) → ¬Covered s'.kern) := by
  cases e with
  | submit =>
    obtain ⟨K, hK, rfl⟩ := Option.map_eq_some_iff.1 hs
    exact ⟨fun _ => ⟨hc.down, hc.covered.submit h hK, hc.noNew⟩, fun hn => absurd trivial hn⟩
  | exec k res data =>
    refine ⟨fun _ => ?_, fun hn => absurd trivial hn⟩
    simp only [Uring.step] at hs
    split at hs
    · rename_i q file hk
      split at hs
      · cases hs
        obtain ⟨hclients, hdown⟩ := transfer_clientFds iter listenFd signalFd
          { s with kern := s.kern.setOp k (some ⟨q, .done res⟩) } q file res data
        refine ⟨hdown.trans hc.down, ?_, by rw [hclients]; exact hc.noNew⟩
        unfold Covered
        rw [transfer_ops]
        exact hc.covered.exec hk res
      · cases hs
    · cases hs
  | complete k =>
    simp only [Uring.step] at hs
    split at hs
    · rename_i q res hk
      cases hs
      have hinert : Inert ⟨s, running⟩ (.ring (.complete k)) ↔ InertResult q.prep res := by
        refine ⟨fun hall => hall q res hk, fun hr q' res' hk' => ?_⟩
        cases hk.symm.trans hk'
        exact hr
      rw [hinert]
      have hremove := hc.covered.remove hk
      have hok := h.ops k _ hk
      generalize ho : (⟨q, .done res⟩ : Op Nat (Option Nat)) = o at hok
      cases hok with
      | accept frame =>
        cases ho
        simp only [program, asyncAccept, resume, frame, InertResult]
        split
        · split
          · rename_i hcanceled
            exact ⟨fun _ => ⟨hc.down, hremove, hc.noNew⟩, fun hn => absurd hcanceled hn⟩
          · rename_i hother
            exact ⟨fun hr => absurd hr hother, fun _ => not_covered (h.wf.remove k) rfl⟩
        · rename_i h0
          refine ⟨fun hr => absurd (by rw [hr]; decide) h0, fun _ => ?_⟩
          rw [Kernel.performAll_append]
          exact not_covered ((h.wf.remove k).performAll _) rfl
      | recv frame =>
        cases ho
        simp only [program, asyncRecv, resume, frame, InertResult]
        split
        · rename_i h0
          exact ⟨fun _ => ⟨hc.down, hremove, fun fd hfd => hc.noNew fd (List.mem_filter.1 hfd).1⟩,
            fun hn => absurd h0 hn⟩
        · rename_i h0
          exact ⟨fun hr => absurd hr h0, fun _ => not_covered_sendLoop (h.wf.remove k) _ _ _ _ _ _⟩
      | send frame =>
        cases ho
        simp only [program, asyncSend, resume, frame, InertResult]
        split
        · rename_i h0
          exact ⟨fun _ => ⟨hc.down, hremove, fun fd hfd => hc.noNew fd (List.mem_filter.1 hfd).1⟩,
            fun hn => absurd h0 hn⟩
        · rename_i h0
          exact ⟨fun hr => absurd hr h0, fun _ => not_covered_sendLoop (h.wf.remove k) _ _ _ _ _ _⟩
      | poll frame =>
        have := h.app.watcher (Server.role_of_frame frame)
        rw [hc.down] at this
        cases this
      | cancel =>
        cases ho
        exact ⟨fun _ => ⟨hc.down, hremove, hc.noNew⟩, fun hn => absurd trivial hn⟩
    · cases hs

theorem init_inv : Inv listenFd signalFd
    (machine (program iter listenFd signalFd) [listenFd, signalFd]).init where
  wf := machine_wf _ _
  listen := by
    simp [machine, program, Kernel.performAll, Kernel.perform, Kernel.init, Net.init]
  app := by
    have hrole : ∀ p, Server.role (program iter listenFd signalFd).start.1 p =
        if p = 1 then some .watcher else if p = 0 then some .acceptor else none := by
      intro p
      by_cases h1 : p = 1
      · subst h1; rfl
      · by_cases h0 : p = 0
        · subst h0; rfl
        · simp [Server.role, program, h0, h1]
    have hno : ∀ p fd, Server.role (program iter listenFd signalFd).start.1 p ≠
        some (.client fd) := by
      intro p fd
      rw [hrole]
      split
      · rintro ⟨⟩
      · split <;> rintro ⟨⟩
    exact
      { fresh := fun p hp => by
          have hp2 : 2 ≤ p := hp
          show Server.role (program iter listenFd signalFd).start.1 p = none
          rw [hrole, if_neg (by omega), if_neg (by omega)]
        two_le := Nat.le_refl _
        clients := fun fd => iff_of_false (by rintro ⟨⟩) (not_exists.2 fun p => hno p fd)
        inj := fun hp => absurd hp (hno _ _)
        watcher := fun _ => rfl
        notClient := fun fd => ⟨hno 0 fd, hno 1 fd⟩ }
  openFds := by rintro _ ⟨⟩
  excl := by
    refine (((Exclusive.empty own).spawn (k := 0) (b := ⟨asyncAccept listenFd 0, .queued⟩) rfl rfl
      id).spawn (k := 1) (b := ⟨asyncPoll signalFd 1, .queued⟩) rfl rfl (by simp)).congr fun p => ?_
    by_cases h1 : p = 1
    · subst h1
      exact iff_of_true (by rintro ⟨⟩) (Or.inr rfl)
    · by_cases h0 : p = 0
      · subst h0
        exact iff_of_true (by rintro ⟨⟩) (Or.inl (Or.inr rfl))
      · simp [Server.role, machine, program, h0, h1]
  ops := by
    refine forall_update (k := 1) ?_ fun k o _ => ?_
    · rintro _ ⟨⟩
      exact .poll rfl
    · refine forall_update (k := 0)
        (P := fun _ o => OpOk listenFd signalFd (program iter listenFd signalFd).start.1 _ o)
        ?_ (by rintro _ _ _ ⟨⟩) k o
      rintro _ ⟨⟩
      exact .accept rfl trivial (by rintro _ ⟨⟩)

theorem loopStep_inv {s s' : Loop} {e : LoopEv} (h : Inv listenFd signalFd s.srv)
    (hs : loopStep iter listenFd signalFd s e = some s') : Inv listenFd signalFd s'.srv := by
  cases e with
  | ring e =>
    simp only [loopStep] at hs
    split at hs
    · obtain ⟨srv, hsrv, rfl⟩ := Option.map_eq_some_iff.1 hs
      exact step_inv h hsrv
    · cases hs
  | batchEnd =>
    simp only [loopStep] at hs
    split at hs
    · split at hs <;> cases hs <;> exact h
    · cases hs

/-- **The invariant holds after every schedule.** -/
theorem run_inv {es : List LoopEv} {s : Loop}
    (h : (gracefulShutdown iter listenFd signalFd).run es = some s) :
    Inv listenFd signalFd s.srv :=
  Machine.run_inv (M := gracefulShutdown iter listenFd signalFd)
    (I := fun s => Inv listenFd signalFd s.srv) init_inv (fun _ _ _ hi hs => loopStep_inv hi hs) h

/-- `shutting_down` is set by the completion of the poll, and then everything is covered. -/
theorem closing_of_signal (hiter : ∀ l fd, fd ∈ l → fd ∈ iter l) {e : Ev}
    (h : Inv listenFd signalFd s) (hup : s.app.shuttingDown = false)
    (hs : step (program iter listenFd signalFd) s e = some s')
    (hdown : s'.app.shuttingDown = true) : Closing s'.app.clientFds s' := by
  have hstay : ∀ {σ : Server}, σ.shuttingDown = s.app.shuttingDown → σ.shuttingDown ≠ true := by
    intro σ hσ
    rw [hσ, hup]
    decide
  cases e with
  | submit =>
    obtain ⟨K, hK, rfl⟩ := Option.map_eq_some_iff.1 hs
    exact absurd hdown (hstay rfl)
  | exec k res data =>
    simp only [step] at hs
    split at hs
    · split at hs
      · cases hs
        exact absurd hdown (hstay (transfer_clientFds _ _ _ _ _ _ _ _).2)
      · cases hs
    · cases hs
  | complete k =>
    simp only [step] at hs
    split at hs
    · rename_i q res hk
      cases hs
      have hok := h.ops k _ hk
      generalize ho : (⟨q, .done res⟩ : Op Nat (Option Nat)) = o at hok
      have hloop : ∀ p fd buf n t, (sendLoop s.app p fd buf n t).1.shuttingDown =
          s.app.shuttingDown := by
        intro p fd buf n t
        unfold sendLoop
        split <;> rfl
      cases hok with
      | accept frame =>
        cases ho
        simp only [program, asyncAccept, resume, frame] at hdown
        split at hdown
        · split at hdown <;> exact absurd hdown (hstay rfl)
        · exact absurd hdown (hstay rfl)
      | recv frame =>
        cases ho
        simp only [program, asyncRecv, resume, frame] at hdown
        split at hdown
        · exact absurd hdown (hstay rfl)
        · exact absurd hdown (hstay (hloop _ _ _ _ _))
      | send frame =>
        cases ho
        simp only [program, asyncSend, resume, frame] at hdown
        split at hdown
        · exact absurd hdown (hstay rfl)
        · exact absurd hdown (hstay (hloop _ _ _ _ _))
      | poll frame =>
        cases ho
        simp only [program, asyncPoll, resume, frame]
        exact ⟨rfl, h.covered_signal hiter, fun _ hfd => hfd⟩
      | cancel => cases ho; exact absurd hdown (hstay rfl)
    · cases hs

/-- What holds of the server while it shuts down, `clientFds` being its clients at the signal. -/
structure ShutDown (clientFds : List Int) (s : Loop) : Prop where
  covered : Covered s.srv.kern
  noNew : ∀ fd ∈ s.srv.app.clientFds, fd ∈ clientFds
  /-- A client that keeps the loop from leaving waits for an operation of its own. -/
  waiting : ∀ fd ∈ s.srv.app.clientFds,
    ∃ k o, s.srv.kern.ops k = some o ∧ serves o = true ∧ o.sqe.fd = fd

theorem Closing.shutDown {clientFds : List Int} {s : Loop} (h : Inv listenFd signalFd s.srv)
    (hc : Closing clientFds s.srv) : ShutDown clientFds s where
  covered := hc.covered
  noNew := hc.noNew
  waiting := fun fd hfd => by
    obtain ⟨p, hp⟩ := (h.app.clients fd).1 hfd
    obtain ⟨k, o, hk, ho⟩ := (h.excl.live_iff p).1 (by rw [hp]; exact Option.some_ne_none _)
    refine ⟨k, o, hk, ?_⟩
    cases h.ops k o hk with
    | accept frame => cases ho; rw [Server.role_of_frame frame] at hp; cases hp
    | recv frame => cases ho; rw [Server.role_of_frame frame] at hp; cases hp; exact ⟨rfl, rfl⟩
    | send frame => cases ho; rw [Server.role_of_frame frame] at hp; cases hp; exact ⟨rfl, rfl⟩
    | poll frame => cases ho; rw [Server.role_of_frame frame] at hp; cases hp
    | cancel => cases ho

/-- **After the signal the shutdown is complete exactly for inert completions.**  From the step
that sets `shutting_down` on, every outstanding accept, receive and send stays covered by a cancel
request and no client is added, in every state of the run, if and only if every completion that is
still handled is an accept cancelled or a receive or send that ends its client. -/
theorem shutdown_iff (hiter : ∀ l fd, fd ∈ l → fd ∈ iter l) (es₁ es₂ : List LoopEv) {e : LoopEv}
    {s₀ s₁ s₂ : Loop} (h₀ : (gracefulShutdown iter listenFd signalFd).run es₁ = some s₀)
    (hup : s₀.srv.app.shuttingDown = false)
    (h₁ : (gracefulShutdown iter listenFd signalFd).step s₀ e = some s₁)
    (hdown : s₁.srv.app.shuttingDown = true)
    (h₂ : (gracefulShutdown iter listenFd signalFd).exec s₁ es₂ = some s₂) :
    (gracefulShutdown iter listenFd signalFd).Always (ShutDown s₁.srv.app.clientFds) s₁ es₂ ↔
      (gracefulShutdown iter listenFd signalFd).Meets Inert s₁ es₂ := by
  have hinv := run_inv h₀
  have hclosing : Closing s₁.srv.app.clientFds s₁.srv := by
    cases e with
    | ring e =>
      simp only [gracefulShutdown, loopStep] at h₁
      split at h₁
      · obtain ⟨srv, hsrv, rfl⟩ := Option.map_eq_some_iff.1 h₁
        exact closing_of_signal hiter hinv hup hsrv hdown
      · cases h₁
    | batchEnd =>
      simp only [gracefulShutdown, loopStep] at h₁
      split at h₁
      · split at h₁ <;> cases h₁ <;> rw [hup] at hdown <;> cases hdown
      · cases h₁
  refine Machine.always_iff_meets
    (I := fun s => Inv listenFd signalFd s.srv ∧ Closing s₁.srv.app.clientFds s.srv)
    (fun s hs => hs.2.shutDown hs.1) (fun s e s' hs hstep hok => ?_)
    (fun s e s' hs hstep hbad hsd => ?_) ⟨loopStep_inv hinv h₁, hclosing⟩ h₂
  · refine ⟨loopStep_inv hs.1 hstep, ?_⟩
    cases e with
    | ring e =>
      simp only [gracefulShutdown, loopStep] at hstep
      split at hstep
      · obtain ⟨srv, hsrv, rfl⟩ := Option.map_eq_some_iff.1 hstep
        exact (hs.2.step hs.1 hsrv s.running).1 hok
      · cases hstep
    | batchEnd =>
      simp only [gracefulShutdown, loopStep] at hstep
      split at hstep
      · split at hstep <;> cases hstep <;> exact hs.2
      · cases hstep
  · cases e with
    | ring e =>
      simp only [gracefulShutdown, loopStep] at hstep
      split at hstep
      · obtain ⟨srv, hsrv, rfl⟩ := Option.map_eq_some_iff.1 hstep
        exact (hs.2.step hs.1 hsrv s.running).2 hbad hsd.covered
      · cases hstep
    | batchEnd => exact hbad trivial

end Shutdown

/-- The signal arrives while the server has no clients: the accept is cancelled and the loop
leaves. -/
theorem shutdown_idle : ∃ s₀ s₁ s₂,
    (gracefulShutdown id 3 4).run [.ring .submit, .ring .submit, .ring (.exec 1 1 [])] = some s₀ ∧
    (gracefulShutdown id 3 4).step s₀ (.ring (.complete 1)) = some s₁ ∧
    (gracefulShutdown id 3 4).exec s₁
      [.ring .submit, .ring (.complete 0), .batchEnd] = some s₂ ∧
    s₂.running = false ∧
    ((gracefulShutdown id 3 4).Always (ShutDown s₁.srv.app.clientFds) s₁
        [.ring .submit, .ring (.complete 0), .batchEnd] ↔
      (gracefulShutdown id 3 4).Meets Inert s₁
        [.ring .submit, .ring (.complete 0), .batchEnd]) := by
  refine ⟨_, _, _, rfl, rfl, rfl, rfl, ?_⟩
  exact shutdown_iff (fun _ _ h => h) [.ring .submit, .ring .submit, .ring (.exec 1 1 [])] _ rfl rfl
    (e := .ring (.complete 1)) rfl rfl rfl

/-- One batch holds the signal and, behind it, a new connection: the connection becomes a client
and its receive and the next accept are queued behind the cancel of the listening descriptor. -/
theorem shutdown_missed :
    ((gracefulShutdown id 3 4).run [.ring .submit, .ring .submit, .ring (.exec 0 7 []),
        .ring (.exec 1 1 []), .ring (.complete 1), .ring (.complete 0)]).map
      (fun s => (s.srv.app.shuttingDown, s.srv.app.clientFds,
        [s.srv.kern.ops 2, s.srv.kern.ops 3, s.srv.kern.ops 4])) =
      some (true, [7],
        [some ⟨cancelFd 3, .queued⟩, some ⟨asyncRecv 7 2, .queued⟩,
          some ⟨asyncAccept 3 0, .queued⟩]) :=
  rfl

end AdvCpp.Uring.GracefulShutdown
