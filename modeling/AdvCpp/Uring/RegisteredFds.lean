import AdvCpp.Lib.Bytes
import AdvCpp.Lib.Exclusive
import AdvCpp.Lib.Machine
import AdvCpp.Uring.Kernel

/-!
# Registered descriptors

`18_registered_fds.cpp`: a direct accept puts the new connection into a free slot of the registered
table, receives and sends name the slot, and `close_direct` is itself a request, after which the
kernel may give the slot to another connection.  Completions are handled in the order in which they
are posted.

* `resume`, `step` — the coroutines and the kernel with its table of slots.
* `Inv` — slots, handlers and outstanding requests.
* `Inv.others` — what happens to one request leaves the others alone.
-/

namespace AdvCpp.Uring.RegisteredFds

open AdvCpp.Lib

def MAX_FILES : Nat := 4096

/-! ## The program -/

inductive Prep where
  | acceptDirect
  | recvFixed (off len : Nat)
  | sendFixed (off len : Nat)
  | closeDirect
  deriving DecidableEq

/-- `fixed` is `IOSQE_FIXED_FILE`, with which `fd` is a slot; `close_direct` names a slot as well.
`userData` is the coroutine that waits, whose frame has the buffer. -/
structure Sqe where
  fd : Int
  prep : Prep
  fixed : Bool
  userData : Nat
  deriving DecidableEq

inductive Point where
  | recv
  | send (n totalSent : Nat)
  | close
  deriving DecidableEq

/-- A suspended coroutine.  `conn` records the connection that was in the slot when the handler
started; the program does not read it. -/
inductive Frame where
  | acceptLoop
  | clientHandler (slot : Int) (buf : List UInt8) (point : Point) (conn : Nat)
  deriving DecidableEq

structure Coroutines where
  frames : Nat → Option Frame
  next : Nat

def Coroutines.suspend (σ : Coroutines) (p : Nat) (f : Frame) : Coroutines :=
  { σ with frames := Function.update σ.frames p (some f) }

/-- The coroutine runs off its end. -/
def Coroutines.finish (σ : Coroutines) (p : Nat) : Coroutines :=
  { σ with frames := Function.update σ.frames p none }

def asyncDirectAccept (listenFd : Int) (p : Nat) : Sqe := ⟨listenFd, .acceptDirect, false, p⟩

def asyncRecvFixed (slot : Int) (p : Nat) : Sqe := ⟨slot, .recvFixed 0 4096, true, p⟩

def asyncSendFixed (slot : Int) (p off len : Nat) : Sqe := ⟨slot, .sendFixed off len, true, p⟩

def asyncCloseFixed (slot : Int) (p : Nat) : Sqe := ⟨slot, .closeDirect, false, p⟩

/-- `client_handler` from its start to the first receive. -/
def clientHandler (σ : Coroutines) (slot : Int) (conn : Nat) : Coroutines × List Sqe :=
  ({ frames := Function.update σ.frames σ.next
        (some (.clientHandler slot (List.replicate 4096 0) .recv conn))
     next := σ.next + 1 },
    [asyncRecvFixed slot σ.next])

/-- `break` out of the receive loop, to the close behind it. -/
def closeSlot (σ : Coroutines) (p : Nat) (slot : Int) (buf : List UInt8) (conn : Nat) :
    Coroutines × List Sqe :=
  (σ.suspend p (.clientHandler slot buf .close conn), [asyncCloseFixed slot p])

/-- The head of `while (total_sent < n)`, and the next receive behind it. -/
def sendLoop (σ : Coroutines) (p : Nat) (slot : Int) (buf : List UInt8) (conn n totalSent : Nat) :
    Coroutines × List Sqe :=
  if totalSent < n then
    (σ.suspend p (.clientHandler slot buf (.send n totalSent) conn),
      [asyncSendFixed slot p totalSent (n - totalSent)])
  else (σ.suspend p (.clientHandler slot buf .recv conn), [asyncRecvFixed slot p])

/-- `req->handle.resume()`: the coroutine runs to its next suspension.  `file` is what is in the
slots. -/
def resume (listenFd : Int) (file : Int → Option Nat) (σ : Coroutines) (p : Nat) (res : Int) :
    Coroutines × List Sqe :=
  match σ.frames p with
  | some .acceptLoop =>
    if res < 0 then (σ, [asyncDirectAccept listenFd p])
    else
      let r := clientHandler σ res ((file res).getD 0)
      (r.1, r.2 ++ [asyncDirectAccept listenFd p])
  | some (.clientHandler slot buf .recv conn) =>
    if res ≤ 0 then closeSlot σ p slot buf conn else sendLoop σ p slot buf conn res.toNat 0
  | some (.clientHandler slot buf (.send n totalSent) conn) =>
    if res ≤ 0 then closeSlot σ p slot buf conn
    else sendLoop σ p slot buf conn n (totalSent + res.toNat)
  | some (.clientHandler _ _ .close _) => (σ.finish p, [])
  | none => (σ, [])

/-! ## The kernel -/

structure Op where
  sqe : Sqe
  phase : Phase
  deriving DecidableEq

/-- Requests under the number of their submission, of which the first `submitted` have reached the
kernel; `cq` is the completion queue, `net.fds` the registered table.  `log` records what each
connection's handler has queued. -/
structure State where
  app : Coroutines
  ops : Nat → Option Op
  nextOp : Nat
  submitted : Nat
  cq : List Nat
  net : Net
  log : List (Option Nat × Prep)

/-- The connection of a coroutine. -/
def Coroutines.conn (σ : Coroutines) (p : Nat) : Option Nat :=
  match σ.frames p with
  | some (.clientHandler _ _ _ conn) => some conn
  | _ => none

def State.queue (s : State) (q : Sqe) : State :=
  { s with
    ops := Function.update s.ops s.nextOp (some ⟨q, .queued⟩), nextOp := s.nextOp + 1
    log := s.log ++ [(s.app.conn q.userData, q.prep)] }

def State.queueAll (s : State) (qs : List Sqe) : State := qs.foldl State.queue s

def loadBuf (σ : Coroutines) (p off len : Nat) : List UInt8 :=
  match σ.frames p with
  | some (.clientHandler _ buf _ _) => pread buf off len
  | _ => []

def storeBuf (σ : Coroutines) (p off : Nat) (data : List UInt8) : Coroutines :=
  match σ.frames p with
  | some (.clientHandler slot buf pt conn) =>
    σ.suspend p (.clientHandler slot (pwrite 0 buf off data) pt conn)
  | _ => σ

/-- The results the kernel may give.  A direct accept takes an empty slot of the table, and closing
a slot that is not empty succeeds. -/
def KernelMay (n : Net) (q : Sqe) (file : Option Nat) (res : Int) (data : List UInt8) : Prop :=
  match q.prep, file with
  | .acceptDirect, _ => data = [] ∧ (res < 0 ∨ (0 ≤ res ∧ res < MAX_FILES ∧ n.fds res = none))
  | .recvFixed _ len, some _ => (res < 0 ∧ data = []) ∨ (res = data.length ∧ data.length ≤ len)
  | .sendFixed _ len, some _ => res ≤ len ∧ data = []
  | .closeDirect, _ => data = [] ∧ if n.fds q.fd = none then res < 0 else res = 0
  | _, none => res < 0 ∧ data = []

instance decidableKernelMay (n : Net) (q : Sqe) (file : Option Nat) (res : Int)
    (data : List UInt8) : Decidable (KernelMay n q file res data) := by
  unfold KernelMay
  exact match q.prep, file with
    | .acceptDirect, none => inferInstance
    | .acceptDirect, some _ => inferInstance
    | .recvFixed _ _, none => inferInstance
    | .recvFixed _ _, some _ => inferInstance
    | .sendFixed _ _, none => inferInstance
    | .sendFixed _ _, some _ => inferInstance
    | .closeDirect, none => inferInstance
    | .closeDirect, some _ => inferInstance

/-- What an executed request does to the slots, the connections and the buffers. -/
def State.transfer (s : State) (q : Sqe) (file : Option Nat) (res : Int) (data : List UInt8) :
    State :=
  match q.prep, file with
  | .acceptDirect, _ => if 0 ≤ res then { s with net := s.net.accept res } else s
  | .recvFixed off _, some c =>
    { s with app := storeBuf s.app q.userData off data, net := s.net.receive c data }
  | .sendFixed off _, some c =>
    { s with net := s.net.transmit c (loadBuf s.app q.userData off res.toNat) }
  | .closeDirect, _ => if 0 ≤ res then { s with net := s.net.close q.fd } else s
  | _, none => s

/-- `submit`: the next queued request reaches the kernel, which looks up its slot.  `exec`: the
kernel executes a request and posts its completion.  `dispatch`: the loop takes the next
completion. -/
inductive Ev where
  | submit
  | exec (k : Nat) (res : Int) (data : List UInt8)
  | dispatch
  deriving DecidableEq

def step (listenFd : Int) (s : State) : Ev → Option State
  | .submit =>
    match s.ops s.submitted with
    | some ⟨q, .queued⟩ =>
      some
        { s with
          ops := Function.update s.ops s.submitted
            (some ⟨q, .armed (if q.fixed then s.net.fds q.fd else none)⟩)
          submitted := s.submitted + 1 }
    | _ => none
  | .exec k res data =>
    match s.ops k with
    | some ⟨q, .armed file⟩ =>
      if KernelMay s.net q file res data then
        some (State.transfer
          { s with ops := Function.update s.ops k (some ⟨q, .done res⟩), cq := s.cq ++ [k] }
          q file res data)
      else none
    | _ => none
  | .dispatch =>
    match s.cq with
    | k :: cq =>
      match s.ops k with
      | some ⟨q, .done res⟩ =>
        let r := resume listenFd s.net.fds s.app q.userData res
        some (State.queueAll
          { s with app := r.1, ops := Function.update s.ops k none, cq := cq } r.2)
      | _ => none
    | [] => none

/-- The listening socket is in slot 0 as well as behind its descriptor. -/
def server (listenFd : Int) : Machine State Ev where
  init := State.queue
    ⟨⟨Function.update (fun _ => none) 0 (some .acceptLoop), 1⟩, fun _ => none, 0, 0, [],
      Net.init [0], []⟩ (asyncDirectAccept listenFd 0)
  step := step listenFd

/-! ## What a connection's handler has queued -/

/-- The requests of the handler of `c`, in the order of their submission. -/
def hist (log : List (Option Nat × Prep)) (c : Nat) : List Prep :=
  (log.filter fun e => decide (e.1 = some c)).map Prod.snd

/-- Receives and sends. -/
def Serving (l : List Prep) : Prop := l ≠ [] ∧ ∀ x ∈ l, x ≠ .closeDirect

/-- Receives and sends, and one close behind them. -/
def Closed (l : List Prep) : Prop := ∃ l', Serving l' ∧ l = l' ++ [.closeDirect]

theorem hist_self (log : List (Option Nat × Prep)) (c : Nat) (x : Prep) :
    hist (log ++ [(some c, x)]) c = hist log c ++ [x] := by
  simp [hist]

theorem hist_of_ne (log : List (Option Nat × Prep)) {o : Option Nat} {c : Nat} (h : o ≠ some c)
    (x : Prep) : hist (log ++ [(o, x)]) c = hist log c := by
  simp [hist, h]

theorem Serving.snoc {l : List Prep} {x : Prep} (h : Serving l) (hx : x ≠ .closeDirect) :
    Serving (l ++ [x]) := by
  refine ⟨by simp, fun y hy => ?_⟩
  rcases List.mem_append.1 hy with hy | hy
  · exact h.2 y hy
  · rw [List.mem_singleton.1 hy]
    exact hx

theorem Closed.ne_nil {l : List Prep} (h : Closed l) : l ≠ [] := by
  obtain ⟨l', -, rfl⟩ := h
  simp

/-! ## The completion queue -/

/-- A completed accept of a slot does not stand before the close of what was in the slot. -/
def Before (ops : Nat → Option Op) (k k' : Nat) : Prop :=
  ∀ q q' res res', ops k = some ⟨q, .done res⟩ → q.prep = .acceptDirect → 0 ≤ res →
    ops k' = some ⟨q', .done res'⟩ → q'.prep = .closeDirect → q'.fd ≠ res

/-- The completion queue has what has been executed. -/
structure Posted (ops : Nat → Option Op) (cq : List Nat) : Prop where
  nodup : cq.Nodup
  mem_iff : ∀ k, k ∈ cq ↔ ∃ q res, ops k = some ⟨q, .done res⟩
  order : cq.Pairwise (Before ops)

section Posted

variable {ops : Nat → Option Op} {cq : List Nat} {k : Nat} {o : Option Op}

/-- A request that has not been executed changes and is still not executed. -/
theorem Posted.set (h : Posted ops cq) (hk : ∀ q res, ops k ≠ some ⟨q, .done res⟩)
    (ho : ∀ q res, o ≠ some ⟨q, .done res⟩) : Posted (Function.update ops k o) cq := by
  have hne : ∀ k', k' ∈ cq → k' ≠ k := by
    rintro k' hk' rfl
    obtain ⟨q, res, hq⟩ := (h.mem_iff k').1 hk'
    exact hk q res hq
  refine ⟨h.nodup, fun k' => ?_, h.order.imp_of_mem fun {k₁ k₂} h₁ h₂ hb => ?_⟩
  · by_cases he : k' = k
    · subst he
      rw [Function.update_self]
      refine iff_of_false (fun hmem => hne k' hmem rfl) ?_
      rintro ⟨q, res, hq⟩
      exact ho q res hq
    · rw [Function.update_of_ne he]
      exact h.mem_iff k'
  · intro q q' res res'
    rw [Function.update_of_ne (hne k₁ h₁), Function.update_of_ne (hne k₂ h₂)]
    exact hb q q' res res'

/-- A request is executed. -/
theorem Posted.post {q : Sqe} {res : Int} (h : Posted ops cq)
    (hk : ∀ q res, ops k ≠ some ⟨q, .done res⟩)
    (hb : q.prep = .closeDirect → ∀ k' q' res', ops k' = some ⟨q', .done res'⟩ →
      q'.prep = .acceptDirect → 0 ≤ res' → q.fd ≠ res') :
    Posted (Function.update ops k (some ⟨q, .done res⟩)) (cq ++ [k]) := by
  have hne : ∀ k', k' ∈ cq → k' ≠ k := by
    rintro k' hk' rfl
    obtain ⟨q, res, hq⟩ := (h.mem_iff k').1 hk'
    exact hk q res hq
  refine ⟨?_, fun k' => ?_, ?_⟩
  · rw [List.nodup_append]
    refine ⟨h.nodup, List.pairwise_singleton _ k, fun a ha b hb' => ?_⟩
    rw [List.mem_singleton.1 hb']
    exact hne a ha
  · rw [List.mem_append, List.mem_singleton]
    by_cases he : k' = k
    · subst he
      rw [Function.update_self]
      exact iff_of_true (Or.inr rfl) ⟨q, res, rfl⟩
    · rw [Function.update_of_ne he, ← h.mem_iff k']
      exact or_iff_left he
  · rw [List.pairwise_append]
    refine ⟨h.order.imp_of_mem fun {k₁ k₂} h₁ h₂ hb' => ?_, List.pairwise_singleton _ k,
      fun k₁ h₁ k₂ h₂ => ?_⟩
    · intro q₁ q₂ r₁ r₂
      rw [Function.update_of_ne (hne k₁ h₁), Function.update_of_ne (hne k₂ h₂)]
      exact hb' q₁ q₂ r₁ r₂
    · rw [List.mem_singleton.1 h₂]
      intro q₁ q₂ r₁ r₂ ho₁ hp₁ h0 ho₂ hp₂
      rw [Function.update_of_ne (hne k₁ h₁)] at ho₁
      rw [Function.update_self] at ho₂
      cases ho₂
      exact hb hp₂ k₁ q₁ r₁ ho₁ hp₁ h0

/-- The loop takes the first completion. -/
theorem Posted.pop (h : Posted ops (k :: cq)) : Posted (Function.update ops k none) cq := by
  obtain ⟨hk, hnodup⟩ := List.nodup_cons.1 h.nodup
  have hne : ∀ k', k' ∈ cq → k' ≠ k := by
    rintro k' hk' rfl
    exact hk hk'
  refine ⟨hnodup, fun k' => ?_, (List.pairwise_cons.1 h.order).2.imp_of_mem
    fun {k₁ k₂} h₁ h₂ hb => ?_⟩
  · by_cases he : k' = k
    · subst he
      rw [Function.update_self]
      refine iff_of_false hk ?_
      rintro ⟨q, res, ⟨⟩⟩
    · rw [Function.update_of_ne he, ← h.mem_iff k', List.mem_cons]
      exact (or_iff_right he).symm
  · intro q q' res res'
    rw [Function.update_of_ne (hne k₁ h₁), Function.update_of_ne (hne k₂ h₂)]
    exact hb q q' res res'

end Posted

/-! ## Coroutines -/

/-- The slot of a coroutine. -/
def Coroutines.slot (σ : Coroutines) (p : Nat) : Option Int :=
  match σ.frames p with
  | some (.clientHandler slot _ _ _) => some slot
  | _ => none

section Coroutines

variable {σ : Coroutines} {p c : Nat} {slot : Int} {buf : List UInt8} {pt : Point}

theorem Coroutines.conn_of (h : σ.frames p = some (.clientHandler slot buf pt c)) :
    σ.conn p = some c := by
  simp [Coroutines.conn, h]

theorem Coroutines.slot_of (h : σ.frames p = some (.clientHandler slot buf pt c)) :
    σ.slot p = some slot := by
  simp [Coroutines.slot, h]

theorem Coroutines.conn_eq_some (h : σ.conn p = some c) :
    ∃ slot buf pt, σ.frames p = some (.clientHandler slot buf pt c) := by
  unfold Coroutines.conn at h
  split at h
  · rename_i hp
    cases h
    exact ⟨_, _, _, hp⟩
  · cases h

theorem Coroutines.slot_eq_some (h : σ.slot p = some slot) :
    ∃ buf pt c, σ.frames p = some (.clientHandler slot buf pt c) := by
  unfold Coroutines.slot at h
  split at h
  · rename_i hp
    cases h
    exact ⟨_, _, _, hp⟩
  · cases h

/-- Two coroutines that agree at `p` have the same slot and connection there. -/
theorem Coroutines.conn_congr {σ' : Coroutines} (h : σ'.frames p = σ.frames p) :
    σ'.conn p = σ.conn p := by
  simp only [Coroutines.conn, h]

theorem Coroutines.slot_congr {σ' : Coroutines} (h : σ'.frames p = σ.frames p) :
    σ'.slot p = σ.slot p := by
  simp only [Coroutines.slot, h]

@[simp] theorem suspend_self (f : Frame) : (σ.suspend p f).frames p = some f :=
  Function.update_self ..

theorem suspend_of_ne {p' : Nat} (h : p' ≠ p) (f : Frame) :
    (σ.suspend p f).frames p' = σ.frames p' :=
  Function.update_of_ne h _ _

/-- A handler keeps its slot. -/
theorem suspend_slot (h : σ.frames p = some (.clientHandler slot buf pt c)) (buf' : List UInt8)
    (pt' : Point) : (σ.suspend p (.clientHandler slot buf' pt' c)).slot = σ.slot := by
  funext p'
  by_cases he : p' = p
  · subst he
    rw [Coroutines.slot_of h, Coroutines.slot_of (suspend_self _)]
  · exact Coroutines.slot_congr (suspend_of_ne he _)

/-- A handler keeps its connection. -/
theorem suspend_conn (h : σ.frames p = some (.clientHandler slot buf pt c)) (buf' : List UInt8)
    (pt' : Point) : (σ.suspend p (.clientHandler slot buf' pt' c)).conn = σ.conn := by
  funext p'
  by_cases he : p' = p
  · subst he
    rw [Coroutines.conn_of h, Coroutines.conn_of (suspend_self _)]
  · exact Coroutines.conn_congr (suspend_of_ne he _)

theorem suspend_live {f : Frame} (h : σ.frames p = some f) (f' : Frame) (p' : Nat) :
    (σ.suspend p f').frames p' ≠ none ↔ σ.frames p' ≠ none := by
  by_cases he : p' = p
  · subst he
    simp [h]
  · rw [suspend_of_ne he]

/-- The same coroutines, with the same slots and connections. -/
structure Coroutines.Like (σ σ' : Coroutines) : Prop where
  next : σ'.next = σ.next
  slot : σ'.slot = σ.slot
  conn : σ'.conn = σ.conn
  live : ∀ p, σ'.frames p ≠ none ↔ σ.frames p ≠ none

theorem Coroutines.Like.refl (σ : Coroutines) : σ.Like σ := ⟨rfl, rfl, rfl, fun _ => Iff.rfl⟩

theorem suspend_like (h : σ.frames p = some (.clientHandler slot buf pt c)) (buf' : List UInt8)
    (pt' : Point) : σ.Like (σ.suspend p (.clientHandler slot buf' pt' c)) :=
  ⟨rfl, suspend_slot h _ _, suspend_conn h _ _, suspend_live h _⟩

@[simp] theorem finish_self : (σ.finish p).frames p = none := Function.update_self ..

theorem finish_of_ne {p' : Nat} (h : p' ≠ p) : (σ.finish p).frames p' = σ.frames p' :=
  Function.update_of_ne h _ _

theorem finish_slot {p' : Nat} (h : (σ.finish p).slot p' = some slot) : σ.slot p' = some slot := by
  by_cases he : p' = p
  · rw [he, Coroutines.slot, finish_self] at h
    cases h
  · rw [← Coroutines.slot_congr (finish_of_ne he)]
    exact h

theorem finish_conn {p' : Nat} (h : (σ.finish p).conn p' = some c) : σ.conn p' = some c := by
  by_cases he : p' = p
  · rw [he, Coroutines.conn, finish_self] at h
    cases h
  · rw [← Coroutines.conn_congr (finish_of_ne he)]
    exact h

end Coroutines

/-- Whether a coroutine with this slot or connection stands for no other: `g` is `Coroutines.slot`
or `Coroutines.conn`. -/
def Single {α : Type} (g : Nat → Option α) : Prop :=
  ∀ p p' a, g p = some a → g p' = some a → p = p'

theorem Single.mono {α : Type} {g g' : Nat → Option α} (h : Single g)
    (hg : ∀ p a, g' p = some a → g p = some a) : Single g' :=
  fun p p' a hp hp' => h p p' a (hg p a hp) (hg p' a hp')

/-- A coroutine with a slot or connection that no other one has. -/
theorem Single.add {α : Type} {g g' : Nat → Option α} {p : Nat} {a : α} (h : Single g)
    (hg : ∀ q, q ≠ p → g' q = g q) (hp : g' p = some a) (ha : ∀ q, g q ≠ some a) : Single g' := by
  intro q q' b hq hq'
  by_cases he : q = p <;> by_cases he' : q' = p
  · rw [he, he']
  · rw [he, hp] at hq
    rw [hg q' he', ← hq] at hq'
    exact absurd hq' (ha q')
  · rw [he', hp] at hq'
    rw [hg q he, ← hq'] at hq
    exact absurd hq (ha q)
  · rw [hg q he] at hq
    rw [hg q' he'] at hq'
    exact h q q' b hq hq'

/-! ## The invariant -/

/-- An operation is armed on no other connection. -/
def Armed (c : Nat) : Phase → Prop
  | .armed file => file = some c
  | _ => True

/-- The result does not exceed what was asked for. -/
def Within (len : Nat) : Phase → Prop
  | .done res => res ≤ len
  | _ => True

/-- Received and not sent, while a receive is outstanding. -/
def recvRest (buf : List UInt8) : Phase → List UInt8
  | .done res => buf.take res.toNat
  | _ => []

/-- Received and not sent, while a send is outstanding. -/
def sendRest (buf : List UInt8) (n totalSent : Nat) : Phase → List UInt8
  | .done res => (buf.take n).drop (totalSent + res.toNat)
  | _ => (buf.take n).drop totalSent

/-- Where the connection of a close is: in the slot until the close has been executed. -/
def Closing (net : Net) (slot : Int) (c : Nat) : Phase → Prop
  | .done _ => ∀ fd, net.fds fd ≠ some c
  | _ => net.fds slot = some c

/-- A connection that has been accepted and has no handler yet.  Connection 0 is the listening
socket. -/
structure Newborn (net : Net) (log : List (Option Nat × Prep)) (slot : Int) (c : Nat) : Prop where
  file : net.fds slot = some c
  ne : c ≠ 0
  rx : net.rx c = []
  tx : net.tx c = []
  hist : hist log c = []

/-- What an outstanding request says about its coroutine and connection. -/
inductive OpOk (listenFd : Int) (σ : Coroutines) (net : Net) (log : List (Option Nat × Prep)) :
    Op → Prop where
  | accept {ph : Phase} (frame : σ.frames 0 = some .acceptLoop)
      (new : ∀ res, ph = .done res → 0 ≤ res → ∃ c, Newborn net log res c) :
      OpOk listenFd σ net log ⟨asyncDirectAccept listenFd 0, ph⟩
  | recv {p : Nat} {slot : Int} {buf : List UInt8} {c : Nat} {ph : Phase}
      (frame : σ.frames p = some (.clientHandler slot buf .recv c)) (file : net.fds slot = some c)
      (ne : c ≠ 0) (len : buf.length = 4096) (serving : Serving (hist log c)) (armed : Armed c ph)
      (within : Within 4096 ph) (rest : net.rx c = net.tx c ++ recvRest buf ph) :
      OpOk listenFd σ net log ⟨asyncRecvFixed slot p, ph⟩
  | send {p : Nat} {slot : Int} {buf : List UInt8} {c n totalSent : Nat} {ph : Phase}
      (frame : σ.frames p = some (.clientHandler slot buf (.send n totalSent) c))
      (file : net.fds slot = some c) (ne : c ≠ 0) (len : buf.length = 4096)
      (serving : Serving (hist log c)) (armed : Armed c ph) (within : Within (n - totalSent) ph)
      (more : totalSent < n) (rest : net.rx c = net.tx c ++ sendRest buf n totalSent ph) :
      OpOk listenFd σ net log ⟨asyncSendFixed slot p totalSent (n - totalSent), ph⟩
  | close {p : Nat} {slot : Int} {buf : List UInt8} {c : Nat} {ph : Phase}
      (frame : σ.frames p = some (.clientHandler slot buf .close c)) (ne : c ≠ 0)
      (lt : c < net.next) (file : Closing net slot c ph) (closed : Closed (hist log c)) :
      OpOk listenFd σ net log ⟨asyncCloseFixed slot p, ph⟩

/-- Whose request it is. -/
def own (o : Op) : Option Nat := some o.sqe.userData

/-- A slot that has been accepted and whose handler has not started. -/
def Waiting (ops : Nat → Option Op) (slot : Int) : Prop :=
  ∃ k q, ops k = some ⟨q, .done slot⟩ ∧ q.prep = .acceptDirect ∧ 0 ≤ slot

/-- **The invariant of the server.** -/
structure Inv (listenFd : Int) (s : State) : Prop where
  net : s.net.Ok
  pos : 0 < s.net.next
  fresh : ∀ k, s.nextOp ≤ k → s.ops k = none
  posted : Posted s.ops s.cq
  excl : Exclusive s.ops own fun p => s.app.frames p ≠ none
  unused : ∀ p, s.app.next ≤ p → s.app.frames p = none
  ops : ∀ k o, s.ops k = some o → OpOk listenFd s.app s.net s.log o
  slots : Single s.app.slot
  conns : Single s.app.conn
  owned : ∀ slot c, s.net.fds slot = some c → c ≠ 0 →
    (∃ p, s.app.slot p = some slot ∧ s.app.conn p = some c) ∨ Waiting s.ops slot
  gone : ∀ c, c ≠ 0 → c < s.net.next → (∀ slot, s.net.fds slot ≠ some c) → Closed (hist s.log c)
  unborn : ∀ c, s.net.next ≤ c → hist s.log c = []
  echo : ∀ c, s.net.tx c <+: s.net.rx c

/-! ## Requests do not touch each other -/

/-- The connection a request speaks of. -/
def About (σ : Coroutines) (net : Net) (o : Op) (c : Nat) : Prop :=
  σ.conn o.sqe.userData = some c ∨
    o.sqe.prep = .acceptDirect ∧ ∃ res, o.phase = .done res ∧ 0 ≤ res ∧ net.fds res = some c

/-- What has happened between two states has not touched the connection. -/
structure Same (net net' : Net) (log log' : List (Option Nat × Prep)) (c : Nat) : Prop where
  fds : ∀ fd, net'.fds fd = some c ↔ net.fds fd = some c
  rx : net'.rx c = net.rx c
  tx : net'.tx c = net.tx c
  hist : hist log' c = hist log c

theorem Same.refl (net : Net) (log : List (Option Nat × Prep)) (c : Nat) : Same net net log log c :=
  ⟨fun _ => Iff.rfl, rfl, rfl, rfl⟩

section Frame

variable {listenFd : Int} {σ σ' : Coroutines} {net net' : Net} {log log' : List (Option Nat × Prep)}
  {o : Op} {s : State} {k : Nat}

theorem Same.closing {c : Nat} {slot : Int} {ph : Phase} (hs : Same net net' log log' c)
    (h : Closing net slot c ph) : Closing net' slot c ph := by
  cases ph with
  | done res => exact fun fd hfd => h fd ((hs.fds fd).1 hfd)
  | queued => exact (hs.fds slot).2 h
  | armed file => exact (hs.fds slot).2 h

/-- What a request says depends only on its coroutine and the connection it speaks of. -/
theorem OpOk.keep (h : OpOk listenFd σ net log o)
    (hf : σ'.frames o.sqe.userData = σ.frames o.sqe.userData) (hnext : net.next ≤ net'.next)
    (hs : ∀ c, About σ net o c → Same net net' log log' c) : OpOk listenFd σ' net' log' o := by
  cases h with
  | accept frame new =>
    refine .accept (hf.trans frame) fun res hres h0 => ?_
    obtain ⟨c, hn⟩ := new res hres h0
    have hc := hs c (Or.inr ⟨rfl, res, hres, h0, hn.file⟩)
    exact ⟨c, (hc.fds res).2 hn.file, hn.ne, hc.rx.trans hn.rx, hc.tx.trans hn.tx,
      hc.hist.trans hn.hist⟩
  | @recv p slot buf c ph frame file ne len serving armed within rest =>
    have hc := hs c (Or.inl (Coroutines.conn_of frame))
    exact .recv (hf.trans frame) ((hc.fds slot).2 file) ne len (by rw [hc.hist]; exact serving) armed
      within (by rw [hc.rx, hc.tx]; exact rest)
  | @send p slot buf c n totalSent ph frame file ne len serving armed within more rest =>
    have hc := hs c (Or.inl (Coroutines.conn_of frame))
    exact .send (hf.trans frame) ((hc.fds slot).2 file) ne len (by rw [hc.hist]; exact serving) armed
      within more (by rw [hc.rx, hc.tx]; exact rest)
  | @close p slot buf c ph frame ne lt file closed =>
    have hc := hs c (Or.inl (Coroutines.conn_of frame))
    exact .close (hf.trans frame) ne (Nat.lt_of_lt_of_le lt hnext) (hc.closing file)
      (by rw [hc.hist]; exact closed)

/-- The connection of a handler has a history. -/
theorem OpOk.hist_ne_nil {c : Nat} (h : OpOk listenFd σ net log o)
    (hc : σ.conn o.sqe.userData = some c) : hist log c ≠ [] := by
  obtain ⟨slot, buf, pt, hframe⟩ := Coroutines.conn_eq_some hc
  cases h with
  | accept frame =>
    rw [show (asyncDirectAccept listenFd 0).userData = 0 from rfl, frame] at hframe
    cases hframe
  | recv frame _ _ _ serving =>
    cases frame.symm.trans hframe
    exact serving.1
  | send frame _ _ _ serving =>
    cases frame.symm.trans hframe
    exact serving.1
  | close frame _ _ _ closed =>
    cases frame.symm.trans hframe
    exact closed.ne_nil

/-- The connection of an accept that has been executed has none. -/
theorem OpOk.newborn {res : Int} {q : Sqe} (h : OpOk listenFd σ net log ⟨q, .done res⟩)
    (hq : q.prep = .acceptDirect) (h0 : 0 ≤ res) : ∃ c, Newborn net log res c := by
  generalize ho : (⟨q, .done res⟩ : Op) = o at h
  cases h with
  | accept frame new => cases ho; exact new res rfl h0
  | recv => cases ho; cases hq
  | send => cases ho; cases hq
  | close => cases ho; cases hq

theorem OpOk.userData_accept (h : OpOk listenFd σ net log o) (hq : o.sqe.prep = .acceptDirect) :
    o.sqe.userData = 0 := by
  cases h with
  | accept => rfl
  | recv => cases hq
  | send => cases hq
  | close => cases hq

/-- An accept speaks of a connection without a history. -/
theorem OpOk.about_newborn {c : Nat} (h : OpOk listenFd σ net log o) (hc : About σ net o c)
    (hq : o.sqe.prep = .acceptDirect) : hist log c = [] := by
  cases h with
  | accept frame new =>
    rcases hc with hc | ⟨-, res, hres, h0, hfd⟩
    · obtain ⟨slot, buf, pt, hframe⟩ := Coroutines.conn_eq_some hc
      cases frame.symm.trans hframe
    · obtain ⟨c', hn⟩ := new res hres h0
      cases hn.file.symm.trans hfd
      exact hn.hist
  | recv => cases hq
  | send => cases hq
  | close => cases hq

/-- Two requests speak of different connections. -/
theorem Inv.about_ne (h : Inv listenFd s) {k' : Nat} {o' : Op} {c c' : Nat}
    (hk : s.ops k = some o) (hk' : s.ops k' = some o') (hne : k' ≠ k)
    (hc : About s.app s.net o c) (hc' : About s.app s.net o' c') : c' ≠ c := by
  rintro rfl
  have hok := h.ops k o hk
  have hok' := h.ops k' o' hk'
  rcases hc with hc | ⟨hq, hx⟩
  · rcases hc' with hc' | ⟨hq', hx'⟩
    · have hp := h.conns _ _ _ hc hc'
      exact h.excl.own_ne hk rfl hk' hne (congrArg some hp.symm)
    · exact hok.hist_ne_nil hc (hok'.about_newborn (Or.inr ⟨hq', hx'⟩) hq')
  · rcases hc' with hc' | ⟨hq', -⟩
    · exact hok'.hist_ne_nil hc' (hok.about_newborn (Or.inr ⟨hq, hx⟩) hq)
    · have hp : o'.sqe.userData = o.sqe.userData := by
        rw [hok.userData_accept hq, hok'.userData_accept hq']
      exact h.excl.own_ne hk rfl hk' hne (congrArg some hp)

/-- What happens to one request, its coroutine and its connection leaves the others alone. -/
theorem Inv.others (h : Inv listenFd s) (hk : s.ops k = some o) {c : Nat}
    (hc : About s.app s.net o c) (hf : ∀ p, p ≠ o.sqe.userData → σ'.frames p = s.app.frames p)
    (hnext : s.net.next ≤ net'.next) (hs : ∀ c', c' ≠ c → Same s.net net' s.log log' c') :
    ∀ k' o', k' ≠ k → s.ops k' = some o' → OpOk listenFd σ' net' log' o' := by
  intro k' o' hne hk'
  refine (h.ops k' o' hk').keep (hf _ ?_) hnext fun c' hc' => hs c' (h.about_ne hk hk' hne hc hc')
  intro he
  exact h.excl.own_ne hk rfl hk' hne (congrArg some he)

end Frame

end AdvCpp.Uring.RegisteredFds
