import AdvCpp.Lib.Machine
import AdvCpp.Lib.Heap
import Mathlib.Data.List.InsertIdx

/-!
# Receives with a linked timeout

`14_timeout.cpp`: every receive of a client handler is two submissions, the receive with the
awaitable in the coroutine frame as `user_data` and the timeout linked to it with a request on the
heap.  Frames, awaitables and heap requests are objects of one memory whose addresses are used
again; the event loop dereferences the address that a completion carries.

* `resume`, `dispatch`, `step` — the coroutines, the loop body and the event loop.
* `Inv` — who owns which outstanding completion, and what has been seen of every request.
* `linkedTimeout_once` — nothing is dispatched to a destroyed object; one resumption for every
  receive, one deletion for every timeout request.
* `waiting_finished` — the loop can always be run on until a completion that waits has been taken.
-/

namespace AdvCpp.Uring.LinkedTimeout

open AdvCpp.Lib

def IDLE_TIMEOUT_SEC : Nat := 5
def ECANCELED : Int := 125

/-! ## The source -/

inductive Prep where
  | accept
  | recv (len : Nat)
  | linkTimeout (sec : Nat)
  | send (off len : Nat)
  deriving DecidableEq

/-- `link` is `IOSQE_IO_LINK`. -/
structure Sqe where
  fd : Int
  prep : Prep
  link : Bool
  userData : Ptr
  deriving DecidableEq

inductive Routine where
  | acceptLoop
  | clientHandler (fd : Int)
  deriving DecidableEq

/-- The `co_await` at which a coroutine is suspended. -/
inductive Point where
  | running
  | accept
  | recv
  | send (n totalSent : Nat)
  deriving DecidableEq

/-- A coroutine frame with the awaitables constructed in it and not yet destroyed, innermost
first. -/
structure Frame where
  routine : Routine
  awaitables : List Ptr
  point : Point
  deriving DecidableEq

/-- `std::coroutine_handle`: the address of a frame, or `std::noop_coroutine()`. -/
inductive Handle where
  | noop
  | coroutine (frame : Nat)
  deriving DecidableEq

/-- `request` is an `IoRequest`, on the heap or as the base of an awaitable. -/
inductive Object where
  | frame (f : Frame)
  | request (handle : Handle) (result : Int)
  deriving DecidableEq

/-- What an observer sees, with the number of the request that it is about.  `owner` is the coroutine
that is to be resumed. -/
inductive Note where
  | queued (o : Nat) (prep : Prep) (owner : Option Nat)
  | posted (o : Nat) (res : Int)
  | resumed (o : Nat) (coroutine : Nat) (res : Int)
  | deleted (o : Nat)
  | closed (fd : Int)
  deriving DecidableEq

/-- The program: its memory and the submissions that it has prepared. -/
structure App where
  mem : Heap Object
  sq : List Sqe
  log : List Note

/-- The coroutine that the handle in a request names. -/
def owner (m : Heap Object) (u : Ptr) : Option Nat :=
  match m.read u.addr with
  | some (_, .request (.coroutine p) _) => (m.read p).map Prod.fst
  | _ => none

def App.queue (σ : App) (q : Sqe) : App :=
  { σ with
    sq := σ.sq ++ [q]
    log := σ.log ++ [.queued q.userData.object q.prep (owner σ.mem q.userData)] }

/-- A new awaitable in the frame at `p`, its `await_suspend` with one submission, and suspension. -/
def await (A : Allocator) (σ : App) (p : Nat) (fd : Int) (prep : Prep) (link : Bool)
    (point : Point) : App :=
  match σ.mem.read p with
  | some (_, .frame f) =>
    let r := σ.mem.alloc A (.request (.coroutine p) 0)
    let f := { f with awaitables := r.2 :: f.awaitables, point := point }
    App.queue { σ with mem := r.1.write p (.frame f) } ⟨fd, prep, link, r.2⟩
  | _ => σ

/-- `AsyncAccept` -/
def asyncAccept (A : Allocator) (listenFd : Int) (σ : App) (p : Nat) : App :=
  await A σ p listenFd .accept false .accept

/-- `AsyncSend` -/
def asyncSend (A : Allocator) (fd : Int) (σ : App) (p n totalSent : Nat) : App :=
  await A σ p fd (.send totalSent (n - totalSent)) false (.send n totalSent)

/-- `timeout_req = new IoRequest{std::noop_coroutine(), 0}` with its submission. -/
def linkTimeout (A : Allocator) (σ : App) : App :=
  let r := σ.mem.alloc A (.request .noop 0)
  App.queue { σ with mem := r.1 } ⟨-1, .linkTimeout IDLE_TIMEOUT_SEC, false, r.2⟩

/-- `AsyncRecvTimeout` -/
def asyncRecvTimeout (A : Allocator) (fd : Int) (σ : App) (p : Nat) : App :=
  linkTimeout A (await A σ p fd (.recv 4096) true .recv)

/-- The innermost awaitable of the frame goes out of scope. -/
def destroy (σ : App) (p : Nat) : App :=
  match σ.mem.read p with
  | some (_, .frame f) =>
    match f.awaitables with
    | u :: us =>
      { σ with mem := (σ.mem.write p (.frame { f with awaitables := us })).free u.addr }
    | [] => σ
  | _ => σ

/-- `client_handler` from its start to the first receive. -/
def clientHandler (A : Allocator) (fd : Int) (σ : App) : App :=
  let r := σ.mem.alloc A (.frame ⟨.clientHandler fd, [], .running⟩)
  asyncRecvTimeout A fd { σ with mem := r.1 } r.2.addr

/-- `break` out of the receive loop: `recv_op` is destroyed, the descriptor closed, and the coroutine
runs off its end. -/
def leave (fd : Int) (σ : App) (p : Nat) : App :=
  let σ := destroy σ p
  { σ with mem := σ.mem.free p, log := σ.log ++ [.closed fd] }

/-- The head of `while (total_sent < n)`, and the next receive behind it. -/
def sendLoop (A : Allocator) (fd : Int) (σ : App) (p n totalSent : Nat) : App :=
  if totalSent < n then asyncSend A fd σ p n totalSent
  else asyncRecvTimeout A fd (destroy σ p) p

/-- What a coroutine does after `co_await` has returned `res`. -/
def continueAt (A : Allocator) (listenFd : Int) (σ : App) (p : Nat) (routine : Routine)
    (point : Point) (res : Int) : App :=
  match routine, point with
  | .acceptLoop, .accept =>
    let σ := if res < 0 then σ else clientHandler A res σ
    asyncAccept A listenFd (destroy σ p) p
  | .clientHandler fd, .recv =>
    if res = -ECANCELED then leave fd σ p
    else if res ≤ 0 then leave fd σ p
    else sendLoop A fd σ p res.toNat 0
  | .clientHandler fd, .send n totalSent =>
    let σ := destroy σ p
    if res ≤ 0 then leave fd σ p else sendLoop A fd σ p n (totalSent + res.toNat)
  | _, _ => σ

/-- `handle.resume()`: `await_resume` reads the result from the innermost awaitable. -/
def resume (A : Allocator) (listenFd : Int) (σ : App) (p : Nat) : App :=
  match σ.mem.read p with
  | some (n, .frame f) =>
    match f.awaitables with
    | u :: _ =>
      match σ.mem.read u.addr with
      | some (o, .request _ res) =>
        let σ := { σ with
          mem := σ.mem.write p (.frame { f with point := .running })
          log := σ.log ++ [.resumed o n res] }
        continueAt A listenFd σ p f.routine f.point res
      | _ => σ
    | [] => σ
  | _ => σ

/-- The body of the event loop for one completion.  A stale address is dereferenced all the same. -/
def dispatch (A : Allocator) (listenFd : Int) (σ : App) (u : Ptr) (res : Int) : App :=
  match σ.mem.read u.addr with
  | some (o, .request .noop _) =>
    { σ with mem := σ.mem.free u.addr, log := σ.log ++ [.deleted o] }
  | some (_, .request (.coroutine p) _) =>
    resume A listenFd { σ with mem := σ.mem.write u.addr (.request (.coroutine p) res) } p
  | _ => σ

/-- `accept_loop` from its start to the first accept. -/
def start (A : Allocator) (listenFd : Int) : App :=
  let r := Heap.empty.alloc A (.frame ⟨.acceptLoop, [], .running⟩)
  asyncAccept A listenFd ⟨r.1, [], []⟩ r.2.addr

/-- `inflight` has been submitted, `cq` waits in the completion queue, and `left` is what the loop
over the batch has still to take. -/
structure State where
  app : App
  inflight : List Sqe
  cq : List (Ptr × Int)
  left : Nat

/-- `submit` and `wait` are the two halves of `submit_and_wait`; `post` is the kernel. -/
inductive Ev where
  | submit
  | wait
  | post (i : Nat) (res : Int)
  | dispatch
  deriving DecidableEq

/-- A receive or send moves at most what was asked; a timeout may end in any way, in either order
with its receive. -/
def KernelMay (prep : Prep) (res : Int) : Prop :=
  match prep with
  | .accept | .linkTimeout _ => True
  | .recv len | .send _ len => res ≤ len

instance decidableKernelMay (prep : Prep) (res : Int) : Decidable (KernelMay prep res) := by
  unfold KernelMay
  exact match prep with
    | .accept | .linkTimeout _ => inferInstance
    | .recv _ | .send _ _ => inferInstance

def step (A : Allocator) (listenFd : Int) (s : State) : Ev → Option State
  | .submit =>
    if s.left = 0 then
      some { s with app := { s.app with sq := [] }, inflight := s.inflight ++ s.app.sq }
    else none
  | .wait =>
    if s.left = 0 ∧ s.app.sq = [] ∧ s.cq ≠ [] then some { s with left := s.cq.length } else none
  | .post i res =>
    match s.inflight[i]? with
    | some q =>
      if KernelMay q.prep res then
        some
          { s with
            app := { s.app with log := s.app.log ++ [.posted q.userData.object res] }
            inflight := s.inflight.eraseIdx i
            cq := s.cq ++ [(q.userData, res)] }
      else none
    | none => none
  | .dispatch =>
    if s.left = 0 then none
    else
      match s.cq with
      | [] => some { s with left := 0 }
      | (u, res) :: cq =>
        some { s with app := dispatch A listenFd s.app u res, cq := cq, left := s.left - 1 }

def server (A : Allocator) (listenFd : Int) : Machine State Ev :=
  ⟨⟨start A listenFd, [], [], 0⟩, step A listenFd⟩

/-! ## What has been seen of a request -/

def Note.object : Note → Option Nat
  | .queued o _ _ | .posted o _ | .resumed o _ _ | .deleted o => some o
  | .closed _ => none

/-- The notes about one request. -/
def story (log : List Note) (o : Nat) : List Note := log.filter fun n => n.object = some o

/-- The whole life of a request: the coroutine that owns it is resumed once, with the result that the
kernel has posted; a request without an owner is deleted once. -/
inductive Complete (o : Nat) : List Note → Prop where
  | awaited {prep : Prep} (hprep : ∀ sec, prep ≠ .linkTimeout sec) (coroutine : Nat) (res : Int) :
    Complete o [.queued o prep (some coroutine), .posted o res, .resumed o coroutine res]
  | timeout (sec : Nat) (res : Int) :
    Complete o [.queued o (.linkTimeout sec) none, .posted o res, .deleted o]

section Story

variable {log : List Note} {n : Note} {o : Nat}

theorem story_append_self (h : n.object = some o) : story (log ++ [n]) o = story log o ++ [n] := by
  simp [story, h]

theorem story_append_ne (h : n.object ≠ some o) : story (log ++ [n]) o = story log o := by
  simp [story, h]

end Story

/-! ## Invariant -/

/-- The submissions that have not completed, `fly` being those in the kernel. -/
def asked (σ : App) (fly : List Ptr) : List Ptr := fly ++ σ.sq.map Sqe.userData

/-- What can still be dispatched. -/
def outstanding (σ : App) (fly : List Ptr) (cq : List (Ptr × Int)) : List Ptr :=
  asked σ fly ++ cq.map Prod.fst

/-- An outstanding request lives.  If it is an awaitable, the coroutine that is resumed for it is
suspended, at this awaitable. -/
inductive Owned (m : Heap Object) (u : Ptr) : Prep → Option Nat → Prop where
  | timeout {sec : Nat} {r : Int} (request : m.At u (.request .noop r)) :
    Owned m u (.linkTimeout sec) none
  | awaited {prep : Prep} {q : Ptr} {f : Frame} {r : Int} (hprep : ∀ sec, prep ≠ .linkTimeout sec)
    (request : m.At u (.request (.coroutine q.addr) r)) (frame : m.At q (.frame f))
    (point : f.point ≠ .running) (head : f.awaitables.head? = some u) :
    Owned m u prep (some q.object)

/-- A coroutine between two resumptions. -/
inductive Suspended : Frame → Prop where
  | accept (a : Ptr) : Suspended ⟨.acceptLoop, [a], .accept⟩
  | recv (fd : Int) (r : Ptr) : Suspended ⟨.clientHandler fd, [r], .recv⟩
  | send (fd : Int) (s r : Ptr) (n totalSent : Nat) :
    Suspended ⟨.clientHandler fd, [s, r], .send n totalSent⟩

/-- **The invariant**, while the coroutines `running` run. -/
structure Inv (running : List Ptr) (σ : App) (fly : List Ptr) (cq : List (Ptr × Int)) : Prop where
  nodup : (outstanding σ fly cq).Nodup
  asked : ∀ u ∈ asked σ fly, ∃ prep ow, Owned σ.mem u prep ow ∧
    story σ.log u.object = [.queued u.object prep ow]
  posted : ∀ u res, (u, res) ∈ cq → ∃ prep ow, Owned σ.mem u prep ow ∧
    story σ.log u.object = [.queued u.object prep ow, .posted u.object res]
  done : ∀ o, story σ.log o = [] ∨ (∃ u ∈ outstanding σ fly cq, u.object = o) ∨
    Complete o (story σ.log o)
  fresh : ∀ o, σ.mem.next ≤ o → story σ.log o = []
  frames : ∀ q f, σ.mem.At q (.frame f) →
    f.awaitables.Nodup ∧ ∀ u ∈ f.awaitables, ∃ r, σ.mem.At u (.request (.coroutine q.addr) r)
  waiting : ∀ q f, σ.mem.At q (.frame f) → q ∉ running →
    Suspended f ∧ ∃ u ∈ outstanding σ fly cq, f.awaitables.head? = some u

section Owned

variable {m m' : Heap Object} {u v q : Ptr} {f : Frame} {prep : Prep} {ow : Option Nat} {r : Int}

theorem Suspended.point_ne (h : Suspended f) : f.point ≠ .running := by
  cases h with
  | accept => exact fun h => by cases h
  | recv => exact fun h => by cases h
  | send => exact fun h => by cases h

theorem Owned.request_at (h : Owned m u prep ow) : ∃ handle r, m.At u (.request handle r) := by
  cases h with
  | timeout request => exact ⟨_, _, request⟩
  | awaited _ request => exact ⟨_, _, request⟩

theorem Owned.owner_eq (h : Owned m u prep ow) : owner m u = ow := by
  cases h with
  | timeout request => simp [owner, request.read_eq]
  | awaited _ request frame => simp [owner, request.read_eq, frame.read_eq]

/-- The request and the suspended frame are all that matters. -/
theorem Owned.keep (h : Owned m u prep ow)
    (hrequest : ∀ handle r, m.At u (.request handle r) → ∃ r', m'.At u (.request handle r'))
    (hframe : ∀ q f, m.At q (.frame f) → f.point ≠ .running → m'.At q (.frame f)) :
    Owned m' u prep ow := by
  cases h with
  | timeout request =>
    obtain ⟨r', h'⟩ := hrequest _ _ request
    exact .timeout h'
  | awaited hprep request frame point head =>
    obtain ⟨r', h'⟩ := hrequest _ _ request
    exact .awaited hprep h' (hframe _ _ frame point) point head

/-- An awaitable of a coroutine that runs is not outstanding. -/
theorem Owned.ne_of_running (h : Owned m u prep ow) (hq : m.At q (.frame f))
    (hrun : f.point = .running) (hv : m.At v (.request (.coroutine q.addr) r)) : u ≠ v := by
  rintro rfl
  cases h with
  | timeout request => cases request.value_eq hv
  | awaited _ request frame point _ =>
    have heq := request.value_eq hv
    simp only [Object.request.injEq, Handle.coroutine.injEq] at heq
    obtain rfl := frame.eq_of_addr hq heq.1
    cases frame.value_eq hq
    exact point hrun

end Owned

section Moves

variable {A : Allocator} {R R' : List Ptr} {σ : App} {fly : List Ptr} {cq : List (Ptr × Int)}
  {u q : Ptr} {f : Frame} {n : Note} {res : Int}

theorem Inv.owned (h : Inv R σ fly cq) (hu : u ∈ outstanding σ fly cq) :
    ∃ prep ow, Owned σ.mem u prep ow ∧ story σ.log u.object ≠ [] := by
  rcases List.mem_append.1 hu with ha | hc
  · obtain ⟨prep, ow, hown, hstory⟩ := h.asked u ha
    exact ⟨prep, ow, hown, by rw [hstory]; exact List.cons_ne_nil _ _⟩
  · obtain ⟨⟨u', res⟩, hmem, rfl⟩ := List.mem_map.1 hc
    obtain ⟨prep, ow, hown, hstory⟩ := h.posted u' res hmem
    exact ⟨prep, ow, hown, by rw [hstory]; exact List.cons_ne_nil _ _⟩

/-- Outstanding requests are different objects. -/
theorem Inv.object_inj (h : Inv R σ fly cq) {v : Ptr} (hu : u ∈ outstanding σ fly cq)
    (hv : v ∈ outstanding σ fly cq) (ho : u.object = v.object) : u = v := by
  obtain ⟨_, _, hu, -⟩ := h.owned hu
  obtain ⟨_, _, hv, -⟩ := h.owned hv
  obtain ⟨_, _, hu⟩ := hu.request_at
  obtain ⟨_, _, hv⟩ := hv.request_at
  exact hu.eq_of_object hv ho

/-- The memory changes, but not under an outstanding request. -/
theorem Inv.setMem (h : Inv R σ fly cq) {m : Heap Object} (hnext : σ.mem.next ≤ m.next)
    (hkeep : ∀ u prep ow, u ∈ outstanding σ fly cq → Owned σ.mem u prep ow → Owned m u prep ow)
    (hframes : ∀ q f, m.At q (.frame f) →
      f.awaitables.Nodup ∧ ∀ u ∈ f.awaitables, ∃ r, m.At u (.request (.coroutine q.addr) r))
    (hwaiting : ∀ q f, m.At q (.frame f) → q ∉ R' →
      Suspended f ∧ ∃ u ∈ outstanding σ fly cq, f.awaitables.head? = some u) :
    Inv R' { σ with mem := m } fly cq where
  nodup := h.nodup
  asked := fun u hu => by
    obtain ⟨prep, ow, hown, hstory⟩ := h.asked u hu
    exact ⟨prep, ow, hkeep u prep ow (List.mem_append_left _ hu) hown, hstory⟩
  posted := fun u res hu => by
    obtain ⟨prep, ow, hown, hstory⟩ := h.posted u res hu
    exact ⟨prep, ow, hkeep u prep ow (List.mem_append_right _ (List.mem_map_of_mem hu)) hown, hstory⟩
  done := h.done
  fresh := fun o ho => h.fresh o (Nat.le_trans hnext ho)
  frames := hframes
  waiting := hwaiting

/-- A note about one request leaves the stories of the others alone. -/
theorem story_snoc_of_ne {o o' : Nat} (hn : n.object = some o) (ho : o ≠ o') (log : List Note) :
    story (log ++ [n]) o' = story log o' :=
  story_append_ne fun heq => ho (Option.some.inj (hn.symm.trans heq))

theorem Inv.fresh_snoc (h : Inv R σ fly cq) {handle : Handle} {r : Int}
    (hat : σ.mem.At u (.request handle r)) (hn : n.object = some u.object) :
    ∀ o, σ.mem.next ≤ o → story (σ.log ++ [n]) o = [] := by
  intro o ho
  have hne : u.object ≠ o := Nat.ne_of_lt (Nat.lt_of_lt_of_le hat.lt_next ho)
  exact (story_snoc_of_ne hn hne _).trans (h.fresh o ho)

/-- After a note about one request the others are where they were; this one is outstanding, or has
had its whole life. -/
theorem Inv.done_snoc (h : Inv R σ fly cq) {out : List Ptr} (hn : n.object = some u.object)
    (hout : ∀ v, v ∈ outstanding σ fly cq → v.object ≠ u.object → v ∈ out)
    (hself : (∃ v ∈ out, v.object = u.object) ∨
      Complete u.object (story (σ.log ++ [n]) u.object)) :
    ∀ o, story (σ.log ++ [n]) o = [] ∨ (∃ v ∈ out, v.object = o) ∨
      Complete o (story (σ.log ++ [n]) o) := by
  intro o
  by_cases ho : u.object = o
  · subst ho
    exact Or.inr hself
  · rw [story_snoc_of_ne hn ho]
    rcases h.done o with hnil | ⟨v, hv, rfl⟩ | hc
    · exact Or.inl hnil
    · exact Or.inr (Or.inl ⟨v, hout v hv (Ne.symm ho), rfl⟩)
    · exact Or.inr (Or.inr hc)

/-- A new request is queued. -/
theorem Inv.queue (h : Inv R σ fly cq) (s : Sqe) {ow : Option Nat}
    (hown : Owned σ.mem s.userData s.prep ow) (hstory : story σ.log s.userData.object = [])
    (hwaiting : ∀ q f, σ.mem.At q (.frame f) → q ∉ R' →
      q ∉ R ∨ (Suspended f ∧ f.awaitables.head? = some s.userData)) :
    Inv R' (σ.queue s) fly cq := by
  have hnew : s.userData ∉ outstanding σ fly cq := by
    intro hmem
    obtain ⟨_, _, -, hne⟩ := h.owned hmem
    exact hne hstory
  have hout : ∀ u, u ∈ outstanding (σ.queue s) fly cq ↔
      u ∈ outstanding σ fly cq ∨ u = s.userData := by
    intro u
    simp only [outstanding, LinkedTimeout.asked, App.queue, List.map_append, List.map_cons,
      List.map_nil, List.mem_append, List.mem_singleton]
    tauto
  obtain ⟨_, _, hat⟩ := hown.request_at
  have hother : ∀ u, u ∈ outstanding σ fly cq →
      story (σ.queue s).log u.object = story σ.log u.object := by
    intro u hu
    refine story_snoc_of_ne (o := s.userData.object) rfl (fun ho => ?_) _
    obtain ⟨_, _, -, hne⟩ := h.owned hu
    rw [← ho] at hne
    exact hne hstory
  have hself : story (σ.queue s).log s.userData.object =
      [.queued s.userData.object s.prep ow] := by
    show story (σ.log ++ [_]) _ = _
    rw [story_append_self rfl, hstory, hown.owner_eq]
    rfl
  exact
    { nodup := by
        have hperm : (outstanding (σ.queue s) fly cq).Perm (s.userData :: outstanding σ fly cq) := by
          simp only [outstanding, LinkedTimeout.asked, App.queue, List.map_append, List.map_cons,
            List.map_nil]
          rw [← List.append_assoc, List.append_assoc _ [s.userData]]
          exact List.perm_middle
        exact hperm.nodup_iff.2 (List.nodup_cons.2 ⟨hnew, h.nodup⟩)
      asked := fun u hu => by
        have hcases : u ∈ LinkedTimeout.asked σ fly ∨ u = s.userData := by
          simp only [LinkedTimeout.asked, App.queue, List.map_append, List.map_cons,
            List.map_nil, List.mem_append, List.mem_singleton] at hu ⊢
          tauto
        rcases hcases with hu | rfl
        · obtain ⟨prep, ow, hown, hs⟩ := h.asked u hu
          exact ⟨prep, ow, hown, (hother u (List.mem_append_left _ hu)).trans hs⟩
        · exact ⟨s.prep, ow, hown, hself⟩
      posted := fun u res hu => by
        obtain ⟨prep, ow, hown, hs⟩ := h.posted u res hu
        exact ⟨prep, ow, hown,
          (hother u (List.mem_append_right _ (List.mem_map_of_mem hu))).trans hs⟩
      done := h.done_snoc rfl (fun u hu _ => (hout u).2 (Or.inl hu))
        (Or.inl ⟨s.userData, (hout _).2 (Or.inr rfl), rfl⟩)
      fresh := h.fresh_snoc hat rfl
      frames := h.frames
      waiting := fun q f hq hR' => by
        rcases hwaiting q f hq hR' with hR | ⟨hsusp, hhead⟩
        · obtain ⟨hsusp, u, hu, hhead⟩ := h.waiting q f hq hR
          exact ⟨hsusp, u, (hout u).2 (Or.inl hu), hhead⟩
        · exact ⟨hsusp, s.userData, (hout _).2 (Or.inr rfl), hhead⟩ }

/-- The kernel posts a completion. -/
theorem Inv.post (h : Inv R σ fly cq) {i : Nat} (hi : fly[i]? = some u) :
    Inv R { σ with log := σ.log ++ [.posted u.object res] } (fly.eraseIdx i) (cq ++ [(u, res)]) := by
  have hperm : fly.Perm (u :: fly.eraseIdx i) := by
    obtain ⟨hlt, rfl⟩ := List.getElem?_eq_some_iff.1 hi
    exact (List.perm_cons_erase (List.getElem_mem hlt)).trans ((List.erase_getElem hlt).cons _)
  have houtPerm : (outstanding { σ with log := σ.log ++ [.posted u.object res] } (fly.eraseIdx i)
      (cq ++ [(u, res)])).Perm (outstanding σ fly cq) := by
    simp only [outstanding, LinkedTimeout.asked, List.map_append, List.map_cons, List.map_nil]
    rw [← List.append_assoc]
    refine (List.perm_append_singleton u _).trans ?_
    rw [← List.cons_append, ← List.cons_append]
    exact (hperm.symm.append_right _).append_right _
  have huout : u ∈ outstanding σ fly cq :=
    List.mem_append_left _ (List.mem_append_left _ (List.mem_of_getElem? hi))
  obtain ⟨_, _, hown, -⟩ := h.owned huout
  obtain ⟨_, _, hat⟩ := hown.request_at
  have hother : ∀ v, v ∈ outstanding σ fly cq → v ≠ u →
      story (σ.log ++ [.posted u.object res]) v.object = story σ.log v.object :=
    fun v hv hne => story_snoc_of_ne rfl (fun ho => hne (h.object_inj huout hv ho).symm) _
  have hnotin : ∀ v, v ∈ fly.eraseIdx i ++ σ.sq.map Sqe.userData → v ≠ u := by
    rintro v hv rfl
    have hnodup := (houtPerm.nodup_iff.2 h.nodup)
    simp only [outstanding, LinkedTimeout.asked, List.map_append, List.map_cons, List.map_nil] at hnodup
    have hdis := (List.nodup_append.1 hnodup).2.2 v hv v (by simp)
    exact hdis rfl
  exact
    { nodup := houtPerm.nodup_iff.2 h.nodup
      asked := fun v hv => by
        have hmem : v ∈ LinkedTimeout.asked σ fly := by
          rcases List.mem_append.1 hv with hf | hs
          · exact List.mem_append_left _ (List.mem_of_mem_eraseIdx hf)
          · exact List.mem_append_right _ hs
        obtain ⟨prep, ow, hown, hstory⟩ := h.asked v hmem
        exact ⟨prep, ow, hown,
          (hother v (List.mem_append_left _ hmem) (hnotin v hv)).trans hstory⟩
      posted := fun v res' hv => by
        rcases List.mem_append.1 hv with hold | hnew
        · have hmem : v ∈ cq.map Prod.fst := List.mem_map_of_mem hold
          have hne : v ≠ u := by
            rintro rfl
            exact (List.nodup_append.1 h.nodup).2.2 v
              (List.mem_append_left _ (List.mem_of_getElem? hi)) v hmem rfl
          obtain ⟨prep, ow, hown, hstory⟩ := h.posted v res' hold
          exact ⟨prep, ow, hown, (hother v (List.mem_append_right _ hmem) hne).trans hstory⟩
        · cases List.mem_singleton.1 hnew
          obtain ⟨prep, ow, hown, hstory⟩ :=
            h.asked u (List.mem_append_left _ (List.mem_of_getElem? hi))
          exact ⟨prep, ow, hown, by rw [story_append_self rfl, hstory]; rfl⟩
      done := h.done_snoc rfl (fun v hv _ => houtPerm.mem_iff.2 hv)
        (Or.inl ⟨u, houtPerm.mem_iff.2 huout, rfl⟩)
      fresh := h.fresh_snoc hat rfl
      frames := h.frames
      waiting := fun q f hq hR => by
        obtain ⟨hsusp, v, hv, hhead⟩ := h.waiting q f hq hR
        exact ⟨hsusp, v, houtPerm.mem_iff.2 hv, hhead⟩ }

/-- A completion is taken and its request has had its whole life. -/
theorem Inv.take (h : Inv R σ fly ((u, res) :: cq)) (hn : n.object = some u.object)
    (hc : Complete u.object (story σ.log u.object ++ [n]))
    (hwaiting : ∀ q f, σ.mem.At q (.frame f) → q ∉ R' → q ∉ R ∧ f.awaitables.head? ≠ some u) :
    Inv R' { σ with log := σ.log ++ [n] } fly cq := by
  have hperm : (outstanding σ fly ((u, res) :: cq)).Perm (u :: outstanding σ fly cq) :=
    List.perm_middle
  have hnodup : u ∉ outstanding σ fly cq ∧ (outstanding σ fly cq).Nodup :=
    List.nodup_cons.1 (hperm.nodup_iff.1 h.nodup)
  have hsub : ∀ v, v ∈ outstanding σ fly cq → v ∈ outstanding σ fly ((u, res) :: cq) :=
    fun v hv => hperm.mem_iff.2 (List.mem_cons_of_mem _ hv)
  have huout : u ∈ outstanding σ fly ((u, res) :: cq) := hperm.mem_iff.2 List.mem_cons_self
  obtain ⟨_, _, hown, -⟩ := h.owned huout
  obtain ⟨_, _, hat⟩ := hown.request_at
  have hother : ∀ v, v ∈ outstanding σ fly cq →
      story (σ.log ++ [n]) v.object = story σ.log v.object := by
    intro v hv
    refine story_snoc_of_ne hn (fun ho => hnodup.1 ?_) _
    rw [h.object_inj huout (hsub v hv) ho]
    exact hv
  exact
    { nodup := hnodup.2
      asked := fun v hv => by
        obtain ⟨prep, ow, hown, hstory⟩ := h.asked v hv
        exact ⟨prep, ow, hown, (hother v (List.mem_append_left _ hv)).trans hstory⟩
      posted := fun v res' hv => by
        obtain ⟨prep, ow, hown, hstory⟩ := h.posted v res' (List.mem_cons_of_mem _ hv)
        exact ⟨prep, ow, hown,
          (hother v (List.mem_append_right _ (List.mem_map_of_mem hv))).trans hstory⟩
      done := by
        refine h.done_snoc hn (fun v hv hne => ?_) (Or.inr ?_)
        · rcases List.mem_cons.1 (hperm.mem_iff.1 hv) with rfl | hv
          · exact absurd rfl hne
          · exact hv
        · rw [story_append_self hn]
          exact hc
      fresh := h.fresh_snoc hat hn
      frames := h.frames
      waiting := fun q f hq hR' => by
        obtain ⟨hR, hhead⟩ := hwaiting q f hq hR'
        obtain ⟨hsusp, v, hv, hv'⟩ := h.waiting q f hq hR
        refine ⟨hsusp, v, ?_, hv'⟩
        rcases List.mem_cons.1 (hperm.mem_iff.1 hv) with rfl | hv
        · exact absurd hv' hhead
        · exact hv }

end Moves

section Coroutines

variable {A : Allocator} {listenFd fd : Int} {R R' : List Ptr} {σ : App} {fly : List Ptr}
  {cq : List (Ptr × Int)} {u v q x : Ptr} {f : Frame} {w : Object} {m : Heap Object} {r res : Int}
  {prep : Prep} {link : Bool} {point : Point} {handle : Handle}

theorem request_ne_frame (hu : m.At u (.request handle r)) (hq : m.At q (.frame f)) : u ≠ q := by
  rintro rfl
  cases hu.value_eq hq

/-- An object other than the frames that run. -/
theorem suspended_ne_running {g : Frame} (hx : m.At x (.frame g)) (hpoint : g.point ≠ .running)
    (hq : m.At q (.frame f)) (hrun : f.point = .running) : x ≠ q := by
  rintro rfl
  cases hx.value_eq hq
  exact hpoint hrun

/-- A new coroutine runs. -/
theorem Inv.spawn (h : Inv R σ fly cq) (routine : Routine) :
    Inv ((σ.mem.alloc A (.frame ⟨routine, [], .running⟩)).2 :: R)
      { σ with mem := (σ.mem.alloc A (.frame ⟨routine, [], .running⟩)).1 } fly cq := by
  refine h.setMem (Nat.le_succ _) (fun u prep ow _ hown => hown.keep
    (fun handle r hu => ⟨r, hu.alloc⟩) fun x g hx _ => hx.alloc) (fun x g hx => ?_)
    fun x g hx hR => ?_
  · rcases Heap.at_alloc_iff.1 hx with ⟨-, hg⟩ | hx
    · cases hg
      exact ⟨List.nodup_nil, by rintro _ ⟨⟩⟩
    · obtain ⟨hnodup, hreq⟩ := h.frames x g hx
      refine ⟨hnodup, fun v hv => ?_⟩
      obtain ⟨r, hr⟩ := hreq v hv
      exact ⟨r, hr.alloc⟩
  · rcases Heap.at_alloc_iff.1 hx with ⟨rfl, -⟩ | hx
    · exact absurd List.mem_cons_self hR
    · exact h.waiting x g hx fun hmem => hR (List.mem_cons_of_mem _ hmem)

theorem await_eq (hq : σ.mem.At q (.frame f)) :
    await A σ q.addr fd prep link point =
      App.queue
        { σ with
          mem := (σ.mem.alloc A (.request (.coroutine q.addr) 0)).1.write q.addr
            (.frame { f with
              awaitables := (σ.mem.alloc A (.request (.coroutine q.addr) 0)).2 :: f.awaitables
              point := point }) }
        ⟨fd, prep, link, (σ.mem.alloc A (.request (.coroutine q.addr) 0)).2⟩ := by
  simp [await, hq.read_eq]

/-- The objects that were there before, but the frame, are as they were. -/
theorem await_at (hq : σ.mem.At q (.frame f)) (hx : σ.mem.At x w) (hne : x ≠ q) :
    (await A σ q.addr fd prep link point).mem.At x w := by
  rw [await_eq hq]
  exact hx.alloc.write hq.alloc hne

/-- **A coroutine suspends** at a new awaitable. -/
theorem Inv.await (h : Inv (q :: R) σ fly cq) (hq : σ.mem.At q (.frame f))
    (hrun : f.point = .running) (hprep : ∀ sec, prep ≠ .linkTimeout sec)
    (hsusp : ∀ u, Suspended { f with awaitables := u :: f.awaitables, point := point }) :
    Inv R (await A σ q.addr fd prep link point) fly cq := by
  rw [await_eq hq]
  have hnew : ∀ w, σ.mem.At (σ.mem.alloc A (.request (.coroutine q.addr) 0)).2 w → False :=
    fun w hw => hw.ne_alloc rfl
  have hself := Heap.at_alloc_self (m := σ.mem) (A := A) (v := .request (.coroutine q.addr) 0)
  have hlt : story σ.log (σ.mem.alloc A (.request (.coroutine q.addr) 0)).2.object = [] :=
    h.fresh _ (Nat.le_refl _)
  have hq₁ : (σ.mem.alloc A (.request (.coroutine q.addr) 0)).1.At q (.frame f) := hq.alloc
  have hold : ∀ {x w}, σ.mem.At x w → (σ.mem.alloc A (.request (.coroutine q.addr) 0)).1.At x w :=
    fun hx => hx.alloc
  have hiff : ∀ {x g}, (σ.mem.alloc A (.request (.coroutine q.addr) 0)).1.At x (.frame g) →
      σ.mem.At x (.frame g) := by
    intro x g hx
    rcases Heap.at_alloc_iff.1 hx with ⟨-, heq⟩ | hx
    · cases heq
    · exact hx
  have hnext : σ.mem.next ≤ (σ.mem.alloc A (.request (.coroutine q.addr) 0)).1.next :=
    Nat.le_succ _
  generalize (σ.mem.alloc A (.request (.coroutine q.addr) 0)).2 = u at *
  generalize (σ.mem.alloc A (.request (.coroutine q.addr) 0)).1 = m at *
  have hne : u ≠ q := request_ne_frame hself hq₁
  have hu := hself.write (v := .frame { f with awaitables := u :: f.awaitables, point := point })
    hq₁ hne
  have hq₂ := hq₁.write_self (v := .frame { f with awaitables := u :: f.awaitables, point := point })
  have hbase : Inv (q :: R)
      { σ with mem := m.write q.addr (.frame { f with awaitables := u :: f.awaitables, point := point }) }
      fly cq := by
    refine h.setMem (Nat.le_trans hnext (Nat.le_of_eq Heap.write_next.symm))
      (fun v prep ow _ hown => hown.keep
        (fun handle r hv => ⟨r, (hold hv).write hq₁ (request_ne_frame hv hq)⟩)
        fun x g hx hpoint => (hold hx).write hq₁ (suspended_ne_running hx hpoint hq hrun))
      (fun x g hx => ?_) fun x g hx hR => ?_
    · rcases (Heap.at_write_iff hq₁).1 hx with ⟨rfl, heq⟩ | ⟨-, hx⟩
      · cases heq
        obtain ⟨hnodup, hreq⟩ := h.frames x f hq
        refine ⟨List.nodup_cons.2 ⟨fun hmem => ?_, hnodup⟩, fun v hv => ?_⟩
        · obtain ⟨r, hr⟩ := hreq u hmem
          exact hnew _ hr
        · rcases List.mem_cons.1 hv with rfl | hv
          · exact ⟨_, hu⟩
          · obtain ⟨r, hr⟩ := hreq v hv
            exact ⟨r, (hold hr).write hq₁ (request_ne_frame hr hq)⟩
      · obtain ⟨hnodup, hreq⟩ := h.frames x g (hiff hx)
        refine ⟨hnodup, fun v hv => ?_⟩
        obtain ⟨r, hr⟩ := hreq v hv
        exact ⟨r, (hold hr).write hq₁ (request_ne_frame hr hq)⟩
    · rcases (Heap.at_write_iff hq₁).1 hx with ⟨rfl, -⟩ | ⟨-, hx⟩
      · exact absurd List.mem_cons_self hR
      · exact h.waiting x g (hiff hx) hR
  refine hbase.queue ⟨fd, prep, link, u⟩ (.awaited hprep hu hq₂ (hsusp u).point_ne rfl) hlt
    fun x g hx hR => ?_
  by_cases hxq : x = q
  · subst hxq
    cases hx.value_eq hq₂
    exact Or.inr ⟨hsusp u, rfl⟩
  · exact Or.inl fun hmem => (List.mem_cons.1 hmem).elim hxq hR

theorem linkTimeout_at (hx : σ.mem.At x w) : (linkTimeout A σ).mem.At x w := hx.alloc

/-- The timeout request of a receive. -/
theorem Inv.linkTimeout (h : Inv R σ fly cq) : Inv R (linkTimeout A σ) fly cq := by
  have hbase : Inv R { σ with mem := (σ.mem.alloc A (.request .noop 0)).1 } fly cq := by
    have hiff : ∀ {x g}, (σ.mem.alloc A (.request .noop 0)).1.At x (.frame g) →
        σ.mem.At x (.frame g) := by
      intro x g hx
      rcases Heap.at_alloc_iff.1 hx with ⟨-, heq⟩ | hx
      · cases heq
      · exact hx
    refine h.setMem (Nat.le_succ _) (fun u prep ow _ hown => hown.keep
      (fun handle r hu => ⟨r, hu.alloc⟩) fun x g hx _ => hx.alloc) (fun x g hx => ?_)
      fun x g hx hR => h.waiting x g (hiff hx) hR
    obtain ⟨hnodup, hreq⟩ := h.frames x g (hiff hx)
    refine ⟨hnodup, fun v hv => ?_⟩
    obtain ⟨r, hr⟩ := hreq v hv
    exact ⟨r, hr.alloc⟩
  exact hbase.queue ⟨-1, .linkTimeout IDLE_TIMEOUT_SEC, false, _⟩ (.timeout Heap.at_alloc_self)
    (h.fresh _ (Nat.le_refl _)) fun x g _ hR => Or.inl hR

/-- An awaitable of a running coroutine goes out of scope. -/
theorem Inv.destroy (h : Inv R σ fly cq) (hq : σ.mem.At q (.frame f)) (hrun : f.point = .running)
    (hR : q ∈ R) {us : List Ptr} (hus : f.awaitables = u :: us) :
    Inv R (destroy σ q.addr) fly cq ∧
      (destroy σ q.addr).mem.At q (.frame { f with awaitables := us }) := by
  have heq : LinkedTimeout.destroy σ q.addr =
      { σ with mem := (σ.mem.write q.addr (.frame { f with awaitables := us })).free u.addr } := by
    simp [LinkedTimeout.destroy, hq.read_eq, hus]
  rw [heq]
  obtain ⟨hnodup, hreq⟩ := h.frames q f hq
  rw [hus] at hnodup hreq
  obtain ⟨r, hu⟩ := hreq u List.mem_cons_self
  have hne : u ≠ q := request_ne_frame hu hq
  have hu₁ := hu.write (v := .frame { f with awaitables := us }) hq hne
  have hq₁ := hq.write_self (v := .frame { f with awaitables := us })
  -- what is neither the frame nor the awaitable stays
  have hkeep : ∀ {x w}, σ.mem.At x w → x ≠ q → x ≠ u →
      ((σ.mem.write q.addr (.frame { f with awaitables := us })).free u.addr).At x w :=
    fun hx hxq hxu => (hx.write hq hxq).free hu₁ hxu
  refine ⟨h.setMem (Nat.le_of_eq Heap.write_next.symm)
    (fun v prep ow _ hown => hown.keep
      (fun handle r hv =>
        ⟨r, hkeep hv (request_ne_frame hv hq) (hown.ne_of_running hq hrun hu)⟩)
      fun x g hx hpoint => hkeep hx (suspended_ne_running hx hpoint hq hrun)
        (request_ne_frame hu hx).symm)
    (fun x g hx => ?_) fun x g hx hxR => ?_, hq₁.free hu₁ hne.symm⟩
  · obtain ⟨-, hx⟩ := (Heap.at_free_iff hu₁).1 hx
    rcases (Heap.at_write_iff hq).1 hx with ⟨rfl, hg⟩ | ⟨hxq, hx⟩
    · cases hg
      refine ⟨(List.nodup_cons.1 hnodup).2, fun v hv => ?_⟩
      obtain ⟨r, hr⟩ := hreq v (List.mem_cons_of_mem _ hv)
      refine ⟨r, hkeep hr (request_ne_frame hr hq) ?_⟩
      rintro rfl
      exact (List.nodup_cons.1 hnodup).1 hv
    · obtain ⟨hnodup', hreq'⟩ := h.frames x g hx
      refine ⟨hnodup', fun v hv => ?_⟩
      obtain ⟨r', hr'⟩ := hreq' v hv
      refine ⟨r', hkeep hr' (request_ne_frame hr' hq) fun hvu => ?_⟩
      rw [hvu] at hr'
      have hhandle := hr'.value_eq hu
      simp only [Object.request.injEq, Handle.coroutine.injEq] at hhandle
      exact hxq (hx.eq_of_addr hq hhandle.1)
  · obtain ⟨-, hx⟩ := (Heap.at_free_iff hu₁).1 hx
    rcases (Heap.at_write_iff hq).1 hx with ⟨rfl, -⟩ | ⟨-, hx⟩
    · exact absurd hR hxR
    · exact h.waiting x g hx hxR

/-- A note that is about no request. -/
theorem Inv.closed (h : Inv R σ fly cq) (fd : Int) :
    Inv R { σ with log := σ.log ++ [.closed fd] } fly cq := by
  have hsame : ∀ o, story (σ.log ++ [.closed fd]) o = story σ.log o :=
    fun o => story_append_ne (fun h => by cases h)
  exact
    { nodup := h.nodup
      asked := fun u hu => by
        rw [hsame]
        exact h.asked u hu
      posted := fun u res hu => by
        rw [hsame]
        exact h.posted u res hu
      done := fun o => by
        rw [hsame]
        exact h.done o
      fresh := fun o ho => (hsame o).trans (h.fresh o ho)
      frames := h.frames
      waiting := h.waiting }

/-- The coroutine ends, and its frame with it. -/
theorem Inv.finish (h : Inv (q :: R) σ fly cq) (hq : σ.mem.At q (.frame f))
    (hrun : f.point = .running) : Inv R { σ with mem := σ.mem.free q.addr } fly cq := by
  have hkeep : ∀ {x g}, (σ.mem.free q.addr).At x (.frame g) → x ≠ q ∧ σ.mem.At x (.frame g) :=
    fun hx => (Heap.at_free_iff hq).1 hx
  refine h.setMem (Nat.le_refl _) (fun v prep ow _ hown => hown.keep
    (fun handle r hv => ⟨r, hv.free hq (request_ne_frame hv hq)⟩)
    fun x g hx hpoint => hx.free hq (suspended_ne_running hx hpoint hq hrun)) (fun x g hx => ?_)
    fun x g hx hR => ?_
  · obtain ⟨-, hx⟩ := hkeep hx
    obtain ⟨hnodup, hreq⟩ := h.frames x g hx
    refine ⟨hnodup, fun v hv => ?_⟩
    obtain ⟨r, hr⟩ := hreq v hv
    exact ⟨r, hr.free hq (request_ne_frame hr hq)⟩
  · obtain ⟨hne, hx⟩ := hkeep hx
    exact h.waiting x g hx fun hmem => (List.mem_cons.1 hmem).elim hne hR

theorem recv_ne : ∀ sec, Prep.recv 4096 ≠ .linkTimeout sec := by
  rintro _ ⟨⟩

/-- The next receive of a client handler. -/
theorem Inv.asyncRecvTimeout (h : Inv (q :: R) σ fly cq)
    (hq : σ.mem.At q (.frame ⟨.clientHandler fd, [], .running⟩)) :
    Inv R (asyncRecvTimeout A fd σ q.addr) fly cq :=
  (h.await hq rfl recv_ne fun u => .recv fd u).linkTimeout

theorem asyncRecvTimeout_at (hq : σ.mem.At q (.frame f)) (hx : σ.mem.At x w) (hne : x ≠ q) :
    (asyncRecvTimeout A fd σ q.addr).mem.At x w :=
  linkTimeout_at (await_at hq hx hne)

theorem Inv.clientHandler (h : Inv R σ fly cq) : Inv R (clientHandler A fd σ) fly cq :=
  (h.spawn (.clientHandler fd)).asyncRecvTimeout Heap.at_alloc_self

theorem clientHandler_at (hx : σ.mem.At x w) : (clientHandler A fd σ).mem.At x w :=
  asyncRecvTimeout_at Heap.at_alloc_self hx.alloc hx.ne_alloc

theorem Inv.leave (h : Inv [q] σ fly cq)
    (hq : σ.mem.At q (.frame ⟨.clientHandler fd, [u], .running⟩)) :
    Inv [] (leave fd σ q.addr) fly cq := by
  obtain ⟨hdestroy, hq'⟩ := h.destroy hq rfl List.mem_cons_self rfl
  exact (hdestroy.finish hq' rfl).closed fd

theorem Inv.sendLoop (h : Inv [q] σ fly cq)
    (hq : σ.mem.At q (.frame ⟨.clientHandler fd, [u], .running⟩)) (n totalSent : Nat) :
    Inv [] (sendLoop A fd σ q.addr n totalSent) fly cq := by
  unfold LinkedTimeout.sendLoop
  split
  · exact h.await hq rfl (by rintro _ ⟨⟩) fun s => .send fd s u n totalSent
  · obtain ⟨hdestroy, hq'⟩ := h.destroy hq rfl List.mem_cons_self rfl
    exact hdestroy.asyncRecvTimeout hq'

/-- **A resumed coroutine** runs to its next suspension or to its end. -/
theorem Inv.continueAt (h : Inv [q] σ fly cq) (hsusp : Suspended f)
    (hq : σ.mem.At q (.frame { f with point := .running })) :
    Inv [] (continueAt A listenFd σ q.addr f.routine f.point res) fly cq := by
  cases hsusp with
  | accept a =>
    -- the new client runs to its first receive while the accept loop waits for it
    have hclient : ∃ σ', (if res < 0 then σ else LinkedTimeout.clientHandler A res σ) = σ' ∧
        Inv [q] σ' fly cq ∧ σ'.mem.At q (.frame ⟨.acceptLoop, [a], .running⟩) := by
      split
      · exact ⟨_, rfl, h, hq⟩
      · exact ⟨_, rfl, h.clientHandler, clientHandler_at hq⟩
    obtain ⟨σ', hσ', h', hq'⟩ := hclient
    obtain ⟨hdestroy, hq''⟩ := h'.destroy hq' rfl List.mem_cons_self rfl
    simp only [LinkedTimeout.continueAt, hσ']
    exact hdestroy.await hq'' rfl (by rintro _ ⟨⟩) .accept
  | recv fd r =>
    simp only [LinkedTimeout.continueAt]
    split
    · exact h.leave hq
    · split
      · exact h.leave hq
      · exact h.sendLoop hq _ _
  | send fd s r n totalSent =>
    obtain ⟨hdestroy, hq'⟩ := h.destroy hq rfl List.mem_cons_self rfl
    simp only [LinkedTimeout.continueAt]
    split
    · exact hdestroy.leave hq'
    · exact hdestroy.sendLoop hq' _ _

/-- A result is written. -/
theorem Inv.setResult (h : Inv R σ fly cq) (hu : σ.mem.At u (.request handle r)) (res : Int) :
    Inv R { σ with mem := σ.mem.write u.addr (.request handle res) } fly cq := by
  have hframe : ∀ {x g}, (σ.mem.write u.addr (.request handle res)).At x (.frame g) →
      σ.mem.At x (.frame g) := by
    intro x g hx
    rcases (Heap.at_write_iff hu).1 hx with ⟨-, heq⟩ | ⟨-, hx⟩
    · cases heq
    · exact hx
  have hrequest : ∀ {v handle' r'}, σ.mem.At v (.request handle' r') →
      ∃ r'', (σ.mem.write u.addr (.request handle res)).At v (.request handle' r'') := by
    intro v handle' r' hv
    by_cases hvu : v = u
    · subst hvu
      cases hv.value_eq hu
      exact ⟨res, hu.write_self⟩
    · exact ⟨r', hv.write hu hvu⟩
  refine h.setMem (Nat.le_of_eq Heap.write_next.symm) (fun v prep ow _ hown => hown.keep
    (fun _ _ hv => hrequest hv) fun x g hx _ => hx.write hu (request_ne_frame hu hx).symm)
    (fun x g hx => ?_) fun x g hx hR => h.waiting x g (hframe hx) hR
  obtain ⟨hnodup, hreq⟩ := h.frames x g (hframe hx)
  refine ⟨hnodup, fun v hv => ?_⟩
  obtain ⟨r', hr'⟩ := hreq v hv
  exact hrequest hr'

/-- A coroutine whose completion has been taken runs. -/
theorem Inv.setRunning (h : Inv [q] σ fly cq) (hq : σ.mem.At q (.frame f))
    (hhead : f.awaitables.head? = some u) (hu : u ∉ outstanding σ fly cq) :
    Inv [q] { σ with mem := σ.mem.write q.addr (.frame { f with point := .running }) } fly cq := by
  refine h.setMem (Nat.le_of_eq Heap.write_next.symm) (fun v prep ow hv hown => ?_)
    (fun x g hx => ?_) fun x g hx hR => ?_
  · cases hown with
    | timeout request => exact .timeout (request.write hq (request_ne_frame request hq))
    | @awaited _ x g r hprep request frame point head =>
      refine .awaited hprep (request.write hq (request_ne_frame request hq)) (frame.write hq ?_)
        point head
      rintro rfl
      cases frame.value_eq hq
      rw [hhead] at head
      cases head
      exact hu hv
  · have hreq : ∀ v, (∃ r, σ.mem.At v (.request (.coroutine x.addr) r)) →
        ∃ r, (σ.mem.write q.addr (.frame { f with point := .running })).At v
          (.request (.coroutine x.addr) r) :=
      fun v ⟨r, hr⟩ => ⟨r, hr.write hq (request_ne_frame hr hq)⟩
    rcases (Heap.at_write_iff hq).1 hx with ⟨rfl, hg⟩ | ⟨-, hx⟩
    · cases hg
      exact ⟨(h.frames x f hq).1, fun v hv => hreq v ((h.frames x f hq).2 v hv)⟩
    · exact ⟨(h.frames x g hx).1, fun v hv => hreq v ((h.frames x g hx).2 v hv)⟩
  · rcases (Heap.at_write_iff hq).1 hx with ⟨rfl, -⟩ | ⟨-, hx⟩
    · exact absurd (List.mem_singleton.2 rfl) hR
    · exact h.waiting x g hx hR

/-- **One completion.** -/
theorem Inv.dispatch (h : Inv [] σ fly ((u, res) :: cq)) :
    Inv [] (dispatch A listenFd σ u res) fly cq := by
  obtain ⟨prep, ow, hown, hstory⟩ := h.posted u res List.mem_cons_self
  have hperm : (outstanding σ fly ((u, res) :: cq)).Perm (u :: outstanding σ fly cq) :=
    List.perm_middle
  have hnotin := (List.nodup_cons.1 (hperm.nodup_iff.1 h.nodup)).1
  cases hown with
  | @timeout sec r request =>
    have heq : LinkedTimeout.dispatch A listenFd σ u res =
        { σ with mem := σ.mem.free u.addr, log := σ.log ++ [.deleted u.object] } := by
      simp [LinkedTimeout.dispatch, request.read_eq]
    have htake : Inv [] { σ with log := σ.log ++ [.deleted u.object] } fly cq := by
      refine h.take rfl ?_ fun x g hx _ => ⟨List.not_mem_nil, fun hhead => ?_⟩
      · rw [hstory]
        exact .timeout _ _
      · obtain ⟨r', hr'⟩ := (h.frames x g hx).2 u (List.mem_of_mem_head? hhead)
        cases hr'.value_eq request
    rw [heq]
    refine htake.setMem (Nat.le_refl _) (fun v prep ow hv hown => hown.keep
      (fun handle r hv' => ⟨r, hv'.free request ?_⟩)
      fun x g hx _ => hx.free request (request_ne_frame request hx).symm) (fun x g hx => ?_)
      fun x g hx hR => htake.waiting x g ((Heap.at_free_iff request).1 hx).2 hR
    · rintro rfl
      exact hnotin hv
    · obtain ⟨-, hx⟩ := (Heap.at_free_iff request).1 hx
      obtain ⟨hnodup, hreq⟩ := h.frames x g hx
      refine ⟨hnodup, fun v hv => ?_⟩
      obtain ⟨r', hr'⟩ := hreq v hv
      refine ⟨r', hr'.free request ?_⟩
      rintro rfl
      cases hr'.value_eq request
  | @awaited prep q f r hprep request frame point head =>
    obtain ⟨hsusp, -⟩ := h.waiting q f frame List.not_mem_nil
    have hne : u ≠ q := request_ne_frame request frame
    have hframe := frame.write (v := .request (.coroutine q.addr) res) request hne.symm
    have hread := (request.write_self (v := .request (.coroutine q.addr) res)).read_eq
    obtain ⟨us, hus⟩ : ∃ us, f.awaitables = u :: us := by
      cases hsusp with
      | accept a => cases head; exact ⟨_, rfl⟩
      | recv fd r => cases head; exact ⟨_, rfl⟩
      | send fd s r n t => cases head; exact ⟨_, rfl⟩
    have heq : LinkedTimeout.dispatch A listenFd σ u res =
        LinkedTimeout.continueAt A listenFd
          { σ with
            mem := (σ.mem.write u.addr (.request (.coroutine q.addr) res)).write q.addr
              (.frame { f with point := .running })
            log := σ.log ++ [.resumed u.object q.object res] }
          q.addr f.routine f.point res := by
      simp [LinkedTimeout.dispatch, request.read_eq, resume, hframe.read_eq, hus, hread]
    have htake : Inv [q] { σ with log := σ.log ++ [.resumed u.object q.object res] } fly cq := by
      refine h.take rfl ?_ fun x g hx hR => ⟨List.not_mem_nil, fun hhead => ?_⟩
      · rw [hstory]
        exact .awaited hprep _ _
      · obtain ⟨r', hr'⟩ := (h.frames x g hx).2 u (List.mem_of_mem_head? hhead)
        have hhandle := hr'.value_eq request
        simp only [Object.request.injEq, Handle.coroutine.injEq] at hhandle
        exact hR (List.mem_singleton.2 (hx.eq_of_addr frame hhandle.1))
    rw [heq]
    exact ((htake.setResult request res).setRunning hframe head hnotin).continueAt hsusp
      hframe.write_self

/-! ## Runs -/

theorem step_inv {s s' : State} {e : Ev}
    (h : Inv [] s.app (s.inflight.map Sqe.userData) s.cq) (hs : step A listenFd s e = some s') :
    Inv [] s'.app (s'.inflight.map Sqe.userData) s'.cq := by
  cases e with
  | submit =>
    simp only [step] at hs
    split at hs
    · cases hs
      have heq : LinkedTimeout.asked { s.app with sq := [] }
          ((s.inflight ++ s.app.sq).map Sqe.userData) =
          LinkedTimeout.asked s.app (s.inflight.map Sqe.userData) := by
        simp [LinkedTimeout.asked]
      exact
        { nodup := by
            rw [outstanding, heq]
            exact h.nodup
          asked := fun u hu => h.asked u (heq ▸ hu)
          posted := h.posted
          done := fun o => by
            rw [outstanding, heq]
            exact h.done o
          fresh := h.fresh
          frames := h.frames
          waiting := fun q f hq hR => by
            rw [outstanding, heq]
            exact h.waiting q f hq hR }
    · cases hs
  | wait =>
    simp only [step] at hs
    split at hs
    · cases hs
      exact h
    · cases hs
  | post i res =>
    simp only [step] at hs
    split at hs
    · rename_i q hq
      split at hs
      · cases hs
        have hi : (s.inflight.map Sqe.userData)[i]? = some q.userData := by simp [hq]
        rw [← List.eraseIdx_map]
        exact h.post hi
      · cases hs
    · cases hs
  | dispatch =>
    simp only [step] at hs
    split at hs
    · cases hs
    · split at hs
      · cases hs
        exact h
      · rename_i u res cq hcq
        cases hs
        rw [hcq] at h
        exact h.dispatch

theorem start_inv : Inv [] (start A listenFd) [] [] := by
  have hempty : Inv [] ⟨Heap.empty, [], []⟩ [] [] :=
    { nodup := List.nodup_nil
      asked := by rintro _ ⟨⟩
      posted := by rintro _ _ ⟨⟩
      done := fun _ => Or.inl rfl
      fresh := fun _ _ => rfl
      frames := fun _ _ h => absurd h Heap.not_at_empty
      waiting := fun _ _ h => absurd h Heap.not_at_empty }
  exact (hempty.spawn .acceptLoop).await Heap.at_alloc_self rfl (by rintro _ ⟨⟩) .accept

/-- **The invariant holds after every schedule.** -/
theorem run_inv {es : List Ev} {s : State} (h : (server A listenFd).run es = some s) :
    Inv [] s.app (s.inflight.map Sqe.userData) s.cq :=
  Machine.run_inv (M := server A listenFd) (I := fun s => Inv [] s.app (s.inflight.map Sqe.userData) s.cq)
    start_inv (fun _ _ _ hi hs => step_inv hi hs) h

end Coroutines

/-! ## The server as it is seen -/

/-- The life of a request so far: it is with the kernel, or its completion waits, or the completion
has been taken and `final` has followed. -/
def Life (s : State) (o : Nat) (queued : Note) (final : Int → Note) : Prop :=
  (story s.app.log o = [queued] ∧ ∃ u ∈ asked s.app (s.inflight.map Sqe.userData), u.object = o) ∨
    (∃ res, story s.app.log o = [queued, .posted o res] ∧ ∃ u, (u, res) ∈ s.cq ∧ u.object = o) ∨
    ∃ res, story s.app.log o = [queued, .posted o res, final res]

/-- What holds of the server after every schedule. -/
structure Kept (s : State) : Prop where
  /-- Whatever is still to be dispatched lives. -/
  live : ∀ u ∈ outstanding s.app (s.inflight.map Sqe.userData) s.cq,
    ∃ handle r, s.app.mem.At u (.request handle r)
  /-- A receive (and an accept, and a send) resumes the coroutine that waits for it, once and with the
  result that has been posted for it. -/
  awaited : ∀ o prep ow, .queued o prep ow ∈ s.app.log → (∀ sec, prep ≠ .linkTimeout sec) →
    ∃ coroutine, ow = some coroutine ∧
      Life s o (.queued o prep ow) fun res => .resumed o coroutine res
  /-- The request of a timeout is deleted once. -/
  timeout : ∀ o sec ow, .queued o (.linkTimeout sec) ow ∈ s.app.log →
    ow = none ∧ Life s o (.queued o (.linkTimeout sec) ow) fun _ => .deleted o
  /-- There are no other resumptions and deletions. -/
  resumed : ∀ o coroutine res, .resumed o coroutine res ∈ s.app.log →
    ∃ prep, .queued o prep (some coroutine) ∈ s.app.log
  deleted : ∀ o, .deleted o ∈ s.app.log → ∃ sec, .queued o (.linkTimeout sec) none ∈ s.app.log
  /-- Every coroutine is suspended at an awaitable that is outstanding. -/
  waiting : ∀ q f, s.app.mem.At q (.frame f) → Suspended f ∧
    ∃ u ∈ outstanding s.app (s.inflight.map Sqe.userData) s.cq, f.awaitables.head? = some u

section Seen

variable {A : Allocator} {listenFd : Int} {s : State} {o : Nat} {n : Note} {prep prep' : Prep}
  {ow ow' : Option Nat} {final : Int → Note}

theorem mem_story {log : List Note} (h : n.object = some o) : n ∈ story log o ↔ n ∈ log := by
  simp [story, h]

/-- A request is queued once. -/
theorem Life.queued_eq (h : Life s o (.queued o prep ow) final)
    (hfinal : ∀ res prep ow, final res ≠ .queued o prep ow)
    (hmem : .queued o prep' ow' ∈ s.app.log) : prep' = prep ∧ ow' = ow := by
  rw [← mem_story rfl] at hmem
  have hhead : Note.queued o prep' ow' = .queued o prep ow := by
    rcases h with ⟨hstory, -⟩ | ⟨res, hstory, -⟩ | ⟨res, hstory⟩
    · rw [hstory] at hmem
      exact List.mem_singleton.1 hmem
    · rw [hstory] at hmem
      simpa using hmem
    · rw [hstory] at hmem
      simpa [(hfinal res prep' ow').symm] using hmem
  cases hhead
  exact ⟨rfl, rfl⟩

/-- A request that there is a note about, as its submission and its owner. -/
inductive Kind (s : State) (o : Nat) : Prop where
  | awaited {prep : Prep} (hprep : ∀ sec, prep ≠ .linkTimeout sec) (coroutine : Nat)
    (life : Life s o (.queued o prep (some coroutine)) fun res => .resumed o coroutine res)
  | timeout (sec : Nat) (life : Life s o (.queued o (.linkTimeout sec) none) fun _ => .deleted o)

theorem Life.queued_mem (h : Life s o (.queued o prep ow) final) : .queued o prep ow ∈ s.app.log := by
  rw [← mem_story rfl]
  rcases h with ⟨hstory, -⟩ | ⟨res, hstory, -⟩ | ⟨res, hstory⟩
  · simp [hstory]
  · simp [hstory]
  · simp [hstory]

/-- What the invariant says of a request. -/
theorem Inv.kind (h : Inv [] s.app (s.inflight.map Sqe.userData) s.cq) (hn : n.object = some o)
    (hmem : n ∈ s.app.log) : Kind s o := by
  rcases h.done o with hnil | ⟨u, hu, rfl⟩ | hc
  · rw [← mem_story hn, hnil] at hmem
    cases hmem
  · rcases List.mem_append.1 hu with hu | hu
    · obtain ⟨prep, ow, hown, hstory⟩ := h.asked u hu
      cases hown with
      | timeout => exact .timeout _ (Or.inl ⟨hstory, u, hu, rfl⟩)
      | awaited hprep => exact .awaited hprep _ (Or.inl ⟨hstory, u, hu, rfl⟩)
    · obtain ⟨⟨u', res⟩, hcq, rfl⟩ := List.mem_map.1 hu
      obtain ⟨prep, ow, hown, hstory⟩ := h.posted u' res hcq
      cases hown with
      | timeout => exact .timeout _ (Or.inr (Or.inl ⟨res, hstory, u', hcq, rfl⟩))
      | awaited hprep => exact .awaited hprep _ (Or.inr (Or.inl ⟨res, hstory, u', hcq, rfl⟩))
  · generalize hstory : story s.app.log o = l at hc
    cases hc with
    | awaited hprep coroutine res => exact .awaited hprep coroutine (Or.inr (Or.inr ⟨res, hstory⟩))
    | timeout sec res => exact .timeout sec (Or.inr (Or.inr ⟨res, hstory⟩))

/-- A note other than the submission and the posting is the last one. -/
theorem Life.eq_final (h : Life s o (.queued o prep ow) final) (hn : n.object = some o)
    (hmem : n ∈ s.app.log) (hq : ∀ prep ow, n ≠ .queued o prep ow) (hp : ∀ res, n ≠ .posted o res) :
    ∃ res, n = final res := by
  rw [← mem_story hn] at hmem
  rcases h with ⟨hstory, -⟩ | ⟨res, hstory, -⟩ | ⟨res, hstory⟩
  · simp [hstory, hq] at hmem
  · simp [hstory, hq, hp] at hmem
  · exact ⟨res, by simpa [hstory, hq, hp] using hmem⟩

end Seen

/-- **One resumption for every receive and one deletion for every timeout request**, and no
completion is dispatched to a destroyed object: for every allocator and every schedule, in which the
completions of a receive and of its timeout may come in any order and any distance. -/
theorem linkedTimeout_once (A : Allocator) (listenFd : Int) {es : List Ev} {s : State}
    (h : (server A listenFd).run es = some s) : Kept s := by
  have hinv := run_inv h
  exact
    { live := fun u hu => by
        obtain ⟨_, _, hown, -⟩ := hinv.owned hu
        exact hown.request_at
      awaited := fun o prep ow hmem hprep => by
        cases hinv.kind rfl hmem with
        | awaited _ coroutine life =>
          obtain ⟨rfl, rfl⟩ := life.queued_eq (by rintro _ _ _ ⟨⟩) hmem
          exact ⟨coroutine, rfl, life⟩
        | timeout sec life =>
          obtain ⟨rfl, rfl⟩ := life.queued_eq (by rintro _ _ _ ⟨⟩) hmem
          exact absurd rfl (hprep sec)
      timeout := fun o sec ow hmem => by
        cases hinv.kind rfl hmem with
        | awaited hprep coroutine life =>
          obtain ⟨rfl, rfl⟩ := life.queued_eq (by rintro _ _ _ ⟨⟩) hmem
          exact absurd rfl (hprep sec)
        | timeout _ life =>
          obtain ⟨heq, rfl⟩ := life.queued_eq (by rintro _ _ _ ⟨⟩) hmem
          cases heq
          exact ⟨rfl, life⟩
      resumed := fun o coroutine res hmem => by
        cases hinv.kind rfl hmem with
        | awaited _ coroutine' life =>
          obtain ⟨res', heq⟩ := life.eq_final rfl hmem (by rintro _ _ ⟨⟩) (by rintro _ ⟨⟩)
          cases heq
          exact ⟨_, life.queued_mem⟩
        | timeout _ life =>
          obtain ⟨_, heq⟩ := life.eq_final rfl hmem (by rintro _ _ ⟨⟩) (by rintro _ ⟨⟩)
          cases heq
      deleted := fun o hmem => by
        cases hinv.kind rfl hmem with
        | awaited _ _ life =>
          obtain ⟨_, heq⟩ := life.eq_final rfl hmem (by rintro _ _ ⟨⟩) (by rintro _ ⟨⟩)
          cases heq
        | timeout sec life => exact ⟨sec, life.queued_mem⟩
      waiting := fun q f hq => hinv.waiting q f hq List.not_mem_nil }

/-- A client whose frame is gone, and its memory in use by the next client, when the timeout of its
receive completes. -/
def lateTimeout : List Ev :=
  [.submit, .post 0 5, .wait, .dispatch, .submit, .post 0 2, .wait, .dispatch,
    .submit, .post 2 (-32), .wait, .dispatch, .submit, .post 1 6, .wait, .dispatch,
    .submit, .post 0 (-125), .wait, .dispatch]

theorem linkedTimeout_once_late : ∃ s, (server .top 3).run lateTimeout = some s ∧
    story s.app.log 3 = [.queued 3 (.recv 4096) (some 2), .posted 3 2, .resumed 3 2 2] ∧
    story s.app.log 4 = [.queued 4 (.linkTimeout 5) none, .posted 4 (-125), .deleted 4] ∧
    story s.app.log 8 = [.queued 8 (.recv 4096) (some 7)] ∧ .closed 5 ∈ s.app.log ∧ Kept s := by
  obtain ⟨s, hs, hlog⟩ : ∃ s, (server .top 3).run lateTimeout = some s ∧ s.app.log =
      [.queued 1 .accept (some 0), .posted 1 5, .resumed 1 0 5, .queued 3 (.recv 4096) (some 2),
        .queued 4 (.linkTimeout 5) none, .queued 5 .accept (some 0), .posted 3 2, .resumed 3 2 2,
        .queued 6 (.send 0 2) (some 2), .posted 6 (-32), .resumed 6 2 (-32), .closed 5,
        .posted 5 6, .resumed 5 0 6, .queued 8 (.recv 4096) (some 7), .queued 9 (.linkTimeout 5) none,
        .queued 10 .accept (some 0), .posted 4 (-125), .deleted 4] := ⟨_, rfl, rfl⟩
  refine ⟨s, hs, ?_, ?_, ?_, ?_, linkedTimeout_once .top 3 hs⟩
  · rw [hlog]
    decide
  · rw [hlog]
    decide
  · rw [hlog]
    decide
  · rw [hlog]
    decide

/-! ## Progress -/

section Progress

variable {A : Allocator} {listenFd fd : Int} {σ : App} {p : Nat} {s s' : State} {es : List Ev}
  {u : Ptr} {res : Int}

theorem await_log (σ : App) (p : Nat) (fd : Int) (prep : Prep) (link : Bool) (point : Point) :
    σ.log <+: (await A σ p fd prep link point).log := by
  unfold await
  split
  · exact List.prefix_append _ _
  · exact List.prefix_rfl

theorem asyncRecvTimeout_log (fd : Int) (σ : App) (p : Nat) :
    σ.log <+: (asyncRecvTimeout A fd σ p).log :=
  (await_log σ p fd (.recv 4096) true .recv).trans (List.prefix_append _ _)

theorem destroy_log (σ : App) (p : Nat) : (destroy σ p).log = σ.log := by
  unfold destroy
  split
  · split <;> rfl
  · rfl

theorem leave_log (fd : Int) (σ : App) (p : Nat) : σ.log <+: (leave fd σ p).log := by
  have hlog : (leave fd σ p).log = σ.log ++ [.closed fd] := by rw [leave, destroy_log]
  rw [hlog]
  exact List.prefix_append _ _

theorem sendLoop_log (fd : Int) (σ : App) (p n totalSent : Nat) :
    σ.log <+: (sendLoop A fd σ p n totalSent).log := by
  unfold sendLoop
  split
  · exact await_log ..
  · have hnext := asyncRecvTimeout_log (A := A) fd (destroy σ p) p
    rwa [destroy_log] at hnext

theorem clientHandler_log (fd : Int) (σ : App) : σ.log <+: (clientHandler A fd σ).log := by
  let r := σ.mem.alloc A (.frame ⟨.clientHandler fd, [], .running⟩)
  have hlog := asyncRecvTimeout_log (A := A) fd { σ with mem := r.1 } r.2.addr
  exact hlog

theorem acceptLoop_log (σ : App) (p : Nat) (res : Int) :
    σ.log <+: (asyncAccept A listenFd
      (destroy (if res < 0 then σ else clientHandler A res σ) p) p).log := by
  have hclient : σ.log <+: (if res < 0 then σ else clientHandler A res σ).log := by
    split
    · exact List.prefix_rfl
    · exact clientHandler_log res σ
  have haccept : (destroy (if res < 0 then σ else clientHandler A res σ) p).log <+: _ :=
    await_log (A := A) _ p listenFd .accept false .accept
  rw [destroy_log] at haccept
  exact hclient.trans haccept

theorem sent_log (fd : Int) (σ : App) (p n totalSent : Nat) (res : Int) :
    σ.log <+: (if res ≤ 0 then leave fd (destroy σ p) p
      else sendLoop A fd (destroy σ p) p n totalSent).log := by
  rw [← destroy_log σ p]
  by_cases hres : res ≤ 0
  · rw [if_pos hres]
    exact leave_log ..
  · rw [if_neg hres]
    exact sendLoop_log ..

theorem continueAt_log (σ : App) (p : Nat) (routine : Routine) (point : Point) (res : Int) :
    σ.log <+: (continueAt A listenFd σ p routine point res).log := by
  cases routine with
  | acceptLoop =>
    cases point with
    | accept => exact acceptLoop_log σ p res
    | running | recv | send => exact List.prefix_rfl
  | clientHandler fd =>
    cases point with
    | recv =>
      rw [continueAt]
      split
      · exact leave_log ..
      · split
        · exact leave_log ..
        · exact sendLoop_log ..
    | send n totalSent => exact sent_log fd σ p n (totalSent + res.toNat) res
    | running | accept => exact List.prefix_rfl

theorem resume_log (σ : App) (p : Nat) : σ.log <+: (resume A listenFd σ p).log := by
  unfold resume
  split
  · split
    · split
      · exact (List.prefix_append _ _).trans (continueAt_log { σ with mem := _, log := _ } ..)
      · exact List.prefix_rfl
    · exact List.prefix_rfl
  · exact List.prefix_rfl

/-- No note is taken back. -/
theorem dispatch_log (σ : App) (u : Ptr) (res : Int) :
    σ.log <+: (dispatch A listenFd σ u res).log := by
  unfold dispatch
  split
  · exact List.prefix_append _ _
  · rename_i p _ _
    exact resume_log { σ with mem := σ.mem.write u.addr (.request (.coroutine p) res) } p
  · exact List.prefix_rfl

/-- The steps of the program; the others are the kernel's. -/
def Ev.isLoop : Ev → Bool
  | .post _ _ => false
  | _ => true

variable (A listenFd) in
/-- The loop takes the first completion that waits, in this batch or in a new one. -/
theorem exists_take {cq : List (Ptr × Int)} (hcq : s.cq = (u, res) :: cq) :
    ∃ fs s', (∀ e ∈ fs, e.isLoop) ∧ (server A listenFd).exec s fs = some s' ∧ s'.cq = cq ∧
      s.app.log <+: s'.app.log := by
  by_cases hleft : s.left = 0
  · let app : App := { s.app with sq := [] }
    let s' : State :=
      ⟨dispatch A listenFd app u res, s.inflight ++ s.app.sq, cq, s.cq.length - 1⟩
    refine ⟨[.submit, .wait, .dispatch], s', by simp [Ev.isLoop], ?_, rfl, dispatch_log app u res⟩
    simp [Machine.exec, server, step, hleft, hcq, s', app]
  · refine ⟨[.dispatch], ⟨dispatch A listenFd s.app u res, s.inflight, cq, s.left - 1⟩,
      by simp [Ev.isLoop], ?_, rfl, dispatch_log s.app u res⟩
    simp [Machine.exec, server, step, hleft, hcq]

/-- What has been taken is over. -/
theorem complete_of_taken (h : Inv [] s.app (s.inflight.map Sqe.userData) s.cq)
    (h' : Inv [] s'.app (s'.inflight.map Sqe.userData) s'.cq) (hcq : s.cq = (u, res) :: s'.cq)
    (hlog : s.app.log <+: s'.app.log) :
    Complete u.object (story s'.app.log u.object) ∧ .posted u.object res ∈ s'.app.log := by
  obtain ⟨prep, ow, -, hstory⟩ := h.posted u res (hcq ▸ List.mem_cons_self)
  have hposted : Note.posted u.object res ∈ s.app.log := by
    have hmem : Note.posted u.object res ∈ story s.app.log u.object := by simp [hstory]
    exact List.mem_of_mem_filter hmem
  refine ⟨?_, hlog.subset hposted⟩
  have hprefix : story s.app.log u.object <+: story s'.app.log u.object := hlog.filter _
  rw [hstory] at hprefix
  rcases h'.done u.object with hnil | ⟨v, hv, hobject⟩ | hcomplete
  · rw [hnil] at hprefix
    exact absurd hprefix.length_le (by simp)
  · rcases List.mem_append.1 hv with hv | hv
    · obtain ⟨prep', ow', -, hstory'⟩ := h'.asked v hv
      rw [← hobject, hstory'] at hprefix
      exact absurd hprefix.length_le (by simp)
    · -- another completion of the same request would have waited already
      have hperm : (outstanding s.app (s.inflight.map Sqe.userData) s.cq).Perm
          (u :: outstanding s.app (s.inflight.map Sqe.userData) s'.cq) := by
        rw [hcq]
        exact List.perm_middle
      have hlater : v ∈ outstanding s.app (s.inflight.map Sqe.userData) s'.cq :=
        List.mem_append_right _ hv
      have hsame := h.object_inj (hperm.mem_iff.2 (List.mem_cons_of_mem _ hlater))
        (hperm.mem_iff.2 List.mem_cons_self) hobject
      subst hsame
      exact absurd hlater (List.nodup_cons.1 (hperm.nodup_iff.1 h.nodup)).1
  · exact hcomplete

/-- **Progress.**  From every state, and without the kernel, the loop can be run on until a completion
that waits has been taken; then its coroutine has been resumed with its result, or its timeout request
has been deleted. -/
theorem waiting_finished (h : (server A listenFd).run es = some s) (hmem : (u, res) ∈ s.cq) :
    ∃ fs s', (∀ e ∈ fs, e.isLoop) ∧ (server A listenFd).run (es ++ fs) = some s' ∧
      Complete u.object (story s'.app.log u.object) ∧ .posted u.object res ∈ s'.app.log := by
  obtain ⟨before, after, hcq⟩ := List.append_of_mem hmem
  induction before generalizing es s with
  | nil =>
    obtain ⟨fs, s', hloop, hexec, hafter, hlog⟩ := exists_take A listenFd hcq
    have hrun : (server A listenFd).run (es ++ fs) = some s' := Machine.exec_append.2 ⟨s, h, hexec⟩
    exact ⟨fs, s', hloop, hrun,
      complete_of_taken (run_inv h) (run_inv hrun) (hafter ▸ hcq) hlog⟩
  | cons c before ih =>
    obtain ⟨fs, s₁, hloop, hexec, hafter, -⟩ := exists_take A listenFd hcq
    have hrun : (server A listenFd).run (es ++ fs) = some s₁ := Machine.exec_append.2 ⟨s, h, hexec⟩
    obtain ⟨gs, s', hloop', hrun', hdone⟩ := ih hrun (by rw [hafter]; simp) hafter
    refine ⟨fs ++ gs, s', fun e he => ?_, ?_, hdone⟩
    · exact (List.mem_append.1 he).elim (hloop e) (hloop' e)
    · rwa [← List.append_assoc]

end Progress

end AdvCpp.Uring.LinkedTimeout
