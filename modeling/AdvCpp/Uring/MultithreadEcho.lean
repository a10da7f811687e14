import AdvCpp.Lib.Machine
import AdvCpp.Lib.Table
import AdvCpp.Uring.FdQueue
import Mathlib.Algebra.Ring.Nat

/-!
# The accept thread and its workers

`19_multithread_echo.cpp`: the accept thread hands descriptors out round-robin, a worker is woken
through its eventfd and drains its `FdQueue` into `client_handler` coroutines.  The threads and the
kernel take their steps in any order; the accesses inside `push` and `pop` are those of `FdQueue`.

* `State`, `step`, `machine` — the threads and the kernel.
* `WorkerInv` — the wake-up protocol of one worker.
* `wakeup_not_lost` — a worker never blocks on a descriptor whose wake-up was sent.
* `Placed`, `handOff_iff` — where the accepted descriptors are, and when none of them is lost.
-/

namespace AdvCpp.Uring.MultithreadEcho

open AdvCpp.Lib

/-- `user_data`: `NEW_CONN_TAG`, or the request inside a suspended coroutine frame. -/
inductive Tag where
  | poll
  | op (frame : Nat)
  deriving DecidableEq

structure Cqe where
  tag : Tag
  res : Int
  deriving DecidableEq

/-- Where a `client_handler` is suspended: `co_await` of a receive, or of a send of the bytes from
`totalSent` to `n`. -/
inductive Await where
  | recv
  | send (totalSent n : Nat)
  deriving DecidableEq

structure Handler where
  fd : Int
  await : Await
  deriving DecidableEq

/-- Where `run_worker` is: before and inside `submit_and_wait`, at the head of the loop over the
completions with `left` of them to go, and in the parts of the branch for `NEW_CONN_TAG`. -/
inductive WorkerPc where
  | top
  | wait
  | batch (left : Nat)
  | readEfd (left : Nat)
  | drain (left : Nat)
  | rearm (left : Nat)
  deriving DecidableEq

/-- A worker with its queue, its eventfd counter and its ring; `frames` are the coroutine frames
that are alive. -/
structure Worker where
  queue : FdQueue.State
  efd : Nat
  pc : WorkerPc
  sq : List Tag
  armed : List Tag
  cq : List Cqe
  frames : Nat → Option Handler
  nextFrame : Nat

/-- Where the accept thread is: waiting, in `push` on the queue of worker `w`, or about to write
its eventfd. -/
inductive AcceptPc where
  | wait
  | push (w : Nat) (fd : Int)
  | wake (w : Nat)
  deriving DecidableEq

/-- `opened` are the accepted descriptors that are open.  The other lists are a record of the
descriptors that were accepted, given to a `client_handler`, and closed by one. -/
structure State where
  accept : AcceptPc
  nextWorker : Nat
  workers : Nat → Worker
  opened : List Int
  accepted : List Int
  spawned : List Int
  closed : List Int
  ub : Bool

/-- A worker thread after its first `submit_poll`. -/
def Worker.init : Worker := ⟨.init, 0, .top, [.poll], [], [], fun _ => none, 0⟩

def State.init : State := ⟨.wait, 0, fun _ => .init, [], [], [], [], false⟩

def State.setWorker (s : State) (i : Nat) (w : Worker) : State :=
  { s with workers := Function.update s.workers i w }

/-! ## The worker -/

/-- `submit_poll`. -/
def Worker.submitPoll (w : Worker) : Worker := { w with sq := w.sq ++ [.poll] }

/-- `client_handler` up to its first `co_await`. -/
def Worker.clientHandler (w : Worker) (fd : Int) : Worker :=
  { w with
    frames := Function.update w.frames w.nextFrame (some ⟨fd, .recv⟩)
    nextFrame := w.nextFrame + 1
    sq := w.sq ++ [.op w.nextFrame] }

/-- The next operation of a `client_handler` that is resumed with `res`; `none` is its end. -/
def Handler.resume (h : Handler) (res : Int) : Option Handler :=
  match h.await with
  | .recv => if res ≤ 0 then none else some { h with await := .send 0 res.toNat }
  | .send totalSent n =>
    if res ≤ 0 then none
    else if totalSent + res.toNat < n then some { h with await := .send (totalSent + res.toNat) n }
    else some { h with await := .recv }

/-- `req->handle.resume()` on worker `i`; a `client_handler` that ends closes its descriptor. -/
def resume (s : State) (i : Nat) (w : Worker) (frame : Nat) (res : Int) : State :=
  match w.frames frame with
  | none => { s with ub := true }
  | some h =>
    match h.resume res with
    | some h' =>
      s.setWorker i
        { w with frames := Function.update w.frames frame (some h'), sq := w.sq ++ [.op frame] }
    | none =>
      { s.setWorker i { w with frames := Function.update w.frames frame none } with
        opened := s.opened.erase h.fd, closed := h.fd :: s.closed }

/-- One step of `queue.pop(fd)` in the drain loop. -/
def drainStep (s : State) (i : Nat) (w : Worker) (left : Nat) : Option State :=
  match w.queue.pop with
  | .idle => some (s.setWorker i { w with queue := { w.queue with pop := .loadHead } })
  | .ret (some fd) =>
    some
      { s.setWorker i (Worker.clientHandler { w with queue := { w.queue with pop := .idle } } fd) with
        spawned := fd :: s.spawned }
  | .ret none =>
    some (s.setWorker i { w with queue := { w.queue with pop := .idle }, pc := .rearm left })
  | _ => (FdQueue.popStep w.queue).map fun q => s.setWorker i { w with queue := q }

/-- One step of worker `i`. -/
def workerStep (s : State) (i : Nat) : Option State :=
  let w := s.workers i
  match w.pc with
  | .top => some (s.setWorker i { w with armed := w.armed ++ w.sq, sq := [], pc := .wait })
  | .wait => if w.cq = [] then none else some (s.setWorker i { w with pc := .batch w.cq.length })
  | .batch 0 => some (s.setWorker i { w with pc := .top })
  | .batch (left + 1) =>
    match w.cq with
    | [] => some (s.setWorker i { w with pc := .top })
    | ⟨.poll, res⟩ :: cq =>
      if 0 < res then some (s.setWorker i { w with cq := cq, pc := .readEfd left })
      else some (s.setWorker i { w with cq := cq, pc := .rearm left })
    | ⟨.op frame, res⟩ :: cq => some (resume s i { w with cq := cq, pc := .batch left } frame res)
  | .readEfd left => some (s.setWorker i { w with efd := 0, pc := .drain left })
  | .drain left => drainStep s i w left
  | .rearm left => some (s.setWorker i { w.submitPoll with pc := .batch left })

/-! ## The accept thread and the kernel -/

/-- The counter of an eventfd after `write` of 1; at its maximum the write fails. -/
def eventfdWrite (efd : Nat) : Nat := min (efd + 1) (2 ^ 64 - 2)

/-- One step of the hand-off. -/
def acceptStep (s : State) : Option State :=
  match s.accept with
  | .wait => none
  | .push i fd =>
    let w := s.workers i
    match w.queue.push with
    | .idle => some (s.setWorker i { w with queue := { w.queue with push := .loadTail fd } })
    | .ret _ =>
      some { s.setWorker i { w with queue := { w.queue with push := .idle } } with accept := .wake i }
    | _ => (FdQueue.pushStep w.queue).map fun q => s.setWorker i { w with queue := q }
  | .wake i =>
    let w := s.workers i
    some
      { s.setWorker i { w with efd := eventfdWrite w.efd } with
        nextWorker := (s.nextWorker + 1) % 2 ^ 32, accept := .wait }

/-- `accept`: the accept thread takes a completion with this result.  `producer`: its next step in
the hand-off.  `worker`: the next step of a worker.  `complete`: the kernel ends a request of a
worker. -/
inductive Ev where
  | accept (res : Int)
  | producer
  | worker (i : Nat)
  | complete (i : Nat) (tag : Tag) (res : Int)
  deriving DecidableEq

/-- A poll reports the eventfd only when it is readable. -/
def KernelMay (w : Worker) : Tag → Int → Prop
  | .poll, res => 0 < res → 0 < w.efd
  | .op _, _ => True

instance (w : Worker) (tag : Tag) (res : Int) : Decidable (KernelMay w tag res) := by
  unfold KernelMay
  split <;> exact inferInstance

variable (n : Nat)

/-- `n` is `num_workers`. -/
def step (s : State) : Ev → Option State
  | .accept res =>
    if s.accept = .wait then
      if 0 ≤ res then
        -- the kernel returns a descriptor that is not open
        if res ∈ s.opened then none
        else
          some
            { s with
              accept := .push (s.nextWorker % n) res
              opened := res :: s.opened, accepted := res :: s.accepted }
      else some s
    else none
  | .producer => acceptStep s
  | .worker i => if i < n then workerStep s i else none
  | .complete i tag res =>
    let w := s.workers i
    if i < n ∧ tag ∈ w.armed ∧ KernelMay w tag res then
      some (s.setWorker i { w with armed := w.armed.erase tag, cq := w.cq ++ [⟨tag, res⟩] })
    else none

def machine : Machine State Ev := ⟨State.init, step n⟩

/-! ## The wake-up protocol of one worker -/

section Wakeup

variable {n : Nat} {s s' : State} {w w' : Worker} {i : Nat} {p : Prop}

def Tag.frame : Tag → Option Nat
  | .poll => none
  | .op frame => some frame

/-- The requests of a worker that are queued, in the kernel's hands, or completed. -/
def Worker.tags (w : Worker) : List Tag := w.sq ++ w.armed ++ w.cq.map Cqe.tag

/-- A completed poll is being processed. -/
def WorkerPc.polling : WorkerPc → Nat
  | .readEfd _ | .drain _ | .rearm _ => 1
  | _ => 0

def WorkerPc.draining : WorkerPc → Bool
  | .drain _ => true
  | _ => false

/-- The drain loop has not found the queue empty yet. -/
def Worker.Draining (w : Worker) : Prop := w.pc.draining = true ∧ w.queue.pop ≠ .ret none

/-- The accept thread has decided its last `push` to worker `i` and not written the eventfd. -/
def State.Waking (s : State) (i : Nat) : Prop :=
  s.accept = .wake i ∨ ∃ fd ok, s.accept = .push i fd ∧ (s.workers i).queue.push = .ret ok

/-- The invariant of a worker; `p` says that a write to its eventfd is to come. -/
structure WorkerInv (w : Worker) (p : Prop) : Prop where
  queue : FdQueue.Inv w.queue w.queue.contents
  idle : w.pc.draining = false → w.queue.pop = .idle
  poll : w.tags.count .poll + w.pc.polling = 1
  flushed : w.pc = .wait → w.sq = []
  wake : w.queue.contents ≠ [] → 0 < w.efd ∨ w.Draining ∨ p
  frames : (w.tags.filterMap Tag.frame).Nodup
  live : ∀ k, k ∈ w.tags.filterMap Tag.frame ↔ w.frames k ≠ none
  fresh : ∀ k, w.nextFrame ≤ k → w.frames k = none

/-- A step of the ring: no request is new or gone, and the queue is not touched. -/
theorem WorkerInv.retag (h : WorkerInv w p) (hqueue : w'.queue = w.queue) (hefd : w'.efd = w.efd)
    (hframes : w'.frames = w.frames) (hnext : w'.nextFrame = w.nextFrame)
    (htags : w'.tags.Perm w.tags) (hpolling : w'.pc.polling = w.pc.polling)
    (hpc : w'.pc.draining = w.pc.draining) (hsq : w'.pc = .wait → w'.sq = []) :
    WorkerInv w' p where
  queue := hqueue ▸ h.queue
  idle := fun hd => hqueue ▸ h.idle (hpc.symm.trans hd)
  poll := by
    rw [htags.count_eq, hpolling]
    exact h.poll
  flushed := hsq
  wake := by
    intro hne
    rw [hqueue] at hne
    rw [hefd]
    refine (h.wake hne).imp_right (Or.imp_left fun hd => ⟨hpc.trans hd.1, ?_⟩)
    exact hqueue ▸ hd.2
  frames := (htags.filterMap _).nodup_iff.2 h.frames
  live := by
    intro k
    rw [(htags.filterMap _).mem_iff, hframes]
    exact h.live k
  fresh := by
    rw [hframes, hnext]
    exact h.fresh

/-- The worker's and the kernel's steps are about one worker, and not about `push`. -/
structure Inv (n : Nat) (s : State) : Prop where
  ub : s.ub = false
  target : ∀ i, (s.accept = .wake i ∨ ∃ fd, s.accept = .push i fd) → i < n
  idle : ∀ i, (∀ fd, s.accept ≠ .push i fd) → (s.workers i).queue.push = .idle
  workers : ∀ i, WorkerInv (s.workers i) (s.Waking i)

theorem Inv.setWorker (h : Inv n s) (hpush : w'.queue.push = (s.workers i).queue.push)
    (hw : WorkerInv w' (s.Waking i)) : Inv n (s.setWorker i w') where
  ub := h.ub
  target := h.target
  idle := by
    intro j hj
    by_cases hji : j = i
    · subst hji
      simp only [State.setWorker, Function.update_self]
      exact hpush.trans (h.idle j hj)
    · simp only [State.setWorker, Function.update_of_ne hji]
      exact h.idle j hj
  workers := by
    intro j
    by_cases hji : j = i
    · subst hji
      have hwaking : (s.setWorker j w').Waking j = s.Waking j := by
        simp only [State.Waking, State.setWorker, Function.update_self, hpush]
      rw [hwaking]
      simp only [State.setWorker, Function.update_self]
      exact hw
    · have hwaking : (s.setWorker i w').Waking j = s.Waking j := by
        simp only [State.Waking, State.setWorker, Function.update_of_ne hji]
      rw [hwaking]
      simp only [State.setWorker, Function.update_of_ne hji]
      exact h.workers j

/-- The record is not part of it. -/
theorem Inv.record (h : Inv n s) (next : Nat) (opened accepted spawned closed : List Int) :
    Inv n { s with
      nextWorker := next
      opened := opened, accepted := accepted, spawned := spawned, closed := closed } :=
  { h with }

/-! ## Steps of a worker -/

/-- A completion of the poll is taken. -/
theorem WorkerInv.takePoll {res : Int} {cq : List Cqe} {pc : WorkerPc} (h : WorkerInv w p)
    (hcq : w.cq = ⟨.poll, res⟩ :: cq) (hpolling : w.pc.polling = 0)
    (hpc : w.pc.draining = false) (hpolling' : pc.polling = 1) :
    WorkerInv { w with cq := cq, pc := pc } p := by
  have hnot : pc ≠ .wait := by
    rintro rfl
    cases hpolling'
  have htags : w.tags.Perm (.poll :: Worker.tags { w with cq := cq, pc := pc }) := by
    simp only [Worker.tags, hcq, List.map_cons]
    exact List.perm_middle
  have hframes := htags.filterMap Tag.frame
  exact
    { queue := h.queue
      idle := fun _ => h.idle hpc
      poll := by
        have hp := h.poll
        rw [htags.count_eq, List.count_cons_self] at hp
        show List.count _ (Worker.tags { w with cq := cq, pc := pc }) + pc.polling = 1
        omega
      flushed := fun hwait => absurd hwait hnot
      wake := fun hne => (h.wake hne).imp_right fun hd => Or.inr (hd.resolve_left fun hd => by
        rw [hd.1] at hpc
        cases hpc)
      frames := hframes.nodup_iff.1 h.frames
      live := fun k => (hframes.mem_iff (a := k)).symm.trans (h.live k)
      fresh := h.fresh }

/-- **A coroutine is resumed**: it waits for another operation, or it ends. -/
theorem WorkerInv.resume {res : Int} {cq : List Cqe} {frame left : Nat} (h : WorkerInv w p)
    (hcq : w.cq = ⟨.op frame, res⟩ :: cq) (hpc : w.pc = .batch (left + 1)) :
    ∃ hd, w.frames frame = some hd ∧
      (∀ hd' : Handler, WorkerInv { w with
        cq := cq, pc := .batch left
        frames := Function.update w.frames frame (some hd'), sq := w.sq ++ [.op frame] } p) ∧
      WorkerInv { w with
        cq := cq, pc := .batch left, frames := Function.update w.frames frame none } p := by
  have htags : w.tags.Perm (.op frame :: (w.sq ++ w.armed ++ cq.map Cqe.tag)) := by
    simp only [Worker.tags, hcq, List.map_cons]
    exact List.perm_middle
  have htags' : ((w.sq ++ [Tag.op frame]) ++ w.armed ++ cq.map Cqe.tag).Perm w.tags := by
    refine List.Perm.trans ?_ htags.symm
    rw [List.append_assoc w.sq, List.append_assoc, List.append_assoc w.sq]
    exact List.perm_middle
  have hframes : (w.tags.filterMap Tag.frame).Perm
      (frame :: (w.sq ++ w.armed ++ cq.map Cqe.tag).filterMap Tag.frame) :=
    htags.filterMap Tag.frame
  have hnodup := List.nodup_cons.1 (hframes.nodup_iff.1 h.frames)
  have hlive : w.frames frame ≠ none := (h.live frame).1 (hframes.mem_iff.2 List.mem_cons_self)
  have hlt : ∀ k, w.nextFrame ≤ k → k ≠ frame := by
    rintro k hk rfl
    exact hlive (h.fresh k hk)
  have hpoll := h.poll
  have hidle : w.queue.pop = .idle := h.idle (by rw [hpc]; rfl)
  have hwake : w.queue.contents ≠ [] → 0 < w.efd ∨ p := by
    intro hne
    refine (h.wake hne).imp_right fun hd => hd.resolve_left fun hd => ?_
    have := hd.1
    rw [hpc] at this
    cases this
  rw [hpc] at hpoll
  obtain ⟨hd, hhd⟩ := Option.ne_none_iff_exists'.1 hlive
  refine ⟨hd, hhd, fun hd' => ?_, ?_⟩
  · exact
      { queue := h.queue
        idle := fun _ => hidle
        poll := (congrArg (· + 0) (htags'.count_eq _)).trans hpoll
        flushed := by rintro ⟨⟩
        wake := fun hne => (hwake hne).imp_right Or.inr
        frames := (htags'.filterMap _).nodup_iff.2 h.frames
        live := fun k => by
          refine (htags'.filterMap _).mem_iff.trans ((h.live k).trans ?_)
          by_cases hk : k = frame
          · subst hk
            simp [hlive]
          · simp [hk]
        fresh := fun k hk => (Function.update_of_ne (hlt k hk) _ _).trans (h.fresh k hk) }
  · exact
      { queue := h.queue
        idle := fun _ => hidle
        poll := by
          rw [htags.count_eq, List.count_cons_of_ne (by rintro ⟨⟩)] at hpoll
          exact hpoll
        flushed := by rintro ⟨⟩
        wake := fun hne => (hwake hne).imp_right Or.inr
        frames := hnodup.2
        live := fun k => by
          have hk := h.live k
          rw [hframes.mem_iff, List.mem_cons] at hk
          show k ∈ (w.sq ++ w.armed ++ cq.map Cqe.tag).filterMap Tag.frame ↔ _
          by_cases hkf : k = frame
          · subst hkf
            exact iff_of_false hnodup.1 (fun hne => hne (Function.update_self ..))
          · simp only [Function.update_of_ne hkf, ← hk, hkf, false_or]
        fresh := fun k hk => (Function.update_of_ne (hlt k hk) _ _).trans (h.fresh k hk) }

/-- **A new coroutine.** -/
theorem WorkerInv.spawn (h : WorkerInv w p) (hpc : w.pc.draining = true) (fd : Int) :
    WorkerInv (Worker.clientHandler { w with queue := { w.queue with pop := .idle } } fd) p := by
  have hnone : w.frames w.nextFrame = none := h.fresh _ (Nat.le_refl _)
  have htags : ((w.sq ++ [Tag.op w.nextFrame]) ++ w.armed ++ w.cq.map Cqe.tag).Perm
      (.op w.nextFrame :: w.tags) := by
    rw [List.append_assoc w.sq, List.append_assoc, Worker.tags, List.append_assoc w.sq]
    exact List.perm_middle
  have hframes : (((w.sq ++ [Tag.op w.nextFrame]) ++ w.armed ++ w.cq.map Cqe.tag).filterMap
      Tag.frame).Perm (w.nextFrame :: w.tags.filterMap Tag.frame) := htags.filterMap Tag.frame
  exact
    { queue := h.queue.popMove _ trivial
      idle := fun _ => rfl
      poll := by
        refine (congrArg (· + w.pc.polling) (htags.count_eq _)).trans ?_
        rw [List.count_cons_of_ne (by rintro ⟨⟩)]
        exact h.poll
      flushed := by
        intro hwait
        rw [show w.pc = .wait from hwait] at hpc
        cases hpc
      wake := fun _ => Or.inr (Or.inl ⟨hpc, by rintro ⟨⟩⟩)
      frames := by
        refine hframes.nodup_iff.2 (List.nodup_cons.2 ⟨fun hmem => ?_, h.frames⟩)
        exact (h.live _).1 hmem hnone
      live := fun k => by
        refine hframes.mem_iff.trans ?_
        rw [List.mem_cons, h.live k]
        simp only [Worker.clientHandler]
        by_cases hk : k = w.nextFrame
        · subst hk
          simp
        · simp [hk]
      fresh := fun k hk => by
        refine (Function.update_of_ne (Nat.ne_of_gt hk) _ _).trans (h.fresh k (Nat.le_of_succ_le hk)) }

/-- **One step of the drain loop.** -/
theorem drainStep_inv {left : Nat} (h : Inv n s) (hpc : (s.workers i).pc = .drain left)
    (hs : drainStep s i (s.workers i) left = some s') : Inv n s' := by
  have hw := h.workers i
  have hdraining : (s.workers i).pc.draining = true := by rw [hpc]; rfl
  unfold drainStep at hs
  split at hs
  · rename_i hpop
    cases hs
    refine h.setWorker rfl { hw with
      queue := hw.queue.popMove _ trivial
      idle := fun hd => ?_
      wake := fun _ => Or.inr (Or.inl ⟨hdraining, by rintro ⟨⟩⟩) }
    exact absurd (hdraining.symm.trans hd) Bool.false_ne_true.symm
  · rename_i fd hpop
    cases hs
    exact (h.setWorker (by rfl) (hw.spawn hdraining fd)).record s.nextWorker s.opened s.accepted _
      s.closed
  · rename_i hpop
    cases hs
    refine h.setWorker rfl { hw with
      queue := hw.queue.popMove _ trivial
      idle := fun _ => rfl
      poll := ?_
      flushed := by rintro ⟨⟩
      wake := fun hne => ?_ }
    · have hpoll := hw.poll
      rw [hpc] at hpoll
      exact hpoll
    · exact (hw.wake hne).imp_right fun hd => Or.inr (hd.resolve_left fun hd => hd.2 hpop)
  · obtain ⟨q, hq, rfl⟩ := Option.map_eq_some_iff.1 hs
    obtain ⟨hpush, -, hcase⟩ := hw.queue.popStep hq
    have hstill : WorkerPc.draining (s.workers i).pc = false → q.pop = .idle := fun hd =>
      absurd (hdraining.symm.trans hd) Bool.false_ne_true.symm
    refine h.setWorker hpush ?_
    rcases hcase with ⟨hinv, -, hret⟩ | ⟨hinv, hnil, -⟩ | ⟨fd, q', -, hinv, hret⟩
    · exact { hw with
        queue := hinv.contents_eq ▸ hinv
        idle := hstill
        wake := fun _ => Or.inr (Or.inl ⟨hdraining, hret none⟩) }
    · exact { hw with
        queue := hinv.contents_eq ▸ hinv
        idle := hstill
        wake := fun hne => absurd (hinv.contents_eq.trans hnil) hne }
    · exact { hw with
        queue := hinv.contents_eq ▸ hinv
        idle := hstill
        wake := fun _ => Or.inr (Or.inl ⟨hdraining, by rw [hret]; rintro ⟨⟩⟩) }

/-- **One step of a worker.** -/
theorem workerStep_inv (h : Inv n s) (hs : workerStep s i = some s') : Inv n s' := by
  have hw := h.workers i
  simp only [workerStep] at hs
  split at hs
  · rename_i hpc
    cases hs
    refine h.setWorker rfl (hw.retag rfl rfl rfl rfl ?_ ?_ ?_ fun _ => rfl)
    · simp only [Worker.tags, List.nil_append]
      exact (List.perm_append_comm).append_right _
    · rw [hpc]; rfl
    · rw [hpc]; rfl
  · rename_i hpc
    split at hs
    · cases hs
    · cases hs
      refine h.setWorker rfl (hw.retag rfl rfl rfl rfl (List.Perm.refl _) ?_ ?_ (by rintro ⟨⟩))
      · rw [hpc]; rfl
      · rw [hpc]; rfl
  · rename_i hpc
    cases hs
    refine h.setWorker rfl (hw.retag rfl rfl rfl rfl (List.Perm.refl _) ?_ ?_ (by rintro ⟨⟩))
    · rw [hpc]; rfl
    · rw [hpc]; rfl
  · rename_i left hpc
    split at hs
    · cases hs
      refine h.setWorker rfl (hw.retag rfl rfl rfl rfl (List.Perm.refl _) ?_ ?_ (by rintro ⟨⟩))
      · rw [hpc]; rfl
      · rw [hpc]; rfl
    · rename_i res cq hcq
      split at hs
      · cases hs
        exact h.setWorker rfl (hw.takePoll hcq (by rw [hpc]; rfl) (by rw [hpc]; rfl) rfl)
      · cases hs
        exact h.setWorker rfl (hw.takePoll hcq (by rw [hpc]; rfl) (by rw [hpc]; rfl) rfl)
    · rename_i frame res cq hcq
      cases hs
      obtain ⟨hd, hhd, hnext, hend⟩ := hw.resume hcq hpc
      simp only [resume, hhd]
      split
      · exact h.setWorker rfl (hnext _)
      · exact (h.setWorker (by rfl) hend).record s.nextWorker _ s.accepted s.spawned _
  · rename_i left hpc
    cases hs
    have hidle : (s.workers i).queue.pop = .idle := hw.idle (by rw [hpc]; rfl)
    refine h.setWorker rfl { hw with
      idle := fun _ => hidle
      poll := ?_
      flushed := by rintro ⟨⟩
      wake := fun _ => Or.inr (Or.inl ⟨rfl, by rw [hidle]; rintro ⟨⟩⟩) }
    have hpoll := hw.poll
    rw [hpc] at hpoll
    exact hpoll
  · rename_i left hpc
    exact drainStep_inv h hpc hs
  · rename_i left hpc
    cases hs
    have hidle : (s.workers i).queue.pop = .idle := hw.idle (by rw [hpc]; rfl)
    have htags : Worker.tags { (s.workers i).submitPoll with pc := .batch left } |>.Perm
        (.poll :: (s.workers i).tags) := by
      simp only [Worker.tags, Worker.submitPoll, List.append_assoc, List.singleton_append]
      exact List.perm_middle
    have hframes := htags.filterMap Tag.frame
    refine h.setWorker rfl { hw with
      idle := fun _ => hidle
      poll := ?_
      flushed := by rintro ⟨⟩
      wake := fun hne => ?_
      frames := hframes.nodup_iff.2 hw.frames
      live := fun k => hframes.mem_iff.trans (hw.live k) }
    · have hpoll := hw.poll
      rw [hpc] at hpoll
      refine (congrArg (· + 0) (htags.count_eq _)).trans ?_
      rw [List.count_cons_self]
      exact hpoll
    · refine (hw.wake hne).imp_right fun hd => Or.inr (hd.resolve_left fun hd => ?_)
      have := hd.1
      rw [hpc] at this
      cases this

/-! ## Steps of the accept thread and of the kernel -/

/-- An access of `push`. -/
theorem WorkerInv.setPush {q : FdQueue.State} {p' : Prop} (h : WorkerInv w p)
    (hq : FdQueue.Inv q q.contents) (hpop : q.pop = w.queue.pop)
    (hwake : (q.contents = w.queue.contents ∧ (p → p')) ∨ p') :
    WorkerInv { w with queue := q } p' :=
  { h with
    queue := hq
    idle := fun hd => hpop.trans (h.idle hd)
    wake := fun hne => by
      rcases hwake with ⟨hc, hp⟩ | hp
      · refine (h.wake (hc ▸ hne)).imp_right (Or.imp (fun hd => ⟨hd.1, ?_⟩) hp)
        exact fun hret => hd.2 (hpop.symm.trans hret)
      · exact Or.inr (Or.inr hp) }

/-- A step of the accept thread that is about worker `i` only. -/
theorem Inv.handOff {a : AcceptPc} (h : Inv n s) (hi : i < n)
    (hs : ∀ j, j ≠ i → s.accept ≠ .wake j ∧ ∀ fd, s.accept ≠ .push j fd)
    (ha : ∀ j, j ≠ i → a ≠ .wake j ∧ ∀ fd, a ≠ .push j fd)
    (hidle : (∀ fd, a ≠ .push i fd) → w'.queue.push = .idle)
    (hw : WorkerInv w' (State.Waking { s.setWorker i w' with accept := a } i)) :
    Inv n { s.setWorker i w' with accept := a } where
  ub := h.ub
  target := by
    intro j hj
    by_cases hji : j = i
    · exact hji ▸ hi
    · rcases hj with hj | ⟨fd, hj⟩
      · exact absurd hj (ha j hji).1
      · exact absurd hj ((ha j hji).2 fd)
  idle := by
    intro j hj
    by_cases hji : j = i
    · subst hji
      simp only [State.setWorker, Function.update_self]
      exact hidle hj
    · simp only [State.setWorker, Function.update_of_ne hji]
      exact h.idle j (hs j hji).2
  workers := by
    intro j
    by_cases hji : j = i
    · subst hji
      simp only [State.setWorker, Function.update_self]
      exact hw
    · have hnot : ¬s.Waking j := by
        rintro (hwake | ⟨fd, ok, hpush, -⟩)
        · exact (hs j hji).1 hwake
        · exact (hs j hji).2 fd hpush
      have hnot' : ¬State.Waking { s.setWorker i w' with accept := a } j := by
        rintro (hwake | ⟨fd, ok, hpush, -⟩)
        · exact (ha j hji).1 hwake
        · exact (ha j hji).2 fd hpush
      rw [eq_false hnot']
      simp only [State.setWorker, Function.update_of_ne hji]
      exact eq_false hnot ▸ h.workers j

/-- **One step of the hand-off.** -/
theorem acceptStep_inv (h : Inv n s) (hs : acceptStep s = some s') : Inv n s' := by
  simp only [acceptStep] at hs
  split at hs
  · cases hs
  · rename_i i fd hacc
    have hw := h.workers i
    have honly : ∀ j, j ≠ i → s.accept ≠ .wake j ∧ ∀ fd, s.accept ≠ .push j fd := by
      intro j hji
      rw [hacc]
      exact ⟨by rintro ⟨⟩, fun fd' hp => hji (AcceptPc.push.inj hp).1.symm⟩
    have honly' : ∀ j, j ≠ i → AcceptPc.push i fd ≠ .wake j ∧
        ∀ fd', AcceptPc.push i fd ≠ .push j fd' := hacc ▸ honly
    have hi : i < n := h.target i (Or.inr ⟨fd, hacc⟩)
    have hstay : ∀ q : FdQueue.State, s.setWorker i { s.workers i with queue := q } =
        { s.setWorker i { s.workers i with queue := q } with accept := .push i fd } := by
      intro q
      rw [← hacc]
      rfl
    split at hs
    · rename_i hpush
      cases hs
      rw [hstay]
      refine h.handOff hi honly honly' (fun hne => absurd rfl (hne fd)) ?_
      refine hw.setPush (hw.queue.pushMove _ trivial) rfl (Or.inl ⟨rfl, ?_⟩)
      rintro (hwake | ⟨fd', ok, -, hret⟩)
      · rw [hacc] at hwake
        cases hwake
      · rw [hpush] at hret
        cases hret
    · rename_i ok hpush
      cases hs
      refine h.handOff hi honly (fun j hji => ⟨?_, by rintro _ ⟨⟩⟩) (fun _ => rfl) ?_
      · rintro ⟨⟩
        exact hji rfl
      · exact hw.setPush (hw.queue.pushMove _ trivial) rfl (Or.inr (Or.inl rfl))
    · rename_i hidle hret
      obtain ⟨q, hq, rfl⟩ := Option.map_eq_some_iff.1 hs
      obtain ⟨hpop, hcase⟩ := hw.queue.pushStep hq
      have hnot : ¬s.Waking i := by
        rintro (hwake | ⟨fd', ok, -, hpush⟩)
        · rw [hacc] at hwake
          cases hwake
        · exact hret ok hpush
      rw [hstay]
      refine h.handOff hi honly honly' (fun hne => absurd rfl (hne fd)) ?_
      have hself : ∀ ok, q.push = .ret ok → State.Waking
          { s.setWorker i { s.workers i with queue := q } with accept := .push i fd } i :=
        fun ok hok => Or.inr ⟨fd, ok, rfl, by simp only [State.setWorker, Function.update_self, hok]⟩
      rcases hcase with ⟨hinv, -⟩ | ⟨hinv, -, -, hok⟩ | ⟨fd', hinv, -, -, hok⟩
      · exact hw.setPush (hinv.contents_eq ▸ hinv) hpop
          (Or.inl ⟨hinv.contents_eq, fun hp => absurd hp hnot⟩)
      · exact hw.setPush (hinv.contents_eq ▸ hinv) hpop (Or.inr (hself _ hok))
      · exact hw.setPush (hinv.contents_eq ▸ hinv) hpop (Or.inr (hself _ hok))
  · rename_i i hacc
    cases hs
    have hw := h.workers i
    have honly : ∀ j, j ≠ i → s.accept ≠ .wake j ∧ ∀ fd, s.accept ≠ .push j fd := by
      intro j hji
      rw [hacc]
      exact ⟨fun hwake => hji (AcceptPc.wake.inj hwake).symm, by rintro _ ⟨⟩⟩
    have hpush : (s.workers i).queue.push = .idle := h.idle i (by rw [hacc]; rintro _ ⟨⟩)
    have hnone : ∀ j, j ≠ i → AcceptPc.wait ≠ .wake j ∧ ∀ fd, AcceptPc.wait ≠ .push j fd :=
      fun j _ => ⟨by rintro ⟨⟩, by rintro _ ⟨⟩⟩
    have hwritten : 0 < eventfdWrite (s.workers i).efd := by
      unfold eventfdWrite
      omega
    have hinv : Inv n { s.setWorker i
        { s.workers i with efd := eventfdWrite (s.workers i).efd } with accept := .wait } :=
      h.handOff (h.target i (Or.inl hacc)) honly hnone (fun _ => hpush)
        { hw with wake := fun _ => Or.inl hwritten }
    exact hinv.record ((s.nextWorker + 1) % 2 ^ 32) s.opened s.accepted s.spawned s.closed

theorem workerInv_init : WorkerInv .init p where
  queue := ⟨by decide, by decide, rfl, fun _ hi => absurd hi (Nat.not_lt_zero _), trivial, trivial,
    rfl⟩
  idle := fun _ => rfl
  poll := rfl
  flushed := by rintro ⟨⟩
  wake := fun hne => absurd rfl hne
  frames := List.nodup_nil
  live := fun _ => iff_of_false List.not_mem_nil fun hne => hne rfl
  fresh := fun _ _ => rfl

theorem inv_init (n : Nat) : Inv n (machine n).init :=
  ⟨rfl, fun _ hi => (hi.elim (by rintro ⟨⟩) (by rintro ⟨_, ⟨⟩⟩)), fun _ _ => rfl,
    fun _ => workerInv_init⟩

theorem step_inv {e : Ev} (hn : 0 < n) (h : Inv n s) (hs : step n s e = some s') : Inv n s' := by
  cases e with
  | accept res =>
    simp only [step] at hs
    split at hs
    · rename_i hacc
      split at hs
      · split at hs
        · cases hs
        · cases hs
          have hnot : ∀ i, ¬s.Waking i := by
            rintro i (hwake | ⟨fd, ok, hpush, -⟩)
            · rw [hacc] at hwake
              cases hwake
            · rw [hacc] at hpush
              cases hpush
          have hidle : ∀ i, (s.workers i).queue.push = .idle := fun i =>
            h.idle i fun fd hp => by
              rw [hacc] at hp
              cases hp
          refine ⟨h.ub, fun i hi => ?_, fun i _ => hidle i, fun i => ?_⟩
          · rcases hi with hi | ⟨fd, hi⟩
            · cases hi
            · cases hi
              exact Nat.mod_lt _ hn
          · have hnot' : ¬State.Waking { s with
                accept := .push (s.nextWorker % n) res
                opened := res :: s.opened, accepted := res :: s.accepted } i := by
              rintro (hwake | ⟨fd, ok, -, hpush⟩)
              · cases hwake
              · exact absurd ((hidle i).symm.trans hpush) (by rintro ⟨⟩)
            rw [eq_false hnot']
            exact eq_false (hnot i) ▸ h.workers i
      · cases hs
        exact h
    · cases hs
  | producer => exact acceptStep_inv h hs
  | worker i =>
    simp only [step] at hs
    split at hs
    · exact workerStep_inv h hs
    · cases hs
  | complete i tag res =>
    simp only [step] at hs
    split at hs
    · rename_i hok
      cases hs
      refine h.setWorker rfl ((h.workers i).retag rfl rfl rfl rfl ?_ rfl rfl (h.workers i).flushed)
      have harmed : ((s.workers i).armed.erase tag ++ (s.workers i).cq.map Cqe.tag ++ [tag]).Perm
          ((s.workers i).armed ++ (s.workers i).cq.map Cqe.tag) := by
        apply List.perm_append_comm.trans
        exact (List.perm_cons_erase hok.2.1).symm.append_right _
      simp only [Worker.tags, List.map_append, List.map_cons, List.map_nil, List.append_assoc]
      rw [← List.append_assoc (List.erase _ _)]
      exact harmed.append_left _
    · cases hs

theorem run_inv (hn : 0 < n) {es : List Ev} (hs : (machine n).run es = some s) : Inv n s :=
  Machine.run_inv (inv_init n) (fun _ _ _ h hs => step_inv hn h hs) hs

/-- **No wake-up is lost.**  In every interleaving of the accept thread, the workers and the kernel:
a worker whose queue is not empty, all wake-ups sent, has a readable eventfd, or a completed poll, or
is inside its drain loop; exactly one poll of the eventfd is queued, outstanding, completed or being
processed; and if such a worker blocks then on an armed poll of a readable eventfd. -/
theorem wakeup_not_lost {es : List Ev} (hs : (machine n).run es = some s) (hi : i < n) :
    ((s.workers i).queue.contents ≠ [] → ¬s.Waking i →
      0 < (s.workers i).efd ∨ (∃ res, ⟨.poll, res⟩ ∈ (s.workers i).cq) ∨ (s.workers i).Draining) ∧
    (s.workers i).tags.count .poll + (s.workers i).pc.polling = 1 ∧
    ((s.workers i).queue.contents ≠ [] → ¬s.Waking i → (s.workers i).pc = .wait →
      (s.workers i).cq = [] → .poll ∈ (s.workers i).armed ∧ 0 < (s.workers i).efd) := by
  have hw := (run_inv (Nat.zero_lt_of_lt hi) hs).workers i
  have hready : (s.workers i).queue.contents ≠ [] → ¬s.Waking i →
      0 < (s.workers i).efd ∨ (s.workers i).Draining := by
    intro hne hwaking
    exact (hw.wake hne).imp_right fun hd => hd.resolve_right hwaking
  refine ⟨fun hne hwaking => (hready hne hwaking).imp_right Or.inr, hw.poll, ?_⟩
  intro hne hwaking hwait hcq
  have hefd : 0 < (s.workers i).efd := by
    refine (hready hne hwaking).resolve_right fun hd => ?_
    have hdraining := hd.1
    rw [hwait] at hdraining
    cases hdraining
  have hcount := hw.poll
  rw [hwait, Worker.tags, hw.flushed hwait, hcq] at hcount
  simp only [WorkerPc.polling, List.nil_append, List.map_nil, List.append_nil] at hcount
  exact ⟨List.count_pos_iff.1 (by omega), hefd⟩

/-- A descriptor is pushed between the last `pop` of the drain loop and the next poll. -/
def lateWakeup : List Ev :=
  [.worker 0, .accept 7] ++ List.replicate 7 .producer ++ [.complete 0 .poll 1] ++
    List.replicate 12 (.worker 0) ++ [.accept 8] ++ List.replicate 7 .producer ++
    List.replicate 4 (.worker 0)

theorem wakeup_not_lost_late : ∃ s, (machine 1).run lateWakeup = some s ∧
    (s.workers 0).queue.contents = [8] ∧ (s.workers 0).pc = .wait ∧
    .poll ∈ (s.workers 0).armed ∧ 0 < (s.workers 0).efd := by
  refine ⟨_, rfl, rfl, rfl, ?_⟩
  refine (wakeup_not_lost (show (machine 1).run lateWakeup = some _ from rfl) Nat.zero_lt_one).2.2
    ?_ ?_ rfl rfl
  · exact List.cons_ne_nil 8 []
  · intro hwaking
    rcases hwaking with hwake | ⟨fd, ok, hpush, -⟩
    · cases hwake
    · cases hpush

end Wakeup

/-! ## Where the accepted descriptors are -/

section Placed

variable {n : Nat} {s s' : State} {w w' : Worker} {i : Nat}

/-- In the queue, or removed by a `pop` that has not returned. -/
def Worker.queued (w : Worker) : List Int := w.queue.contents ++ w.queue.taken

/-- Owned by a `client_handler`. -/
def Worker.serving (w : Worker) : List Int := gather (fun h => [h.fd]) w.nextFrame w.frames

/-- The descriptor that the accept thread is handing out. -/
def State.hand (s : State) : List Int :=
  match s.accept with
  | .push i fd => if (s.workers i).queue.push = .idle then [fd] else (s.workers i).queue.offered
  | _ => []

def State.queued (n : Nat) (s : State) : List Int := collect n fun i => (s.workers i).queued

def State.serving (n : Nat) (s : State) : List Int := collect n fun i => (s.workers i).serving

/-- Every accepted descriptor is at exactly one place until it is closed, and is given to one
`client_handler` once. -/
structure Placed (n : Nat) (s : State) : Prop where
  nodup : s.opened.Nodup
  opened : s.opened.Perm (s.hand ++ s.queued n ++ s.serving n)
  accepted : s.accepted.Perm (s.hand ++ s.queued n ++ s.spawned)
  spawned : s.spawned.Perm (s.serving n ++ s.closed)

/-- The `push` of the accept thread is about to find the queue of its worker full. -/
def State.PushFull (s : State) : Prop :=
  match s.accept with
  | .push i _ => (s.workers i).queue.Full
  | _ => False

instance (s : State) : Decidable s.PushFull := by
  unfold State.PushFull
  split <;> exact inferInstance

/-- The accept thread does not find the queue of its worker full. -/
def QueueNotFull (s : State) : Ev → Prop
  | .producer => ¬s.PushFull
  | _ => True

instance (s : State) (e : Ev) : Decidable (QueueNotFull s e) := by
  unfold QueueNotFull
  split <;> exact inferInstance

theorem State.queued_setWorker (w' : Worker) (hi : i < n) :
    (w'.queued ++ s.queued n).Perm ((s.workers i).queued ++ (s.setWorker i w').queued n) := by
  have hp := collect_perm (f := fun j => (s.workers j).queued)
    (g := fun j => (Function.update s.workers i w' j).queued) hi fun j _ hne => by
      simp only [Function.update_of_ne hne]
  rw [Function.update_self] at hp
  exact hp

theorem State.serving_setWorker (w' : Worker) (hi : i < n) :
    (w'.serving ++ s.serving n).Perm ((s.workers i).serving ++ (s.setWorker i w').serving n) := by
  have hp := collect_perm (f := fun j => (s.workers j).serving)
    (g := fun j => (Function.update s.workers i w' j).serving) hi fun j _ hne => by
      simp only [Function.update_of_ne hne]
  rw [Function.update_self] at hp
  exact hp

/-- A step of worker `i`, or of the accept thread on its queue: what leaves a place arrives at
another one. -/
theorem Placed.step (h : Placed n s) (hi : i < n) (w' : Worker)
    (ht : s'.workers = (s.setWorker i w').workers)
    (hnodup : s'.opened.Nodup)
    (hopened : ((s.hand ++ (s.workers i).queued ++ (s.workers i).serving) ++ s'.opened).Perm
      ((s'.hand ++ w'.queued ++ w'.serving) ++ s.opened))
    (haccepted : ((s.hand ++ (s.workers i).queued ++ s.spawned) ++ s'.accepted).Perm
      ((s'.hand ++ w'.queued ++ s'.spawned) ++ s.accepted))
    (hspawned : (((s.workers i).serving ++ s.closed) ++ s'.spawned).Perm
      ((w'.serving ++ s'.closed) ++ s.spawned)) : Placed n s' := by
  have hqueued : s'.queued n = (s.setWorker i w').queued n := by
    simp only [State.queued, ht]
  have hserving : s'.serving n = (s.setWorker i w').serving n := by
    simp only [State.serving, ht]
  have hq := State.queued_setWorker (s := s) w' hi
  have hv := State.serving_setWorker (s := s) w' hi
  refine ⟨hnodup, ?_, ?_, ?_⟩
  all_goals
    rw [List.perm_iff_count]
    intro fd
    have hq' := hq.count_eq fd
    have hv' := hv.count_eq fd
    have ho := h.opened.count_eq fd
    have ha := h.accepted.count_eq fd
    have hs := h.spawned.count_eq fd
    have ho' := hopened.count_eq fd
    have ha' := haccepted.count_eq fd
    have hs' := hspawned.count_eq fd
    simp only [hqueued, hserving, List.count_append] at *
    omega

/-- Nothing leaves its place. -/
theorem Placed.stay (h : Placed n s) (hi : i < n) (hhand : (s.setWorker i w').hand = s.hand)
    (hqueued : w'.queued.Perm (s.workers i).queued) (hserving : w'.serving = (s.workers i).serving) :
    Placed n (s.setWorker i w') := by
  refine h.step hi _ rfl h.nodup ?_ ?_ ?_
  · rw [hhand, hserving]
    exact ((hqueued.symm.append_left _).append_right _).append_right _
  · rw [hhand]
    exact ((hqueued.symm.append_left _).append_right _).append_right _
  · rw [hserving]
    exact List.Perm.refl _

/-- The accept thread is inside `push`. -/
theorem State.hand_push {fd : Int} (hacc : s.accept = .push i fd)
    (hpush : (s.workers i).queue.push ≠ .idle) : s.hand = (s.workers i).queue.offered := by
  simp only [State.hand, hacc, if_neg hpush]

theorem State.hand_setWorker_push {fd : Int} (hacc : s.accept = .push i fd)
    (hpush : w'.queue.push ≠ .idle) : (s.setWorker i w').hand = w'.queue.offered := by
  refine (State.hand_push (s := s.setWorker i w') hacc ?_).trans ?_
  · simpa only [State.setWorker, Function.update_self] using hpush
  · simp only [State.setWorker, Function.update_self]

theorem State.hand_setWorker (hpush : w'.queue.push = (s.workers i).queue.push) :
    (s.setWorker i w').hand = s.hand := by
  simp only [State.hand, State.setWorker]
  split
  · rename_i j fd _
    by_cases hji : j = i
    · subst hji
      simp only [Function.update_self, FdQueue.State.offered, hpush]
    · simp only [Function.update_of_ne hji]
  · rfl

/-- A `client_handler` is resumed. -/
theorem Placed.resume {frame : Nat} {res : Int} (h : Placed n s) (hi : i < n) {hd : Handler}
    (hw : w.queue = (s.workers i).queue) (hframes : w.frames = (s.workers i).frames)
    (hnext : w.nextFrame = (s.workers i).nextFrame) (hhd : w.frames frame = some hd)
    (hlt : frame < w.nextFrame) : Placed n (resume s i w frame res) := by
  have hqueued : w.queued = (s.workers i).queued := by simp only [Worker.queued, hw]
  have hserving : w.serving = (s.workers i).serving := by simp only [Worker.serving, hframes, hnext]
  simp only [MultithreadEcho.resume, hhd]
  split
  · rename_i h' hres
    have hfd : h'.fd = hd.fd := by
      unfold Handler.resume at hres
      split at hres <;> grind
    refine h.stay hi (State.hand_setWorker (congrArg FdQueue.State.push hw))
      (hqueued ▸ List.Perm.refl _) ?_
    refine Eq.trans ?_ hserving
    exact gather_update_same _ (by simp [hhd, hfd])
  · have hgather := gather_update (fun h : Handler => [h.fd]) w.frames none hlt
    rw [hhd] at hgather
    have hmem : hd.fd ∈ s.opened := by
      apply h.opened.mem_iff.2
      apply List.mem_append_right
      exact mem_collect.2 ⟨i, hi, hserving ▸ hgather.mem_iff.2 List.mem_cons_self⟩
    have herase := List.perm_cons_erase hmem
    have hhand : State.hand (s.setWorker i { w with frames := Function.update w.frames frame none }) =
        s.hand := State.hand_setWorker (congrArg FdQueue.State.push hw)
    have hmove : (s.workers i).serving.Perm
        (hd.fd :: Worker.serving { w with frames := Function.update w.frames frame none }) :=
      hserving ▸ hgather
    refine h.step hi _ (by rfl) (h.nodup.erase _) ?_ ?_ ?_
    · refine List.perm_iff_count.2 fun fd => ?_
      have hm := hmove.count_eq fd
      have he := herase.count_eq fd
      simp only [List.count_append, List.count_cons] at hm he ⊢
      rw [hm, he, ← hhand, ← hqueued]
      show _ = List.count fd (State.hand (s.setWorker i _)) + List.count fd w.queued + _ + _
      omega
    · refine List.Perm.append_right _ (List.Perm.append_right _ ?_)
      rw [← hhand, ← hqueued]
      exact List.Perm.refl _
    · refine List.perm_iff_count.2 fun fd => ?_
      have hm := hmove.count_eq fd
      simp only [List.count_append, List.count_cons] at hm ⊢
      rw [hm]
      show _ + List.count fd s.spawned = _
      omega

theorem drainStep_placed {left : Nat} (hinv : Inv n s) (h : Placed n s) (hi : i < n)
    (hs : drainStep s i (s.workers i) left = some s') : Placed n s' := by
  have hw := hinv.workers i
  unfold drainStep at hs
  split at hs
  · rename_i hpop
    cases hs
    refine h.stay hi (State.hand_setWorker rfl) ?_ rfl
    simp only [Worker.queued, FdQueue.State.taken, hpop]
    exact List.Perm.refl _
  · rename_i fd hpop
    cases hs
    have hserving : Worker.serving (Worker.clientHandler
        { s.workers i with queue := { (s.workers i).queue with pop := .idle } } fd) =
        (s.workers i).serving ++ [fd] :=
      gather_add (fun h : Handler => [h.fd]) (s.workers i).frames (s.workers i).nextFrame ⟨fd, .recv⟩
    have hqueued : (s.workers i).queued = (s.workers i).queue.contents ++ [fd] := by
      simp only [Worker.queued, FdQueue.State.taken, hpop]
    have hqueued' : Worker.queued (Worker.clientHandler
        { s.workers i with queue := { (s.workers i).queue with pop := .idle } } fd) =
        (s.workers i).queue.contents := List.append_nil _
    have hhand : State.hand (s.setWorker i (Worker.clientHandler
        { s.workers i with queue := { (s.workers i).queue with pop := .idle } } fd)) = s.hand :=
      State.hand_setWorker rfl
    refine h.step hi _ (by rfl) h.nodup ?_ ?_ ?_
    · rw [hserving, hqueued, hqueued', ← hhand]
      apply List.Perm.append_right
      simp only [List.append_assoc]
      exact (List.perm_append_comm.append_left _).append_left _
    · rw [hqueued, hqueued', ← hhand]
      refine List.Perm.append_right s.accepted ?_
      simp only [List.append_assoc, List.singleton_append]
      exact List.Perm.refl _
    · rw [hserving]
      refine List.perm_iff_count.2 fun fd' => ?_
      simp only [List.count_append, List.count_cons]
      show _ = _ + List.count fd' s.closed + _
      simp only [List.count_nil]
      omega
  · rename_i hpop
    cases hs
    refine h.stay hi (State.hand_setWorker rfl) ?_ rfl
    simp only [Worker.queued, FdQueue.State.taken, hpop]
    exact List.Perm.refl _
  · rename_i hidle hsome hnone
    obtain ⟨q, hq, rfl⟩ := Option.map_eq_some_iff.1 hs
    obtain ⟨hpush, htaken, hcase⟩ := hw.queue.popStep hq
    refine h.stay hi (State.hand_setWorker hpush) ?_ rfl
    simp only [Worker.queued, htaken, List.append_nil]
    rcases hcase with ⟨hq', -, hret⟩ | ⟨hq', -, hret⟩ | ⟨fd, q', hcontents, hq', hret⟩
    · rw [hq'.contents_eq, FdQueue.State.taken_eq_nil hret, List.append_nil]
    · rw [hq'.contents_eq, FdQueue.State.taken, hret, List.append_nil]
    · rw [hq'.contents_eq, hcontents, FdQueue.State.taken, hret]
      exact List.perm_append_singleton fd q'

theorem workerStep_placed (hinv : Inv n s) (h : Placed n s) (hi : i < n)
    (hs : workerStep s i = some s') : Placed n s' := by
  have hw := hinv.workers i
  simp only [workerStep] at hs
  split at hs
  · cases hs
    exact h.stay hi (State.hand_setWorker rfl) (List.Perm.refl _) rfl
  · split at hs
    · cases hs
    · cases hs
      exact h.stay hi (State.hand_setWorker rfl) (List.Perm.refl _) rfl
  · cases hs
    exact h.stay hi (State.hand_setWorker rfl) (List.Perm.refl _) rfl
  · rename_i left hpc
    split at hs
    · cases hs
      exact h.stay hi (State.hand_setWorker rfl) (List.Perm.refl _) rfl
    · split at hs
      · cases hs
        exact h.stay hi (State.hand_setWorker rfl) (List.Perm.refl _) rfl
      · cases hs
        exact h.stay hi (State.hand_setWorker rfl) (List.Perm.refl _) rfl
    · rename_i frame res cq hcq
      cases hs
      obtain ⟨hd, hhd, -⟩ := hw.resume hcq hpc
      have hlt : frame < (s.workers i).nextFrame := by
        by_contra hge
        cases hhd.symm.trans (hw.fresh frame (by omega))
      exact h.resume hi rfl rfl rfl hhd hlt
  · cases hs
    exact h.stay hi (State.hand_setWorker rfl) (List.Perm.refl _) rfl
  · exact drainStep_placed hinv h hi hs
  · cases hs
    exact h.stay hi (State.hand_setWorker rfl) (List.Perm.refl _) rfl

/-- **One step of the hand-off**, of a descriptor that the queue has room for. -/
theorem acceptStep_placed (hinv : Inv n s) (h : Placed n s)
    (hroom : ¬s.PushFull) (hs : acceptStep s = some s') : Placed n s' := by
  simp only [acceptStep] at hs
  split at hs
  · cases hs
  · rename_i i fd hacc
    have hw := hinv.workers i
    have hi : i < n := hinv.target i (Or.inr ⟨fd, hacc⟩)
    split at hs
    · rename_i hpush
      cases hs
      refine h.stay hi ?_ (List.Perm.refl _) rfl
      simp [State.hand, State.setWorker, hacc, hpush, FdQueue.State.offered]
    · rename_i ok hpush
      cases hs
      have hhand : s.hand = [] := by
        rw [State.hand_push hacc (by rw [hpush]; rintro ⟨⟩), FdQueue.State.offered, hpush]
      refine h.step hi { s.workers i with queue := { (s.workers i).queue with push := .idle } }
        rfl h.nodup ?_ ?_ (List.Perm.refl _)
      · rw [hhand]
        exact List.Perm.refl _
      · rw [hhand]
        exact List.Perm.refl _
    · rename_i hidle hret
      obtain ⟨q, hq, rfl⟩ := Option.map_eq_some_iff.1 hs
      obtain ⟨hpop, hcase⟩ := hw.queue.pushStep hq
      have hhand := State.hand_push hacc hidle
      have htaken : q.taken = (s.workers i).queue.taken := by
        simp only [FdQueue.State.taken, hpop]
      rcases hcase with ⟨hq', -, hoffered, hbusy, -⟩ | ⟨-, hfull, -⟩ | ⟨fd', hq', -, hoffered, hret'⟩
      · refine h.stay hi ?_ ?_ rfl
        · rw [State.hand_setWorker_push hacc hbusy, hhand]
          exact hoffered
        · simp only [Worker.queued, hq'.contents_eq, htaken]
          exact List.Perm.refl _
      · exact absurd (by simpa only [State.PushFull, hacc] using hfull) hroom
      · have hhand' : (s.setWorker i { s.workers i with queue := q }).hand = [] := by
          rw [State.hand_setWorker_push hacc (by rw [hret']; rintro ⟨⟩)]
          simp only [FdQueue.State.offered, hret']
        have hqueued : Worker.queued { s.workers i with queue := q } =
            (s.workers i).queue.contents ++ [fd'] ++ (s.workers i).queue.taken := by
          simp only [Worker.queued, hq'.contents_eq, htaken]
        have hmove : (s.hand ++ (s.workers i).queued).Perm
            (Worker.queued { s.workers i with queue := q }) := by
          rw [hhand, hoffered, hqueued, Worker.queued]
          simp only [List.append_assoc, List.singleton_append]
          exact List.perm_middle.symm
        refine h.step hi _ rfl h.nodup ?_ ?_ (List.Perm.refl _)
        · rw [hhand']
          exact (hmove.append_right _).append_right _
        · rw [hhand']
          exact (hmove.append_right _).append_right _
  · rename_i i hacc
    cases hs
    have hi : i < n := hinv.target i (Or.inl hacc)
    have hhand : s.hand = [] := by
      simp only [State.hand, hacc]
    refine h.step hi { s.workers i with efd := eventfdWrite (s.workers i).efd } rfl h.nodup ?_ ?_
      (List.Perm.refl _)
    · rw [hhand]
      exact List.Perm.refl _
    · rw [hhand]
      exact List.Perm.refl _

theorem step_placed {e : Ev} (hinv : Inv n s) (h : Placed n s) (hok : QueueNotFull s e)
    (hs : step n s e = some s') : Placed n s' := by
  cases e with
  | accept res =>
    simp only [step] at hs
    split at hs
    · rename_i hacc
      split at hs
      · split at hs
        · cases hs
        · rename_i hnew
          cases hs
          have hhand : s.hand = [] := by
            simp only [State.hand, hacc]
          have hpush : (s.workers (s.nextWorker % n)).queue.push = .idle :=
            hinv.idle _ fun fd hp => by
              rw [hacc] at hp
              cases hp
          have hhand' : State.hand { s with
              accept := .push (s.nextWorker % n) res
              opened := res :: s.opened, accepted := res :: s.accepted } = [res] := if_pos hpush
          refine ⟨List.nodup_cons.2 ⟨hnew, h.nodup⟩, ?_, ?_, h.spawned⟩
          · rw [hhand']
            have hopened := h.opened
            rw [hhand] at hopened
            exact hopened.cons res
          · rw [hhand']
            have haccepted := h.accepted
            rw [hhand] at haccepted
            exact haccepted.cons res
      · cases hs
        exact h
    · cases hs
  | producer => exact acceptStep_placed hinv h hok hs
  | worker i =>
    simp only [step] at hs
    split at hs
    · rename_i hi
      exact workerStep_placed hinv h hi hs
    · cases hs
  | complete i tag res =>
    simp only [step] at hs
    split at hs
    · rename_i hi
      cases hs
      exact h.stay hi.1 (State.hand_setWorker rfl) (List.Perm.refl _) rfl
    · cases hs

/-- **A descriptor that the queue refuses is nowhere.** -/
theorem not_placed_of_full {e : Ev} (hinv : Inv n s) (h : Placed n s) (hs : step n s e = some s')
    (hfull : ¬QueueNotFull s e) : ¬Placed n s' := by
  cases e with
  | producer =>
    simp only [QueueNotFull, State.PushFull, not_not] at hfull
    split at hfull
    case h_2 => cases hfull
    rename_i i fd hacc
    have hi : i < n := hinv.target i (Or.inr ⟨fd, hacc⟩)
    have hidle : (s.workers i).queue.push ≠ .idle := by
      intro hidle
      simp [FdQueue.State.Full, hidle] at hfull
    have hret : ∀ ok, (s.workers i).queue.push ≠ .ret ok := by
      intro ok hret
      simp [FdQueue.State.Full, hret] at hfull
    have hs' : (FdQueue.pushStep (s.workers i).queue).map
        (fun q => s.setWorker i { s.workers i with queue := q }) = some s' := by
      simp only [step, acceptStep, hacc] at hs
      exact hs
    obtain ⟨q, hq, hset⟩ := Option.map_eq_some_iff.1 hs'
    obtain ⟨hpop, hcase⟩ := (hinv.workers i).queue.pushStep hq
    rcases hcase with ⟨-, hnot, -⟩ | ⟨hq', -, ⟨fd', hoffered⟩, hret'⟩ | ⟨fd', -, hnot, -⟩
    · exact absurd hfull hnot
    · intro hplaced
      have hhand : s.hand = [fd'] := (State.hand_push hacc hidle).trans hoffered
      have hhand' : s'.hand = [] := by
        rw [← hset, State.hand_setWorker_push hacc (by rw [hret']; rintro ⟨⟩)]
        simp only [FdQueue.State.offered, hret']
      have hsame : Worker.queued { s.workers i with queue := q } = (s.workers i).queued := by
        simp only [Worker.queued, hq'.contents_eq, FdQueue.State.taken, hpop]
      have hqueued : (s.queued n).length = (s'.queued n).length := by
        have hlength := (State.queued_setWorker (s := s) { s.workers i with queue := q } hi).length_eq
        rw [hset, hsame] at hlength
        simp only [List.length_append] at hlength
        omega
      have haccepted : s'.accepted = s.accepted := by rw [← hset]; rfl
      have hspawned : s'.spawned = s.spawned := by rw [← hset]; rfl
      have hbefore := h.accepted.length_eq
      have hafter := hplaced.accepted.length_eq
      rw [haccepted, hspawned, hhand'] at hafter
      rw [hhand] at hbefore
      simp only [List.length_append, List.length_cons, List.length_nil] at hbefore hafter
      omega
    · exact absurd hfull hnot
  | _ => exact absurd trivial hfull

theorem placed_init (n : Nat) : Placed n (machine n).init := by
  have hempty : Worker.init.queued = [] := by decide
  have hqueued : State.queued n (machine n).init = [] := collect_eq_nil fun _ _ => hempty
  have hserving : State.serving n (machine n).init = [] := collect_eq_nil fun _ _ => rfl
  refine ⟨List.nodup_nil, ?_, ?_, ?_⟩
  · rw [hqueued, hserving]
    exact List.Perm.refl _
  · rw [hqueued]
    exact List.Perm.refl _
  · rw [hserving]
    exact List.Perm.refl _

/-- **When no connection is lost between the threads.**  In every interleaving, with any number of
workers: every accepted descriptor is at each time in the hand of the accept thread, in one queue, or
owned by one `client_handler`, until it is closed, and was given to one `client_handler` once, exactly
if the accept thread never finds the queue of its worker full. -/
theorem handOff_iff (hn : 0 < n) {es : List Ev} (hs : (machine n).run es = some s) :
    (machine n).Always (Placed n) (machine n).init es ↔
      (machine n).Meets QueueNotFull (machine n).init es := by
  refine Machine.always_iff_meets (I := fun s => Inv n s ∧ Placed n s) (fun _ h => h.2) ?_ ?_
    ⟨inv_init n, placed_init n⟩ hs
  · intro s e s' h hstep hok
    exact ⟨step_inv hn h.1 hstep, step_placed h.1 h.2 hok hstep⟩
  · intro s e s' h hstep hfull
    exact not_placed_of_full h.1 h.2 hstep hfull

/-- One connection goes through the queue of the only worker and is served. -/
def oneConnection : List Ev :=
  [.worker 0, .accept 7] ++ List.replicate 7 .producer ++ [.complete 0 .poll 1] ++
    List.replicate 9 (.worker 0)

theorem handOff_oneConnection : (∃ s, (machine 1).run oneConnection = some s ∧ s.serving 1 = [7]) ∧
    (machine 1).Always (Placed 1) (machine 1).init oneConnection :=
  ⟨⟨_, rfl, rfl⟩, (handOff_iff Nat.zero_lt_one (show (machine 1).run oneConnection = some _ from
    rfl)).2 (by decide +kernel)⟩

/-! ## A worker that lags behind -/

/-- Descriptor `fd` is accepted and handed out. -/
def handOff (fd : Nat) : List Ev := .accept fd :: List.replicate 7 .producer

def handOffs : Nat → List Ev
  | 0 => []
  | k + 1 => handOffs k ++ handOff k

/-- The queue of worker 0 holds `k` descriptors, and the worker has not moved. -/
structure Lagging (k : Nat) (s : State) : Prop where
  accept : s.accept = .wait
  push : (s.workers 0).queue.push = .idle
  pop : (s.workers 0).queue.pop = .idle
  head : (s.workers 0).queue.head = 0
  tail : (s.workers 0).queue.tail = k
  opened : ∀ fd ∈ s.opened, fd < k
  data : ∀ j < k, (s.workers 0).queue.data j = j
  nextFrame : (s.workers 0).nextFrame = 0
  closed : s.closed = []

theorem exec_handOff {k : Nat} (h : Lagging k s) (hk : k + 1 < FdQueue.CAPACITY) :
    ∃ s', (machine 1).exec s (handOff k) = some s' ∧ Lagging (k + 1) s' := by
  have hnew : (k : Int) ∉ s.opened := fun hmem => Int.lt_irrefl _ (h.opened _ hmem)
  have hroom := Nat.mod_eq_of_lt hk
  let q := (s.workers 0).queue
  let q' : FdQueue.State := { q with
    data := Function.update q.data k k, tail := k + 1, pushed := q.pushed ++ [(k : Int)] }
  let w : Worker := { s.workers 0 with queue := q', efd := eventfdWrite (s.workers 0).efd }
  refine ⟨{ s.setWorker 0 w with
    nextWorker := (s.nextWorker + 1) % 2 ^ 32
    opened := k :: s.opened, accepted := k :: s.accepted }, ?_, ?_⟩
  · simp [handOff, Machine.exec, machine, step, acceptStep, h.accept, h.push, FdQueue.pushStep, hnew,
      List.replicate, State.setWorker, h.head, h.tail, hroom, Nat.mod_one, w, q', q]
  · have hpush := h.push
    have hpop := h.pop
    have hhead := h.head
    have hnext := h.nextFrame
    refine ⟨h.accept, ?_, ?_, ?_, ?_, ?_, ?_, ?_, h.closed⟩
    · simpa only [State.setWorker, Function.update_self] using hpush
    · simpa only [State.setWorker, Function.update_self] using hpop
    · simpa only [State.setWorker, Function.update_self] using hhead
    · simp only [State.setWorker, Function.update_self, w, q']
    · intro fd hfd
      rcases List.mem_cons.1 hfd with rfl | hfd
      · omega
      · have := h.opened fd hfd
        omega
    · intro j hj
      simp only [State.setWorker, Function.update_self, w, q', q]
      by_cases hjk : j = k
      · rw [hjk, Function.update_self]
      · rw [Function.update_of_ne hjk]
        exact h.data j (by omega)
    · simpa only [State.setWorker, Function.update_self] using hnext

theorem run_handOffs : ∀ {k : Nat}, k < FdQueue.CAPACITY →
    ∃ s, (machine 1).run (handOffs k) = some s ∧ Lagging k s
  | 0, _ => ⟨State.init, rfl, rfl, rfl, rfl, rfl, rfl, fun _ hfd => absurd hfd List.not_mem_nil,
      fun _ hj => absurd hj (Nat.not_lt_zero _), rfl, rfl⟩
  | k + 1, hk => by
    obtain ⟨s, hs, h⟩ := run_handOffs (Nat.lt_of_succ_lt hk)
    obtain ⟨s', hs', h'⟩ := exec_handOff h hk
    exact ⟨s', Machine.exec_append.2 ⟨s, hs, hs'⟩, h'⟩

/-- 4095 descriptors fill the queue of a worker that does not move; the next one is refused. -/
def overflow : List Ev := handOffs 4095 ++ .accept 4095 :: List.replicate 3 .producer

theorem handOff_lost : ∃ s, (machine 1).run overflow = some s ∧ (4095 : Int) ∈ s.accepted ∧
    4095 ∉ s.hand ++ s.queued 1 ++ s.serving 1 ++ s.closed ∧ ¬Placed 1 s := by
  obtain ⟨s, hs, h⟩ := run_handOffs (k := 4095) (by decide)
  have hnew : (4095 : Int) ∉ s.opened := fun hmem => Int.lt_irrefl _ (h.opened _ hmem)
  let w : Worker := { s.workers 0 with queue := { (s.workers 0).queue with push := .ret false } }
  let s' : State := { s.setWorker 0 w with
    accept := .push 0 4095, opened := 4095 :: s.opened, accepted := 4095 :: s.accepted }
  have hqueued : s'.queued 1 = (s.workers 0).queue.contents := by
    have hone : s'.queued 1 = w.queued := List.append_nil _
    rw [hone, Worker.queued, FdQueue.State.taken_eq_nil (fun res => by simp [w, h.pop])]
    exact List.append_nil _
  have hserving : s'.serving 1 = [] := by
    have hone : s'.serving 1 = gather (fun hd => [hd.fd]) (s.workers 0).nextFrame (s.workers 0).frames :=
      List.append_nil _
    rw [hone, h.nextFrame]
    rfl
  have hclosed : s'.closed = [] := h.closed
  have hlost : (4095 : Int) ∉ s'.hand ++ s'.queued 1 ++ s'.serving 1 ++ s'.closed := by
    rw [hqueued, hserving, hclosed]
    show (4095 : Int) ∉ [] ++ (s.workers 0).queue.contents ++ [] ++ []
    simp only [List.nil_append, List.append_nil, FdQueue.State.contents, h.head, h.tail, List.mem_map]
    rintro ⟨i, hi, hdata⟩
    have hlt : i < 4095 := List.mem_range.1 hi
    have hcell : (0 + i) % FdQueue.CAPACITY = i := by
      unfold FdQueue.CAPACITY
      omega
    rw [hcell, h.data i hlt] at hdata
    omega
  refine ⟨s', Machine.exec_append.2 ⟨s, hs, ?_⟩, List.mem_cons_self, hlost, fun hplaced => ?_⟩
  · simp [Machine.exec, machine, step, acceptStep, h.accept, h.push, FdQueue.pushStep, hnew,
      List.replicate, State.setWorker, h.head, h.tail, Nat.mod_one, FdQueue.CAPACITY, s', w]
  · apply hlost
    rw [List.append_assoc]
    have hmem := hplaced.accepted.mem_iff.1 (List.mem_cons_self (a := (4095 : Int)))
    rcases List.mem_append.1 hmem with hmem | hmem
    · exact List.mem_append_left _ hmem
    · exact List.mem_append_right _ (hplaced.spawned.mem_iff.1 hmem)

end Placed

end AdvCpp.Uring.MultithreadEcho
