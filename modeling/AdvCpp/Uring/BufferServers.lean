import AdvCpp.Uring.BufferConservation

/-!
# The provided-buffer servers

`10_provided_buffers.cpp` (one completion for each request) and `11_multishot.cpp`.  Both event
loops are `serve` for their own variant, so the conservation of buffers and events holds of both.

* `Conserved` — where every buffer and every event is.
* `buffers_conserved` — it holds in every state of both servers, and an event of a multi-shot
  request is freed by its last completion.
* `waiting_handled` — a completion that waits can be handled, and its buffer is passed on or recycled.
-/

namespace AdvCpp.Uring

open AdvCpp.Lib BufferSelect

namespace ProvidedBuffers

/-- `SendEvent` has no `rearm_recv` here. -/
def variant : Variant Unit := ⟨false, fun _ => (), fun _ => true⟩

def queueRecv (s : State Unit) (fd : Int) : State Unit := BufferSelect.queueRecv false s fd

def queueAccept (s : State Unit) (listenFd : Int) : State Unit :=
  BufferSelect.queueAccept false s listenFd

/-- The body of the event loop. -/
def handleCqe (listenFd : Int) (s : State Unit) (ev : Nat) (cqe : Cqe) : State Unit :=
  match s.app.heap ev with
  | none => s.fault
  | some (.accept _) =>
    let s₁ := if 0 ≤ cqe.res then queueRecv (s.insertClient cqe.res) cqe.res else s
    (queueAccept s₁ listenFd).delete ev
  | some (.recv fd) =>
    let s₁ :=
      if cqe.res = -ENOBUFS then queueRecv s fd
      else if cqe.res ≤ 0 then (s.closeFd fd).eraseClient fd
      else
        match cqe.buffer with
        | none => (s.closeFd fd).eraseClient fd
        | some bid => queueSend (s.newEvent (.send fd bid cqe.res.toNat 0 ())) s.app.next
    s₁.delete ev
  | some (.send fd bid len offset r) =>
    if cqe.res ≤ 0 then (((recycleBuf s bid).closeFd fd).eraseClient fd).delete ev
    else
      let s₁ := s.setEvent ev (.send fd bid len (offset + cqe.res.toNat) r)
      if offset + cqe.res.toNat < len then queueSend s₁ ev
      else
        let s₂ := recycleBuf s₁ bid
        (if fd ∈ s₂.app.clients then queueRecv s₂ fd else s₂).delete ev

def server (listenFd : Int) : Machine (State Unit) Ev := machine variant handleCqe listenFd

theorem handleCqe_eq_serve : handleCqe = serve variant := by
  funext listenFd s ev cqe
  unfold handleCqe serve
  cases s.app.heap ev with
  | none => rfl
  | some e =>
    cases e with
    | accept fd => rfl
    | recv fd => cases cqe.buffer <;> rfl
    | send fd bid len offset r => simp only [variant, queueRecv, Bool.true_and, decide_eq_true_eq]

end ProvidedBuffers

namespace Multishot

def variant : Variant Bool := ⟨true, id, id⟩

def queueMultishotRecv (s : State Bool) (fd : Int) : State Bool := BufferSelect.queueRecv true s fd

def queueMultishotAccept (s : State Bool) (listenFd : Int) : State Bool :=
  BufferSelect.queueAccept true s listenFd

/-- The body of the event loop. -/
def handleCqe (listenFd : Int) (s : State Bool) (ev : Nat) (cqe : Cqe) : State Bool :=
  match s.app.heap ev with
  | none => s.fault
  | some (.accept _) =>
    let s₁ := if 0 ≤ cqe.res then queueMultishotRecv (s.insertClient cqe.res) cqe.res else s
    -- without `IORING_CQE_F_MORE` the accept is over: it is submitted again and `ev` not released
    if cqe.more then s₁ else (queueMultishotAccept s₁ listenFd).delete ev
  | some (.recv fd) =>
    let s₁ :=
      if cqe.res = -ENOBUFS then queueMultishotRecv s fd
      else if cqe.res ≤ 0 then (s.closeFd fd).eraseClient fd
      else
        match cqe.buffer with
        | none => (s.closeFd fd).eraseClient fd
        | some bid => queueSend (s.newEvent (.send fd bid cqe.res.toNat 0 (!cqe.more))) s.app.next
    if cqe.more then s₁ else s₁.delete ev
  | some (.send fd bid len offset rearmRecv) =>
    if cqe.res ≤ 0 then (((recycleBuf s bid).closeFd fd).eraseClient fd).delete ev
    else
      let s₁ := s.setEvent ev (.send fd bid len (offset + cqe.res.toNat) rearmRecv)
      if offset + cqe.res.toNat < len then queueSend s₁ ev
      else
        let s₂ := recycleBuf s₁ bid
        (if rearmRecv && decide (fd ∈ s₂.app.clients) then queueMultishotRecv s₂ fd else s₂).delete ev

def server (listenFd : Int) : Machine (State Bool) Ev := machine variant handleCqe listenFd

theorem handleCqe_eq_serve : handleCqe = serve variant := by
  funext listenFd s ev cqe
  unfold handleCqe serve
  cases s.app.heap ev with
  | none => rfl
  | some e =>
    cases e with
    | accept fd => rfl
    | recv fd => cases cqe.buffer <;> rfl
    | send fd bid len offset r => rfl

end Multishot

namespace BufferSelect

/-! ## Conservation -/

variable {ρ : Type} {V : Variant ρ} {s s' : State ρ}

/-- Where every buffer and every event is. -/
structure Conserved (s : State ρ) : Prop where
  /-- No event is used or deleted after it was deleted. -/
  noFault : s.ub = false
  /-- Every buffer is in exactly one place. -/
  buffers : (s.provided ++ s.unprocessed ++ s.sending).Perm (List.range NUM_BUFS)
  capacity : s.kern.br.size ≤ NUM_BUFS
  /-- What was handed out is recycled once, or still held. -/
  handOuts : s.kern.handed.Perm (s.kern.recycled ++ s.unprocessed ++ s.sending)
  /-- A send reads a buffer of its event, which is not in the ring. -/
  reads : ∀ k o addr n, s.kern.ops k = some o → o.sqe.prep = .send addr n →
    ∃ fd bid len offset r, s.app.heap o.sqe.userData = some (.send fd bid len offset r) ∧
      bid ∉ s.provided ∧ InBuf bid addr n
  /-- A live event belongs to one request, any other one was freed once. -/
  events : ∀ p, p < s.app.next →
    (s.app.heap p ≠ none ∧ s.app.freed.count p = 0 ∧
      ∃! k, ∃ o, s.kern.ops k = some o ∧ o.sqe.userData = p) ∨
    (s.app.heap p = none ∧ s.app.freed.count p = 1 ∧
      ∀ k o, s.kern.ops k = some o → o.sqe.userData ≠ p)

/-- The event of an accept or a receive is freed by its last completion and by no other one. -/
def FreesLast (handle : Handler ρ) (s : State ρ) : Prop :=
  ∀ k o sh more r s', s.kern.ops k = some o → o.pop = some (sh, more, r) →
    (∀ addr n, o.sqe.prep ≠ .send addr n) → step handle s (.complete k) = some s' →
    (o.sqe.userData ∈ s'.app.freed ↔ more = false)

theorem Inv.conserved (h : Inv V none [] s) : Conserved s := by
  have hbuf := h.perm
  refine
    { noFault := h.ub, buffers := (List.append_assoc ..).symm ▸ hbuf, capacity := ?_
      handOuts := ?_, reads := fun k o addr n hk hp => h.send_inBuf hk hp, events := ?_ }
  · have hlen := hbuf.length_eq
    simp only [State.provided, List.length_append, List.length_map, CounterRing.contents_length,
      List.length_range] at hlen
    omega
  · have hl := h.ledger
    rwa [State.out, List.append_nil, ← List.append_assoc] at hl
  · intro p hp
    by_cases hlive : s.app.heap p = none
    · have hmem : p ∈ s.app.freed := (h.freed p).2 ⟨hp, hlive⟩
      refine Or.inr ⟨hlive, List.count_eq_one_of_mem h.nodupFreed hmem, fun k o hk he => ?_⟩
      exact h.live hk (he ▸ hlive)
    · have hmem : p ∉ s.app.freed := fun hm => hlive ((h.freed p).1 hm).2
      refine Or.inl ⟨hlive, List.count_eq_zero.2 hmem, ?_⟩
      obtain ⟨k, ⟨o, hk, ho⟩, huniq⟩ := h.events.existsUnique (i := p) hlive
      refine ⟨k, ⟨o, hk, Option.some.inj ho⟩, ?_⟩
      intro k' hk'
      obtain ⟨o', hk', ho'⟩ := hk'
      exact huniq k' ⟨o', hk', congrArg some ho'⟩

/-! ## Events of multi-shot requests -/

theorem delete_heap_self (s : State ρ) (p : Nat) : (s.delete p).app.heap p = none := by
  unfold State.delete
  cases hp : s.app.heap p with
  | none => exact hp
  | some e => exact Function.update_self ..

theorem newEvent_heap {p : Nat} (hp : p < s.app.next) (e : Event ρ) :
    (s.newEvent e).app.heap p = s.app.heap p :=
  Function.update_of_ne (Nat.ne_of_lt hp) _ _

theorem queueRecv_heap {p : Nat} (hp : p < s.app.next) (ms : Bool) (fd : Int) :
    (queueRecv ms s fd).app.heap p = s.app.heap p :=
  Function.update_of_ne (Nat.ne_of_lt hp) _ _

theorem queueSend_heap (s : State ρ) (p p' : Nat) : (queueSend s p).app.heap p' = s.app.heap p' := by
  unfold queueSend
  split <;> rfl

/-- The event of an accept or a receive survives exactly the completions with more to come. -/
theorem serve_heap {p : Nat} {e : Event ρ} (he : s.app.heap p = some e) (hp : p < s.app.next)
    (hns : ∀ fd bid len offset r, e ≠ .send fd bid len offset r) (V : Variant ρ) (listenFd : Int)
    (cqe : Cqe) :
    (serve V listenFd s p cqe).app.heap p = none ↔ (V.multishot && cqe.more) = false := by
  cases e with
  | accept fd =>
    have h₁ : (if 0 ≤ cqe.res then queueRecv V.multishot (s.insertClient cqe.res) cqe.res
        else s).app.heap p = some (.accept fd) := by
      split
      · exact (queueRecv_heap (s := s.insertClient cqe.res) hp _ _).trans he
      · exact he
    simp only [serve, he]
    cases V.multishot && cqe.more with
    | true => simp [h₁]
    | false => simp [delete_heap_self]
  | recv fd =>
    simp only [serve, he]
    cases V.multishot && cqe.more with
    | false => simp [delete_heap_self]
    | true =>
      simp only [if_true, Bool.true_eq_false, iff_false]
      refine Option.ne_none_iff_exists'.2 ⟨.recv fd, ?_⟩
      split
      · exact (queueRecv_heap hp _ _).trans he
      · split
        · exact he
        · split
          · exact he
          · exact (queueSend_heap _ _ _).trans ((newEvent_heap hp _).trans he)
  | send fd bid len offset r => exact absurd rfl (hns fd bid len offset r)

theorem delete_next (s : State ρ) (p : Nat) : (s.delete p).app.next = s.app.next := by
  unfold State.delete
  split <;> rfl

theorem queueSend_next (s : State ρ) (p : Nat) :
    (queueSend s p).app.next = s.app.next := by
  unfold queueSend
  split <;> rfl

/-- Addresses are not given out again. -/
theorem serve_next (V : Variant ρ) (listenFd : Int) (s : State ρ) (p : Nat) (cqe : Cqe) :
    s.app.next ≤ (serve V listenFd s p cqe).app.next := by
  have hrecv : ∀ (s : State ρ) (fd : Int), s.app.next ≤ (queueRecv V.multishot s fd).app.next :=
    fun s fd => Nat.le_succ _
  unfold serve
  split
  · exact Nat.le_refl _
  · dsimp only
    generalize hs₁ : (if 0 ≤ cqe.res then _ else _ : State ρ) = s₁
    have h₁ : s.app.next ≤ s₁.app.next := by
      subst hs₁
      split
      · exact hrecv (s.insertClient cqe.res) cqe.res
      · exact Nat.le_refl _
    split
    · exact h₁
    · rw [delete_next]
      exact Nat.le_succ_of_le h₁
  · dsimp only
    generalize hs₁ : (if cqe.res = -ENOBUFS then _ else _ : State ρ) = s₁
    have h₁ : s.app.next ≤ s₁.app.next := by
      subst hs₁
      split
      · exact hrecv ..
      · split
        · exact Nat.le_refl _
        · split
          · exact Nat.le_refl _
          · rw [queueSend_next]
            exact Nat.le_succ _
    split
    · exact h₁
    · rwa [delete_next]
  · dsimp only
    split
    · rw [delete_next]
      exact Nat.le_refl _
    · split
      · rw [queueSend_next]
        exact Nat.le_refl _
      · rw [delete_next]
        split
        · exact Nat.le_succ _
        · exact Nat.le_refl _

theorem Inv.freesLast {listenFd : Int} (h : Inv V none [] s) :
    FreesLast (serve V listenFd) s := by
  intro k o sh more r s' hk hpop hns hs
  have h' := step_inv h hs
  obtain ⟨e, he, ht⟩ := h.event hk
  have hlt := h.heap_lt (h.live hk)
  simp only [step, hk, Option.bind_some, hpop, Option.map_some, Option.some.injEq] at hs
  have hnotsend : ∀ fd bid len offset r, e ≠ .send fd bid len offset r := by
    rintro fd bid len offset r rfl
    exact hns _ _ ht.2.1
  have hmore : (V.multishot && more) = more := by
    cases more with
    | false => exact Bool.and_false _
    | true =>
      have hm := (h.popped hk hpop).2 rfl
      cases e with
      | accept fd => rw [ht.2] at hm; simpa [Prep.multishot] using hm
      | recv fd => rw [ht.2] at hm; simpa [Prep.multishot] using hm
      | send fd bid len offset r => exact absurd rfl (hnotsend fd bid len offset r)
  have hheap := serve_heap (s := { s with kern := { s.kern.setOp k r with cur := sh.conn } })
    he hlt hnotsend V listenFd ⟨sh.res, more, sh.buffer⟩
  have hnext := serve_next V listenFd { s with kern := { s.kern.setOp k r with cur := sh.conn } }
    o.sqe.userData ⟨sh.res, more, sh.buffer⟩
  rw [hs] at hnext hheap
  rw [h'.freed, hheap, hmore]
  exact and_iff_right (Nat.lt_of_lt_of_le hlt hnext)

/-- **Every buffer and every event is in exactly one place**, in every state of both servers. -/
theorem buffers_conserved (listenFd : Int) (es : List Ev) :
    (∀ s, (ProvidedBuffers.server listenFd).run es = some s →
      Conserved s ∧ FreesLast (ProvidedBuffers.handleCqe listenFd) s) ∧
    (∀ s, (Multishot.server listenFd).run es = some s →
      Conserved s ∧ FreesLast (Multishot.handleCqe listenFd) s) := by
  unfold ProvidedBuffers.server Multishot.server
  rw [ProvidedBuffers.handleCqe_eq_serve, Multishot.handleCqe_eq_serve]
  constructor
  · intro s hs
    have h := machine_inv hs
    exact ⟨h.conserved, h.freesLast⟩
  · intro s hs
    have h := machine_inv hs
    exact ⟨h.conserved, h.freesLast⟩

/-- A client connects, sends two bytes and gets them back, with single-shot requests. -/
def echoOnce : List Ev :=
  [.submit, .exec 0 5 false [], .complete 0, .submit, .submit, .exec 1 2 false [104, 105],
    .complete 1, .submit, .exec 3 2 false [], .complete 3]

/-- The buffer of the only receive has been handed out and recycled, and the events of the accept, the
receive and the send are gone. -/
theorem buffers_conserved_echo :
    ∃ s t, (ProvidedBuffers.server 3).run echoOnce = some s ∧
      (Multishot.server 3).run echoOnce = some t ∧
      (s.kern.handed = [0] ∧ s.kern.recycled = [0] ∧ s.app.freed = [3, 1, 0]) ∧
      (t.kern.handed = [0] ∧ t.kern.recycled = [0] ∧ t.app.freed = [3, 1, 0]) ∧
      (Conserved s ∧ FreesLast (ProvidedBuffers.handleCqe 3) s) ∧
      (Conserved t ∧ FreesLast (Multishot.handleCqe 3) t) := by
  obtain ⟨s, hs, hechoed⟩ : ∃ s, (ProvidedBuffers.server 3).run echoOnce = some s ∧
      s.kern.handed = [0] ∧ s.kern.recycled = [0] ∧ s.app.freed = [3, 1, 0] := by
    unfold ProvidedBuffers.server machine State.boot
    rw [setupBufRing_eq]
    exact ⟨_, rfl, rfl, rfl, rfl⟩
  obtain ⟨t, ht, hechoed'⟩ : ∃ t, (Multishot.server 3).run echoOnce = some t ∧
      t.kern.handed = [0] ∧ t.kern.recycled = [0] ∧ t.app.freed = [3, 1, 0] := by
    unfold Multishot.server machine State.boot
    rw [setupBufRing_eq]
    exact ⟨_, rfl, rfl, rfl, rfl⟩
  exact ⟨s, t, hs, ht, hechoed, hechoed', (buffers_conserved 3 echoOnce).1 s hs,
    (buffers_conserved 3 echoOnce).2 t ht⟩

/-! ## Progress -/

section Progress

variable {listenFd : Int} {es : List Ev} {k : Nat} {o : Op}

theorem Op.exists_pop (h : o.posted ≠ []) : ∃ sh more r, o.pop = some (sh, more, r) := by
  unfold Op.pop
  split
  · exact ⟨_, _, _, rfl⟩
  · exact ⟨_, _, _, rfl⟩
  · rename_i hshots hlast
    refine absurd ?_ h
    cases hphase : o.phase with
    | queued => simp [Op.posted, hshots, hphase, Phase.last]
    | armed file => simp [Op.posted, hshots, hphase, Phase.last]
    | ended file sh => exact absurd hphase (hlast file sh)

theorem delete_kern (s : State ρ) (p : Nat) : (s.delete p).kern = s.kern := by
  unfold State.delete
  split <;> rfl

theorem delete_heap_of_ne {p p' : Nat} (hne : p' ≠ p) (s : State ρ) :
    (s.delete p).app.heap p' = s.app.heap p' := by
  unfold State.delete
  split
  · exact Function.update_of_ne hne _ _
  · rfl

/-- A received buffer is passed on to a send. -/
theorem serve_received {p : Nat} {fd : Int} (he : s.app.heap p = some (.recv fd))
    (hp : p < s.app.next) {res : Int} (hres : 0 < res) (bid : Nat) (more : Bool) (V : Variant ρ)
    (listenFd : Int) :
    ∃ r, (serve V listenFd s p ⟨res, more, some bid⟩).app.heap s.app.next =
      some (.send fd bid res.toNat 0 r) := by
  have hbufs : res ≠ -ENOBUFS := by
    unfold ENOBUFS
    omega
  have hsend : ∀ r, (queueSend (s.newEvent (.send fd bid res.toNat 0 r)) s.app.next).app.heap
      s.app.next = some (.send fd bid res.toNat 0 r) := fun r => by
    rw [queueSend_heap]
    exact Function.update_self ..
  refine ⟨V.mark (!(V.multishot && more)), ?_⟩
  simp only [serve, he, if_neg hbufs, if_neg (not_le.2 hres)]
  split
  · exact hsend _
  · rw [delete_heap_of_ne (Nat.ne_of_gt hp)]
    exact hsend _

/-- A send that is over, or has failed, recycles its buffer. -/
theorem serve_sent {p bid len offset : Nat} {fd : Int} {r : ρ}
    (he : s.app.heap p = some (.send fd bid len offset r)) {cqe : Cqe}
    (hover : ¬(0 < cqe.res ∧ offset + cqe.res.toNat < len)) (V : Variant ρ) (listenFd : Int) :
    (serve V listenFd s p cqe).kern.recycled = bid :: s.kern.recycled := by
  simp only [serve, he]
  by_cases hres : cqe.res ≤ 0
  · rw [if_pos hres, delete_kern]
    rfl
  · rw [if_neg hres, if_neg fun hlt => hover ⟨not_le.1 hres, hlt⟩, delete_kern]
    split <;> rfl

/-- A send that has moved a part keeps it. -/
theorem serve_partial {p bid len offset : Nat} {fd : Int} {r : ρ}
    (he : s.app.heap p = some (.send fd bid len offset r)) {cqe : Cqe} (hres : 0 < cqe.res)
    (hlt : offset + cqe.res.toNat < len) (V : Variant ρ) (listenFd : Int) :
    (serve V listenFd s p cqe).app.heap p =
      some (.send fd bid len (offset + cqe.res.toNat) r) := by
  simp only [serve, he]
  rw [if_neg (not_le.2 hres), if_pos hlt, queueSend_heap]
  exact Function.update_self ..

/-- **Progress.**  In every state of both servers, a completion that waits can be handled.  A buffer
that comes with it is passed on to a send; the buffer of a send stays with it while bytes are left,
and is recycled otherwise. -/
theorem waiting_handled (h : (machine V (serve V) listenFd).run es = some s)
    (hk : s.kern.ops k = some o) (hposted : o.posted ≠ []) :
    ∃ sh more r s', o.pop = some (sh, more, r) ∧
      (machine V (serve V) listenFd).run (es ++ [.complete k]) = some s' ∧
      (∀ fd bid, s.app.heap o.sqe.userData = some (.recv fd) → sh.buffer = some bid →
        ∃ p r, s'.app.heap p = some (.send fd bid sh.res.toNat 0 r)) ∧
      ∀ fd bid len offset r, s.app.heap o.sqe.userData = some (.send fd bid len offset r) →
        if 0 < sh.res ∧ offset + sh.res.toNat < len then
          s'.app.heap o.sqe.userData = some (.send fd bid len (offset + sh.res.toNat) r)
        else s'.kern.recycled = bid :: s.kern.recycled := by
  have hinv := machine_inv h
  obtain ⟨sh, more, r, hpop⟩ := Op.exists_pop hposted
  let s₀ : State ρ := { s with kern := { s.kern.setOp k r with cur := sh.conn } }
  let s' := serve V listenFd s₀ o.sqe.userData ⟨sh.res, more, sh.buffer⟩
  have hstep : step (serve V listenFd) s (.complete k) = some s' := by
    simp only [step, hk, Option.bind_some, hpop, Option.map_some]
    rfl
  refine ⟨sh, more, r, s', hpop, Machine.run_snoc.2 ⟨s, h, hstep⟩, fun fd bid he hbuffer => ?_,
    fun fd bid len offset r he => ?_⟩
  · have hres : 0 < sh.res := by
      have hshot := (hinv.popped hk hpop).1
      rw [((hinv.tied k o hk _ he).2 : o.sqe.prep = _)] at hshot
      have hnone := mt hshot.1.2 (by simp [hbuffer])
      omega
    have hlt := hinv.heap_lt (hinv.live hk)
    obtain ⟨r', hsend⟩ := serve_received (s := s₀) he hlt hres bid more V listenFd
    refine ⟨s.app.next, r', ?_⟩
    show (serve V listenFd s₀ o.sqe.userData ⟨sh.res, more, sh.buffer⟩).app.heap _ = _
    rw [hbuffer]
    exact hsend
  · split
    · next hrest => exact serve_partial (s := s₀) he hrest.1 hrest.2 V listenFd
    · next hover => exact serve_sent (s := s₀) he hover V listenFd

end Progress

end BufferSelect

end AdvCpp.Uring
