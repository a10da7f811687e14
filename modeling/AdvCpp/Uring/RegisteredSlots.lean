import AdvCpp.Uring.RegisteredFds

/-!
# The life of a registered slot

Every step of the server keeps the invariant, whichever order the kernel completes in and whichever
slots it gives out again.

* `Inv.slot_free` — a slot that is given out again has no handler any more.
* `registered_slots` — one handler for every slot, one request for every handler, one close for
  every connection, and echo as a prefix.
-/

namespace AdvCpp.Uring.RegisteredFds

open AdvCpp.Lib

/-! ## Steps -/

theorem Waiting.update {ops : Nat → Option Op} {slot : Int} {k : Nat} (h : Waiting ops slot)
    (hk : ∀ q, ops k = some ⟨q, .done slot⟩ → q.prep ≠ .acceptDirect) (o : Option Op) :
    Waiting (Function.update ops k o) slot := by
  obtain ⟨k', q, hk', hq, h0⟩ := h
  refine ⟨k', q, ?_, hq, h0⟩
  rw [Function.update_of_ne]
  · exact hk'
  · rintro rfl
    exact hk q hk' hq

theorem Same.receive {net : Net} {c c' : Nat} (hc : c' ≠ c) (data : List UInt8)
    (log : List (Option Nat × Prep)) : Same net (net.receive c data) log log c' :=
  ⟨fun _ => Iff.rfl, Function.update_of_ne hc _ _, rfl, rfl⟩

theorem Same.transmit {net : Net} {c c' : Nat} (hc : c' ≠ c) (data : List UInt8)
    (log : List (Option Nat × Prep)) : Same net (net.transmit c data) log log c' :=
  ⟨fun _ => Iff.rfl, rfl, Function.update_of_ne hc _ _, rfl⟩

theorem Same.accept {net : Net} {slot : Int} {c : Nat} (hslot : net.fds slot = none)
    (hc : c ≠ net.next) (log : List (Option Nat × Prep)) :
    Same net (net.accept slot) log log c := by
  refine ⟨fun fd => ?_, rfl, rfl, rfl⟩
  by_cases he : fd = slot
  · subst he
    simp [Net.accept, hslot, Ne.symm hc]
  · simp [Net.accept, he]

theorem Same.close {net : Net} {slot : Int} {c c' : Nat} (hslot : net.fds slot = some c)
    (hc : c' ≠ c) (log : List (Option Nat × Prep)) : Same net (net.close slot) log log c' := by
  refine ⟨fun fd => ?_, rfl, rfl, rfl⟩
  by_cases he : fd = slot
  · subst he
    simp [Net.close, hslot, Ne.symm hc]
  · simp [Net.close, he]

/-- A request of another handler's. -/
theorem Same.log (net : Net) (log : List (Option Nat × Prep)) {c : Nat} {o : Option Nat}
    (h : o ≠ some c) (x : Prep) : Same net net log (log ++ [(o, x)]) c :=
  ⟨fun _ => Iff.rfl, rfl, rfl, hist_of_ne log h x⟩

section Steps

variable {listenFd : Int} {s s' : State} {k : Nat} {q : Sqe} {o : Op} {file : Option Nat}
  {res : Int} {data : List UInt8}

theorem Inv.lt (h : Inv listenFd s) (hk : s.ops k = some o) : k < s.nextOp := by
  by_contra hge
  rw [h.fresh k (Nat.not_lt.1 hge)] at hk
  cases hk

theorem Inv.fresh_update (h : Inv listenFd s) (hk : s.ops k = some o) (o' : Option Op) :
    ∀ k', s.nextOp ≤ k' → Function.update s.ops k o' k' = none := by
  intro k' hk'
  rw [Function.update_of_ne (Nat.ne_of_gt (Nat.lt_of_lt_of_le (h.lt hk) hk'))]
  exact h.fresh k' hk'

/-- The next queued request reaches the kernel. -/
theorem Inv.submit (h : Inv listenFd s) (hk : s.ops s.submitted = some ⟨q, .queued⟩) :
    Inv listenFd
      { s with
        ops := Function.update s.ops s.submitted
          (some ⟨q, .armed (if q.fixed then s.net.fds q.fd else none)⟩)
        submitted := s.submitted + 1 } := by
  have hnot : ∀ q' res, s.ops s.submitted ≠ some ⟨q', .done res⟩ := by
    intro q' res he
    rw [hk] at he
    cases he
  have harmed : OpOk listenFd s.app s.net s.log
      ⟨q, .armed (if q.fixed then s.net.fds q.fd else none)⟩ := by
    have hok := h.ops _ _ hk
    generalize ho : (⟨q, .queued⟩ : Op) = o at hok
    cases hok with
    | accept frame new => cases ho; exact .accept frame (by rintro _ ⟨⟩)
    | recv frame hfile ne len serving armed within rest =>
      cases ho
      exact .recv frame hfile ne len serving hfile trivial rest
    | send frame hfile ne len serving armed within more rest =>
      cases ho
      exact .send frame hfile ne len serving hfile trivial more rest
    | close frame ne lt hfile closed => cases ho; exact .close frame ne lt hfile closed
  exact
    { net := h.net
      pos := h.pos
      fresh := h.fresh_update hk _
      posted := h.posted.set hnot (by rintro _ _ ⟨⟩)
      excl := h.excl.set hk rfl
      unused := h.unused
      ops := forall_update (by rintro _ ⟨⟩; exact harmed) fun k' o' _ => h.ops k' o'
      slots := h.slots
      conns := h.conns
      owned := fun slot c hc hne => (h.owned slot c hc hne).imp_right fun hw =>
        hw.update (fun q' hq' => absurd hq' (hnot q' slot)) _
      gone := h.gone
      unborn := h.unborn
      echo := h.echo }

/-! ### The kernel executes a request -/

theorem armed_ne (hk : s.ops k = some ⟨q, .armed file⟩) (q' : Sqe) (res : Int) :
    s.ops k ≠ some ⟨q', .done res⟩ := by
  rw [hk]
  rintro ⟨⟩

theorem Inv.about_lt {c : Nat} (h : Inv listenFd s) (hk : s.ops k = some o)
    (hc : About s.app s.net o c) : c < s.net.next := by
  rcases hc with hc | ⟨-, res, -, -, hfd⟩
  · obtain ⟨slot, buf, pt, hframe⟩ := Coroutines.conn_eq_some hc
    cases h.ops k o hk with
    | accept frame => cases frame.symm.trans hframe
    | recv frame hfile => cases frame.symm.trans hframe; exact h.net.lt hfile
    | send frame hfile => cases frame.symm.trans hframe; exact h.net.lt hfile
    | close frame _ lt => cases frame.symm.trans hframe; exact lt
  · exact h.net.lt hfd

theorem Inv.unused_like {σ : Coroutines} (h : Inv listenFd s) (hl : s.app.Like σ) :
    ∀ p, σ.next ≤ p → σ.frames p = none := by
  intro p hp
  by_contra hne
  rw [hl.next] at hp
  exact (hl.live p).1 hne (h.unused p hp)

/-- The kernel executes a request. -/
theorem Inv.execute {σ : Coroutines} {net : Net} (h : Inv listenFd s)
    (hk : s.ops k = some ⟨q, .armed file⟩) (hl : s.app.Like σ) (hnet : net.Ok)
    (hnext : s.net.next ≤ net.next)
    (hbefore : q.prep = .closeDirect → ∀ k' q' res', s.ops k' = some ⟨q', .done res'⟩ →
      q'.prep = .acceptDirect → 0 ≤ res' → q.fd ≠ res')
    (hnew : OpOk listenFd σ net s.log ⟨q, .done res⟩)
    (hothers : ∀ k' o', k' ≠ k → s.ops k' = some o' → OpOk listenFd σ net s.log o')
    (howned : ∀ slot c, net.fds slot = some c → c ≠ 0 →
      s.net.fds slot = some c ∨ q.prep = .acceptDirect ∧ 0 ≤ res ∧ slot = res)
    (hgone : ∀ c, c ≠ 0 → c < net.next → (∀ slot, net.fds slot ≠ some c) → Closed (hist s.log c))
    (hecho : ∀ c, net.tx c <+: net.rx c) :
    Inv listenFd
      { s with
        app := σ
        ops := Function.update s.ops k (some ⟨q, .done res⟩)
        cq := s.cq ++ [k]
        net := net } where
  net := hnet
  pos := Nat.lt_of_lt_of_le h.pos hnext
  fresh := h.fresh_update hk _
  posted := h.posted.post (armed_ne hk) hbefore
  excl := (h.excl.set (b := ⟨q, .done res⟩) hk rfl).congr hl.live
  unused := h.unused_like hl
  ops := forall_update (by rintro _ ⟨⟩; exact hnew) hothers
  slots := by
    show Single σ.slot
    rw [hl.slot]
    exact h.slots
  conns := by
    show Single σ.conn
    rw [hl.conn]
    exact h.conns
  owned := fun slot c hc hne => by
    simp only [hl.slot, hl.conn]
    rcases howned slot c hc hne with hc | ⟨hq, h0, rfl⟩
    · exact (h.owned slot c hc hne).imp_right fun hw =>
        hw.update (fun q' hq' => absurd hq' (armed_ne hk q' slot)) _
    · exact Or.inr ⟨k, q, Function.update_self .., hq, h0⟩
  gone := hgone
  unborn := fun c hc => h.unborn c (Nat.le_trans hnext hc)
  echo := hecho

/-- The kernel executes a receive or a send: the bytes of one connection and the buffer of its
handler change. -/
theorem Inv.executed {σ : Coroutines} {net : Net} {c : Nat} (h : Inv listenFd s)
    (hk : s.ops k = some ⟨q, .armed file⟩) (hq : q.prep ≠ .closeDirect)
    (hc : s.app.conn q.userData = some c) (hnet : net.Ok) (hfds : net.fds = s.net.fds)
    (hnext : net.next = s.net.next) (hl : s.app.Like σ)
    (hf : ∀ p, p ≠ q.userData → σ.frames p = s.app.frames p)
    (hsame : ∀ c', c' ≠ c → Same s.net net s.log s.log c')
    (hnew : OpOk listenFd σ net s.log ⟨q, .done res⟩) (hecho : net.tx c <+: net.rx c) :
    Inv listenFd
      { s with
        app := σ
        ops := Function.update s.ops k (some ⟨q, .done res⟩)
        cq := s.cq ++ [k]
        net := net } := by
  have hothers : ∀ k' o', k' ≠ k → s.ops k' = some o' → OpOk listenFd σ net s.log o' :=
    h.others hk (Or.inl hc) hf (Nat.le_of_eq hnext.symm) hsame
  refine h.execute hk hl hnet (Nat.le_of_eq hnext.symm) (fun he => absurd he hq) hnew hothers
    (fun slot c' hc' _ => Or.inl (hfds ▸ hc')) (fun c' hne hlt hout => ?_) fun c' => ?_
  · exact h.gone c' hne (hnext ▸ hlt) (hfds ▸ hout)
  · by_cases he : c' = c
    · rw [he]
      exact hecho
    · rw [(hsame c' he).tx, (hsame c' he).rx]
      exact h.echo c'

theorem Inv.execAccept (h : Inv listenFd s)
    (hk : s.ops k = some ⟨asyncDirectAccept listenFd 0, .armed file⟩)
    (hmay : KernelMay s.net (asyncDirectAccept listenFd 0) file res data) :
    Inv listenFd (State.transfer
      { s with
        ops := Function.update s.ops k (some ⟨asyncDirectAccept listenFd 0, .done res⟩)
        cq := s.cq ++ [k] }
      (asyncDirectAccept listenFd 0) file res data) := by
  have hframe : s.app.frames 0 = some .acceptLoop := by
    have hok := h.ops k _ hk
    generalize ho : (⟨asyncDirectAccept listenFd 0, .armed file⟩ : Op) = o at hok
    cases hok with
    | accept frame => exact frame
    | recv => cases ho
    | send => cases ho
    | close => cases ho
  simp only [State.transfer, asyncDirectAccept]
  obtain ⟨-, hneg | ⟨h0, -, hfree⟩⟩ := hmay
  · rw [if_neg (Int.not_le.2 hneg)]
    have hnew : OpOk listenFd s.app s.net s.log ⟨asyncDirectAccept listenFd 0, .done res⟩ :=
      .accept hframe fun r hr h0 => by
        cases hr
        omega
    exact h.execute hk (.refl _) h.net (Nat.le_refl _) (by rintro ⟨⟩) hnew
      (fun k' o' _ => h.ops k' o') (fun _ _ hc _ => Or.inl hc) h.gone h.echo
  · rw [if_pos h0]
    obtain ⟨hrx, htx⟩ := h.net.fresh s.net.next (Nat.le_refl _)
    have hself : (s.net.accept res).fds res = some s.net.next := Function.update_self ..
    have hother : ∀ fd, fd ≠ res → (s.net.accept res).fds fd = s.net.fds fd :=
      fun fd hfd => Function.update_of_ne hfd _ _
    have hnew : OpOk listenFd s.app (s.net.accept res) s.log
        ⟨asyncDirectAccept listenFd 0, .done res⟩ :=
      .accept hframe fun r hr _ => by
        cases hr
        exact ⟨s.net.next, hself, Nat.ne_of_gt h.pos, hrx, htx, h.unborn _ (Nat.le_refl _)⟩
    refine h.execute hk (.refl _) (h.net.accept res) (Nat.le_succ _) (by rintro ⟨⟩) hnew
      (fun k' o' _ hk' => ?_) (fun slot c hc _ => ?_) (fun c hne hlt hout => ?_) h.echo
    · exact (h.ops k' o' hk').keep rfl (Nat.le_succ _) fun c hc =>
        Same.accept hfree (Nat.ne_of_lt (h.about_lt hk' hc)) _
    · by_cases he : slot = res
      · exact Or.inr ⟨rfl, h0, he⟩
      · exact Or.inl ((hother slot he).symm.trans hc)
    · have hc : c ≠ s.net.next := by
        rintro rfl
        exact hout res hself
      have hlt' : c < s.net.next := Nat.lt_of_le_of_ne (Nat.le_of_lt_succ hlt) hc
      exact h.gone c hne hlt' fun slot hslot =>
        hout slot (((Same.accept hfree hc s.log).fds slot).2 hslot)

theorem Inv.execRecv {slot : Int} {p : Nat} (h : Inv listenFd s)
    (hk : s.ops k = some ⟨asyncRecvFixed slot p, .armed file⟩)
    (hmay : KernelMay s.net (asyncRecvFixed slot p) file res data) :
    Inv listenFd (State.transfer
      { s with
        ops := Function.update s.ops k (some ⟨asyncRecvFixed slot p, .done res⟩)
        cq := s.cq ++ [k] }
      (asyncRecvFixed slot p) file res data) := by
  have hok := h.ops k _ hk
  generalize ho : (⟨asyncRecvFixed slot p, .armed file⟩ : Op) = o at hok
  cases hok with
  | accept => cases ho
  | send => cases ho
  | close => cases ho
  | @recv _ _ buf c _ frame hfile ne len serving armed within rest =>
    cases ho
    obtain rfl : file = some c := armed
    obtain ⟨hres, hle, hdata⟩ := received_length hmay
    have hstore : storeBuf s.app p 0 data =
        s.app.suspend p (.clientHandler slot (pwrite 0 buf 0 data) .recv c) := by
      simp [storeBuf, frame]
    have hrx : (s.net.receive c data).rx c = s.net.tx c ++ data := by
      simp only [recvRest, List.append_nil] at rest
      simp [Net.receive, rest]
    have hnew : OpOk listenFd
        (s.app.suspend p (.clientHandler slot (pwrite 0 buf 0 data) .recv c))
        (s.net.receive c data) s.log ⟨asyncRecvFixed slot p, .done res⟩ := by
      refine .recv (suspend_self _) hfile ne ?_ serving trivial hle ?_
      · rw [pwrite_front]
        simp
        omega
      · rw [hrx, recvRest, hres, take_pwrite_front]
        rfl
    simp only [State.transfer, asyncRecvFixed, hstore]
    exact h.executed hk (by rintro ⟨⟩) (Coroutines.conn_of frame)
      (h.net.receive (h.net.lt hfile) data) rfl rfl (suspend_like frame _ _)
      (fun p' hp' => suspend_of_ne hp' _) (fun c' hc' => Same.receive hc' data _) hnew
      (by rw [hrx]; exact List.prefix_append _ _)

theorem Inv.execSend {slot : Int} {p off len : Nat} (h : Inv listenFd s)
    (hk : s.ops k = some ⟨asyncSendFixed slot p off len, .armed file⟩)
    (hmay : KernelMay s.net (asyncSendFixed slot p off len) file res data) :
    Inv listenFd (State.transfer
      { s with
        ops := Function.update s.ops k (some ⟨asyncSendFixed slot p off len, .done res⟩)
        cq := s.cq ++ [k] }
      (asyncSendFixed slot p off len) file res data) := by
  have hok := h.ops k _ hk
  generalize ho : (⟨asyncSendFixed slot p off len, .armed file⟩ : Op) = o at hok
  cases hok with
  | accept => cases ho
  | recv => cases ho
  | close => cases ho
  | @send _ _ buf c n _ _ frame hfile ne hlen serving armed within more rest =>
    cases ho
    obtain rfl : file = some c := armed
    have hle : res ≤ (n - off : Nat) := hmay.1
    have hload : loadBuf s.app p off res.toNat = pread buf off res.toNat := by
      simp [loadBuf, frame]
    generalize hsent : pread buf off res.toNat = sent at hload
    have hrest : (s.net.transmit c sent).rx c =
        (s.net.transmit c sent).tx c ++ sendRest buf n off (.done res) := by
      simp only [Net.transmit, Function.update_self]
      rw [rest, List.append_assoc, ← hsent, sendRest, pread_append_drop (by omega)]
      rfl
    have hnew : OpOk listenFd s.app (s.net.transmit c sent) s.log
        ⟨asyncSendFixed slot p off (n - off), .done res⟩ :=
      .send frame hfile ne hlen serving trivial hle more hrest
    simp only [State.transfer, asyncSendFixed, hload]
    exact h.executed hk (by rintro ⟨⟩) (Coroutines.conn_of frame)
      (h.net.transmit (h.net.lt hfile) sent) rfl rfl (.refl _) (fun _ _ => rfl)
      (fun c' hc' => Same.transmit hc' sent _) hnew
      (by rw [hrest]; exact List.prefix_append _ _)

theorem Inv.execClose {slot : Int} {p : Nat} (h : Inv listenFd s)
    (hk : s.ops k = some ⟨asyncCloseFixed slot p, .armed file⟩)
    (hmay : KernelMay s.net (asyncCloseFixed slot p) file res data) :
    Inv listenFd (State.transfer
      { s with
        ops := Function.update s.ops k (some ⟨asyncCloseFixed slot p, .done res⟩)
        cq := s.cq ++ [k] }
      (asyncCloseFixed slot p) file res data) := by
  have hok := h.ops k _ hk
  generalize ho : (⟨asyncCloseFixed slot p, .armed file⟩ : Op) = o at hok
  cases hok with
  | accept => cases ho
  | recv => cases ho
  | send => cases ho
  | @close _ _ buf c _ frame ne lt hfile closed =>
    cases ho
    have hslot : s.net.fds slot = some c := hfile
    obtain rfl : res = 0 := by
      have := hmay.2
      simpa [asyncCloseFixed, hslot] using this
    have hsub : ∀ fd c', (s.net.close slot).fds fd = some c' → s.net.fds fd = some c' := by
      intro fd c' hc'
      by_cases he : fd = slot
      · simp only [he, Net.close, Function.update_self] at hc'
        cases hc'
      · exact (Function.update_of_ne he _ _).symm.trans hc'
    have hout : ∀ fd, (s.net.close slot).fds fd ≠ some c := by
      intro fd hfd
      have he : fd = slot := h.net.inj (hsub fd c hfd) hslot
      simp only [he, Net.close, Function.update_self] at hfd
      cases hfd
    have hbefore : ∀ k' q' res', s.ops k' = some ⟨q', .done res'⟩ → q'.prep = .acceptDirect →
        0 ≤ res' → slot ≠ res' := by
      -- what is in the slot has a history, what has been accepted has none
      rintro k' q' res' hk' hq' h0 rfl
      obtain ⟨c', hn⟩ := (h.ops k' _ hk').newborn hq' h0
      cases hn.file.symm.trans hslot
      exact closed.ne_nil hn.hist
    have hnew : OpOk listenFd s.app (s.net.close slot) s.log ⟨asyncCloseFixed slot p, .done 0⟩ :=
      .close frame ne lt hout closed
    have hothers : ∀ k' o', k' ≠ k → s.ops k' = some o' →
        OpOk listenFd s.app (s.net.close slot) s.log o' :=
      h.others hk (Or.inl (Coroutines.conn_of frame)) (fun _ _ => rfl) (Nat.le_refl _)
        fun c' hc' => Same.close hslot hc' _
    simp only [State.transfer, asyncCloseFixed, Int.le_refl, if_true]
    refine h.execute hk (.refl _) (h.net.close slot) (Nat.le_refl _) (fun _ => hbefore) hnew hothers
      (fun slot' c' hc' _ => Or.inl (hsub slot' c' hc')) (fun c' hne hlt hc' => ?_) h.echo
    by_cases he : c' = c
    · rw [he]
      exact closed
    · exact h.gone c' hne hlt fun fd hfd =>
        hc' fd (((Same.close hslot he s.log).fds fd).2 hfd)

/-! ### The loop takes a completion -/

theorem Inv.fresh_requeue (h : Inv listenFd s) (hk : s.ops k = some o) (o' : Option Op) :
    ∀ k', s.nextOp + 1 ≤ k' →
      Function.update (Function.update s.ops k none) s.nextOp o' k' = none := by
  intro k' hk'
  rw [Function.update_of_ne (by omega)]
  exact h.fresh_update hk none k' (Nat.le_of_succ_le hk')

theorem Inv.posted_pop {cq : List Nat} (h : Inv listenFd s) (hcq : s.cq = k :: cq) :
    Posted (Function.update s.ops k none) cq := by
  have hposted := h.posted
  rw [hcq] at hposted
  exact hposted.pop

theorem Inv.posted_requeue {cq : List Nat} (h : Inv listenFd s) (hcq : s.cq = k :: cq)
    (hk : s.ops k = some o) (q' : Sqe) :
    Posted (Function.update (Function.update s.ops k none) s.nextOp (some ⟨q', .queued⟩)) cq := by
  refine (h.posted_pop hcq).set ?_ (by rintro _ _ ⟨⟩)
  rw [h.fresh_update hk none _ (Nat.le_refl _)]
  rintro _ _ ⟨⟩

theorem Inv.waiting_requeue {slot : Int} (h : Inv listenFd s) (hk : s.ops k = some ⟨q, .done res⟩)
    (hq : q.prep = .acceptDirect → 0 ≤ res → res ≠ slot) (hw : Waiting s.ops slot)
    (o' : Option Op) :
    Waiting (Function.update (Function.update s.ops k none) s.nextOp o') slot := by
  have hout : Waiting (Function.update s.ops k none) slot := by
    obtain ⟨k', q', hk', hq', h0⟩ := hw
    refine ⟨k', q', ?_, hq', h0⟩
    rw [Function.update_of_ne]
    · exact hk'
    · rintro rfl
      rw [hk] at hk'
      cases hk'
      exact hq hq' h0 rfl
  refine hout.update (fun q' hq' => ?_) o'
  rw [h.fresh_update hk none _ (Nat.le_refl _)] at hq'
  cases hq'

/-- The coroutine goes on to its next request. -/
theorem Inv.requeue {cq : List Nat} (h : Inv listenFd s) (σ : Coroutines) (q' : Sqe)
    (hcq : s.cq = k :: cq) (hk : s.ops k = some ⟨q, .done res⟩)
    (hq : q.prep = .acceptDirect → res < 0) (hp : q'.userData = q.userData)
    (hl : s.app.Like σ)
    (hin : ∀ c, σ.conn q'.userData = some c → ∃ fd, s.net.fds fd = some c)
    (hnew : OpOk listenFd σ s.net (s.log ++ [(σ.conn q'.userData, q'.prep)]) ⟨q', .queued⟩)
    (hothers : ∀ k' o', k' ≠ k → s.ops k' = some o' →
      OpOk listenFd σ s.net (s.log ++ [(σ.conn q'.userData, q'.prep)]) o') :
    Inv listenFd (State.queueAll
      { s with app := σ, ops := Function.update s.ops k none, cq := cq } [q']) where
  net := h.net
  pos := h.pos
  fresh := h.fresh_requeue hk _
  posted := h.posted_requeue hcq hk q'
  excl := (h.excl.requeue hk rfl (h.fresh _ (Nat.le_refl _)) (congrArg some hp)).congr hl.live
  unused := h.unused_like hl
  ops := forall_requeue
    (P := fun _ o => OpOk listenFd σ s.net (s.log ++ [(σ.conn q'.userData, q'.prep)]) o) hnew
    hothers
  slots := by
    show Single σ.slot
    rw [hl.slot]
    exact h.slots
  conns := by
    show Single σ.conn
    rw [hl.conn]
    exact h.conns
  owned := fun slot c hc hne => by
    show (∃ p, σ.slot p = some slot ∧ σ.conn p = some c) ∨ _
    rw [hl.slot, hl.conn]
    exact (h.owned slot c hc hne).imp_right fun hw =>
      h.waiting_requeue hk (fun ha h0 => absurd (hq ha) (Int.not_lt.2 h0)) hw _
  gone := fun c hne hlt hout => by
    have hc : σ.conn q'.userData ≠ some c := by
      intro hc
      obtain ⟨fd, hfd⟩ := hin c hc
      exact hout fd hfd
    show Closed (hist (s.log ++ [(σ.conn q'.userData, q'.prep)]) c)
    rw [hist_of_ne _ hc]
    exact h.gone c hne hlt hout
  unborn := fun c hle => by
    have hc : σ.conn q'.userData ≠ some c := by
      intro hc
      obtain ⟨fd, hfd⟩ := hin c hc
      exact absurd (h.net.lt hfd) (Nat.not_lt.2 hle)
    show hist (s.log ++ [(σ.conn q'.userData, q'.prep)]) c = []
    rw [hist_of_ne _ hc]
    exact h.unborn c hle
  echo := h.echo

/-- A handler goes on to its next request. -/
theorem Inv.advance {p c : Nat} {slot : Int} {buf : List UInt8} {pt pt' : Point}
    {cq : List Nat} (h : Inv listenFd s) (q' : Sqe) (hcq : s.cq = k :: cq)
    (hk : s.ops k = some ⟨q, .done res⟩) (hq : q.prep ≠ .acceptDirect) (hp : q.userData = p)
    (hp' : q'.userData = p) (frame : s.app.frames p = some (.clientHandler slot buf pt c))
    (hfile : s.net.fds slot = some c)
    (hnew : OpOk listenFd (s.app.suspend p (.clientHandler slot buf pt' c)) s.net
      (s.log ++ [(some c, q'.prep)]) ⟨q', .queued⟩) :
    Inv listenFd (State.queueAll
      { s with
        app := s.app.suspend p (.clientHandler slot buf pt' c)
        ops := Function.update s.ops k none
        cq := cq } [q']) := by
  subst hp
  have hconn : (s.app.suspend q.userData (.clientHandler slot buf pt' c)).conn q'.userData =
      some c := by
    rw [hp']
    exact Coroutines.conn_of (suspend_self _)
  refine h.requeue _ q' hcq hk (fun ha => absurd ha hq) hp' (suspend_like frame _ _) ?_ ?_ ?_
  · intro c' hc'
    rw [hconn] at hc'
    cases hc'
    exact ⟨slot, hfile⟩
  · rw [hconn]
    exact hnew
  · rw [hconn]
    exact h.others hk (Or.inl (Coroutines.conn_of frame)) (fun p hne => suspend_of_ne hne _)
      (Nat.le_refl _) fun c' hc' => Same.log _ _ (by simpa using Ne.symm hc') _

theorem Inv.closeSlot {p c : Nat} {slot : Int} {buf : List UInt8} {pt : Point} {cq : List Nat}
    (h : Inv listenFd s) (hcq : s.cq = k :: cq) (hk : s.ops k = some ⟨q, .done res⟩)
    (hq : q.prep ≠ .acceptDirect) (hp : q.userData = p)
    (frame : s.app.frames p = some (.clientHandler slot buf pt c))
    (hfile : s.net.fds slot = some c) (ne : c ≠ 0) (serving : Serving (hist s.log c)) :
    Inv listenFd (State.queueAll
      { s with
        app := (RegisteredFds.closeSlot s.app p slot buf c).1
        ops := Function.update s.ops k none
        cq := cq } (RegisteredFds.closeSlot s.app p slot buf c).2) := by
  refine h.advance (asyncCloseFixed slot p) hcq hk hq hp rfl frame hfile ?_
  refine .close (suspend_self _) ne (h.net.lt hfile) hfile ?_
  rw [show (asyncCloseFixed slot p).prep = .closeDirect from rfl, hist_self]
  exact ⟨_, serving, rfl⟩

theorem Inv.sendLoop {p c n totalSent : Nat} {slot : Int} {buf : List UInt8} {pt : Point}
    {cq : List Nat} (h : Inv listenFd s) (hcq : s.cq = k :: cq)
    (hk : s.ops k = some ⟨q, .done res⟩) (hq : q.prep ≠ .acceptDirect) (hp : q.userData = p)
    (frame : s.app.frames p = some (.clientHandler slot buf pt c))
    (hfile : s.net.fds slot = some c) (ne : c ≠ 0) (len : buf.length = 4096)
    (serving : Serving (hist s.log c)) (hle : totalSent ≤ n)
    (rest : s.net.rx c = s.net.tx c ++ (buf.take n).drop totalSent) :
    Inv listenFd (State.queueAll
      { s with
        app := (RegisteredFds.sendLoop s.app p slot buf c n totalSent).1
        ops := Function.update s.ops k none
        cq := cq } (RegisteredFds.sendLoop s.app p slot buf c n totalSent).2) := by
  unfold RegisteredFds.sendLoop
  split
  · rename_i hlt
    refine h.advance (asyncSendFixed slot p totalSent (n - totalSent)) hcq hk hq hp rfl frame
      hfile ?_
    refine .send (suspend_self _) hfile ne len ?_ trivial trivial hlt rest
    rw [hist_self]
    exact serving.snoc (by rintro ⟨⟩)
  · rename_i hge
    obtain rfl : totalSent = n := by omega
    refine h.advance (asyncRecvFixed slot p) hcq hk hq hp rfl frame hfile ?_
    refine .recv (suspend_self _) hfile ne len ?_ trivial trivial ?_
    · rw [hist_self]
      exact serving.snoc (by rintro ⟨⟩)
    · rw [rest, List.drop_eq_nil_of_le (List.length_take_le _ _)]
      rfl

theorem Inv.completeRecv {p : Nat} {slot : Int} {cq : List Nat} (h : Inv listenFd s)
    (hcq : s.cq = k :: cq) (hk : s.ops k = some ⟨asyncRecvFixed slot p, .done res⟩) :
    Inv listenFd (State.queueAll
      { s with
        app := (resume listenFd s.net.fds s.app p res).1
        ops := Function.update s.ops k none
        cq := cq } (resume listenFd s.net.fds s.app p res).2) := by
  have hok := h.ops k _ hk
  generalize ho : (⟨asyncRecvFixed slot p, .done res⟩ : Op) = o at hok
  cases hok with
  | accept => cases ho
  | send => cases ho
  | close => cases ho
  | @recv _ _ buf c _ frame hfile ne len serving armed within rest =>
    cases ho
    have hle : res ≤ 4096 := within
    simp only [resume, frame]
    split
    · exact h.closeSlot hcq hk (by rintro ⟨⟩) rfl frame hfile ne serving
    · exact h.sendLoop hcq hk (by rintro ⟨⟩) rfl frame hfile ne len serving (Nat.zero_le _) rest

theorem Inv.completeSend {p off len : Nat} {slot : Int} {cq : List Nat} (h : Inv listenFd s)
    (hcq : s.cq = k :: cq) (hk : s.ops k = some ⟨asyncSendFixed slot p off len, .done res⟩) :
    Inv listenFd (State.queueAll
      { s with
        app := (resume listenFd s.net.fds s.app p res).1
        ops := Function.update s.ops k none
        cq := cq } (resume listenFd s.net.fds s.app p res).2) := by
  have hok := h.ops k _ hk
  generalize ho : (⟨asyncSendFixed slot p off len, .done res⟩ : Op) = o at hok
  cases hok with
  | accept => cases ho
  | recv => cases ho
  | close => cases ho
  | @send _ _ buf c n _ _ frame hfile ne hlen serving armed within more rest =>
    cases ho
    have hle : res ≤ (n - off : Nat) := within
    simp only [resume, frame]
    split
    · exact h.closeSlot hcq hk (by rintro ⟨⟩) rfl frame hfile ne serving
    · exact h.sendLoop hcq hk (by rintro ⟨⟩) rfl frame hfile ne hlen serving (by omega) rest

/-- The handler ends. -/
theorem Inv.completeClose {p : Nat} {slot : Int} {cq : List Nat} (h : Inv listenFd s)
    (hcq : s.cq = k :: cq) (hk : s.ops k = some ⟨asyncCloseFixed slot p, .done res⟩) :
    Inv listenFd (State.queueAll
      { s with
        app := (resume listenFd s.net.fds s.app p res).1
        ops := Function.update s.ops k none
        cq := cq } (resume listenFd s.net.fds s.app p res).2) := by
  have hok := h.ops k _ hk
  generalize ho : (⟨asyncCloseFixed slot p, .done res⟩ : Op) = o at hok
  cases hok with
  | accept => cases ho
  | recv => cases ho
  | send => cases ho
  | @close _ _ buf c _ frame ne lt hfile closed =>
    cases ho
    have hout : ∀ fd, s.net.fds fd ≠ some c := hfile
    simp only [resume, frame]
    have hothers : ∀ k' o', k' ≠ k → s.ops k' = some o' →
        OpOk listenFd (s.app.finish p) s.net s.log o' :=
      h.others hk (Or.inl (Coroutines.conn_of frame)) (fun _ hp' => finish_of_ne hp') (Nat.le_refl _)
        fun c' _ => Same.refl s.net s.log c'
    exact
      { net := h.net
        pos := h.pos
        fresh := h.fresh_update hk none
        posted := h.posted_pop hcq
        excl := (h.excl.retire hk rfl).congr fun p' => by
          by_cases he : p' = p
          · subst he
            exact iff_of_false (fun hne => hne finish_self) fun hne => hne.2 rfl
          · show (s.app.finish p).frames p' ≠ none ↔ _
            rw [finish_of_ne he]
            exact (and_iff_left he).symm
        unused := fun p' hp' => by
          show (s.app.finish p).frames p' = none
          by_cases he : p' = p
          · rw [he, finish_self]
          · rw [finish_of_ne he]
            exact h.unused p' hp'
        ops := forall_update (P := fun _ o => OpOk listenFd (s.app.finish p) s.net s.log o)
          (by rintro _ ⟨⟩) hothers
        slots := h.slots.mono fun _ _ => finish_slot
        conns := h.conns.mono fun _ _ => finish_conn
        owned := fun slot' c' hc' hne => by
          refine (h.owned slot' c' hc' hne).imp (fun hp' => ?_) fun hw => hw.update ?_ none
          · obtain ⟨p', hslot', hconn'⟩ := hp'
            have he : p' ≠ p := by
              rintro rfl
              rw [Coroutines.conn_of frame] at hconn'
              cases hconn'
              exact hout slot' hc'
            exact ⟨p', (Coroutines.slot_congr (finish_of_ne he)).trans hslot',
              (Coroutines.conn_congr (finish_of_ne he)).trans hconn'⟩
          · intro q' hq' ha
            rw [hk] at hq'
            cases hq'
            cases ha
        gone := h.gone
        unborn := h.unborn
        echo := h.echo }

/-- No handler has the slot of a connection that has none: what had the slot before has been
closed, and its completion stands before the accept's. -/
theorem Inv.slot_free {c : Nat} {cq : List Nat} (h : Inv listenFd s) (hcq : s.cq = k :: cq)
    (hk : s.ops k = some ⟨q, .done res⟩) (hq : q.prep = .acceptDirect) (h0 : 0 ≤ res)
    (hn : Newborn s.net s.log res c) (p : Nat) : s.app.slot p ≠ some res := by
  intro hp
  obtain ⟨buf, pt, c', hframe⟩ := Coroutines.slot_eq_some hp
  have hlive : s.app.frames p ≠ none := by
    rw [hframe]
    exact Option.some_ne_none _
  obtain ⟨k', o', hk', hown⟩ := (h.excl.live_iff p).1 hlive
  obtain rfl : o'.sqe.userData = p := Option.some.inj hown
  have hopen : s.net.fds res ≠ some c' := by
    intro hfd
    cases hn.file.symm.trans hfd
    exact (h.ops k' o' hk').hist_ne_nil (Coroutines.conn_of hframe) hn.hist
  have hok := h.ops k' o' hk'
  cases hok with
  | accept frame => cases frame.symm.trans hframe
  | recv frame hfile => cases frame.symm.trans hframe; exact hopen hfile
  | send frame hfile => cases frame.symm.trans hframe; exact hopen hfile
  | @close _ _ _ _ ph frame _ _ hfile =>
    cases frame.symm.trans hframe
    cases ph with
    | queued => exact hopen hfile
    | armed file => exact hopen hfile
    | done res' =>
      have hmem : k' ∈ s.cq := (h.posted.mem_iff k').2 ⟨_, _, hk'⟩
      rw [hcq, List.mem_cons] at hmem
      rcases hmem with rfl | hmem
      · rw [hk] at hk'
        cases hk'
        cases hq
      · have horder := h.posted.order
        rw [hcq, List.pairwise_cons] at horder
        exact horder.1 k' hmem q _ res res' hk hq h0 hk' rfl rfl

/-- No handler has a connection without a history. -/
theorem Inv.conn_free {c : Nat} {slot : Int} (h : Inv listenFd s)
    (hn : Newborn s.net s.log slot c) (p : Nat) : s.app.conn p ≠ some c := by
  intro hp
  obtain ⟨_, _, _, hframe⟩ := Coroutines.conn_eq_some hp
  have hlive : s.app.frames p ≠ none := by
    rw [hframe]
    exact Option.some_ne_none _
  obtain ⟨k', o', hk', hown⟩ := (h.excl.live_iff p).1 hlive
  obtain rfl : o'.sqe.userData = p := Option.some.inj hown
  exact (h.ops k' o' hk').hist_ne_nil hp hn.hist

theorem clientHandler_self (σ : Coroutines) (slot : Int) (c : Nat) :
    (clientHandler σ slot c).1.frames σ.next =
      some (.clientHandler slot (List.replicate 4096 0) .recv c) :=
  Function.update_self ..

theorem clientHandler_of_ne {σ : Coroutines} {p : Nat} (hp : p ≠ σ.next) (slot : Int) (c : Nat) :
    (clientHandler σ slot c).1.frames p = σ.frames p :=
  Function.update_of_ne hp _ _

/-- What the accept loop queues when a handler has started. -/
theorem queueAll_spawn {p c : Nat} {slot : Int} (hp : s.app.conn p = some c)
    (h0 : s.app.conn 0 = none) :
    s.queueAll [asyncRecvFixed slot p, asyncDirectAccept listenFd 0] =
      { s with
        ops := Function.update
          (Function.update s.ops s.nextOp (some ⟨asyncRecvFixed slot p, .queued⟩))
          (s.nextOp + 1) (some ⟨asyncDirectAccept listenFd 0, .queued⟩)
        nextOp := s.nextOp + 1 + 1
        log := s.log ++ [(some c, .recvFixed 0 4096)] ++ [(none, .acceptDirect)] } := by
  simp only [State.queueAll, List.foldl_cons, List.foldl_nil, State.queue, asyncRecvFixed,
    asyncDirectAccept, hp, h0]

theorem hist_spawn_self (log : List (Option Nat × Prep)) (c : Nat) (x y : Prep) :
    hist (log ++ [(some c, x)] ++ [(none, y)]) c = hist log c ++ [x] := by
  rw [hist_of_ne _ (by simp), hist_self]

theorem hist_spawn_of_ne (log : List (Option Nat × Prep)) {c c' : Nat} (hc : c' ≠ c) (x y : Prep) :
    hist (log ++ [(some c, x)] ++ [(none, y)]) c' = hist log c' := by
  rw [hist_of_ne _ (by simp), hist_of_ne _ (by simpa using Ne.symm hc)]

/-- The accept loop is not the next coroutine. -/
theorem Inv.next_ne (h : Inv listenFd s) (frame : s.app.frames 0 = some .acceptLoop) :
    0 ≠ s.app.next := by
  intro he
  have hnone := h.unused 0 (Nat.le_of_eq he.symm)
  rw [frame] at hnone
  cases hnone

/-- The requests after a handler has started: its own, and the next accept. -/
theorem Inv.excl_spawn {c : Nat} (h : Inv listenFd s)
    (hk : s.ops k = some ⟨asyncDirectAccept listenFd 0, .done res⟩)
    (frame : s.app.frames 0 = some .acceptLoop) :
    Exclusive
      (Function.update (Function.update (Function.update s.ops k none) s.nextOp
        (some ⟨asyncRecvFixed res s.app.next, .queued⟩)) (s.nextOp + 1)
        (some ⟨asyncDirectAccept listenFd 0, .queued⟩)) own
      fun p => (clientHandler s.app res c).1.frames p ≠ none := by
  have hnone : s.app.frames s.app.next = none := h.unused _ (Nat.le_refl _)
  have hne := h.next_ne frame
  have hrecv := (h.excl.retire hk rfl).spawn (b := ⟨asyncRecvFixed res s.app.next, .queued⟩)
    (i := s.app.next) (h.fresh_update hk none _ (Nat.le_refl _)) rfl (fun hl => hl.1 hnone)
  refine (hrecv.spawn (b := ⟨asyncDirectAccept listenFd 0, .queued⟩) (i := 0)
    (h.fresh_requeue hk _ _ (Nat.le_refl _)) rfl ?_).congr fun p => ?_
  · rintro (⟨-, hp⟩ | hp)
    · exact hp rfl
    · exact hne hp
  · by_cases he : p = s.app.next
    · rw [he, clientHandler_self]
      exact iff_of_true (Option.some_ne_none _) (Or.inl (Or.inr rfl))
    · rw [clientHandler_of_ne he]
      by_cases he0 : p = 0
      · rw [he0, frame]
        exact iff_of_true (Option.some_ne_none _) (Or.inr rfl)
      · exact ⟨fun hp => Or.inl (Or.inl ⟨hp, he0⟩), by
          rintro ((⟨hp, -⟩ | hp) | hp)
          · exact hp
          · exact absurd hp he
          · exact absurd hp he0⟩

/-- What they say. -/
theorem Inv.ops_spawn {c : Nat} (h : Inv listenFd s)
    (hk : s.ops k = some ⟨asyncDirectAccept listenFd 0, .done res⟩) (h0 : 0 ≤ res)
    (frame : s.app.frames 0 = some .acceptLoop) (hn : Newborn s.net s.log res c) :
    ∀ k' o', Function.update (Function.update (Function.update s.ops k none) s.nextOp
      (some ⟨asyncRecvFixed res s.app.next, .queued⟩)) (s.nextOp + 1)
      (some ⟨asyncDirectAccept listenFd 0, .queued⟩) k' = some o' →
      OpOk listenFd (clientHandler s.app res c).1 s.net
        (s.log ++ [(some c, .recvFixed 0 4096)] ++ [(none, .acceptDirect)]) o' := by
  have hnone : s.app.frames s.app.next = none := h.unused _ (Nat.le_refl _)
  have hne := h.next_ne frame
  have habout : About s.app s.net ⟨asyncDirectAccept listenFd 0, .done res⟩ c :=
    Or.inr ⟨rfl, res, rfl, h0, hn.file⟩
  refine forall_update (P := fun _ o => OpOk listenFd _ s.net _ o) ?_ fun k' o' _ => ?_
  · rintro _ ⟨⟩
    exact .accept ((clientHandler_of_ne hne ..).trans frame) (by rintro _ ⟨⟩)
  · refine forall_requeue (P := fun _ o => OpOk listenFd _ s.net _ o) ?_
      (fun k' o' hkk hk' => ?_) k' o'
    · refine .recv (clientHandler_self ..) hn.file hn.ne List.length_replicate ?_ trivial
        trivial ?_
      · rw [hist_spawn_self, hn.hist]
        exact ⟨by simp, by simp⟩
      · rw [hn.rx, hn.tx]
        rfl
    · refine (h.ops k' o' hk').keep (clientHandler_of_ne ?_ ..) (Nat.le_refl _) fun c' hc' =>
        ⟨fun _ => Iff.rfl, rfl, rfl,
          hist_spawn_of_ne _ (h.about_ne hk hk' hkk habout hc') _ _⟩
      intro he
      exact h.excl.live_own hk' rfl (he ▸ hnone)

/-- A handler starts. -/
theorem Inv.spawn {c : Nat} {cq : List Nat} (h : Inv listenFd s) (hcq : s.cq = k :: cq)
    (hk : s.ops k = some ⟨asyncDirectAccept listenFd 0, .done res⟩) (h0 : 0 ≤ res)
    (frame : s.app.frames 0 = some .acceptLoop) (hn : Newborn s.net s.log res c) :
    Inv listenFd (State.queueAll
      { s with
        app := (clientHandler s.app res c).1
        ops := Function.update s.ops k none
        cq := cq }
      ((clientHandler s.app res c).2 ++ [asyncDirectAccept listenFd 0])) := by
  have hnone : s.app.frames s.app.next = none := h.unused _ (Nat.le_refl _)
  have hne := h.next_ne frame
  have hslot : (clientHandler s.app res c).1.slot s.app.next = some res :=
    Coroutines.slot_of (clientHandler_self ..)
  have hconn : (clientHandler s.app res c).1.conn s.app.next = some c :=
    Coroutines.conn_of (clientHandler_self ..)
  have hconn0 : (clientHandler s.app res c).1.conn 0 = none := by
    rw [Coroutines.conn_congr (clientHandler_of_ne hne ..), Coroutines.conn, frame]
  rw [show (clientHandler s.app res c).2 ++ [asyncDirectAccept listenFd 0] =
    [asyncRecvFixed res s.app.next, asyncDirectAccept listenFd 0] from rfl,
    queueAll_spawn hconn hconn0]
  refine
    { net := h.net
      pos := h.pos
      fresh := fun k' hk' => ?_
      posted := ?_
      excl := h.excl_spawn hk frame
      unused := fun p hp => ?_
      ops := h.ops_spawn hk h0 frame hn
      slots := h.slots.add (fun p hp => Coroutines.slot_congr (clientHandler_of_ne hp ..)) hslot
        (h.slot_free hcq hk rfl h0 hn)
      conns := h.conns.add (fun p hp => Coroutines.conn_congr (clientHandler_of_ne hp ..)) hconn
        (h.conn_free hn)
      owned := fun slot c' hc' hne' => ?_
      gone := fun c' hne' hlt hout => ?_
      unborn := fun c' hle => ?_
      echo := h.echo }
  · have hk₂ : s.nextOp + 1 + 1 ≤ k' := hk'
    dsimp only
    rw [Function.update_of_ne (by omega)]
    exact h.fresh_requeue hk _ k' (Nat.le_of_succ_le hk₂)
  · refine (h.posted_requeue hcq hk _).set ?_ (by rintro _ _ ⟨⟩)
    rw [h.fresh_requeue hk _ _ (Nat.le_refl _)]
    rintro _ _ ⟨⟩
  · have hp' : s.app.next + 1 ≤ p := hp
    rw [clientHandler_of_ne (by omega)]
    exact h.unused p (Nat.le_of_succ_le hp')
  · by_cases he : slot = res
    · subst he
      cases hn.file.symm.trans hc'
      exact Or.inl ⟨_, hslot, hconn⟩
    · refine (h.owned slot c' hc' hne').imp (fun hp' => ?_) fun hw => ?_
      · obtain ⟨p, hslot', hconn'⟩ := hp'
        have hp : p ≠ s.app.next := by
          rintro rfl
          rw [Coroutines.conn, hnone] at hconn'
          cases hconn'
        exact ⟨p, (Coroutines.slot_congr (clientHandler_of_ne hp ..)).trans hslot',
          (Coroutines.conn_congr (clientHandler_of_ne hp ..)).trans hconn'⟩
      · refine (h.waiting_requeue hk (fun _ _ => Ne.symm he) hw _).update (fun q' hq' => ?_) _
        rw [h.fresh_requeue hk _ _ (Nat.le_refl _)] at hq'
        cases hq'
  · have hc' : c' ≠ c := by
      rintro rfl
      exact hout res hn.file
    show Closed (hist (s.log ++ [(some c, _)] ++ [(none, _)]) c')
    rw [hist_spawn_of_ne _ hc']
    exact h.gone c' hne' hlt hout
  · have hc' : c' ≠ c := by
      rintro rfl
      exact absurd (h.net.lt hn.file) (Nat.not_lt.2 hle)
    show hist (s.log ++ [(some c, _)] ++ [(none, _)]) c' = []
    rw [hist_spawn_of_ne _ hc']
    exact h.unborn c' hle

theorem Inv.completeAccept {cq : List Nat} (h : Inv listenFd s) (hcq : s.cq = k :: cq)
    (hk : s.ops k = some ⟨asyncDirectAccept listenFd 0, .done res⟩) :
    Inv listenFd (State.queueAll
      { s with
        app := (resume listenFd s.net.fds s.app 0 res).1
        ops := Function.update s.ops k none
        cq := cq } (resume listenFd s.net.fds s.app 0 res).2) := by
  have hok := h.ops k _ hk
  generalize ho : (⟨asyncDirectAccept listenFd 0, .done res⟩ : Op) = o at hok
  cases hok with
  | recv => cases ho
  | send => cases ho
  | close => cases ho
  | accept frame new =>
    cases ho
    simp only [resume, frame]
    split
    · rename_i hneg
      have hconn : s.app.conn 0 = none := by
        simp only [Coroutines.conn, frame]
      refine h.requeue s.app (asyncDirectAccept listenFd 0) hcq hk (fun _ => hneg)
        rfl (.refl _) ?_ ?_ fun k' o' _ hk' => ?_
      · intro c hc
        cases hconn.symm.trans hc
      · exact .accept frame (by rintro _ ⟨⟩)
      · refine (h.ops k' o' hk').keep rfl (Nat.le_refl _) fun c _ => Same.log _ _ ?_ _
        rw [show (asyncDirectAccept listenFd 0).userData = 0 from rfl, hconn]
        simp
    · rename_i h0
      obtain ⟨c, hn⟩ := new res rfl (Int.not_lt.1 h0)
      rw [hn.file]
      exact h.spawn hcq hk (Int.not_lt.1 h0) frame hn

theorem step_inv {e : Ev} (h : Inv listenFd s) (hs : step listenFd s e = some s') :
    Inv listenFd s' := by
  cases e with
  | submit =>
    simp only [step] at hs
    split at hs
    · rename_i q hk
      cases hs
      exact h.submit hk
    · cases hs
  | exec k res data =>
    simp only [step] at hs
    split at hs
    · rename_i q file hk
      split at hs
      · rename_i hmay
        cases hs
        have hok := h.ops k _ hk
        generalize ho : (⟨q, .armed file⟩ : Op) = o at hok
        cases hok with
        | accept => cases ho; exact h.execAccept hk hmay
        | recv => cases ho; exact h.execRecv hk hmay
        | send => cases ho; exact h.execSend hk hmay
        | close => cases ho; exact h.execClose hk hmay
      · cases hs
    · cases hs
  | dispatch =>
    simp only [step] at hs
    split at hs
    · rename_i k cq hcq
      split at hs
      · rename_i q res hk
        cases hs
        have hok := h.ops k _ hk
        generalize ho : (⟨q, .done res⟩ : Op) = o at hok
        cases hok with
        | accept => cases ho; exact h.completeAccept hcq hk
        | recv => cases ho; exact h.completeRecv hcq hk
        | send => cases ho; exact h.completeSend hcq hk
        | close => cases ho; exact h.completeClose hcq hk
      · cases hs
    · cases hs

theorem init_inv : Inv listenFd (server listenFd).init where
  net := Net.init_ok [0]
  pos := Nat.one_pos
  fresh := fun k hk => by
    have hne : k ≠ 0 := Nat.ne_of_gt hk
    simp [server, State.queue, hne]
  posted := by
    refine (⟨List.nodup_nil, fun k => ?_, .nil⟩ : Posted (fun _ => none) []).set
      (by rintro _ _ ⟨⟩) (by rintro _ _ ⟨⟩)
    exact iff_of_false (by simp) (by rintro ⟨_, _, ⟨⟩⟩)
  excl := by
    refine ((Exclusive.empty own).spawn (k := 0) (b := ⟨asyncDirectAccept listenFd 0, .queued⟩)
      (i := 0) rfl rfl id).congr fun p => ?_
    by_cases he : p = 0
    · subst he
      simp [server, State.queue]
    · simp [server, State.queue, he]
  unused := fun p hp => by
    have hne : p ≠ 0 := Nat.ne_of_gt hp
    simp [server, State.queue, hne]
  ops := by
    refine forall_update (k := 0) ?_ (by rintro _ _ _ ⟨⟩)
    rintro _ ⟨⟩
    exact .accept rfl (by rintro _ ⟨⟩)
  slots := fun p p' slot hp _ => by
    obtain ⟨buf, pt, c, hframe⟩ := Coroutines.slot_eq_some hp
    by_cases he : p = 0 <;> simp [server, State.queue, he] at hframe
  conns := fun p p' c hp _ => by
    obtain ⟨slot, buf, pt, hframe⟩ := Coroutines.conn_eq_some hp
    by_cases he : p = 0 <;> simp [server, State.queue, he] at hframe
  owned := fun slot c hc hne => by
    have hlt : c < 1 := (Net.init_ok [0]).lt hc
    omega
  gone := fun c hne hlt _ => by
    have hlt' : c < 1 := hlt
    omega
  unborn := fun _ _ => rfl
  echo := fun _ => List.nil_prefix

/-- **The invariant holds after every schedule.** -/
theorem run_inv {es : List Ev} (h : (server listenFd).run es = some s) : Inv listenFd s :=
  Machine.run_inv (M := server listenFd) init_inv (fun _ _ _ hi hs => step_inv hi hs) h

end Steps

/-! ## The slots as their users see them -/

/-- What holds of the server after every schedule.  Connection 0 is the listening socket. -/
structure Served (s : State) : Prop where
  /-- A coroutine has one request outstanding, and every request has its coroutine. -/
  oneRequest : ∀ p, s.app.frames p ≠ none →
    ∃! k, ∃ o, s.ops k = some o ∧ o.sqe.userData = p
  hasCoroutine : ∀ k o, s.ops k = some o → s.app.frames o.sqe.userData ≠ none
  /-- A slot has at most one handler. -/
  oneHandler : ∀ p p' slot buf buf' pt pt' c c',
    s.app.frames p = some (.clientHandler slot buf pt c) →
      s.app.frames p' = some (.clientHandler slot buf' pt' c') → p = p'
  /-- A connection in a slot has its handler, once the completion of the accept is handled. -/
  owned : ∀ slot c, s.net.fds slot = some c → c ≠ 0 →
    (∃! p, ∃ buf pt, s.app.frames p = some (.clientHandler slot buf pt c)) ∨ Waiting s.ops slot
  /-- Of the requests for a slot that has a handler exactly one is outstanding, the handler's. -/
  onSlot : ∀ p slot buf pt c, s.app.frames p = some (.clientHandler slot buf pt c) →
    ∃! k, ∃ o, s.ops k = some o ∧ o.sqe.prep ≠ .acceptDirect ∧ o.sqe.fd = slot
  /-- A request reaches no other connection than that of its handler, which is in the slot until
  the close has been executed. -/
  reach : ∀ k q ph, s.ops k = some ⟨q, ph⟩ → q.prep ≠ .acceptDirect →
    ∃ buf pt c, s.app.frames q.userData = some (.clientHandler q.fd buf pt c) ∧ c ≠ 0 ∧
      (∀ file, ph = .armed file → q.fixed → file = some c) ∧
      ((∀ res, ph ≠ .done res) → s.net.fds q.fd = some c)
  /-- Receives and sends are queued for a connection, then one close, then nothing. -/
  history : ∀ c, c ≠ 0 →
    hist s.log c = [] ∨ Serving (hist s.log c) ∨ Closed (hist s.log c)
  closing : ∀ p slot buf pt c, s.app.frames p = some (.clientHandler slot buf pt c) →
    if pt = .close then Closed (hist s.log c) else Serving (hist s.log c)
  /-- A connection that is in no slot any more has been closed. -/
  gone : ∀ c, c ≠ 0 → c < s.net.next → (∀ slot, s.net.fds slot ≠ some c) → Closed (hist s.log c)
  echo : ∀ c, s.net.tx c <+: s.net.rx c

section Served

variable {listenFd : Int} {s : State}

theorem Inv.request (h : Inv listenFd s) {p : Nat} (hp : s.app.frames p ≠ none) :
    ∃ k o, s.ops k = some o ∧ o.sqe.userData = p := by
  obtain ⟨k, o, hk, hown⟩ := (h.excl.live_iff p).1 hp
  exact ⟨k, o, hk, Option.some.inj hown⟩

/-- The history of a handler's connection. -/
theorem Inv.closing (h : Inv listenFd s) {p c : Nat} {slot : Int} {buf : List UInt8} {pt : Point}
    (hframe : s.app.frames p = some (.clientHandler slot buf pt c)) :
    if pt = .close then Closed (hist s.log c) else Serving (hist s.log c) := by
  obtain ⟨k, o, hk, rfl⟩ := h.request (p := p) (by rw [hframe]; exact Option.some_ne_none _)
  cases h.ops k o hk with
  | accept frame => cases frame.symm.trans hframe
  | recv frame _ _ _ serving => cases frame.symm.trans hframe; exact serving
  | send frame _ _ _ serving => cases frame.symm.trans hframe; exact serving
  | close frame _ _ _ closed => cases frame.symm.trans hframe; exact closed

theorem Inv.history (h : Inv listenFd s) {c : Nat} (hc : c ≠ 0) :
    hist s.log c = [] ∨ Serving (hist s.log c) ∨ Closed (hist s.log c) := by
  by_cases hlt : c < s.net.next
  · by_cases hin : ∃ slot, s.net.fds slot = some c
    · obtain ⟨slot, hslot⟩ := hin
      rcases h.owned slot c hslot hc with ⟨p, -, hp⟩ | ⟨k, q, hk, hq, h0⟩
      · obtain ⟨_, _, pt, hframe⟩ := Coroutines.conn_eq_some hp
        have hclosing := h.closing hframe
        split at hclosing
        · exact Or.inr (Or.inr hclosing)
        · exact Or.inr (Or.inl hclosing)
      · obtain ⟨c', hn⟩ := (h.ops k _ hk).newborn hq h0
        cases hn.file.symm.trans hslot
        exact Or.inl hn.hist
    · exact Or.inr (Or.inr (h.gone c hc hlt fun slot hslot => hin ⟨slot, hslot⟩))
  · exact Or.inl (h.unborn c (Nat.not_lt.1 hlt))

theorem Inv.reach (h : Inv listenFd s) {k : Nat} {q : Sqe} {ph : Phase}
    (hk : s.ops k = some ⟨q, ph⟩) (hq : q.prep ≠ .acceptDirect) :
    ∃ buf pt c, s.app.frames q.userData = some (.clientHandler q.fd buf pt c) ∧ c ≠ 0 ∧
      (∀ file, ph = .armed file → q.fixed → file = some c) ∧
      ((∀ res, ph ≠ .done res) → s.net.fds q.fd = some c) := by
  have hok := h.ops k _ hk
  generalize ho : (⟨q, ph⟩ : Op) = o at hok
  cases hok with
  | accept => cases ho; exact absurd rfl hq
  | recv frame hfile ne _ _ armed =>
    cases ho
    exact ⟨_, _, _, frame, ne, fun file hf _ => by subst hf; exact armed, fun _ => hfile⟩
  | send frame hfile ne _ _ armed =>
    cases ho
    exact ⟨_, _, _, frame, ne, fun file hf _ => by subst hf; exact armed, fun _ => hfile⟩
  | close frame ne lt hfile closed =>
    cases ho
    refine ⟨_, _, _, frame, ne, ?_, fun hnot => ?_⟩
    · rintro file - ⟨⟩
    · cases ph with
      | queued => exact hfile
      | armed file => exact hfile
      | done res => exact absurd rfl (hnot res)

theorem Inv.served (h : Inv listenFd s) : Served s where
  oneRequest := fun p hp => by
    simpa only [own, Option.some.injEq] using h.excl.existsUnique hp
  hasCoroutine := fun k o hk => h.excl.live_own hk rfl
  oneHandler := fun p p' slot _ _ _ _ _ _ hp hp' =>
    h.slots p p' slot (Coroutines.slot_of hp) (Coroutines.slot_of hp')
  owned := fun slot c hslot hne => by
    refine (h.owned slot c hslot hne).imp_left fun ⟨p, hp, hc⟩ => ?_
    obtain ⟨buf, pt, c', hframe⟩ := Coroutines.slot_eq_some hp
    obtain rfl : c' = c := Option.some.inj ((Coroutines.conn_of hframe).symm.trans hc)
    refine ⟨p, ⟨buf, pt, hframe⟩, ?_⟩
    rintro p' ⟨_, _, hframe'⟩
    exact h.slots p' p slot (Coroutines.slot_of hframe') hp
  onSlot := fun p slot buf pt c hframe => by
    obtain ⟨k, o, hk, rfl⟩ := h.request (p := p) (by rw [hframe]; exact Option.some_ne_none _)
    have hq : o.sqe.prep ≠ .acceptDirect := by
      intro ha
      cases h.ops k o hk with
      | accept frame => cases frame.symm.trans hframe
      | recv => cases ha
      | send => cases ha
      | close => cases ha
    obtain ⟨_, _, _, hreach, -⟩ := h.reach hk hq
    cases hreach.symm.trans hframe
    refine ⟨k, ⟨o, hk, hq, rfl⟩, ?_⟩
    rintro k' ⟨o', hk', hq', hfd⟩
    obtain ⟨_, _, _, hreach', -⟩ := h.reach hk' hq'
    rw [hfd] at hreach'
    have hp := h.slots _ _ _ (Coroutines.slot_of hreach') (Coroutines.slot_of hframe)
    exact h.excl.inj hk' hk rfl (congrArg some hp.symm)
  reach := fun k q ph hk hq => h.reach hk hq
  history := fun c hc => h.history hc
  closing := fun p slot buf pt c hframe => h.closing hframe
  gone := h.gone
  echo := h.echo

end Served

/-- **Registered slots.**  After every schedule a slot that has been accepted has one handler and
the handler one request, which reaches no other connection; a connection is closed once, after its
last receive or send; and what is sent on it is a prefix of what it received. -/
theorem registered_slots (listenFd : Int) (es : List Ev) (s : State)
    (h : (server listenFd).run es = some s) : Served s :=
  (run_inv h).served

/-- Two bytes, of which one is sent back before the send fails; the slot is closed and given to the
next connection. -/
def reusedSlot : List Ev :=
  [.submit, .exec 0 1 [], .dispatch, .submit, .submit, .exec 1 2 [104, 105], .dispatch, .submit,
    .exec 3 1 [], .dispatch, .submit, .exec 4 (-32) [], .dispatch, .submit, .exec 5 0 [],
    .exec 2 1 [], .dispatch, .dispatch, .submit, .submit, .exec 6 1 [33], .dispatch]

theorem registered_slots_reused : ∃ s, (server 3).run reusedSlot = some s ∧
    s.net.fds 1 = some 2 ∧ s.net.tx 1 = [104] ∧ s.net.rx 2 = [33] ∧ Served s := by
  obtain ⟨s, hs, hfds, htx, hrx⟩ : ∃ s, (server 3).run reusedSlot = some s ∧
      s.net.fds 1 = some 2 ∧ s.net.tx 1 = [104] ∧ s.net.rx 2 = [33] :=
    ⟨_, rfl, by decide, by decide, by decide⟩
  exact ⟨s, hs, hfds, htx, hrx, registered_slots 3 reusedSlot s hs⟩

end AdvCpp.Uring.RegisteredFds
