import AdvCpp.Uring.BufferSelect

/-!
# Conservation of buffers and events

Whatever the variant, every buffer is in the ring, in a completion that is not handled, or in a live
`SendEvent`, and every live event belongs to exactly one request.  While a completion is handled its
event is in the hands of the loop (`hand`), and so may be a buffer (`extra`); each primitive of the
program moves one of them.

* `Inv` — the invariant, with what is in hand.
* `Inv.spawn`, `Inv.release`, `Inv.delete`, `Inv.recycle`, `Inv.pop` — the primitives.
* `step_inv` — every event keeps it.
-/

namespace AdvCpp.Uring.BufferSelect

open AdvCpp.Lib

variable {ρ : Type} {V : Variant ρ} {s s' : State ρ} {K K' : Kernel} {k p : Nat}
  {hand : Option Nat} {extra : List Nat} {o o' : Op} {e : Event ρ} {q : Sqe}

/-! ## Where buffers are -/

/-- The buffers of the completions that are not handled yet. -/
def Op.held (o : Op) : List Nat := o.posted.filterMap Shot.buffer

def Event.held : Event ρ → List Nat
  | .send _ bid _ _ _ => [bid]
  | _ => []

/-- The buffers of the provided ring. -/
def State.provided (s : State ρ) : List Nat := (s.kern.br.contents NUM_BUFS).map Buf.bid

/-- The buffers of unprocessed completions. -/
def State.unprocessed (s : State ρ) : List Nat := gather Op.held s.kern.nextOp s.kern.ops

/-- The buffers of live events. -/
def State.sending (s : State ρ) : List Nat := gather Event.held s.app.next s.app.heap

/-- The live events that are not in hand. -/
def Server.resting (σ : Server ρ) : Option Nat → Nat → Option (Event ρ)
  | none => σ.heap
  | some p => Function.update σ.heap p none

/-- The buffers that are not in the ring, with what is in hand. -/
def State.out (s : State ρ) (hand : Option Nat) (extra : List Nat) : List Nat :=
  s.unprocessed ++ gather Event.held s.app.next (s.app.resting hand) ++ extra

/-! ## The invariant -/

/-- What a request has to do with its event. -/
def Tied (V : Variant ρ) : Event ρ → Sqe → Prop
  | .accept fd, q => q.fd = fd ∧ q.prep = .accept V.multishot
  | .recv fd, q => q.fd = fd ∧ q.prep = .recv V.multishot
  | .send fd bid len offset _, q =>
    q.fd = fd ∧ q.prep = .send (bid * BUF_SIZE + offset) (len - offset) ∧ offset < len ∧
      len ≤ BUF_SIZE

/-- The results a request may have: exactly a receive with data carries a buffer. -/
def ShotOk (sh : Shot) : Prep → Prop
  | .accept _ => sh.buffer = none
  | .recv _ => (sh.buffer = none ↔ sh.res ≤ 0) ∧ sh.res ≤ BUF_SIZE
  | .send _ len => sh.buffer = none ∧ sh.res ≤ len

/-- The owner of a request is the event behind its `user_data`. -/
def owner (o : Op) : Option Nat := some o.sqe.userData

/-- Buffers and events while the event `hand` and the buffers `extra` are in hand. -/
structure Inv (V : Variant ρ) (hand : Option Nat) (extra : List Nat) (s : State ρ) : Prop where
  ub : s.ub = false
  net : s.kern.net.Ok
  fresh : ∀ k, s.kern.nextOp ≤ k → s.kern.ops k = none
  files : ∀ k o, s.kern.ops k = some o → ∀ c, o.phase = .armed (some c) → c < s.kern.net.next
  heapFresh : ∀ p, s.app.next ≤ p → s.app.heap p = none
  inHand : ∀ p, hand = some p → s.app.heap p ≠ none
  events : Exclusive s.kern.ops owner fun p => s.app.resting hand p ≠ none
  nodupFreed : s.app.freed.Nodup
  freed : ∀ p, p ∈ s.app.freed ↔ p < s.app.next ∧ s.app.heap p = none
  tied : ∀ k o, s.kern.ops k = some o → ∀ e, s.app.heap o.sqe.userData = some e → Tied V e o.sqe
  shots : ∀ k o, s.kern.ops k = some o → ∀ sh ∈ o.posted, ShotOk sh o.sqe.prep
  multi : ∀ k o, s.kern.ops k = some o → o.shots ≠ [] → o.sqe.prep.multishot = true
  ring : ∀ b ∈ s.kern.br.contents NUM_BUFS, b.addr = b.bid * BUF_SIZE ∧ b.len = BUF_SIZE
  buffers : (s.provided ++ s.out hand extra).Perm (List.range NUM_BUFS)
  ledger : s.kern.handed.Perm (s.kern.recycled ++ s.out hand extra)

/-- An event in hand has no request. -/
theorem Inv.not_owner (h : Inv V (some p) extra s) (hk : s.kern.ops k = some o) :
    o.sqe.userData ≠ p := by
  intro he
  have hlive := h.events.live_own hk (congrArg some he)
  exact hlive (Function.update_self ..)

theorem Inv.lt (h : Inv V hand extra s) (hk : s.kern.ops k = some o) : k < s.kern.nextOp := by
  rcases Nat.lt_or_ge k s.kern.nextOp with hlt | hge
  · exact hlt
  · rw [h.fresh k hge] at hk
    cases hk

theorem Inv.heap_lt (h : Inv V hand extra s) (hp : s.app.heap p ≠ none) : p < s.app.next := by
  rcases Nat.lt_or_ge p s.app.next with hlt | hge
  · exact hlt
  · exact absurd (h.heapFresh p hge) hp

/-- The event of a request is alive. -/
theorem Inv.live (h : Inv V hand extra s) (hk : s.kern.ops k = some o) :
    s.app.heap o.sqe.userData ≠ none := by
  have hlive := h.events.live_own hk rfl
  cases hand with
  | none => exact hlive
  | some p =>
    simp only [Server.resting, Function.update_of_ne (h.not_owner hk)] at hlive
    exact hlive

theorem Inv.event (h : Inv V hand extra s) (hk : s.kern.ops k = some o) :
    ∃ e, s.app.heap o.sqe.userData = some e ∧ Tied V e o.sqe := by
  obtain ⟨e, he⟩ := Option.ne_none_iff_exists'.1 (h.live hk)
  exact ⟨e, he, h.tied k o hk e he⟩

/-! ## Regions of the pool -/

/-- The region `[addr, addr + n)` lies in buffer `bid`. -/
def InBuf (bid addr n : Nat) : Prop := bid * BUF_SIZE ≤ addr ∧ addr + n ≤ (bid + 1) * BUF_SIZE

theorem InBuf.disjoint {bid bid' addr addr' n n' : Nat} (h : InBuf bid addr n)
    (h' : InBuf bid' addr' n') (hne : bid ≠ bid') : addr + n ≤ addr' ∨ addr' + n' ≤ addr := by
  obtain ⟨h1, h2⟩ := h
  obtain ⟨h1', h2'⟩ := h'
  rcases Nat.lt_or_gt_of_ne hne with hlt | hgt
  · have hle : bid + 1 ≤ bid' := hlt
    have := Nat.mul_le_mul_right BUF_SIZE hle
    omega
  · have hle : bid' + 1 ≤ bid := hgt
    have := Nat.mul_le_mul_right BUF_SIZE hle
    omega

theorem Inv.perm (h : Inv V none [] s) :
    (s.provided ++ (s.unprocessed ++ s.sending)).Perm (List.range NUM_BUFS) := by
  have hb := h.buffers
  rwa [State.out, List.append_nil] at hb

/-- A buffer that is held is not in the ring. -/
theorem Inv.not_provided {bid : Nat} (h : Inv V none [] s)
    (hm : bid ∈ s.unprocessed ++ s.sending) : bid ∉ s.provided := by
  have hnodup := h.perm.nodup_iff.2 List.nodup_range
  exact fun hp => List.disjoint_of_nodup_append hnodup hp hm

/-- What a completion has received lies in a buffer that is not in the ring. -/
theorem Inv.shot_inBuf {sh : Shot} {bid : Nat} (h : Inv V none [] s) (hk : s.kern.ops k = some o)
    (hsh : sh ∈ o.posted) (hbid : sh.buffer = some bid) :
    bid ∉ s.provided ∧ InBuf bid (bid * BUF_SIZE) sh.res.toNat := by
  have hheld : bid ∈ o.held := List.mem_filterMap.2 ⟨sh, hsh, hbid⟩
  refine ⟨h.not_provided (List.mem_append_left _ (mem_gather.2 ⟨k, o, h.lt hk, hk, hheld⟩)),
    Nat.le_refl _, ?_⟩
  have hok := h.shots k o hk sh hsh
  have hle : sh.res ≤ BUF_SIZE := by
    cases hp : o.sqe.prep with
    | accept ms =>
      rw [hp] at hok
      cases hbid.symm.trans hok
    | recv ms =>
      rw [hp] at hok
      exact hok.2
    | send addr len =>
      rw [hp] at hok
      cases hbid.symm.trans hok.1
  rw [Nat.succ_mul]
  omega

/-- What a send reads lies in the buffer of its event, which is not in the ring. -/
theorem Inv.send_inBuf {addr n : Nat} (h : Inv V none [] s) (hk : s.kern.ops k = some o)
    (hp : o.sqe.prep = .send addr n) :
    ∃ fd bid len offset r, s.app.heap o.sqe.userData = some (.send fd bid len offset r) ∧
      bid ∉ s.provided ∧ InBuf bid addr n := by
  obtain ⟨e, he, ht⟩ := h.event hk
  cases e with
  | accept fd => cases hp.symm.trans ht.2
  | recv fd => cases hp.symm.trans ht.2
  | send fd bid len offset r =>
    obtain ⟨-, hprep, hlt, hle⟩ := ht
    cases hp.symm.trans hprep
    have hsend : bid ∈ s.sending :=
      mem_gather.2 ⟨_, _, h.heap_lt (h.live hk), he, List.mem_singleton_self _⟩
    refine ⟨fd, bid, len, offset, r, he, h.not_provided (List.mem_append_right _ hsend), ?_, ?_⟩
    · omega
    · rw [Nat.succ_mul]
      omega

/-- **Storing data in the next buffer of the ring changes no region that is held.** -/
theorem Inv.peek_handOut {b : Buf} {br : CounterRing Buf} {data : List Byte} {bid addr n : Nat}
    (h : Inv V none [] s) (hb : s.kern.br.take NUM_BUFS = some (b, br))
    (hfit : data.length ≤ b.len) (hbid : bid ∉ s.provided) (hin : InBuf bid addr n) :
    peek (poke s.kern.mem b.addr data) addr n = peek s.kern.mem addr n := by
  have hmem : b ∈ s.kern.br.contents NUM_BUFS := by
    rw [CounterRing.contents_take (by decide) hb]
    exact List.mem_cons_self
  obtain ⟨haddr, hlen⟩ := h.ring b hmem
  have hne : b.bid ≠ bid := by
    rintro rfl
    exact hbid (List.mem_map_of_mem hmem)
  have hbuf : InBuf b.bid b.addr data.length := by
    refine ⟨Nat.le_of_eq haddr.symm, ?_⟩
    rw [haddr, Nat.succ_mul]
    omega
  exact peek_poke_of_disjoint (hbuf.disjoint hin hne)

/-! ## Primitives -/

theorem Inv.closeFd (h : Inv V hand extra s) (fd : Int) : Inv V hand extra (s.closeFd fd) :=
  { h with net := h.net.close fd }

theorem Inv.insertClient (h : Inv V hand extra s) (fd : Int) :
    Inv V hand extra (s.insertClient fd) :=
  { h with }

theorem Inv.eraseClient (h : Inv V hand extra s) (fd : Int) :
    Inv V hand extra (s.eraseClient fd) :=
  { h with }

/-- **A request changes but keeps its event**: buffers move between it and the hand. -/
theorem Inv.setOp {extra' : List Nat} (h : Inv V hand extra s) (hk : s.kern.ops k = some o)
    (hsqe : o'.sqe = o.sqe) (hshots : ∀ sh ∈ o'.posted, ShotOk sh o.sqe.prep)
    (hmulti : o'.shots ≠ [] → o.sqe.prep.multishot = true)
    (hfile : ∀ c, o'.phase = .armed (some c) → c < s.kern.net.next)
    (hheld : (o'.held ++ extra').Perm (o.held ++ extra)) :
    Inv V hand extra' { s with kern := s.kern.setOp k (some o') } := by
  have hout : (State.out { s with kern := s.kern.setOp k (some o') } hand extra').Perm
      (s.out hand extra) := by
    have hu := gather_update Op.held s.kern.ops (some o') (h.lt hk)
    rw [hk] at hu
    refine List.perm_iff_count.2 fun a => ?_
    have h1 := List.perm_iff_count.1 hu a
    have h2 := List.perm_iff_count.1 hheld a
    simp only [State.out, State.unprocessed, Kernel.setOp, List.count_append, Option.elim_some]
      at h1 h2 ⊢
    omega
  exact
    { h with
      fresh := fun k' hk' => by
        have hne : k' ≠ k := Nat.ne_of_gt (Nat.lt_of_lt_of_le (h.lt hk) hk')
        exact (Function.update_of_ne hne _ _).trans (h.fresh k' hk')
      files := forall_update (by rintro _ ⟨⟩; exact hfile) fun k' o _ => h.files k' o
      events := h.events.set hk (by unfold owner; rw [hsqe])
      tied := forall_update (by rintro _ ⟨⟩; rw [hsqe]; exact h.tied k o hk)
        fun k' o _ => h.tied k' o
      shots := forall_update (by rintro _ ⟨⟩; rw [hsqe]; exact hshots) fun k' o _ => h.shots k' o
      multi := forall_update (by rintro _ ⟨⟩; rw [hsqe]; exact hmulti) fun k' o _ => h.multi k' o
      buffers := (hout.append_left _).trans h.buffers
      ledger := h.ledger.trans (hout.symm.append_left _) }

/-- A table after an entry is added. -/
theorem update_ne_none {β : Type} {t : Nat → Option β} {n i : Nat} {b : β} :
    Function.update t n (some b) i ≠ none ↔ t i ≠ none ∨ i = n := by
  by_cases hi : i = n
  · subst hi
    simp
  · simp [hi]

/-- **A new event and its request**; a buffer in hand goes into the event. -/
theorem Inv.spawn (h : Inv V hand (e.held ++ extra) s) (he : Tied V e q)
    (hq : q.userData = s.app.next) : Inv V hand extra ((s.queue q).newEvent e) := by
  have hnone : s.app.heap s.app.next = none := h.heapFresh _ (Nat.le_refl _)
  have hrest : ((s.queue q).newEvent e).app.resting hand =
      Function.update (s.app.resting hand) s.app.next (some e) := by
    cases hhand : hand with
    | none => rfl
    | some p =>
      have hne : s.app.next ≠ p := by
        rintro rfl
        exact h.inHand _ hhand hnone
      exact Function.update_comm hne _ _ _
  have hnorest : s.app.resting hand s.app.next = none := by
    cases hand with
    | none => exact hnone
    | some p =>
      by_cases hp : s.app.next = p
      · rw [hp]
        exact Function.update_self ..
      · exact (Function.update_of_ne hp _ _).trans hnone
  have hout : (((s.queue q).newEvent e).out hand extra).Perm (s.out hand (e.held ++ extra)) := by
    have h1 := gather_add Op.held s.kern.ops s.kern.nextOp ⟨q, s.kern.cur, .queued, []⟩
    have h2 := gather_add Event.held (s.app.resting hand) s.app.next e
    unfold State.out
    rw [hrest]
    simp only [State.unprocessed, State.queue, State.newEvent]
    rw [h1, h2]
    refine List.perm_iff_count.2 fun a => ?_
    simp only [Op.held, Op.posted, Phase.last, List.append_nil, List.filterMap_nil,
      List.count_append]
    omega
  refine
    { ub := h.ub, net := h.net, ring := h.ring, nodupFreed := h.nodupFreed
      fresh := fun k hk => ?_, files := ?_, heapFresh := fun p hp => ?_
      inHand := fun p hp => ?_, events := ?_, freed := fun p => ?_, tied := ?_, shots := ?_, multi := ?_
      buffers := (hout.append_left _).trans h.buffers
      ledger := h.ledger.trans (hout.symm.append_left _) }
  · exact (Function.update_of_ne (Nat.ne_of_gt hk) _ _).trans (h.fresh k (Nat.le_of_succ_le hk))
  · refine forall_update ?_ fun k o _ => h.files k o
    rintro _ ⟨⟩ c ⟨⟩
  · exact (Function.update_of_ne (Nat.ne_of_gt hp) _ _).trans (h.heapFresh p (Nat.le_of_succ_le hp))
  · exact update_ne_none.2 (Or.inl (h.inHand p hp))
  · rw [hrest]
    refine (h.events.spawn (h.fresh _ (Nat.le_refl _)) (congrArg some hq)
      fun hl => hl hnorest).congr fun p => ?_
    exact update_ne_none
  · show p ∈ s.app.freed ↔ p < s.app.next + 1 ∧ Function.update s.app.heap s.app.next (some e) p = none
    rw [h.freed p]
    by_cases hp : p = s.app.next
    · subst hp
      simp
    · rw [Function.update_of_ne hp]
      have hlt : p < s.app.next ↔ p < s.app.next + 1 := by omega
      rw [hlt]
  · refine forall_update ?_ fun k o _ hk => ?_
    · intro o' ho' e' he'
      cases ho'
      simp only [State.newEvent, State.queue, hq, Function.update_self] at he'
      cases he'
      exact he
    · intro e' he'
      have hlive := h.heap_lt (h.live hk)
      simp only [State.newEvent, State.queue, Function.update_of_ne (Nat.ne_of_lt hlive)] at he'
      exact h.tied k o hk e' he'
  · refine forall_update ?_ fun k o _ => h.shots k o
    rintro _ ⟨⟩ sh ⟨⟩
  · refine forall_update ?_ fun k o _ => h.multi k o
    rintro _ ⟨⟩ hne
    exact absurd rfl hne

/-- **The fields of the event in hand are written.** -/
theorem Inv.setEvent (h : Inv V (some p) extra s) (e : Event ρ) :
    Inv V (some p) extra (s.setEvent p e) := by
  have hlt : p < s.app.next := h.heap_lt (h.inHand p rfl)
  have hrest : (s.setEvent p e).app.resting (some p) = s.app.resting (some p) :=
    Function.update_idem _ _ _
  have hout : (s.setEvent p e).out (some p) extra = s.out (some p) extra := by
    unfold State.out
    rw [hrest]
    rfl
  exact
    { h with
      heapFresh := fun p' hp' => by
        have hne : p' ≠ p := Nat.ne_of_gt (Nat.lt_of_lt_of_le hlt hp')
        exact (Function.update_of_ne hne _ _).trans (h.heapFresh p' hp')
      inHand := fun p' hp' => update_ne_none.2 (Or.inl (h.inHand p' hp'))
      events := by rw [hrest]; exact h.events
      freed := fun p' => by
        refine (h.freed p').trans (and_congr_right fun _ => ?_)
        by_cases hp : p' = p
        · subst hp
          simp [State.setEvent, h.inHand p' rfl]
        · simp [State.setEvent, hp]
      tied := fun k o hk e' he' => by
        simp only [State.setEvent, Function.update_of_ne (h.not_owner hk)] at he'
        exact h.tied k o hk e' he'
      buffers := by rw [hout]; exact h.buffers
      ledger := by rw [hout]; exact h.ledger }

/-- **The event in hand gets a request again**, and the buffer in hand goes into it. -/
theorem Inv.release (h : Inv V (some p) (e.held ++ extra) s) (hp : s.app.heap p = some e)
    (he : Tied V e q) (hq : q.userData = p) : Inv V none extra (s.queue q) := by
  have hlt : p < s.app.next := h.heap_lt (h.inHand p rfl)
  have hnorest : s.app.resting (some p) p = none := Function.update_self ..
  have hout : ((s.queue q).out none extra).Perm (s.out (some p) (e.held ++ extra)) := by
    have h1 := gather_add Op.held s.kern.ops s.kern.nextOp ⟨q, s.kern.cur, .queued, []⟩
    have h2 := gather_update Event.held s.app.heap none hlt
    rw [hp] at h2
    unfold State.out
    simp only [State.unprocessed, State.queue]
    rw [h1]
    refine List.perm_iff_count.2 fun a => ?_
    have h3 := List.perm_iff_count.1 h2 a
    simp only [Server.resting, Op.held, Op.posted, Phase.last, List.append_nil,
      List.filterMap_nil, List.count_append, List.count_nil, Option.elim_none,
      Option.elim_some] at h3 ⊢
    omega
  refine
    { ub := h.ub, net := h.net, ring := h.ring, nodupFreed := h.nodupFreed
      fresh := fun k hk => ?_, files := ?_, heapFresh := h.heapFresh
      inHand := fun p hp => by cases hp
      events := ?_, freed := h.freed, tied := ?_, shots := ?_, multi := ?_
      buffers := (hout.append_left _).trans h.buffers
      ledger := h.ledger.trans (hout.symm.append_left _) }
  · exact (Function.update_of_ne (Nat.ne_of_gt hk) _ _).trans (h.fresh k (Nat.le_of_succ_le hk))
  · refine forall_update ?_ fun k o _ => h.files k o
    rintro _ ⟨⟩ c ⟨⟩
  · refine (h.events.spawn (h.fresh _ (Nat.le_refl _)) (congrArg some hq)
      fun hl => hl hnorest).congr fun p' => ?_
    rw [← update_ne_none (b := e)]
    simp only [Server.resting, Function.update_idem]
    rw [← hp, Function.update_eq_self]
    rfl
  · refine forall_update ?_ fun k o _ => h.tied k o
    intro o' ho' e' he'
    cases ho'
    have : e' = e := Option.some.inj (he'.symm.trans (hq ▸ hp))
    exact this ▸ he
  · refine forall_update ?_ fun k o _ => h.shots k o
    rintro _ ⟨⟩ sh ⟨⟩
  · refine forall_update ?_ fun k o _ => h.multi k o
    rintro _ ⟨⟩ hne
    exact absurd rfl hne

/-- **The event in hand is deleted.** -/
theorem Inv.delete (h : Inv V (some p) extra s) : Inv V none extra (s.delete p) := by
  obtain ⟨e, he⟩ := Option.ne_none_iff_exists'.1 (h.inHand p rfl)
  have hlt : p < s.app.next := h.heap_lt (h.inHand p rfl)
  have hdel : s.delete p =
      { s with app := { s.app with
          heap := Function.update s.app.heap p none, freed := p :: s.app.freed } } := by
    simp only [State.delete, he]
  rw [hdel]
  exact
    { h with
      heapFresh := fun p' hp' => by
        have hne : p' ≠ p := Nat.ne_of_gt (Nat.lt_of_lt_of_le hlt hp')
        exact (Function.update_of_ne hne _ _).trans (h.heapFresh p' hp')
      inHand := fun p' hp' => by cases hp'
      nodupFreed := List.nodup_cons.2 ⟨fun hm => h.inHand p rfl ((h.freed p).1 hm).2, h.nodupFreed⟩
      freed := fun p' => by
        rw [List.mem_cons, h.freed p']
        by_cases hp : p' = p
        · subst hp
          simp [hlt]
        · simp [hp]
      tied := fun k o hk e' he' => by
        simp only [Function.update_of_ne (h.not_owner hk)] at he'
        exact h.tied k o hk e' he' }

/-- **A buffer in hand goes back into the ring.** -/
theorem Inv.recycle {bid : Nat} (h : Inv V hand (bid :: extra) s) :
    Inv V hand extra (recycleBuf s bid) := by
  have hdvd : NUM_BUFS ∣ 2 ^ 16 := by decide
  have hsize : s.kern.br.size < NUM_BUFS := by
    have hlen := h.buffers.length_eq
    simp only [State.provided, State.out, List.length_append, List.length_map, List.length_cons,
      CounterRing.contents_length, List.length_range] at hlen
    omega
  have hring : (recycleBuf s bid).kern.br.contents NUM_BUFS =
      s.kern.br.contents NUM_BUFS ++ [⟨bid * BUF_SIZE, BUF_SIZE, bid⟩] :=
    CounterRing.contents_push hdvd (by decide) hsize _
  have hprov : (recycleBuf s bid).provided = s.provided ++ [bid] := by
    unfold State.provided
    rw [hring, List.map_append]
    rfl
  have hout : (s.out hand (bid :: extra)).Perm (bid :: (recycleBuf s bid).out hand extra) :=
    List.perm_middle
  exact
    { h with
      ring := fun b hb => by
        rw [hring, List.mem_append, List.mem_singleton] at hb
        rcases hb with hb | hb
        · exact h.ring b hb
        · rw [hb]
          exact ⟨rfl, rfl⟩
      buffers := by
        rw [hprov, List.append_assoc]
        exact (hout.symm.append_left _).trans h.buffers
      ledger := (h.ledger.trans (hout.append_left _)).trans List.perm_middle }

/-- **A buffer is handed out**, and data is stored in it. -/
theorem Inv.handOut {b : Buf} {br : CounterRing Buf} (h : Inv V hand extra s)
    (hb : s.kern.br.take NUM_BUFS = some (b, br)) {net : Net Byte} (hnet : net.Ok)
    (hnext : s.kern.net.next ≤ net.next) (mem : Nat → Byte) :
    Inv V hand (b.bid :: extra)
      { s with kern := { s.kern with
          br := br, mem := mem, net := net, handed := b.bid :: s.kern.handed } } := by
  have hcont := CounterRing.contents_take (by decide : NUM_BUFS ∣ 2 ^ 16) hb
  have hout : (s.out hand (b.bid :: extra)).Perm (b.bid :: s.out hand extra) := List.perm_middle
  exact
    { h with
      net := hnet
      files := fun k o hk c hc => Nat.lt_of_lt_of_le (h.files k o hk c hc) hnext
      ring := fun b' hb' => h.ring b' (by rw [hcont]; exact List.mem_cons_of_mem _ hb')
      buffers := by
        have hprov : s.provided = b.bid :: (br.contents NUM_BUFS).map Buf.bid := by
          unfold State.provided
          rw [hcont, List.map_cons]
        have hb := h.buffers
        rw [hprov] at hb
        exact ((hout.append_left _).trans List.perm_middle).trans hb
      ledger := (h.ledger.cons b.bid).trans (List.perm_middle.symm.trans (hout.symm.append_left _)) }

/-- The kernel's counters and its record are not part of it. -/
theorem Inv.frame (h : Inv V hand extra s) (submitted : Nat) (cur : Option Nat) {net : Net Byte}
    (hnet : net.Ok) (hnext : s.kern.net.next ≤ net.next) :
    Inv V hand extra
      { s with kern := { s.kern with submitted := submitted, cur := cur, net := net } } :=
  { h with
    net := hnet
    files := fun k o hk c hc => Nat.lt_of_lt_of_le (h.files k o hk c hc) hnext }

/-- **The last completion of a request is taken**: the event and its buffer are in hand. -/
theorem Inv.popLast {file : Option Nat} {sh : Shot} (h : Inv V none [] s)
    (hk : s.kern.ops k = some o) (hs : o.shots = []) (hp : o.phase = .ended file sh)
    (he : s.app.heap o.sqe.userData = some e) :
    Inv V (some o.sqe.userData) (e.held ++ sh.buffer.toList)
      { s with kern := s.kern.setOp k none } := by
  have hout : (State.out { s with kern := s.kern.setOp k none } (some o.sqe.userData)
      (e.held ++ sh.buffer.toList)).Perm (s.out none []) := by
    have h1 := gather_update Op.held s.kern.ops none (h.lt hk)
    have h2 := gather_update Event.held s.app.heap none (h.heap_lt (h.live hk))
    have hheld : o.held = sh.buffer.toList := by
      simp only [Op.held, Op.posted, hs, hp, Phase.last, List.nil_append]
      cases hb : sh.buffer <;> simp [hb]
    rw [hk, Option.elim_some, hheld] at h1
    rw [he] at h2
    refine List.perm_iff_count.2 fun a => ?_
    have h3 := List.perm_iff_count.1 h1 a
    have h4 := List.perm_iff_count.1 h2 a
    simp only [State.out, State.unprocessed, Kernel.setOp, Server.resting, List.count_append,
      List.count_nil, Option.elim_none, Option.elim_some] at h3 h4 ⊢
    omega
  exact
    { h with
      fresh := fun k' hk' => by
        have hne : k' ≠ k := Nat.ne_of_gt (Nat.lt_of_lt_of_le (h.lt hk) hk')
        exact (Function.update_of_ne hne _ _).trans (h.fresh k' hk')
      files := forall_update (by rintro _ ⟨⟩) fun k' o _ => h.files k' o
      inHand := fun p hp => by
        cases hp
        exact h.live hk
      events := by
        refine (h.events.retire hk rfl).congr fun p => ?_
        by_cases hp : p = o.sqe.userData
        · simp [Server.resting, hp]
        · simp [Server.resting, hp]
      tied := forall_update (by rintro _ ⟨⟩) fun k' o _ => h.tied k' o
      shots := forall_update (by rintro _ ⟨⟩) fun k' o _ => h.shots k' o
      multi := forall_update (by rintro _ ⟨⟩) fun k' o _ => h.multi k' o
      buffers := (hout.append_left _).trans h.buffers
      ledger := h.ledger.trans (hout.symm.append_left _) }

/-- The event that is in hand while a completion is handled. -/
def eventInHand (more : Bool) (p : Nat) : Option Nat := if more then none else some p

/-- The buffers that are in hand: the one of the completion, and the one of the event. -/
def buffersInHand (more : Bool) (e : Event ρ) (buffer : Option Nat) : List Nat :=
  (if more then [] else e.held) ++ buffer.toList

/-- What a completion that is handled next may be. -/
theorem Inv.popped {sh : Shot} {more : Bool} {r : Option Op} (h : Inv V hand extra s)
    (hk : s.kern.ops k = some o) (hpop : o.pop = some (sh, more, r)) :
    ShotOk sh o.sqe.prep ∧ (more = true → o.sqe.prep.multishot = true) := by
  rcases Op.pop_cases hpop with ⟨rfl, shots, hs, rfl⟩ | ⟨rfl, hs, ⟨file, hp⟩, rfl⟩
  · refine ⟨h.shots k o hk sh ?_, fun _ => h.multi k o hk ?_⟩
    · rw [Op.posted, hs]
      exact List.mem_cons_self
    · rw [hs]
      exact List.cons_ne_nil _ _
  · refine ⟨h.shots k o hk sh ?_, fun hm => by cases hm⟩
    rw [Op.posted, hs, hp]
    exact List.mem_cons_self

/-- **A completion is taken.** -/
theorem Inv.pop {sh : Shot} {more : Bool} {r : Option Op} (h : Inv V none [] s)
    (hk : s.kern.ops k = some o) (hpop : o.pop = some (sh, more, r))
    (he : s.app.heap o.sqe.userData = some e) :
    Inv V (eventInHand more o.sqe.userData) (buffersInHand more e sh.buffer)
      { s with kern := s.kern.setOp k r } := by
  rcases Op.pop_cases hpop with ⟨rfl, shots, hs, rfl⟩ | ⟨rfl, hs, ⟨file, hp⟩, rfl⟩
  · refine h.setOp hk rfl (fun sh' hsh' => h.shots k o hk sh' ?_) (fun _ => ?_)
      (h.files k o hk) ?_
    · rw [Op.posted, hs]
      exact List.mem_cons_of_mem _ hsh'
    · exact h.multi k o hk (by rw [hs]; exact List.cons_ne_nil _ _)
    · have hheld : o.held = sh.buffer.toList ++ Op.held { o with shots := shots } := by
        simp only [Op.held, Op.posted, hs, List.cons_append]
        cases hb : sh.buffer <;> simp [hb]
      rw [hheld, List.append_nil]
      exact List.perm_append_comm
  · exact h.popLast hk hs hp he

/-! ## One turn of the event loop -/

theorem Inv.queueRecv (h : Inv V hand extra s) (fd : Int) :
    Inv V hand extra (queueRecv V.multishot s fd) :=
  h.spawn (e := .recv fd) ⟨rfl, rfl⟩ rfl

theorem Inv.queueAccept (h : Inv V hand extra s) (fd : Int) :
    Inv V hand extra (queueAccept V.multishot s fd) :=
  h.spawn (e := .accept fd) ⟨rfl, rfl⟩ rfl

/-- Sending a buffer that was just received. -/
theorem queueSend_newEvent (s : State ρ) (fd : Int) (bid len : Nat) (r : ρ) :
    queueSend (s.newEvent (.send fd bid len 0 r)) s.app.next =
      (s.queue ⟨fd, .send (bid * BUF_SIZE + 0) (len - 0), s.app.next⟩).newEvent
        (.send fd bid len 0 r) := by
  simp only [queueSend, State.newEvent, Function.update_self]
  rfl

/-- The event is deleted when no more completions follow. -/
theorem Inv.finish {more : Bool} (h : Inv V (eventInHand more p) [] s) :
    Inv V none [] (if more then s else s.delete p) := by
  cases more with
  | true => exact h
  | false => exact h.delete

/-- Only a multishot operation is followed by more completions. -/
theorem multishot_and {more : Bool} (hm : more = true → V.multishot = true) :
    (V.multishot && more) = more := by
  cases more
  · rw [Bool.and_false]
  · rw [hm rfl, Bool.and_self]

/-- A new connection gets its `recv`; the `accept` is queued again when it has ended. -/
theorem serve_accept_inv {listenFd fd : Int} {res : Int} {more : Bool} {buffer : Option Nat}
    (h : Inv V (eventInHand more p) [] s) (he : s.app.heap p = some (.accept fd))
    (hm : more = true → V.multishot = true) :
    Inv V none [] (serve V listenFd s p ⟨res, more, buffer⟩) := by
  have h₁ : Inv V (eventInHand more p) []
      (if 0 ≤ res then queueRecv V.multishot (s.insertClient res) res else s) := by
    split
    · exact (h.insertClient res).queueRecv res
    · exact h
  simp only [serve, he, multishot_and hm]
  generalize (if 0 ≤ res then queueRecv V.multishot (s.insertClient res) res else s) = s₁ at h₁
  cases more with
  | true => exact h₁
  | false => exact (h₁.queueAccept listenFd).delete

/-- The buffer a `recv` handed over goes to the `send` that echoes it. -/
theorem serve_recv_inv {listenFd fd : Int} {res : Int} {more : Bool} {buffer : Option Nat}
    (h : Inv V (eventInHand more p) buffer.toList s) (he : s.app.heap p = some (.recv fd))
    (hbuf : buffer = none ↔ res ≤ 0) (hsize : res ≤ BUF_SIZE)
    (hm : more = true → V.multishot = true) :
    Inv V none [] (serve V listenFd s p ⟨res, more, buffer⟩) := by
  simp only [serve, he, multishot_and hm]
  refine Inv.finish ?_
  split
  · rename_i hres
    have hneg : -ENOBUFS ≤ 0 := by decide
    obtain rfl := hbuf.2 (hres ▸ hneg)
    exact h.queueRecv fd
  · split
    · rename_i hres
      obtain rfl := hbuf.2 hres
      exact (h.closeFd fd).eraseClient fd
    · rename_i hres
      have hb : buffer ≠ none := fun hb => hres (hbuf.1 hb)
      obtain ⟨bid, rfl⟩ := Option.ne_none_iff_exists'.1 hb
      show Inv V (eventInHand more p) []
        (queueSend (s.newEvent (.send fd bid res.toNat 0 (V.mark (!more)))) s.app.next)
      rw [queueSend_newEvent]
      refine h.spawn ⟨rfl, rfl, ?_, ?_⟩ rfl
      · omega
      · omega

/-- A buffer is sent on until it is sent whole, and then recycled. -/
theorem serve_send_inv {listenFd fd : Int} {bid len offset : Nat} {r : ρ} {res : Int}
    {buffer : Option Nat} (h : Inv V (some p) [bid] s)
    (he : s.app.heap p = some (.send fd bid len offset r)) (hle : len ≤ BUF_SIZE) :
    Inv V none [] (serve V listenFd s p ⟨res, false, buffer⟩) := by
  simp only [serve, he]
  split
  · exact ((h.recycle.closeFd fd).eraseClient fd).delete
  · rename_i hres
    have h₁ := h.setEvent (.send fd bid len (offset + res.toNat) r)
    split
    · rename_i hpart
      have hheap : (s.setEvent p (.send fd bid len (offset + res.toNat) r)).app.heap p =
          some (.send fd bid len (offset + res.toNat) r) := Function.update_self ..
      simp only [queueSend, hheap]
      exact h₁.release hheap ⟨rfl, rfl, hpart, hle⟩ rfl
    · split
      · exact (h₁.recycle.queueRecv fd).delete
      · exact h₁.recycle.delete

/-- **One turn of the event loop.** -/
theorem serve_inv {listenFd : Int} {cqe : Cqe} {conn : Option Nat}
    (h : Inv V (eventInHand cqe.more p) (buffersInHand cqe.more e cqe.buffer) s) (he : s.app.heap p = some e)
    (ht : Tied V e q) (hsh : ShotOk ⟨cqe.res, cqe.buffer, conn⟩ q.prep)
    (hm : cqe.more = true → q.prep.multishot = true) :
    Inv V none [] (serve V listenFd s p cqe) := by
  obtain ⟨res, more, buffer⟩ := cqe
  simp only at h hsh hm
  cases e with
  | accept fd =>
    obtain ⟨-, hprep⟩ := ht
    rw [hprep] at hsh hm
    have hb : buffer = none := hsh
    have h : Inv V (eventInHand more p) [] s := by
      subst hb
      cases more <;> exact h
    exact serve_accept_inv h he hm
  | recv fd =>
    obtain ⟨-, hprep⟩ := ht
    rw [hprep] at hsh hm
    have h : Inv V (eventInHand more p) buffer.toList s := by
      cases more <;> exact h
    exact serve_recv_inv h he hsh.1 hsh.2 hm
  | send fd bid len offset r =>
    obtain ⟨-, hprep, -, hle⟩ := ht
    rw [hprep] at hsh hm
    have hmore : more = false := by
      cases more
      · rfl
      · exact absurd (hm rfl) Bool.false_ne_true
    have hb : buffer = none := hsh.1
    subst hmore hb
    exact serve_send_inv h he hle

/-! ## The kernel's steps -/

/-- The request after a completion was posted. -/
theorem Op.post_eq {file : Option Nat} {more : Bool} {sh : Shot} (hp : o.phase = .armed file)
    (ho' : o' = if more then { o with shots := o.shots ++ [sh] }
      else { o with phase := .ended file sh }) :
    o'.sqe = o.sqe ∧ o'.conn = o.conn ∧ o'.phase.file = o.phase.file ∧
      o'.posted = o.posted ++ [sh] := by
  cases more with
  | true =>
    subst ho'
    exact ⟨rfl, rfl, rfl, by simp [Op.posted, hp, Phase.last]⟩
  | false =>
    subst ho'
    exact ⟨rfl, rfl, by rw [hp]; rfl, by simp [Op.posted, hp, Phase.last]⟩

/-- **A completion is posted.** -/
theorem Inv.post {file : Option Nat} {more : Bool} (sh : Shot) (h : Inv V none sh.buffer.toList s)
    (hk : s.kern.ops k = some o) (hp : o.phase = .armed file) (hsh : ShotOk sh o.sqe.prep)
    (hm : more = true → o.sqe.prep.multishot = true) :
    Inv V none [] { s with kern := s.kern.post k o file more sh } := by
  obtain ⟨hsqe, -, -, hposted⟩ : _ ∧ _ ∧ _ ∧ _ :=
    Op.post_eq hp (rfl : (if more then { o with shots := o.shots ++ [sh] }
      else { o with phase := .ended file sh } : Op) = _)
  refine h.setOp hk hsqe (fun sh' hsh' => ?_) (fun hshots => ?_) (fun c hc => ?_) ?_
  · rw [hposted, List.mem_append, List.mem_singleton] at hsh'
    rcases hsh' with hsh' | rfl
    · exact h.shots k o hk sh' hsh'
    · exact hsh
  · cases more with
    | true => exact hm rfl
    | false => exact h.multi k o hk hshots
  · cases more with
    | true => exact h.files k o hk c hc
    | false => cases hc
  · have hheld : ∀ o' : Op, o'.posted = o.posted ++ [sh] → o'.held = o.held ++ sh.buffer.toList := by
      intro o' ho'
      unfold Op.held
      rw [ho', List.filterMap_append]
      cases hb : sh.buffer <;> simp [hb]
    rw [hheld _ hposted, List.append_nil]

/-- **The kernel executes a request.** -/
theorem Inv.exec {res : Int} {more : Bool} {data : List UInt8} (h : Inv V none [] s)
    (hs : s.kern.exec k res more data = some K') : Inv V none [] { s with kern := K' } := by
  obtain ⟨q, conn, file, shots, hk, hm, hout⟩ := Kernel.exec_cases hs
  cases hout with
  | noFile hneg =>
    refine h.post ⟨res, none, none⟩ hk rfl ?_ hm
    cases hp : q.prep with
    | accept ms => exact rfl
    | recv ms =>
      have hle : res ≤ BUF_SIZE := by unfold BUF_SIZE; omega
      exact ⟨iff_of_true rfl (Int.le_of_lt hneg), hle⟩
    | send addr len =>
      have hle : res ≤ len := by omega
      exact ⟨rfl, hle⟩
  | refused hp hneg =>
    refine h.post ⟨res, none, none⟩ hk rfl ?_ hm
    rw [hp]
    exact rfl
  | @accepted c _ hp hpos hlt hfree =>
    have hnet := h.frame s.kern.submitted s.kern.cur (h.net.accept res) (Nat.le_succ _)
    refine hnet.post ⟨res, none, some s.kern.net.next⟩ hk rfl ?_ hm
    rw [hp]
    exact rfl
  | @empty c _ hp hle =>
    refine h.post ⟨res, none, some c⟩ hk rfl ?_ hm
    rw [hp]
    have hle' : res ≤ BUF_SIZE := by unfold BUF_SIZE; omega
    exact ⟨iff_of_true rfl hle, hle'⟩
  | @received c _ b br _ hp hne hlen hb hfit =>
    have hc : c < s.kern.net.next := h.files k _ hk c rfl
    have hout := h.handOut hb (h.net.receive hc (data.map (⟨·, some c⟩))) (Nat.le_refl _)
      (poke s.kern.mem b.addr (data.map (⟨·, some c⟩)))
    refine hout.post ⟨res, some b.bid, some c⟩ hk rfl ?_ hm
    rw [hp]
    have hmem : b ∈ s.kern.br.contents NUM_BUFS := by
      rw [CounterRing.contents_take (by decide) hb]
      exact List.mem_cons_self
    have hle : res ≤ BUF_SIZE := by
      rw [(h.ring b hmem).2] at hfit
      omega
    have hpos : ¬res ≤ 0 := by
      have := List.length_pos_iff.2 hne
      omega
    exact ⟨iff_of_false (by rintro ⟨⟩) hpos, hle⟩
  | @sent c addr len hp hle =>
    have hc : c < s.kern.net.next := h.files k _ hk c rfl
    have hnet := h.frame s.kern.submitted s.kern.cur
      (h.net.transmit hc (peek s.kern.mem addr res.toNat)) (Nat.le_refl _)
    refine hnet.post ⟨res, none, some c⟩ hk rfl ?_ hm
    rw [hp]
    exact ⟨rfl, hle⟩

/-- **Every event keeps the buffers and the events.** -/
theorem step_inv {listenFd : Int} {ev : Ev} (h : Inv V none [] s)
    (hs : step (serve V listenFd) s ev = some s') : Inv V none [] s' := by
  cases ev with
  | submit =>
    obtain ⟨K, hK, rfl⟩ := Option.map_eq_some_iff.1 hs
    obtain ⟨q, conn, shots, hk, rfl⟩ := Kernel.submit_cases hK
    have hshots := h.shots _ _ hk
    have hmulti := h.multi _ _ hk
    obtain ⟨o', ho'⟩ : ∃ o' : Op, o' = ⟨q, conn, .armed (s.kern.net.fds q.fd), shots⟩ := ⟨_, rfl⟩
    have harm : Inv V none [] { s with kern := s.kern.setOp s.kern.submitted (some o') } := by
      subst ho'
      exact h.setOp hk rfl hshots hmulti (fun c hc => h.net.lt (Phase.armed.inj hc))
        (List.Perm.refl _)
    subst ho'
    exact harm.frame (s.kern.submitted + 1) s.kern.cur h.net (Nat.le_refl _)
  | exec k res more data =>
    obtain ⟨K, hK, rfl⟩ := Option.map_eq_some_iff.1 hs
    exact h.exec hK
  | complete k =>
    simp only [step, Option.bind_eq_some_iff, Option.map_eq_some_iff] at hs
    obtain ⟨o, hk, ⟨sh, more, r⟩, hpop, rfl⟩ := hs
    obtain ⟨e, he, ht⟩ := h.event hk
    have hsh := h.popped hk hpop
    exact serve_inv ((h.pop hk hpop he).frame s.kern.submitted sh.conn h.net (Nat.le_refl _))
      he ht hsh.1 hsh.2

/-- The ring after the loop that fills it. -/
theorem setupBufRing_eq :
    setupBufRing =
      ⟨fun i => if i < NUM_BUFS then ⟨i * BUF_SIZE, BUF_SIZE, i⟩ else ⟨0, 0, 0⟩, 0,
        BitVec.ofNat 16 NUM_BUFS⟩ := by
  unfold setupBufRing bufRingAdd
  rw [CounterRing.put_range (fun i => (⟨i * BUF_SIZE, BUF_SIZE, i⟩ : Buf)) rfl (Nat.le_refl _)]
  rfl

theorem setupBufRing_contents :
    setupBufRing.contents NUM_BUFS =
      (List.range NUM_BUFS).map fun i => ⟨i * BUF_SIZE, BUF_SIZE, i⟩ := by
  have hlt : NUM_BUFS < 2 ^ 16 := by decide
  unfold setupBufRing bufRingAdd
  exact CounterRing.contents_fill (fun i => (⟨i * BUF_SIZE, BUF_SIZE, i⟩ : Buf)) hlt rfl rfl

theorem boot_inv (listenFd : Int) : Inv V none [] (State.boot listenFd : State ρ) := by
  have hnil : ∀ n, gather Op.held n (fun _ => none) = [] := fun n => collect_eq_nil fun _ _ => rfl
  have hprov : (State.boot listenFd : State ρ).provided = List.range NUM_BUFS := by
    unfold State.provided State.boot
    rw [setupBufRing_contents, List.map_map]
    exact List.map_id _
  exact
    { ub := rfl
      net := Net.init_ok _
      fresh := fun _ _ => rfl
      files := by rintro _ _ ⟨⟩
      heapFresh := fun _ _ => rfl
      inHand := by rintro _ ⟨⟩
      events := (Exclusive.empty _).congr fun _ => iff_of_false (fun h => h rfl) id
      nodupFreed := List.nodup_nil
      freed := fun p => iff_of_false List.not_mem_nil (fun h => absurd h.1 (Nat.not_lt_zero p))
      tied := by rintro _ _ ⟨⟩
      shots := by rintro _ _ ⟨⟩
      multi := by rintro _ _ ⟨⟩
      ring := by
        intro b hb
        rw [State.boot, setupBufRing_contents, List.mem_map] at hb
        obtain ⟨i, -, rfl⟩ := hb
        exact ⟨rfl, rfl⟩
      buffers := by
        rw [hprov]
        exact List.Perm.of_eq (List.append_nil _)
      ledger := List.Perm.refl _ }

theorem init_inv (listenFd : Int) :
    Inv V none [] (queueAccept V.multishot (State.boot listenFd) listenFd : State ρ) :=
  (boot_inv listenFd).queueAccept listenFd

/-- **The invariant holds in every state of every run.** -/
theorem machine_inv {listenFd : Int} {es : List Ev}
    (hs : (machine V (serve V) listenFd).run es = some s) : Inv V none [] s :=
  Machine.run_inv (M := machine V (serve V) listenFd) (init_inv listenFd)
    (fun _ _ _ => step_inv) hs

end AdvCpp.Uring.BufferSelect
