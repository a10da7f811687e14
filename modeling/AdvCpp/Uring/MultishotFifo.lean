import AdvCpp.Uring.MultishotIsolation

/-!
# Order of the echoed bytes in the multi-shot server

What a connection has received is what it has sent, followed by what its outstanding sends have
left in the order of their submission, followed by what is received and not handled.  A send that
takes only a part is submitted again behind the sends that wait by then, so the order holds as long
as such a send has no other one of its connection waiting until its completion is handled.

* `Stream` — the bytes of one connection.
* `Fifo` — the invariant, with the bytes and the re-arm that are in hand.
* `multishot_fifo` — the runs in which the condition is met echo in order; `multishot_reordered`
  is one that does not.
-/

namespace AdvCpp.Uring.BufferSelect

open AdvCpp.Lib

variable {ρ : Type} {V : Variant ρ} {s s' : State ρ} {K' : Kernel} {k p : Nat} {o o' : Op}
  {q : Sqe} {c : Nat} {fd : Int} {mid mid' : Nat → List Byte} {tok : List Nat}

/-! ## Bytes on their way -/

/-- A send of connection `c` that is not executed yet. -/
def Op.waiting (c : Nat) (o : Op) : Prop :=
  match o.sqe.prep, o.phase with
  | .send _ _, .queued => o.conn = some c
  | .send _ _, .armed _ => o.conn = some c
  | _, _ => False

/-- A send of connection `c` that was executed and did not take all. -/
def Op.short (c : Nat) (o : Op) : Prop :=
  match o.sqe.prep, o.phase with
  | .send _ n, .ended _ sh => o.conn = some c ∧ sh.res < n
  | _, _ => False

instance (c : Nat) (o : Op) : Decidable (o.waiting c) := by
  unfold Op.waiting
  split <;> exact inferInstance

instance (c : Nat) (o : Op) : Decidable (o.short c) := by
  unfold Op.short
  split <;> exact inferInstance

/-- The bytes of connection `c` that a send has left. -/
def Op.unsent (mem : Nat → Byte) (c : Nat) (o : Op) : List Byte :=
  match o.sqe.prep, o.phase with
  | .send addr n, .ended _ sh => if o.conn = some c then (peek mem addr n).drop sh.res.toNat else []
  | .send addr n, _ => if o.conn = some c then peek mem addr n else []
  | _, _ => []

/-- The bytes that come with a completion. -/
def Shot.bytes (mem : Nat → Byte) (sh : Shot) : List Byte :=
  match sh.buffer with
  | some bid => peek mem (bid * BUF_SIZE) sh.res.toNat
  | none => []

/-- The bytes of connection `c` that are received and not handled. -/
def Op.undelivered (mem : Nat → Byte) (c : Nat) (o : Op) : List Byte :=
  match o.sqe.prep with
  | .recv _ => if o.conn = some c then o.posted.flatMap (Shot.bytes mem) else []
  | _ => []

/-- What the sends of a connection have left, in the order of their submission. -/
def State.outgoing (s : State ρ) (c : Nat) : List Byte :=
  gather (Op.unsent s.kern.mem c) s.kern.nextOp s.kern.ops

def State.incoming (s : State ρ) (c : Nat) : List Byte :=
  gather (Op.undelivered s.kern.mem c) s.kern.nextOp s.kern.ops

/-- The connection for which a request receives, or for which its send re-arms the receive. -/
def Op.token (V : Variant ρ) (heap : Nat → Option (Event ρ)) (o : Op) : List Nat :=
  match o.sqe.prep with
  | .accept _ => []
  | .recv _ => o.conn.toList
  | .send _ _ =>
    match heap o.sqe.userData with
    | some (.send _ _ _ _ r) => if V.rearm r then o.conn.toList else []
    | _ => []

/-- The connections of accepts that are not handled. -/
def Op.newConns (o : Op) : List Nat :=
  match o.sqe.prep with
  | .accept _ => o.posted.filterMap Shot.conn
  | _ => []

/-! ## The condition -/

def Prep.isSend : Prep → Bool
  | .send _ _ => true
  | _ => false

/-- What the kernel promises: a receive is over with its error or its end of file, and the sends of
one file are executed in the order of their submission. -/
def KernelOrder (s : State ρ) : Ev → Prop
  | .exec k res more _ =>
    match s.kern.ops k with
    | some ⟨⟨_, .recv _, _⟩, _, _, _⟩ => res ≤ 0 → more = false
    | some ⟨⟨_, .send _ _, _⟩, _, .armed file, _⟩ =>
      ∀ k' < k, ∀ o' ∈ s.kern.ops k', o'.phase = .armed file → o'.sqe.prep.isSend = false
    | _ => True
  | _ => True

/-- A send that is short has no other one of its connection waiting when it is executed, and until
its completion is handled nothing that its connection has received is. -/
def InOrder (s : State ρ) : Ev → Prop
  | .submit => True
  | .exec k res _ _ =>
    match s.kern.ops k with
    | some ⟨⟨_, .send _ n, _⟩, some c, _, _⟩ =>
      res < n → ∀ k' < s.kern.nextOp, k' ≠ k → ∀ o' ∈ s.kern.ops k', ¬o'.waiting c
    | _ => True
  | .complete k =>
    match s.kern.ops k with
    | some o =>
      match o.sqe.prep, o.pop with
      | .recv _, some (⟨res, _, some c⟩, _, _) =>
        0 < res → ∀ k' < s.kern.nextOp, ∀ o' ∈ s.kern.ops k', ¬o'.short c
      | _, _ => True
    | none => True

instance (s : State ρ) : (e : Ev) → Decidable (KernelOrder s e)
  | .submit => .isTrue trivial
  | .complete _ => .isTrue trivial
  | .exec k _ _ _ => by
    unfold KernelOrder; dsimp only
    exact match s.kern.ops k with
      | none => .isTrue trivial
      | some ⟨⟨_, .accept _, _⟩, _, _, _⟩ => .isTrue trivial
      | some ⟨⟨_, .recv _, _⟩, _, _, _⟩ => inferInstance
      | some ⟨⟨_, .send _ _, _⟩, _, .armed _, _⟩ => inferInstance
      | some ⟨⟨_, .send _ _, _⟩, _, .queued, _⟩ => .isTrue trivial
      | some ⟨⟨_, .send _ _, _⟩, _, .ended _ _, _⟩ => .isTrue trivial

instance (s : State ρ) : (e : Ev) → Decidable (InOrder s e)
  | .submit => .isTrue trivial
  | .exec k _ _ _ => by
    unfold InOrder; dsimp only
    exact match s.kern.ops k with
      | none => .isTrue trivial
      | some ⟨⟨_, .accept _, _⟩, _, _, _⟩ => .isTrue trivial
      | some ⟨⟨_, .recv _, _⟩, _, _, _⟩ => .isTrue trivial
      | some ⟨⟨_, .send _ _, _⟩, some _, _, _⟩ => inferInstance
      | some ⟨⟨_, .send _ _, _⟩, none, _, _⟩ => .isTrue trivial
  | .complete k => by
    unfold InOrder; dsimp only
    exact match s.kern.ops k with
      | none => .isTrue trivial
      | some o => by
        dsimp only
        exact match o.sqe.prep, o.pop with
          | .recv _, some (⟨_, _, some _⟩, _, _) => inferInstance
          | .recv _, some (⟨_, _, none⟩, _, _) => .isTrue trivial
          | .recv _, none => .isTrue trivial
          | .accept _, _ => .isTrue trivial
          | .send _ _, _ => .isTrue trivial

/-! ## The invariant -/

/-- **The bytes of one connection**, with those in hand; a connection that a failed send has closed
sends nothing any more. -/
def Stream (mid : Nat → List Byte) (s : State ρ) (c : Nat) : Prop :=
  s.kern.net.rx c = s.kern.net.tx c ++ s.outgoing c ++ mid c ++ s.incoming c ∨
    (IsClosed s.kern.closed c ∧ s.kern.net.tx c <+: s.kern.net.rx c ∧
      ∀ k o, s.kern.ops k = some o → ¬o.waiting c)

/-- The order of the bytes while the bytes `mid` and the re-arms `tok` are in hand. -/
structure Fifo (V : Variant ρ) (mid : Nat → List Byte) (tok : List Nat) (s : State ρ) : Prop where
  stream : ∀ c, Stream mid s c
  short : ∀ k o c, s.kern.ops k = some o → o.short c → ∀ k' o', s.kern.ops k' = some o' →
    o'.waiting c ∨ o'.short c → k' = k
  submitted_le : s.kern.submitted ≤ s.kern.nextOp
  queued : ∀ k o, s.kern.ops k = some o → (o.phase = .queued ↔ s.kern.submitted ≤ k)
  more : ∀ k o ms, s.kern.ops k = some o → o.sqe.prep = .recv ms → ∀ sh ∈ o.shots, 0 < sh.res
  tokens : (gather (Op.token V s.app.heap) s.kern.nextOp s.kern.ops ++ tok).Nodup
  accepted : ∀ c ∈ gather (Op.token V s.app.heap) s.kern.nextOp s.kern.ops ++ tok,
    c ∈ s.kern.accepted
  newConns : (gather Op.newConns s.kern.nextOp s.kern.ops ++ s.kern.accepted).Nodup

theorem Stream.isPrefix (h : Stream mid s c) : s.kern.net.tx c <+: s.kern.net.rx c := by
  rcases h with h | h
  · rw [h, List.append_assoc, List.append_assoc]
    exact List.prefix_append _ _
  · exact h.2.1

theorem Op.unsent_eq_nil {mem : Nat → Byte} (hw : ¬o.waiting c) (hs : ¬o.short c) :
    o.unsent mem c = [] := by
  obtain ⟨⟨fd, prep, ud⟩, conn, phase, shots⟩ := o
  cases prep with
  | send addr n =>
    cases phase with
    | queued => exact if_neg hw
    | armed file => exact if_neg hw
    | ended file sh =>
      simp only [Op.unsent]
      split
      · rename_i hconn
        have hle : ¬sh.res < n := fun hlt => hs ⟨hconn, hlt⟩
        refine List.drop_eq_nil_of_le ?_
        rw [peek_length]
        omega
      · rfl
  | accept ms => rfl
  | recv ms => rfl

/-- A send of another connection has nothing for `c`. -/
theorem Op.not_waiting_of_conn (hc : o.conn ≠ some c) : ¬o.waiting c ∧ ¬o.short c := by
  obtain ⟨⟨fd, prep, ud⟩, conn, phase, shots⟩ := o
  cases prep <;> cases phase <;>
    exact ⟨fun h => by first | exact hc h | exact h, fun h => by first | exact hc h.1 | exact h⟩

theorem Op.undelivered_eq_nil {mem : Nat → Byte} (hc : o.conn ≠ some c) :
    o.undelivered mem c = [] := by
  unfold Op.undelivered
  split
  · exact if_neg hc
  · rfl

/-! ## Primitives of the program -/

theorem Op.token_congr {heap heap' : Nat → Option (Event ρ)}
    (h : heap' o.sqe.userData = heap o.sqe.userData) : o.token V heap' = o.token V heap := by
  unfold Op.token
  rw [h]

/-- The heap changes but no request's event does. -/
theorem Fifo.setApp (h : Fifo V mid tok s) {app : Server ρ}
    (happ : ∀ k o, s.kern.ops k = some o → o.token V app.heap = o.token V s.app.heap) :
    Fifo V mid tok { s with app := app } := by
  have htok : gather (Op.token V app.heap) s.kern.nextOp s.kern.ops =
      gather (Op.token V s.app.heap) s.kern.nextOp s.kern.ops :=
    gather_congr fun k o _ hk => happ k o hk
  exact
    { stream := h.stream, short := h.short, submitted_le := h.submitted_le, queued := h.queued, more := h.more
      tokens := by rw [htok]; exact h.tokens
      accepted := by rw [htok]; exact h.accepted
      newConns := h.newConns }

theorem Fifo.setEvent {extra : List Nat} (h : Fifo V mid tok s) (hI : Inv V (some p) extra s)
    (e : Event ρ) : Fifo V mid tok (s.setEvent p e) :=
  h.setApp fun _ _ hk => Op.token_congr (Function.update_of_ne (hI.not_owner hk) _ _)

theorem Fifo.delete {extra : List Nat} (h : Fifo V mid tok s) (hI : Inv V (some p) extra s) :
    Fifo V mid tok (s.delete p) := by
  unfold State.delete
  split
  · exact h.setApp fun _ _ hk => Op.token_congr (Function.update_of_ne (hI.not_owner hk) _ _)
  · exact { h with }

theorem Fifo.recycleBuf (h : Fifo V mid tok s) (bid : Nat) : Fifo V mid tok (recycleBuf s bid) :=
  { h with }

/-- **A new request** takes bytes and the re-arm that are in hand. -/
theorem Fifo.queue (app : Server ρ) (ntok : List Nat) (h : Fifo V mid (ntok ++ tok) s)
    (happ : ∀ k o, s.kern.ops k = some o → o.token V app.heap = o.token V s.app.heap)
    (htok : Op.token V app.heap ⟨q, s.kern.cur, .queued, []⟩ = ntok)
    (hmid : ∀ c, mid c = Op.unsent s.kern.mem c ⟨q, s.kern.cur, .queued, []⟩ ++ mid' c)
    (hopen : ∀ c, Op.waiting c ⟨q, s.kern.cur, .queued, []⟩ → ¬IsClosed s.kern.closed c ∧
      ∀ k o, s.kern.ops k = some o → ¬o.short c) :
    Fifo V mid' tok { s.queue q with app := app } := by
  have htok' : gather (Op.token V app.heap) (s.kern.nextOp + 1) (s.queue q).kern.ops =
      gather (Op.token V s.app.heap) s.kern.nextOp s.kern.ops ++ ntok := by
    rw [← htok, State.queue, gather_add]
    exact congrArg (· ++ _) (gather_congr fun k o _ hk => happ k o hk)
  have hnoshort : ∀ c, ¬Op.short c ⟨q, s.kern.cur, .queued, []⟩ := by
    intro c
    unfold Op.short
    split <;> simp_all
  refine
    { stream := fun c => ?_, short := ?_
      submitted_le := Nat.le_succ_of_le h.submitted_le
      queued := by
        refine forall_update ?_ fun k o _ => h.queued k o
        intro o ho
        cases ho
        exact iff_of_true rfl h.submitted_le
      more := by
        intro k o ms hk
        rcases update_cases (t := s.kern.ops) hk with ⟨-, ho⟩ | ⟨-, hk⟩
        · cases ho
          rintro - sh ⟨⟩
        · exact h.more k o ms hk
      tokens := ?_, accepted := ?_, newConns := ?_ }
  · have hout : ({ s.queue q with app := app } : State ρ).outgoing c =
        s.outgoing c ++ Op.unsent s.kern.mem c ⟨q, s.kern.cur, .queued, []⟩ :=
      gather_add _ _ _ _
    have hnil : Op.undelivered s.kern.mem c ⟨q, s.kern.cur, .queued, []⟩ = [] := by
      unfold Op.undelivered
      split
      · split <;> rfl
      · rfl
    have hinc : ({ s.queue q with app := app } : State ρ).incoming c = s.incoming c :=
      (gather_add _ _ _ _).trans ((congrArg (s.incoming c ++ ·) hnil).trans (List.append_nil _))
    rcases h.stream c with hs | ⟨hcl, hpre, hw⟩
    · refine Or.inl ?_
      rw [hout, hinc]
      refine hs.trans ?_
      rw [hmid c]
      simp only [List.append_assoc]
      rfl
    · refine Or.inr ⟨hcl, hpre, forall_update ?_ fun k o _ => hw k o⟩
      intro o ho hwait
      cases ho
      exact (hopen c hwait).1 hcl
  · intro k o c hk hs k' o' hk' hp
    rcases update_cases (t := s.kern.ops) hk with ⟨rfl, ho⟩ | ⟨-, hk⟩
    · cases ho
      exact absurd hs (hnoshort c)
    · rcases update_cases (t := s.kern.ops) hk' with ⟨rfl, ho'⟩ | ⟨-, hk'⟩
      · cases ho'
        rcases hp with hp | hp
        · exact absurd hs ((hopen c hp).2 k o hk)
        · exact absurd hp (hnoshort c)
      · exact h.short k o c hk hs k' o' hk' hp
  · have ht := h.tokens
    rw [← List.append_assoc] at ht
    exact htok' ▸ ht
  · have ha := h.accepted
    rw [← List.append_assoc] at ha
    exact htok' ▸ ha
  · have hnil : Op.newConns ⟨q, s.kern.cur, .queued, []⟩ = [] := by
      unfold Op.newConns
      split <;> rfl
    have hgather : gather Op.newConns (s.kern.nextOp + 1) (s.queue q).kern.ops =
        gather Op.newConns s.kern.nextOp s.kern.ops := by
      rw [State.queue, gather_add, hnil, List.append_nil]
    exact hgather.symm ▸ h.newConns

/-- A new request with a new event. -/
theorem Fifo.spawn {hand : Option Nat} {extra : List Nat} {e : Event ρ} (ntok : List Nat)
    (h : Fifo V mid (ntok ++ tok) s) (hI : Inv V hand extra s)
    (htok : Op.token V (Function.update s.app.heap s.app.next (some e))
      ⟨q, s.kern.cur, .queued, []⟩ = ntok)
    (hmid : ∀ c, mid c = Op.unsent s.kern.mem c ⟨q, s.kern.cur, .queued, []⟩ ++ mid' c)
    (hopen : ∀ c, Op.waiting c ⟨q, s.kern.cur, .queued, []⟩ → ¬IsClosed s.kern.closed c ∧
      ∀ k o, s.kern.ops k = some o → ¬o.short c) :
    Fifo V mid' tok ((s.queue q).newEvent e) := by
  refine h.queue ((s.queue q).newEvent e).app ntok (fun k o hk => ?_) htok hmid hopen
  refine Op.token_congr (Function.update_of_ne ?_ _ _)
  exact Nat.ne_of_lt (hI.heap_lt (hI.live hk))

/-- The re-arm in hand becomes a receive. -/
theorem Fifo.queueRecv {hand : Option Nat} {extra : List Nat} (h : Fifo V mid ([c] ++ tok) s)
    (hI : Inv V hand extra s) (hcur : s.kern.cur = some c) (ms : Bool) (fd : Int) :
    Fifo V mid tok (queueRecv ms s fd) :=
  h.spawn [c] hI (by rw [hcur]; rfl) (fun _ => rfl) fun _ hw => hw.elim

theorem Fifo.queueAccept {hand : Option Nat} {extra : List Nat} (h : Fifo V mid tok s)
    (hI : Inv V hand extra s) (ms : Bool) (fd : Int) : Fifo V mid tok (queueAccept ms s fd) :=
  h.spawn [] hI rfl (fun _ => rfl) fun _ hw => hw.elim

/-- The event is deleted when no more completions follow. -/
theorem Fifo.finish {more : Bool} (h : Fifo V mid tok s) (hI : Inv V (eventInHand more p) [] s) :
    Fifo V mid tok (if more then s else s.delete p) := by
  cases more with
  | true => exact h
  | false => exact h.delete hI

/-- The re-arm in hand is given up. -/
theorem Fifo.dropTok (h : Fifo V mid tok s) : Fifo V mid [] s :=
  { h with
    tokens := by
      rw [List.append_nil]
      exact (List.nodup_append.1 h.tokens).1
    accepted := fun c hc => h.accepted c (by
      rw [List.append_nil] at hc
      exact List.mem_append_left _ hc) }

/-- **A connection is closed**; bytes that are in hand are lost, but then nothing waits behind
them. -/
theorem Fifo.closeFd (h : Fifo V mid tok s) (hfd : s.kern.net.fds fd = some c)
    (hmid : ∀ c', c' ≠ c → mid c' = [])
    (hw : mid c ≠ [] → ∀ k o, s.kern.ops k = some o → ¬o.waiting c) :
    Fifo V (fun _ => []) [] ((s.closeFd fd).eraseClient fd) := by
  have hmono : ∀ c', IsClosed s.kern.closed c' →
      IsClosed ((s.kern.cur, s.kern.net.fds fd) :: s.kern.closed) c' := by
    intro c' hc'
    obtain ⟨x, hx, he⟩ := hc'
    exact ⟨x, List.mem_cons_of_mem _ hx, he⟩
  have hstream : ∀ c', Stream (fun _ => []) ((s.closeFd fd).eraseClient fd) c' := by
    intro c'
    rcases h.stream c' with hs | ⟨hcl, hpre, hwait⟩
    · by_cases hc' : mid c' = []
      · rw [hc'] at hs
        exact Or.inl hs
      · have hcc : c' = c := by
          by_contra hne
          exact hc' (hmid c' hne)
        subst hcc
        refine Or.inr ⟨⟨_, List.mem_cons_self, hfd⟩, ?_, hw hc'⟩
        exact (h.stream c').isPrefix
    · exact Or.inr ⟨hmono c' hcl, hpre, hwait⟩
  exact { h.dropTok with stream := hstream }

/-- **A new connection becomes a client.** -/
theorem Fifo.insertClient (h : Fifo V mid [] s) (hcur : s.kern.cur = some c)
    (hc : c ∉ gather Op.newConns s.kern.nextOp s.kern.ops ++ s.kern.accepted) (fd : Int) :
    Fifo V mid [c] (s.insertClient fd) := by
  have hacc : (s.insertClient fd).kern.accepted = c :: s.kern.accepted := by
    simp only [State.insertClient, hcur]
    rfl
  have hold := h.accepted
  rw [List.append_nil] at hold
  refine
    { h with
      tokens := ?_, accepted := fun c' hc' => ?_, newConns := ?_ }
  · have ht := h.tokens
    rw [List.append_nil] at ht
    refine List.nodup_append.2 ⟨ht, List.nodup_singleton c, ?_⟩
    intro a ha b hb hab
    obtain rfl := List.mem_singleton.1 hb
    exact hc (List.mem_append_right _ (hab ▸ hold a ha))
  · rw [hacc]
    rcases List.mem_append.1 hc' with hc' | hc'
    · exact List.mem_cons_of_mem _ (hold c' hc')
    · exact List.mem_cons.2 (Or.inl (List.mem_singleton.1 hc'))
  · rw [hacc]
    exact List.perm_middle.nodup_iff.2 (List.nodup_cons.2 ⟨hc, h.newConns⟩)

/-! ## One entry of the table changes -/

/-- A connection that a step does not concern. -/
theorem Stream.of_eq (h : Stream mid s c) (hrx : s'.kern.net.rx c = s.kern.net.rx c)
    (htx : s'.kern.net.tx c = s.kern.net.tx c) (hout : s'.outgoing c = s.outgoing c)
    (hmid : mid' c = mid c) (hinc : s'.incoming c = s.incoming c)
    (hcl : IsClosed s.kern.closed c → IsClosed s'.kern.closed c)
    (hw : ∀ k o, s'.kern.ops k = some o → o.waiting c →
      ∃ k' o', s.kern.ops k' = some o' ∧ o'.waiting c) : Stream mid' s' c := by
  rcases h with h | ⟨hc, hpre, hwait⟩
  · refine Or.inl ?_
    rw [hrx, htx, hout, hmid, hinc]
    exact h
  · refine Or.inr ⟨hcl hc, by rw [hrx, htx]; exact hpre, fun k o hk ho => ?_⟩
    obtain ⟨k', o', hk', ho'⟩ := hw k o hk ho
    exact hwait k' o' hk' ho'

/-- The request `k` changes to `r`. -/
theorem Fifo.setOp {tok' : List Nat} {r : Option Op} (h : Fifo V mid tok s) (hI : Inv V none [] s)
    (hk : s.kern.ops k = some o) (hops : K'.ops = Function.update s.kern.ops k r)
    (hnext : K'.nextOp = s.kern.nextOp) (hsub : K'.submitted = s.kern.submitted)
    (hacc : K'.accepted = s.kern.accepted)
    (hstream : ∀ c, Stream mid' { s with kern := K' } c)
    (hqueued : ∀ o', r = some o' → (o'.phase = .queued ↔ o.phase = .queued))
    (hmore : ∀ o' ms, r = some o' → o'.sqe.prep = .recv ms → ∀ sh ∈ o'.shots, 0 < sh.res)
    (hopen : ∀ o', r = some o' → ∀ c, o'.waiting c ∨ o'.short c → o.waiting c ∨ o.short c)
    (hshort : ∀ o', r = some o' → ∀ c, o'.short c → ∀ k' o'', k' ≠ k → s.kern.ops k' = some o'' →
      ¬(o''.waiting c ∨ o''.short c))
    (htok : (r.elim [] (Op.token V s.app.heap) ++ tok').Perm (o.token V s.app.heap ++ tok))
    (hconns : (gather Op.newConns s.kern.nextOp (Function.update s.kern.ops k r) ++
      s.kern.accepted).Nodup) :
    Fifo V mid' tok' { s with kern := K' } := by
  have hperm : (gather (Op.token V s.app.heap) s.kern.nextOp (Function.update s.kern.ops k r) ++
      tok').Perm (gather (Op.token V s.app.heap) s.kern.nextOp s.kern.ops ++ tok) := by
    have hg := gather_update (Op.token V s.app.heap) s.kern.ops r (hI.lt hk)
    rw [hk] at hg
    refine List.perm_iff_count.2 fun a => ?_
    have h1 := List.perm_iff_count.1 hg a
    have h2 := List.perm_iff_count.1 htok a
    simp only [List.count_append, Option.elim_some] at h1 h2 ⊢
    omega
  refine
    { stream := hstream, short := ?_, submitted_le := by rw [hsub, hnext]; exact h.submitted_le
      queued := ?_, more := ?_, tokens := ?_, accepted := ?_, newConns := ?_ }
  · intro k₁ o₁ c hk₁ hs k₂ o₂ hk₂ hp
    rw [hops] at hk₁ hk₂
    rcases update_cases hk₁ with ⟨he₁, ho₁⟩ | ⟨-, hg₁⟩ <;>
      rcases update_cases hk₂ with ⟨he₂, ho₂⟩ | ⟨hne₂, hg₂⟩
    · exact he₂.trans he₁.symm
    · exact absurd hp (hshort o₁ ho₁ c hs k₂ o₂ hne₂ hg₂)
    · exact h.short k₁ o₁ c hg₁ hs k₂ o (he₂ ▸ hk) (hopen o₂ ho₂ c hp)
    · exact h.short k₁ o₁ c hg₁ hs k₂ o₂ hg₂ hp
  · intro k₁ o₁ hk₁
    rw [hops] at hk₁
    rw [hsub]
    rcases update_cases hk₁ with ⟨rfl, ho₁⟩ | ⟨-, hk₁⟩
    · exact (hqueued o₁ ho₁).trans (h.queued k₁ o hk)
    · exact h.queued k₁ o₁ hk₁
  · intro k₁ o₁ ms hk₁
    rw [hops] at hk₁
    rcases update_cases hk₁ with ⟨-, ho₁⟩ | ⟨-, hk₁⟩
    · exact hmore o₁ ms ho₁
    · exact h.more k₁ o₁ ms hk₁
  · rw [hops, hnext]
    exact hperm.nodup_iff.2 h.tokens
  · rw [hops, hnext, hacc]
    exact fun c hc => h.accepted c (hperm.mem_iff.1 hc)
  · rw [hops, hnext, hacc]
    exact hconns

/-! ## Taking a completion -/

theorem Op.token_recv {ms : Bool} (hp : o.sqe.prep = .recv ms) (hc : o.conn = some c)
    (heap : Nat → Option (Event ρ)) : o.token V heap = [c] := by
  unfold Op.token
  rw [hp, hc]
  rfl

/-- A connection has one receive. -/
theorem Fifo.undelivered_only {ms : Bool} (h : Fifo V mid tok s) (hI : Inv V none [] s)
    (hk : s.kern.ops k = some o) (hp : o.sqe.prep = .recv ms) (hc : o.conn = some c) {k' : Nat}
    (hne : k' ≠ k) (hk' : s.kern.ops k' = some o') (mem : Nat → Byte) :
    o'.undelivered mem c = [] := by
  unfold Op.undelivered
  split
  · rename_i ms' hp'
    refine if_neg fun hc' => hne ?_
    refine gather_inj (List.nodup_append.1 h.tokens).1 (hI.lt hk') (hI.lt hk) hk' hk (a := c) ?_ ?_
    · rw [Op.token_recv hp' hc']
      exact List.mem_singleton_self c
    · rw [Op.token_recv hp hc]
      exact List.mem_singleton_self c
  · rfl

/-- What is left of a request whose completion is taken. -/
theorem Op.pop_rest {sh : Shot} {more : Bool} {r : Option Op} (hpop : o.pop = some (sh, more, r)) :
    (∀ o', r = some o' → o'.sqe = o.sqe ∧ o'.conn = o.conn ∧ o'.phase = o.phase ∧
        o'.shots ⊆ o.shots) ∧
      o.posted = sh :: r.elim [] Op.posted ∧ (more = true ↔ r ≠ none) := by
  rcases Op.pop_cases hpop with ⟨rfl, shots, hs, rfl⟩ | ⟨rfl, hs, ⟨file, hp⟩, rfl⟩
  · refine ⟨fun o' ho' => ?_, ?_, by simp⟩
    · cases ho'
      exact ⟨rfl, rfl, rfl, hs ▸ List.subset_cons_self _ _⟩
    · simp only [Op.posted, hs, List.cons_append, Option.elim_some]
  · refine ⟨by rintro _ ⟨⟩, ?_, by simp⟩
    simp only [Op.posted, hs, hp, Phase.last, List.nil_append, Option.elim_none]

theorem Op.unsent_recv {ms : Bool} (hp : o.sqe.prep = .recv ms) (mem : Nat → Byte) (c : Nat) :
    o.unsent mem c = [] := by
  unfold Op.unsent
  rw [hp]

theorem Op.not_open_recv {ms : Bool} (hp : o.sqe.prep = .recv ms) (c : Nat) :
    ¬(o.waiting c ∨ o.short c) := by
  unfold Op.waiting Op.short
  rw [hp]
  simp

/-- The bytes of a completion were the first that its connection had not been delivered. -/
theorem Fifo.incoming_popRecv {ms : Bool} {sh : Shot} {more : Bool} {r : Option Op}
    (h : Fifo V mid tok s) (hI : Inv V none [] s) (hk : s.kern.ops k = some o)
    (hpop : o.pop = some (sh, more, r)) (hp : o.sqe.prep = .recv ms) (hc : o.conn = some c) :
    s.incoming c = sh.bytes s.kern.mem ++
      gather (Op.undelivered s.kern.mem c) s.kern.nextOp (Function.update s.kern.ops k r) := by
  obtain ⟨hr, hposted, -⟩ := Op.pop_rest hpop
  have hold : s.incoming c = o.undelivered s.kern.mem c := by
    refine (gather_single (hI.lt hk) fun i b hi hb => ?_).trans (by rw [hk, Option.elim_some])
    exact h.undelivered_only hI hk hp hc hi hb _
  have hnew : gather (Op.undelivered s.kern.mem c) s.kern.nextOp (Function.update s.kern.ops k r) =
      r.elim [] (Op.undelivered s.kern.mem c) := by
    refine (gather_single (hI.lt hk) fun i b hi hb => ?_).trans (by rw [Function.update_self])
    rw [Function.update_of_ne hi] at hb
    exact h.undelivered_only hI hk hp hc hi hb _
  have hrest : r.elim [] (Op.undelivered s.kern.mem c) =
      (r.elim [] Op.posted).flatMap (Shot.bytes s.kern.mem) := by
    cases r with
    | none => rfl
    | some o' =>
      have hp' : o'.sqe.prep = .recv ms := (hr o' rfl).1 ▸ hp
      simp only [Option.elim_some, Op.undelivered, hp', (hr o' rfl).2.1, hc, if_true]
  rw [hold, hnew, hrest]
  simp only [Op.undelivered, hp, hc, if_true, hposted, List.flatMap_cons]

/-- **The bytes of a completion are in hand**; other connections see nothing of it. -/
theorem Fifo.stream_popRecv {ms : Bool} {sh : Shot} {more : Bool} {r : Option Op}
    (h : Fifo V (fun _ => []) [] s) (hI : Inv V none [] s) (hk : s.kern.ops k = some o)
    (hpop : o.pop = some (sh, more, r)) (hp : o.sqe.prep = .recv ms) (hc : o.conn = some c)
    (cur : Option Nat) (c' : Nat) :
    Stream (Function.update (fun _ => []) c (sh.bytes s.kern.mem))
      { s with kern := { s.kern.setOp k r with cur := cur } } c' := by
  obtain ⟨hr, -, -⟩ := Op.pop_rest hpop
  have hrp : ∀ o', r = some o' → o'.sqe.prep = .recv ms := fun o' ho' => (hr o' ho').1 ▸ hp
  have hout : State.outgoing { s with kern := { s.kern.setOp k r with cur := cur } } c' =
      s.outgoing c' := by
    refine gather_update_same _ ?_
    rw [hk, Option.elim_some, Op.unsent_recv hp]
    cases r with
    | none => rfl
    | some o' => exact Op.unsent_recv (hrp o' rfl) _ _
  by_cases hcc : c' = c
  · subst hcc
    rcases h.stream c' with hs | ⟨hcl, hpre, hw⟩
    · refine Or.inl ?_
      rw [hout, Function.update_self]
      refine hs.trans ?_
      rw [h.incoming_popRecv hI hk hpop hp hc]
      simp only [List.append_assoc, List.nil_append]
      rfl
    · refine Or.inr ⟨hcl, hpre, forall_update ?_ fun k o _ => hw k o⟩
      exact fun o' ho' hw' => Op.not_open_recv (hrp o' ho') c' (Or.inl hw')
  · refine (h.stream c').of_eq rfl rfl hout (Function.update_of_ne hcc _ _) ?_ id ?_
    · refine gather_update_same _ ?_
      have hne : o.conn ≠ some c' := by
        rw [hc]
        exact fun he => hcc (Option.some.inj he).symm
      rw [hk, Option.elim_some, Op.undelivered_eq_nil hne]
      cases r with
      | none => rfl
      | some o' => exact Op.undelivered_eq_nil ((hr o' rfl).2.1 ▸ hne)
    · intro k' o' hk' hw'
      rcases update_cases hk' with ⟨-, ho'⟩ | ⟨-, hk'⟩
      · exact absurd (Or.inl hw') (Op.not_open_recv (hrp o' ho') c')
      · exact ⟨k', o', hk', hw'⟩

/-- **A completion of a receive is taken**: its bytes are in hand. -/
theorem Fifo.popRecv {ms : Bool} {sh : Shot} {more : Bool} {r : Option Op}
    (h : Fifo V (fun _ => []) [] s) (hI : Inv V none [] s) (hk : s.kern.ops k = some o)
    (hpop : o.pop = some (sh, more, r)) (hp : o.sqe.prep = .recv ms) (hc : o.conn = some c)
    (cur : Option Nat) :
    Fifo V (Function.update (fun _ => []) c (sh.bytes s.kern.mem)) (if more then [] else [c])
      { s with kern := { s.kern.setOp k r with cur := cur } } := by
  obtain ⟨hr, -, hmore⟩ := Op.pop_rest hpop
  have hrp : ∀ o', r = some o' → o'.sqe.prep = .recv ms := fun o' ho' => (hr o' ho').1 ▸ hp
  refine h.setOp hI hk rfl rfl rfl rfl (h.stream_popRecv hI hk hpop hp hc cur) ?_ ?_ ?_ ?_ ?_ ?_
  · intro o' ho'
    rw [(hr o' ho').2.2.1]
  · exact fun o' _ ho' _ sh' hsh' => h.more k o ms hk hp sh' ((hr o' ho').2.2.2 hsh')
  · intro o' ho' c' ho
    exact absurd ho (Op.not_open_recv (hrp o' ho') c')
  · intro o' ho' c' hs
    exact absurd (Or.inr hs) (Op.not_open_recv (hrp o' ho') c')
  · rw [Op.token_recv hp hc]
    cases r with
    | none =>
      have hm : more = false := by simpa using hmore
      rw [hm]
      exact List.Perm.refl _
    | some o' =>
      have hm : more = true := hmore.2 (by simp)
      rw [hm, Option.elim_some, Op.token_recv (hrp o' rfl) ((hr o' rfl).2.1.trans hc)]
      exact List.Perm.refl _
  · rw [gather_update_same]
    · exact h.newConns
    · rw [hk, Option.elim_some]
      cases r with
      | none => simp only [Op.newConns, hp, Option.elim_none]
      | some o' => simp only [Op.newConns, hp, hrp o' rfl, Option.elim_some]

theorem Op.undelivered_send {addr n : Nat} (hp : o.sqe.prep = .send addr n) (mem : Nat → Byte)
    (c : Nat) : o.undelivered mem c = [] := by
  unfold Op.undelivered
  rw [hp]

theorem Op.newConns_eq_nil (hp : o.sqe.prep.isAccept = false) : o.newConns = [] := by
  unfold Op.newConns
  split
  · rename_i ms hp'
    rw [hp'] at hp
    cases hp
  · rfl

/-- The completion of a send is its last. -/
theorem Inv.pop_send {addr n : Nat} {sh : Shot} {more : Bool} {r : Option Op}
    (hI : Inv V none [] s) (hk : s.kern.ops k = some o) (hpop : o.pop = some (sh, more, r))
    (hp : o.sqe.prep = .send addr n) : r = none ∧ ∃ file, o.phase = .ended file sh := by
  have hmore : more = false := by
    refine Bool.eq_false_iff.2 fun hmore => ?_
    have hm := (hI.popped hk hpop).2 hmore
    rw [hp] at hm
    cases hm
  obtain ⟨-, -, hnone⟩ := Op.pop_rest hpop
  refine ⟨?_, ?_⟩
  · by_contra hr
    exact Bool.false_ne_true (hmore.symm.trans (hnone.2 hr))
  · rcases Op.pop_cases hpop with ⟨hm, -⟩ | ⟨-, -, hf, -⟩
    · exact absurd (hmore.symm.trans hm) Bool.false_ne_true
    · exact hf

/-- **A full send had nothing left, a short one was alone.** -/
theorem Fifo.outgoing_popSend {addr n : Nat} {sh : Shot} {file : Option Nat}
    (h : Fifo V mid tok s) (hI : Inv V none [] s) (hk : s.kern.ops k = some o)
    (hphase : o.phase = .ended file sh) (hp : o.sqe.prep = .send addr n) (hc : o.conn = some c) :
    s.outgoing c =
      gather (Op.unsent s.kern.mem c) s.kern.nextOp (Function.update s.kern.ops k none) ++
        (peek s.kern.mem addr n).drop sh.res.toNat := by
  have hunsent : o.unsent s.kern.mem c = (peek s.kern.mem addr n).drop sh.res.toNat := by
    simp only [Op.unsent, hp, hphase, hc, if_true]
  by_cases hlt : sh.res < n
  · have hshort : o.short c := by
      simp only [Op.short, hp, hphase]
      exact ⟨hc, hlt⟩
    have hothers : ∀ i b, i ≠ k → s.kern.ops i = some b → b.unsent s.kern.mem c = [] :=
      fun i b hne hb => Op.unsent_eq_nil
        (fun hw => hne (h.short k o c hk hshort i b hb (Or.inl hw)))
        fun hs => hne (h.short k o c hk hshort i b hb (Or.inr hs))
    have hnil : gather (Op.unsent s.kern.mem c) s.kern.nextOp
        (Function.update s.kern.ops k none) = [] := by
      refine (gather_single (hI.lt hk) fun i b hne hb => ?_).trans (by rw [Function.update_self]; rfl)
      rw [Function.update_of_ne hne] at hb
      exact hothers i b hne hb
    rw [hnil, List.nil_append, ← hunsent]
    exact (gather_single (hI.lt hk) hothers).trans (by rw [hk, Option.elim_some])
  · have hnil : (peek s.kern.mem addr n).drop sh.res.toNat = [] := by
      refine List.drop_eq_nil_of_le ?_
      rw [peek_length]
      omega
    rw [hnil, List.append_nil]
    refine (gather_update_same _ ?_).symm
    rw [hk, Option.elim_none, Option.elim_some, hunsent, hnil]

/-- **What a send has left is in hand**; other connections see nothing of it. -/
theorem Fifo.stream_popSend {addr n : Nat} {sh : Shot} {file : Option Nat}
    (h : Fifo V (fun _ => []) [] s) (hI : Inv V none [] s) (hk : s.kern.ops k = some o)
    (hphase : o.phase = .ended file sh) (hp : o.sqe.prep = .send addr n) (hc : o.conn = some c)
    (cur : Option Nat) (c' : Nat) :
    Stream (Function.update (fun _ => []) c ((peek s.kern.mem addr n).drop sh.res.toNat))
      { s with kern := { s.kern.setOp k none with cur := cur } } c' := by
  have hinc : State.incoming { s with kern := { s.kern.setOp k none with cur := cur } } c' =
      s.incoming c' := by
    refine gather_update_same _ ?_
    rw [hk, Option.elim_none, Option.elim_some, Op.undelivered_send hp]
  by_cases hcc : c' = c
  · subst hcc
    rcases h.stream c' with hs | ⟨hcl, hpre, hw⟩
    · refine Or.inl ?_
      rw [hinc, Function.update_self]
      refine hs.trans ?_
      rw [h.outgoing_popSend hI hk hphase hp hc, List.append_nil]
      simp only [List.append_assoc]
      rfl
    · exact Or.inr ⟨hcl, hpre, forall_update (by rintro _ ⟨⟩) fun k o _ => hw k o⟩
  · refine (h.stream c').of_eq rfl rfl ?_ (Function.update_of_ne hcc _ _) hinc id ?_
    · refine gather_update_same _ ?_
      have hne : o.conn ≠ some c' := by
        rw [hc]
        exact fun he => hcc (Option.some.inj he).symm
      have hopen := Op.not_waiting_of_conn hne
      rw [hk, Option.elim_none, Option.elim_some, Op.unsent_eq_nil hopen.1 hopen.2]
    · intro k' o' hk' hw'
      rcases update_cases hk' with ⟨-, ho'⟩ | ⟨-, hk'⟩
      · cases ho'
      · exact ⟨k', o', hk', hw'⟩

/-- **The completion of a send is taken**: what it has left is in hand, and if something is left no
other send of the connection has anything. -/
theorem Fifo.popSend {addr n : Nat} {sh : Shot} {more : Bool} {r : Option Op}
    (h : Fifo V (fun _ => []) [] s) (hI : Inv V none [] s) (hk : s.kern.ops k = some o)
    (hpop : o.pop = some (sh, more, r)) (hp : o.sqe.prep = .send addr n) (hc : o.conn = some c)
    (cur : Option Nat) :
    Fifo V (Function.update (fun _ => []) c ((peek s.kern.mem addr n).drop sh.res.toNat))
        (o.token V s.app.heap) { s with kern := { s.kern.setOp k r with cur := cur } } ∧
      (sh.res < n → ∀ k' o', Function.update s.kern.ops k r k' = some o' →
        ¬(o'.waiting c ∨ o'.short c)) := by
  obtain ⟨rfl, file, hphase⟩ := hI.pop_send hk hpop hp
  refine ⟨?_, fun hlt k' o' hk' hopen => ?_⟩
  · refine h.setOp hI hk rfl rfl rfl rfl (h.stream_popSend hI hk hphase hp hc cur) (by rintro _ ⟨⟩)
      (by rintro _ _ ⟨⟩) (by rintro _ ⟨⟩) (by rintro _ ⟨⟩) ?_ ?_
    · simp
    · rw [gather_update_same]
      · exact h.newConns
      · rw [hk, Option.elim_none, Option.elim_some, Op.newConns_eq_nil (by rw [hp]; rfl)]
  · rcases update_cases hk' with ⟨-, ho'⟩ | ⟨hne, hk'⟩
    · cases ho'
    · refine hne (h.short k o c hk ?_ k' o' hk' hopen)
      simp only [Op.short, hp, hphase]
      exact ⟨hc, hlt⟩

/-- **The completion of an accept is taken**: its connection is not known yet. -/
theorem Fifo.popAccept {ms : Bool} {sh : Shot} {more : Bool} {r : Option Op}
    (h : Fifo V (fun _ => []) [] s) (hI : Inv V none [] s) (hk : s.kern.ops k = some o)
    (hpop : o.pop = some (sh, more, r)) (hp : o.sqe.prep = .accept ms) (cur : Option Nat) :
    Fifo V (fun _ => []) [] { s with kern := { s.kern.setOp k r with cur := cur } } ∧
      ∀ c, sh.conn = some c →
        c ∉ gather Op.newConns s.kern.nextOp (Function.update s.kern.ops k r) ++
          s.kern.accepted := by
  obtain ⟨hr, hposted, -⟩ := Op.pop_rest hpop
  have hrp : ∀ o', r = some o' → o'.sqe.prep = .accept ms := fun o' ho' => (hr o' ho').1 ▸ hp
  have hrest : r.elim [] Op.newConns = (r.elim [] Op.posted).filterMap Shot.conn := by
    cases r with
    | none => rfl
    | some o' => simp only [Option.elim_some, Op.newConns, hrp o' rfl]
  have hconns : (gather Op.newConns s.kern.nextOp s.kern.ops).Perm (sh.conn.toList ++
      gather Op.newConns s.kern.nextOp (Function.update s.kern.ops k r)) := by
    have hg := gather_update Op.newConns s.kern.ops r (hI.lt hk)
    have ho : o.newConns = sh.conn.toList ++ r.elim [] Op.newConns := by
      rw [hrest]
      simp only [Op.newConns, hp, hposted]
      cases hconn : sh.conn <;> simp [hconn]
    rw [hk, Option.elim_some, ho] at hg
    refine List.perm_iff_count.2 fun a => ?_
    have h1 := List.perm_iff_count.1 hg a
    simp only [List.count_append] at h1 ⊢
    omega
  have hnodup := (hconns.append_right s.kern.accepted).nodup_iff.1 h.newConns
  rw [List.append_assoc] at hnodup
  have hsame : ∀ {α : Type} (held : Op → List α), (∀ o', o'.sqe.prep = .accept ms → held o' = []) →
      gather held s.kern.nextOp (Function.update s.kern.ops k r) =
        gather held s.kern.nextOp s.kern.ops := by
    intro α held hheld
    refine gather_update_same _ ?_
    rw [hk, Option.elim_some, hheld o hp]
    cases r with
    | none => rfl
    | some o' => exact hheld o' (hrp o' rfl)
  have hclosed : ∀ o' c, r = some o' → ¬(o'.waiting c ∨ o'.short c) := by
    intro o' c ho'
    unfold Op.waiting Op.short
    rw [hrp o' ho']
    simp
  refine ⟨h.setOp hI hk rfl rfl rfl rfl (fun c => ?_) ?_ ?_ ?_ ?_ ?_ ?_, ?_⟩
  · refine (h.stream c).of_eq rfl rfl (hsame _ fun o' ho' => ?_) rfl (hsame _ fun o' ho' => ?_) id ?_
    · unfold Op.unsent
      rw [ho']
    · unfold Op.undelivered
      rw [ho']
    · intro k' o' hk' hw'
      rcases update_cases hk' with ⟨-, ho'⟩ | ⟨-, hk'⟩
      · exact absurd (Or.inl hw') (hclosed o' c ho')
      · exact ⟨k', o', hk', hw'⟩
  · intro o' ho'
    rw [(hr o' ho').2.2.1]
  · exact fun o' ms' ho' hp' => by cases (hrp o' ho').symm.trans hp'
  · exact fun o' ho' c ho => absurd ho (hclosed o' c ho')
  · exact fun o' ho' c hs => absurd (Or.inr hs) (hclosed o' c ho')
  · have htok : ∀ o' : Op, o'.sqe.prep = .accept ms → o'.token V s.app.heap = [] := by
      intro o' ho'
      unfold Op.token
      rw [ho']
    rw [htok o hp]
    cases r with
    | none => exact List.Perm.refl _
    | some o' => rw [Option.elim_some, htok o' (hrp o' rfl)]
  · exact (List.nodup_append.1 hnodup).2.1
  · intro c hc hmem
    rw [hc] at hnodup
    exact (List.nodup_cons.1 hnodup).1 hmem

/-! ## One turn of the event loop -/

/-- **A new connection gets its receive.** -/
theorem Fifo.turnAccept {listenFd fd res : Int} {more : Bool} {buffer : Option Nat}
    (h : Fifo V (fun _ => []) [] s) (hI : Inv V (eventInHand more p) [] s)
    (he : s.app.heap p = some (.accept fd)) (hmore : (V.multishot && more) = more)
    (hconn : 0 ≤ res → ∃ c, s.kern.cur = some c ∧
      c ∉ gather Op.newConns s.kern.nextOp s.kern.ops ++ s.kern.accepted) :
    Fifo V (fun _ => []) [] (serve V listenFd s p ⟨res, more, buffer⟩) := by
  have h₁ : Fifo V (fun _ => []) []
      (if 0 ≤ res then BufferSelect.queueRecv V.multishot (s.insertClient res) res else s) ∧
      Inv V (eventInHand more p) []
        (if 0 ≤ res then BufferSelect.queueRecv V.multishot (s.insertClient res) res else s) := by
    split
    · rename_i hres
      obtain ⟨c, hcur, hc⟩ := hconn hres
      exact ⟨(h.insertClient hcur hc res).queueRecv (hI.insertClient res) hcur _ _,
        (hI.insertClient res).queueRecv res⟩
    · exact ⟨h, hI⟩
  simp only [serve, he, hmore]
  generalize (if 0 ≤ res then BufferSelect.queueRecv V.multishot (s.insertClient res) res
    else s) = s₁ at h₁
  cases more with
  | true => exact h₁.1
  | false => exact (h₁.1.queueAccept h₁.2 _ _).delete (h₁.2.queueAccept listenFd)

/-- **Received bytes go into a send**, behind those that wait. -/
theorem Fifo.turnRecv {listenFd res : Int} {more : Bool} {buffer : Option Nat}
    (h : Fifo V (Function.update (fun _ => []) c (Shot.bytes s.kern.mem ⟨res, buffer, some c⟩))
      (if more then [] else [c]) s)
    (hI : Inv V (eventInHand more p) buffer.toList s) (he : s.app.heap p = some (.recv fd))
    (hmore : (V.multishot && more) = more) (hmark : V.rearm (V.mark (!more)) = !more)
    (hbuf : buffer = none ↔ res ≤ 0) (hle : res ≤ BUF_SIZE) (hlast : res ≤ 0 → more = false)
    (hcur : s.kern.cur = some c) (hopen : ¬IsClosed s.kern.closed c)
    (hfd : s.kern.net.fds fd = some c)
    (hshort : 0 < res → ∀ k o, s.kern.ops k = some o → ¬o.short c) :
    Fifo V (fun _ => []) [] (serve V listenFd s p ⟨res, more, buffer⟩) := by
  simp only [serve, he, hmore]
  by_cases hres : res ≤ 0
  · obtain rfl := hlast hres
    obtain rfl := hbuf.2 hres
    have hmid : Function.update (fun _ => []) c (Shot.bytes s.kern.mem ⟨res, none, some c⟩) =
        fun _ => [] := Function.update_eq_self c (fun _ => ([] : List Byte))
    rw [hmid] at h
    by_cases henobufs : res = -ENOBUFS
    · rw [if_pos henobufs]
      exact Fifo.finish (h.queueRecv hI hcur _ _) (hI.queueRecv fd)
    · rw [if_neg henobufs, if_pos hres]
      exact Fifo.finish (h.closeFd hfd (fun _ _ => rfl) fun hne => absurd rfl hne)
          ((hI.closeFd fd).eraseClient fd)
  · obtain ⟨bid, rfl⟩ := Option.ne_none_iff_exists'.1 (fun hb => hres (hbuf.1 hb))
    have henobufs : res ≠ -ENOBUFS := by
      unfold ENOBUFS
      omega
    rw [if_neg henobufs, if_neg hres]
    show Fifo V (fun _ => []) []
      (if more = true then
        queueSend (s.newEvent (.send fd bid res.toNat 0 (V.mark (!more)))) s.app.next
      else (queueSend (s.newEvent (.send fd bid res.toNat 0 (V.mark (!more)))) s.app.next).delete p)
    rw [queueSend_newEvent]
    refine Fifo.finish (Fifo.spawn (if more then [] else [c]) (by rwa [List.append_nil]) hI ?_ ?_ ?_)
      (hI.spawn ⟨rfl, rfl, ?_, ?_⟩ rfl)
    · simp only [Op.token, Function.update_self, hmark, hcur]
      cases more <;> rfl
    · intro c'
      simp only [Op.unsent, hcur, List.append_nil, Nat.add_zero, Nat.sub_zero]
      by_cases hc : c' = c
      · subst hc
        simp [Shot.bytes]
      · rw [Function.update_of_ne hc, if_neg fun he => hc (Option.some.inj he).symm]
    · intro c' hw
      obtain rfl : c = c' := Option.some.inj (hcur.symm.trans hw)
      exact ⟨hopen, hshort (Int.not_le.1 hres)⟩
    · omega
    · omega

/-- **What a send has left is sent next**, or the connection is closed. -/
theorem Fifo.turnSend {listenFd res : Int} {bid len offset : Nat} {r : ρ}
    (h : Fifo V (Function.update (fun _ => []) c
        ((peek s.kern.mem (bid * BUF_SIZE + offset) (len - offset)).drop res.toNat))
      (if V.rearm r then [c] else []) s)
    (hI : Inv V (some p) [bid] s) (he : s.app.heap p = some (.send fd bid len offset r))
    (hlt : offset < len) (hcur : s.kern.cur = some c)
    (hopen : ¬IsClosed s.kern.closed c ∨ Finishes V s p res)
    (hfd : ¬IsClosed s.kern.closed c → s.kern.net.fds fd = some c)
    (hothers : res < (len - offset : Nat) → ∀ k o, s.kern.ops k = some o →
      ¬(o.waiting c ∨ o.short c)) :
    Fifo V (fun _ => []) [] (serve V listenFd s p ⟨res, false, none⟩) := by
  simp only [Finishes, he] at hopen
  simp only [serve, he]
  split
  · rename_i hres
    have hopen' := hopen.resolve_right (by omega)
    refine Fifo.delete ?_ ((hI.recycle.closeFd fd).eraseClient fd)
    refine (h.recycleBuf bid).closeFd (hfd hopen') (fun c' hc' => Function.update_of_ne hc' _ _) ?_
    exact fun _ k o hk hw => hothers (by omega) k o hk (Or.inl hw)
  · rename_i hres
    have h₁ := h.setEvent hI (.send fd bid len (offset + res.toNat) r)
    have hI₁ := hI.setEvent (.send fd bid len (offset + res.toNat) r)
    split
    · rename_i hpart
      have hopen' := hopen.resolve_right (by omega)
      have hheap : (s.setEvent p (.send fd bid len (offset + res.toNat) r)).app.heap p =
          some (.send fd bid len (offset + res.toNat) r) := Function.update_self ..
      simp only [queueSend, hheap]
      refine Fifo.queue (s.setEvent p (.send fd bid len (offset + res.toNat) r)).app
        (if V.rearm r then [c] else []) (by rwa [List.append_nil]) (fun _ _ _ => rfl) ?_ (fun c' => ?_)
        fun c' hw => ?_
      · simp only [Op.token, hheap]
        show (if V.rearm r then s.kern.cur.toList else []) = _
        rw [hcur]
        rfl
      · show _ = (if s.kern.cur = some c' then
            peek s.kern.mem (bid * BUF_SIZE + (offset + res.toNat)) (len - (offset + res.toNat))
          else []) ++ []
        rw [hcur, List.append_nil]
        by_cases hc : c' = c
        · subst hc
          rw [Function.update_self, if_pos rfl, peek_drop, Nat.add_assoc, Nat.sub_sub]
        · rw [Function.update_of_ne hc, if_neg fun he => hc (Option.some.inj he).symm]
      · obtain rfl : c = c' := Option.some.inj (hcur.symm.trans hw)
        exact ⟨hopen', fun k o hk hs => hothers (by omega) k o hk (Or.inr hs)⟩
    · rename_i hfull
      have hnil : Function.update (fun _ => []) c
          ((peek s.kern.mem (bid * BUF_SIZE + offset) (len - offset)).drop res.toNat) =
          fun _ => [] := by
        rw [List.drop_eq_nil_of_le (by rw [peek_length]; omega)]
        exact Function.update_eq_self c (fun _ => ([] : List Byte))
      rw [hnil] at h₁
      have h₂ := h₁.recycleBuf bid
      split
      · rename_i hre
        rw [Bool.and_eq_true] at hre
        rw [if_pos hre.1] at h₂
        exact (h₂.queueRecv hI₁.recycle hcur _ _).delete (hI₁.recycle.queueRecv fd)
      · exact h₂.dropTok.delete hI₁.recycle

/-! ## The kernel's steps -/

section Posted

variable {file : Option Nat} {more : Bool} {sh : Shot}

/-- The completions of a receive, if the new one is not the last. -/
theorem Op.shots_post (ho' : o' = if more then { o with shots := o.shots ++ [sh] }
      else { o with phase := .ended file sh }) (hold : ∀ sh' ∈ o.shots, 0 < sh'.res)
    (hmore : more = true → 0 < sh.res) : ∀ sh' ∈ o'.shots, 0 < sh'.res := by
  intro sh' hsh'
  cases more with
  | false =>
    subst ho'
    exact hold sh' hsh'
  | true =>
    subst ho'
    rcases List.mem_append.1 hsh' with hsh' | hsh'
    · exact hold sh' hsh'
    · rw [List.mem_singleton.1 hsh']
      exact hmore rfl

/-- A send that posts was waiting. -/
theorem Op.waiting_of_post (hp : o.phase = .armed file) (hsqe : o'.sqe = o.sqe)
    (hconn : o'.conn = o.conn) (hopen : o'.waiting c ∨ o'.short c) : o.waiting c := by
  have hconn' : o.conn = some c := by
    by_contra hne
    have hnot := Op.not_waiting_of_conn (o := o') (hconn ▸ hne)
    exact hopen.elim hnot.1 hnot.2
  cases hprep : o.sqe.prep with
  | send addr n =>
    simp only [Op.waiting, hprep, hp]
    exact hconn'
  | accept ms =>
    unfold Op.waiting Op.short at hopen
    rw [hsqe, hprep] at hopen
    simp at hopen
  | recv ms => exact absurd hopen (Op.not_open_recv (hsqe ▸ hprep) c)

/-- A request that has posted and is short is a send that took less than it was to send. -/
theorem Op.short_of_post (ho' : o' = if more then { o with shots := o.shots ++ [sh] }
      else { o with phase := .ended file sh }) (hsqe : o'.sqe = o.sqe)
    (hm : more = true → o.sqe.prep.multishot = true) (hs : o'.short c) :
    ∃ addr n, o.sqe.prep = .send addr n ∧ o.conn = some c ∧ sh.res < n := by
  cases hprep : o.sqe.prep with
  | send addr n =>
    obtain rfl : more = false := by
      rw [hprep] at hm
      exact Bool.eq_false_iff.2 fun hmore => by cases hm hmore
    rw [if_neg Bool.false_ne_true] at ho'
    subst ho'
    simp only [Op.short, hprep] at hs
    exact ⟨addr, n, rfl, hs⟩
  | accept ms =>
    unfold Op.short at hs
    rw [hsqe, hprep] at hs
    cases hs
  | recv ms => exact absurd (Or.inr hs) (Op.not_open_recv (hsqe ▸ hprep) c)

/-- **The connection of an accept is new**, so that no two accepts have the same. -/
theorem Fifo.newConns_post (h : Fifo V mid tok s) (hI : Inv V none [] s)
    (hk : s.kern.ops k = some o) (hsqe : o'.sqe = o.sqe) (hposted : o'.posted = o.posted ++ [sh])
    (hnew : o.sqe.prep.isAccept = true → ∀ c, sh.conn = some c →
      c ∉ gather Op.newConns s.kern.nextOp s.kern.ops ++ s.kern.accepted) :
    (gather Op.newConns s.kern.nextOp (Function.update s.kern.ops k (some o')) ++
      s.kern.accepted).Nodup := by
  have hg := gather_update Op.newConns s.kern.ops (some o') (hI.lt hk)
  rw [hk, Option.elim_some, Option.elim_some] at hg
  cases hprep : o.sqe.prep with
  | recv ms | send addr n =>
    rw [Op.newConns_eq_nil (by rw [hsqe, hprep]; rfl), Op.newConns_eq_nil (by rw [hprep]; rfl)] at hg
    exact ((hg.append_right _).nodup_iff).1 h.newConns
  | accept ms =>
    have hadd : o'.newConns = o.newConns ++ sh.conn.toList := by
      simp only [Op.newConns, hsqe, hprep, hposted, List.filterMap_append]
      cases hc : sh.conn <;> simp [hc]
    have hperm : (gather Op.newConns s.kern.nextOp (Function.update s.kern.ops k (some o'))).Perm
        (sh.conn.toList ++ gather Op.newConns s.kern.nextOp s.kern.ops) := by
      rw [hadd] at hg
      refine List.perm_iff_count.2 fun a => ?_
      have h1 := List.perm_iff_count.1 hg a
      simp only [List.count_append] at h1 ⊢
      omega
    refine (hperm.append_right _).nodup_iff.2 ?_
    cases hc : sh.conn with
    | none => exact h.newConns
    | some c => exact List.nodup_cons.2 ⟨hnew (by rw [hprep]; rfl) c hc, h.newConns⟩

/-- **A completion is posted**: of a send that stays short only when no other one waits, of an
accept for a connection that is not known. -/
theorem Fifo.post {K : Kernel} (h : Fifo V (fun _ => []) [] s) (hI : Inv V none [] s)
    (hk : s.kern.ops k = some o) (hp : o.phase = .armed file)
    (hm : more = true → o.sqe.prep.multishot = true)
    (hops : K.ops = s.kern.ops) (hnext : K.nextOp = s.kern.nextOp)
    (hsub : K.submitted = s.kern.submitted) (hacc : K.accepted = s.kern.accepted)
    (hstream : ∀ c, Stream (fun _ => []) { s with kern := K.post k o file more sh } c)
    (hshort : ∀ addr n c, o.sqe.prep = .send addr n → o.conn = some c → sh.res < n →
      ∀ k' o', k' ≠ k → s.kern.ops k' = some o' → ¬(o'.waiting c ∨ o'.short c))
    (hmore : ∀ ms, o.sqe.prep = .recv ms → more = true → 0 < sh.res)
    (hnew : o.sqe.prep.isAccept = true → ∀ c, sh.conn = some c →
      c ∉ gather Op.newConns s.kern.nextOp s.kern.ops ++ s.kern.accepted) :
    Fifo V (fun _ => []) [] { s with kern := K.post k o file more sh } := by
  obtain ⟨o', ho'⟩ : ∃ o', o' = (if more then { o with shots := o.shots ++ [sh] }
      else { o with phase := .ended file sh } : Op) := ⟨_, rfl⟩
  obtain ⟨hsqe, hconn, hfile, hposted⟩ := Op.post_eq hp ho'
  have hops' : (K.post k o file more sh).ops = Function.update s.kern.ops k (some o') := by
    rw [ho', ← hops]
    rfl
  have hphase : o'.phase ≠ .queued := by
    intro hq
    rw [hq, hp] at hfile
    cases hfile
  refine h.setOp hI hk hops' hnext hsub hacc hstream ?_ ?_ ?_ ?_ ?_
    (h.newConns_post hI hk hsqe hposted hnew)
  · intro o₁ ho₁
    cases ho₁
    exact iff_of_false hphase (by rw [hp]; rintro ⟨⟩)
  · intro o₁ ms ho₁ hprep
    cases ho₁
    rw [hsqe] at hprep
    exact Op.shots_post ho' (h.more k o ms hk hprep) (hmore ms hprep)
  · intro o₁ ho₁ c hopen
    cases ho₁
    exact Or.inl (Op.waiting_of_post hp hsqe hconn hopen)
  · intro o₁ ho₁ c hs
    cases ho₁
    obtain ⟨addr, n, hprep, hc, hlt⟩ := Op.short_of_post ho' hsqe hm hs
    exact hshort addr n c hprep hc hlt
  · have htok : o'.token V s.app.heap = o.token V s.app.heap := by
      unfold Op.token
      rw [hsqe, hconn]
    rw [Option.elim_some, htok]

end Posted

/-- A completion without bytes, of an accept or a receive. -/
theorem Stream.post {K : Kernel} {file : Option Nat} {more : Bool} {sh : Shot} (h : Stream mid s c)
    (hk : s.kern.ops k = some o) (hp : o.phase = .armed file)
    (hns : ∀ addr n, o.sqe.prep ≠ .send addr n) (hbytes : sh.bytes s.kern.mem = [])
    (hops : K.ops = s.kern.ops) (hnext : K.nextOp = s.kern.nextOp) (hmem : K.mem = s.kern.mem)
    (hrx : K.net.rx = s.kern.net.rx) (htx : K.net.tx = s.kern.net.tx)
    (hclosed : K.closed = s.kern.closed) :
    Stream mid { s with kern := K.post k o file more sh } c := by
  obtain ⟨o', ho'⟩ : ∃ o', o' = (if more then { o with shots := o.shots ++ [sh] }
      else { o with phase := .ended file sh } : Op) := ⟨_, rfl⟩
  obtain ⟨hsqe, hconn, -, hposted⟩ := Op.post_eq hp ho'
  have hops' : (K.post k o file more sh).ops = Function.update s.kern.ops k (some o') := by
    rw [ho', ← hops]
    rfl
  have hsame : ∀ {α : Type} (held : Op → List α), held o' = held o →
      gather held K.nextOp (K.post k o file more sh).ops = gather held s.kern.nextOp s.kern.ops := by
    intro α held hheld
    rw [hnext, hops']
    exact gather_update_same _ (by rw [hk, Option.elim_some, Option.elim_some, hheld])
  have hunsent : ∀ (o₁ : Op), (∀ addr n, o₁.sqe.prep ≠ .send addr n) → ¬o₁.waiting c ∧
      o₁.unsent s.kern.mem c = [] := by
    intro o₁ hns₁
    unfold Op.waiting Op.unsent
    cases hprep : o₁.sqe.prep with
    | send addr n => exact absurd hprep (hns₁ addr n)
    | accept ms => exact ⟨id, rfl⟩
    | recv ms => exact ⟨id, rfl⟩
  refine h.of_eq (congrFun hrx c) (congrFun htx c) ?_ rfl ?_ (fun hcl => hclosed ▸ hcl) ?_
  · show gather (Op.unsent K.mem c) K.nextOp _ = _
    rw [hmem]
    exact hsame _ ((hunsent o' (hsqe ▸ hns)).2.trans (hunsent o hns).2.symm)
  · show gather (Op.undelivered K.mem c) K.nextOp _ = _
    rw [hmem]
    refine hsame _ ?_
    unfold Op.undelivered
    rw [hsqe, hconn, hposted, List.flatMap_append, List.flatMap_singleton, hbytes, List.append_nil]
  · intro k' o₁ hk' hw
    rw [hops'] at hk'
    rcases update_cases hk' with ⟨-, ho₁⟩ | ⟨-, hk'⟩
    · cases ho₁
      exact absurd hw (hunsent o' (hsqe ▸ hns)).1
    · exact ⟨k', o₁, hk', hw⟩

section Received

variable {b : Buf} {br : CounterRing Buf} {data : List Byte}

/-- The data goes into a buffer that no send has, … -/
theorem Inv.unsent_handOut (hI : Inv V none [] s) (hb : s.kern.br.take NUM_BUFS = some (b, br))
    (hfit : data.length ≤ b.len) (hk : s.kern.ops k = some o) (c : Nat) :
    o.unsent (poke s.kern.mem b.addr data) c = o.unsent s.kern.mem c := by
  unfold Op.unsent
  cases hp : o.sqe.prep with
  | send addr n =>
    obtain ⟨-, bid, -, -, -, -, hout, hin⟩ := hI.send_inBuf hk hp
    cases o.phase <;> simp only [hI.peek_handOut hb hfit hout hin]
  | accept ms => rfl
  | recv ms => rfl

/-- … and no completion. -/
theorem Inv.undelivered_handOut (hI : Inv V none [] s)
    (hb : s.kern.br.take NUM_BUFS = some (b, br)) (hfit : data.length ≤ b.len)
    (hk : s.kern.ops k = some o) (c : Nat) :
    o.undelivered (poke s.kern.mem b.addr data) c = o.undelivered s.kern.mem c := by
  have hbytes : o.posted.flatMap (Shot.bytes (poke s.kern.mem b.addr data)) =
      o.posted.flatMap (Shot.bytes s.kern.mem) := by
    refine List.flatMap_congr fun sh hsh => ?_
    unfold Shot.bytes
    cases hbid : sh.buffer with
    | none => rfl
    | some bid =>
      obtain ⟨hout, hin⟩ := hI.shot_inBuf hk hsh hbid
      exact hI.peek_handOut hb hfit hout hin
  unfold Op.undelivered
  rw [hbytes]

/-- The bytes of the new completion are the data. -/
theorem Inv.bytes_handOut (hI : Inv V none [] s) (hb : s.kern.br.take NUM_BUFS = some (b, br))
    {res : Int} (hres : res = data.length) (conn : Option Nat) :
    Shot.bytes (poke s.kern.mem b.addr data) ⟨res, some b.bid, conn⟩ = data := by
  have hmem : b ∈ s.kern.br.contents NUM_BUFS := by
    rw [CounterRing.contents_take (by decide) hb]
    exact List.mem_cons_self
  have hlen : res.toNat = data.length := by omega
  simp only [Shot.bytes]
  rw [hlen, ← (hI.ring b hmem).1]
  exact peek_poke_self _ _ _

/-- **Data is undelivered** behind what its connection has received. -/
theorem Fifo.incoming_received {ms : Bool} {res : Int} (h : Fifo V mid tok s)
    (hI : Inv V none [] s) (hk : s.kern.ops k = some o) (hprep : o.sqe.prep = .recv ms)
    (hc : o.conn = some c) (hb : s.kern.br.take NUM_BUFS = some (b, br))
    (hfit : data.length ≤ b.len) (hres : res = data.length) (hsqe : o'.sqe = o.sqe)
    (hconn : o'.conn = o.conn) (hposted : o'.posted = o.posted ++ [⟨res, some b.bid, some c⟩])
    (c' : Nat) :
    gather (Op.undelivered (poke s.kern.mem b.addr data) c') s.kern.nextOp
        (Function.update s.kern.ops k (some o')) =
      s.incoming c' ++ if c' = c then data else [] := by
  by_cases hcc : c' = c
  · -- the connection has this receive only
    subst hcc
    have hold : s.incoming c' = o.undelivered s.kern.mem c' := by
      refine (gather_single (hI.lt hk) fun i b' hi hb' => ?_).trans (by rw [hk, Option.elim_some])
      exact h.undelivered_only hI hk hprep hc hi hb' _
    have hnew : gather (Op.undelivered (poke s.kern.mem b.addr data) c') s.kern.nextOp
        (Function.update s.kern.ops k (some o')) =
          o'.undelivered (poke s.kern.mem b.addr data) c' := by
      refine (gather_single (hI.lt hk) fun i b' hi hb' => ?_).trans
        (by rw [Function.update_self, Option.elim_some])
      rw [Function.update_of_ne hi] at hb'
      exact h.undelivered_only hI hk hprep hc hi hb' _
    rw [hnew, hold, if_pos rfl, ← hI.undelivered_handOut hb hfit hk]
    simp only [Op.undelivered, hsqe, hprep, hconn, hc, if_true, hposted, List.flatMap_append,
      List.flatMap_singleton, hI.bytes_handOut hb hres]
  · have hne : o.conn ≠ some c' := by
      rw [hc]
      exact fun he => hcc (Option.some.inj he).symm
    rw [if_neg hcc, List.append_nil, gather_update_same]
    · exact gather_congr fun k₁ o₁ _ hk₁ => hI.undelivered_handOut hb hfit hk₁ c'
    · rw [hk, Option.elim_some, Option.elim_some, Op.undelivered_eq_nil hne,
        Op.undelivered_eq_nil (hconn ▸ hne)]

/-- **Data arrives** behind what its connection has received. -/
theorem Fifo.received {K : Kernel} {c : Nat} {ms more : Bool} {res : Int}
    (h : Fifo V (fun _ => []) [] s) (hI : Inv V none [] s)
    (hk : s.kern.ops k = some o) (hp : o.phase = .armed (some c)) (hprep : o.sqe.prep = .recv ms)
    (hc : o.conn = some c) (hres : res = data.length)
    (hb : s.kern.br.take NUM_BUFS = some (b, br)) (hfit : data.length ≤ b.len)
    (hops : K.ops = s.kern.ops) (hnext : K.nextOp = s.kern.nextOp)
    (hmem : K.mem = poke s.kern.mem b.addr data) (hnet : K.net = s.kern.net.receive c data)
    (hclosed : K.closed = s.kern.closed) (c' : Nat) :
    Stream (fun _ => [])
      { s with kern := K.post k o (some c) more ⟨res, some b.bid, some c⟩ } c' := by
  obtain ⟨o', ho'⟩ : ∃ o', o' = (if more then { o with shots := o.shots ++ [⟨res, some b.bid, some c⟩] }
      else { o with phase := .ended (some c) ⟨res, some b.bid, some c⟩ } : Op) := ⟨_, rfl⟩
  obtain ⟨hsqe, hconn, -, hposted⟩ := Op.post_eq hp ho'
  have hprep' : o'.sqe.prep = .recv ms := hsqe ▸ hprep
  have hops' : (K.post k o (some c) more ⟨res, some b.bid, some c⟩).ops =
      Function.update s.kern.ops k (some o') := by
    rw [ho', ← hops]
    rfl
  have hout : gather (Op.unsent K.mem c') K.nextOp (Function.update s.kern.ops k (some o')) =
      s.outgoing c' := by
    rw [gather_update_same, hnext, hmem]
    · exact gather_congr fun k₁ o₁ _ hk₁ => hI.unsent_handOut hb hfit hk₁ c'
    · rw [hk, Option.elim_some, Option.elim_some, Op.unsent_recv hprep', Op.unsent_recv hprep]
  have hinc : gather (Op.undelivered K.mem c') K.nextOp (Function.update s.kern.ops k (some o')) =
      s.incoming c' ++ if c' = c then data else [] := by
    rw [hmem, hnext]
    exact h.incoming_received hI hk hprep hc hb hfit hres hsqe hconn hposted c'
  have hrx : K.net.rx c' = s.kern.net.rx c' ++ if c' = c then data else [] := by
    rw [hnet]
    exact Net.receive_rx _ _ _ _
  have htx : K.net.tx = s.kern.net.tx := by rw [hnet]; rfl
  rcases h.stream c' with hs | ⟨hcl, hpre, hw⟩
  · refine Or.inl ?_
    show K.net.rx c' = K.net.tx c' ++ gather (Op.unsent K.mem c') K.nextOp _ ++ [] ++
      gather (Op.undelivered K.mem c') K.nextOp _
    rw [hops', hrx, htx, hout, hinc, hs]
    simp only [List.append_assoc]
  · refine Or.inr ⟨?_, ?_, ?_⟩
    · show IsClosed K.closed c'
      rw [hclosed]
      exact hcl
    · show K.net.tx c' <+: K.net.rx c'
      rw [hrx, htx]
      exact hpre.trans (List.prefix_append _ _)
    · intro k₁ o₁ hk₁ hw₁
      rw [hops'] at hk₁
      rcases update_cases hk₁ with ⟨-, ho₁⟩ | ⟨-, hk₁⟩
      · cases ho₁
        exact Op.not_open_recv hprep' c' (Or.inl hw₁)
      · exact hw k₁ o₁ hk₁ hw₁

end Received

/-- **The oldest send of its connection is executed.** -/
theorem Fifo.sent {K : Kernel} {c addr n : Nat} {res : Int} (h : Fifo V (fun _ => []) [] s)
    (hI : Inv V none [] s) (hk : s.kern.ops k = some o) (hp : o.phase = .armed (some c))
    (hprep : o.sqe.prep = .send addr n) (hc : o.conn = some c) (hres : res ≤ n)
    (hfirst : ∀ k' o', k' < k → s.kern.ops k' = some o' → ¬o'.waiting c)
    (hops : K.ops = s.kern.ops) (hnext : K.nextOp = s.kern.nextOp) (hmem : K.mem = s.kern.mem)
    (hnet : K.net = s.kern.net.transmit c (peek s.kern.mem addr res.toNat))
    (hclosed : K.closed = s.kern.closed) (c' : Nat) :
    Stream (fun _ => []) { s with kern := K.post k o (some c) false ⟨res, none, some c⟩ } c' := by
  obtain ⟨o', ho'⟩ : ∃ o' : Op, o' = { o with phase := .ended (some c) ⟨res, none, some c⟩ } :=
    ⟨_, rfl⟩
  have hops' : (K.post k o (some c) false ⟨res, none, some c⟩).ops =
      Function.update s.kern.ops k (some o') := by
    rw [ho', ← hops]
    rfl
  have hwait : o.waiting c := by
    simp only [Op.waiting, hprep, hp]
    exact hc
  have hinc : gather (Op.undelivered K.mem c') K.nextOp (Function.update s.kern.ops k (some o')) =
      s.incoming c' := by
    rw [gather_update_same, hnext, hmem]
    · rfl
    · rw [hk, Option.elim_some, Option.elim_some, Op.undelivered_send hprep,
        Op.undelivered_send (o := o') (by rw [ho']; exact hprep)]
  by_cases hcc : c' = c
  · subst hcc
    -- the sends before it have nothing left
    have hnothing : ∀ i b, i < k → s.kern.ops i = some b → b.unsent s.kern.mem c' = [] :=
      fun i b hi hb => Op.unsent_eq_nil (hfirst i b hi hb) fun hs =>
        Nat.ne_of_gt hi (h.short i b c' hb hs k o hk (Or.inl hwait))
    obtain ⟨rest, hold, hnew⟩ := gather_first (some o') (hI.lt hk) hnothing
    have hunsent : o.unsent s.kern.mem c' = peek s.kern.mem addr n := by
      simp only [Op.unsent, hprep, hp, hc, if_true]
    have hunsent' : o'.unsent s.kern.mem c' = (peek s.kern.mem addr n).drop res.toNat := by
      simp only [ho', Op.unsent, hprep, hc, if_true]
    have htake : peek s.kern.mem addr res.toNat = (peek s.kern.mem addr n).take res.toNat :=
      (peek_take (by omega)).symm
    rw [hk, Option.elim_some, hunsent] at hold
    rw [Option.elim_some, hunsent'] at hnew
    rcases h.stream c' with hs | ⟨-, -, hw⟩
    · refine Or.inl ?_
      show K.net.rx c' = K.net.tx c' ++ gather (Op.unsent K.mem c') K.nextOp _ ++ [] ++
        gather (Op.undelivered K.mem c') K.nextOp _
      have hout : s.outgoing c' = peek s.kern.mem addr n ++ rest := hold
      have htx : K.net.tx c' = s.kern.net.tx c' ++ (peek s.kern.mem addr n).take res.toNat := by
        rw [hnet, ← htake]
        exact Function.update_self ..
      have hrx : K.net.rx c' = s.kern.net.rx c' := by rw [hnet]; rfl
      rw [hops', hinc, hmem, hnext, hnew, htx, hrx, hs, hout]
      conv_lhs => rw [← List.take_append_drop res.toNat (peek s.kern.mem addr n)]
      simp only [List.append_assoc]
    · exact absurd hwait (hw k o hk)
  · have hne : o.conn ≠ some c' := by
      rw [hc]
      exact fun he => hcc (Option.some.inj he).symm
    have hopen := Op.not_waiting_of_conn hne
    have hopen' := Op.not_waiting_of_conn (o := o') (c := c') (by rw [ho']; exact hne)
    refine (h.stream c').of_eq ?_ ?_ ?_ rfl ?_ (fun hcl => hclosed ▸ hcl) ?_
    · show K.net.rx c' = _
      rw [hnet]
      rfl
    · show K.net.tx c' = _
      rw [hnet]
      exact Function.update_of_ne hcc _ _
    · show gather (Op.unsent K.mem c') K.nextOp _ = _
      rw [hops', gather_update_same, hnext, hmem]
      · rfl
      · rw [hk, Option.elim_some, Option.elim_some, Op.unsent_eq_nil hopen.1 hopen.2,
          Op.unsent_eq_nil hopen'.1 hopen'.2]
    · show gather (Op.undelivered K.mem c') K.nextOp _ = _
      rw [hops', hinc]
    · intro k₁ o₁ hk₁ hw₁
      rw [hops'] at hk₁
      rcases update_cases hk₁ with ⟨-, ho₁⟩ | ⟨-, hk₁⟩
      · cases ho₁
        exact absurd hw₁ hopen'.1
      · exact ⟨k₁, o₁, hk₁, hw₁⟩

/-- The connections of accepts that are not handled exist. -/
theorem Sep.newConns_lt (hS : Sep s) (hc : c ∈ gather Op.newConns s.kern.nextOp s.kern.ops) :
    c < s.kern.net.next := by
  obtain ⟨k, o, -, hk, ho⟩ := mem_gather.1 hc
  unfold Op.newConns at ho
  split at ho
  · rename_i ms hp
    obtain ⟨sh, hsh, hconn⟩ := List.mem_filterMap.1 ho
    have hnew := hS.accepts k o hk (by rw [hp]; rfl) sh hsh
    unfold NewConn at hnew
    split at hnew
    · obtain ⟨c', hc', hlt, -⟩ := hnew
      cases hc'.symm.trans hconn
      exact hlt
    · cases hnew.symm.trans hconn
  · cases ho

/-- A completion without bytes, of an accept or a receive, is posted. -/
theorem Fifo.postQuiet {K : Kernel} {file : Option Nat} {more : Bool} {sh : Shot}
    (h : Fifo V (fun _ => []) [] s) (hI : Inv V none [] s) (hk : s.kern.ops k = some o)
    (hp : o.phase = .armed file) (hm : more = true → o.sqe.prep.multishot = true)
    (hns : o.sqe.prep.isSend = false) (hbytes : sh.bytes s.kern.mem = [])
    (hops : K.ops = s.kern.ops) (hnext : K.nextOp = s.kern.nextOp)
    (hsub : K.submitted = s.kern.submitted) (hacc : K.accepted = s.kern.accepted)
    (hmem : K.mem = s.kern.mem) (hrx : K.net.rx = s.kern.net.rx) (htx : K.net.tx = s.kern.net.tx)
    (hclosed : K.closed = s.kern.closed)
    (hmore : ∀ ms, o.sqe.prep = .recv ms → more = true → 0 < sh.res)
    (hnew : o.sqe.prep.isAccept = true → ∀ c, sh.conn = some c →
      c ∉ gather Op.newConns s.kern.nextOp s.kern.ops ++ s.kern.accepted) :
    Fifo V (fun _ => []) [] { s with kern := K.post k o file more sh } := by
  have hns' : ∀ addr n, o.sqe.prep ≠ .send addr n := by
    intro addr n hprep
    rw [hprep] at hns
    cases hns
  refine h.post hI hk hp hm hops hnext hsub hacc ?_
    (fun addr n _ hprep => absurd hprep (hns' addr n)) hmore hnew
  exact fun c => (h.stream c).post hk hp hns' hbytes hops hnext hmem hrx htx hclosed

/-- A receive gets data. -/
theorem Fifo.execReceived {c : Nat} {ms more : Bool} {b : Buf} {br : CounterRing Buf}
    {data : List UInt8} {res : Int} (h : Fifo V (fun _ => []) [] s) (hI : Inv V none [] s)
    (hk : s.kern.ops k = some o) (hp : o.phase = .armed (some c))
    (hm : more = true → o.sqe.prep.multishot = true) (hprep : o.sqe.prep = .recv ms)
    (hc : o.conn = some c) (hne : data ≠ []) (hlen : res = data.length)
    (hb : s.kern.br.take NUM_BUFS = some (b, br)) (hfit : data.length ≤ b.len) :
    Fifo V (fun _ => []) [] { s with
      kern := ({ s.kern with
        br := br
        mem := poke s.kern.mem b.addr (data.map (⟨·, some c⟩))
        net := s.kern.net.receive c (data.map (⟨·, some c⟩))
        handed := b.bid :: s.kern.handed }).post k o (some c) more ⟨res, some b.bid, some c⟩ } := by
  have hlen' : res = (data.map (⟨·, some c⟩ : UInt8 → Byte)).length := by rwa [List.length_map]
  have hfit' : (data.map (⟨·, some c⟩ : UInt8 → Byte)).length ≤ b.len := by rwa [List.length_map]
  refine h.post hI hk hp hm rfl rfl rfl rfl
    (h.received hI hk hp hprep hc hlen' hb hfit' rfl rfl rfl rfl rfl) ?_ ?_ ?_
  · exact fun addr n _ hp' => by cases hprep.symm.trans hp'
  · intro ms hp' hmore
    have := List.length_pos_iff.2 hne
    show 0 < res
    omega
  · intro hacc
    rw [hprep] at hacc
    cases hacc

/-- **No send before it waits**: what is queued was queued after what is in the kernel's hands, and
of those the kernel executes the oldest. -/
theorem Fifo.first_waiting (h : Fifo V mid tok s) (hS : Sep s) (hk : s.kern.ops k = some o)
    (hp : o.phase = .armed (some c))
    (hkern : ∀ k' < k, ∀ o' ∈ s.kern.ops k', o'.phase = .armed (some c) →
      o'.sqe.prep.isSend = false) {k' : Nat} (hlt : k' < k) (hk' : s.kern.ops k' = some o') :
    ¬o'.waiting c := by
  intro hw
  obtain ⟨⟨fd', prep', ud'⟩, conn', phase', shots'⟩ := o'
  cases prep' with
  | accept ms => exact hw
  | recv ms => exact hw
  | send addr' n' =>
    cases phase' with
    | queued =>
      have hge := (h.queued k' _ hk').1 rfl
      have hnot : ¬s.kern.submitted ≤ k := fun hle => by
        cases hp.symm.trans ((h.queued k _ hk).2 hle)
      omega
    | armed file' =>
      obtain ⟨c', hc'⟩ := hS.client k' _ hk' rfl
      have hfile' := hc'.file file' rfl
      cases hw.symm.trans hc'.conn
      subst hfile'
      cases hkern k' hlt _ hk' rfl
    | ended file' sh => exact hw

/-- A send is executed. -/
theorem Fifo.execSent {c addr len : Nat} {more : Bool} {res : Int}
    (h : Fifo V (fun _ => []) [] s) (hI : Inv V none [] s) (hS : Sep s)
    (hk : s.kern.ops k = some o) (hp : o.phase = .armed (some c))
    (hm : more = true → o.sqe.prep.multishot = true) (hprep : o.sqe.prep = .send addr len)
    (hc : o.conn = some c) (hres : res ≤ len)
    (hkern : ∀ k' < k, ∀ o' ∈ s.kern.ops k', o'.phase = .armed (some c) →
      o'.sqe.prep.isSend = false)
    (hok : res < len → ∀ k' < s.kern.nextOp, k' ≠ k → ∀ o' ∈ s.kern.ops k', ¬o'.waiting c) :
    Fifo V (fun _ => []) [] { s with
      kern := ({ s.kern with
        net := s.kern.net.transmit c (peek s.kern.mem addr res.toNat) }).post k o (some c) more
          ⟨res, none, some c⟩ } := by
  obtain rfl : more = false := by
    rw [hprep] at hm
    exact Bool.eq_false_iff.2 fun hmore => by cases hm hmore
  have hwait : o.waiting c := by
    simp only [Op.waiting, hprep, hp]
    exact hc
  have hfirst : ∀ k' o', k' < k → s.kern.ops k' = some o' → ¬o'.waiting c :=
    fun _ _ hlt hk' => h.first_waiting hS hk hp hkern hlt hk'
  refine h.post hI hk hp hm rfl rfl rfl rfl
    (h.sent hI hk hp hprep hc hres hfirst rfl rfl rfl rfl rfl) ?_ ?_ ?_
  · intro addr' n' c' hp' hc' hlt k' o' hne hk' hopen
    cases hprep.symm.trans hp'
    cases hc.symm.trans hc'
    rcases hopen with hw | hs
    · exact hok hlt k' (hI.lt hk') hne o' hk' hw
    · exact hne (h.short k' o' c hk' hs k _ hk (Or.inl hwait)).symm
  · exact fun ms hp' => by cases hprep.symm.trans hp'
  · intro hacc
    rw [hprep] at hacc
    cases hacc

/-- **The kernel executes a request.** -/
theorem Fifo.exec {res : Int} {more : Bool} {data : List UInt8} (h : Fifo V (fun _ => []) [] s)
    (hI : Inv V none [] s) (hS : Sep s) (hkern : KernelOrder s (.exec k res more data))
    (hok : InOrder s (.exec k res more data)) (hs : s.kern.exec k res more data = some K') :
    Fifo V (fun _ => []) [] { s with kern := K' } := by
  obtain ⟨⟨fd, prep, ud⟩, conn, file, shots, hk, hm, hout⟩ := Kernel.exec_cases hs
  have hown : prep.isAccept = false → ∃ c, conn = some c ∧ file = some c := by
    intro hp
    obtain ⟨c, hc⟩ := hS.client k _ hk hp
    exact ⟨c, hc.conn, hc.file file rfl⟩
  cases hout with
  | noFile hres =>
    cases prep with
    | accept ms =>
      exact h.postQuiet hI hk rfl hm rfl rfl rfl rfl rfl rfl rfl rfl rfl rfl (by rintro _ ⟨⟩)
        (by rintro _ _ ⟨⟩)
    | recv ms | send addr len =>
      obtain ⟨c, -, hc⟩ := hown rfl
      cases hc
  | refused hp hres =>
    obtain rfl : prep = .accept _ := hp
    exact h.postQuiet hI hk rfl hm rfl rfl rfl rfl rfl rfl rfl rfl rfl rfl (by rintro _ ⟨⟩)
      (by rintro _ _ ⟨⟩)
  | accepted hp hres hlt hfree =>
    obtain rfl : prep = .accept _ := hp
    refine h.postQuiet hI hk rfl hm rfl rfl rfl rfl rfl rfl rfl rfl rfl rfl (by rintro _ ⟨⟩) ?_
    -- a connection number is given out once
    rintro - c' hc' hmem
    cases hc'
    rcases List.mem_append.1 hmem with hmem | hmem
    · exact Nat.lt_irrefl _ (hS.newConns_lt hmem)
    · exact Nat.lt_irrefl _ (hS.accepted_lt _ hmem)
  | empty hp hres =>
    obtain rfl : prep = .recv _ := hp
    refine h.postQuiet hI hk rfl hm rfl rfl rfl rfl rfl rfl rfl rfl rfl rfl ?_ (by rintro ⟨⟩)
    -- what brings no data is the last completion
    intro ms hp hmore
    simp only [KernelOrder, hk] at hkern
    exact absurd (hmore.symm.trans (hkern hres)) Bool.false_ne_true.symm
  | received hp hne hlen hb hfit =>
    obtain rfl : prep = .recv _ := hp
    obtain ⟨c, rfl, hc⟩ := hown rfl
    cases hc
    exact h.execReceived hI hk rfl hm rfl rfl hne hlen hb hfit
  | sent hp hres =>
    obtain rfl : prep = .send _ _ := hp
    obtain ⟨c, rfl, hc⟩ := hown rfl
    cases hc
    simp only [KernelOrder, InOrder, hk] at hkern hok
    exact h.execSent hI hS hk rfl hm rfl rfl hres hkern hok

/-- A queued request reaches the kernel. -/
theorem Fifo.submit (h : Fifo V (fun _ => []) [] s) (hI : Inv V none [] s)
    (hs : s.kern.submit = some K') : Fifo V (fun _ => []) [] { s with kern := K' } := by
  obtain ⟨q, conn, shots, hk, rfl⟩ := Kernel.submit_cases hs
  have hsame : ∀ {α : Type} (held : Op → List α),
      held ⟨q, conn, .armed (s.kern.net.fds q.fd), shots⟩ = held ⟨q, conn, .queued, shots⟩ →
      gather held s.kern.nextOp (Function.update s.kern.ops s.kern.submitted
        (some ⟨q, conn, .armed (s.kern.net.fds q.fd), shots⟩)) =
        gather held s.kern.nextOp s.kern.ops := by
    intro α held hheld
    exact gather_update_same _ (by rw [hk, Option.elim_some, Option.elim_some, hheld])
  have htok := hsame (Op.token V s.app.heap) rfl
  have hwait : ∀ c, Op.waiting c ⟨q, conn, .armed (s.kern.net.fds q.fd), shots⟩ →
      Op.waiting c ⟨q, conn, .queued, shots⟩ := by
    intro c hw
    obtain ⟨fd, prep, ud⟩ := q
    cases prep <;> exact hw
  have hshort : ∀ c, ¬Op.short c ⟨q, conn, .armed (s.kern.net.fds q.fd), shots⟩ := by
    intro c hs
    obtain ⟨fd, prep, ud⟩ := q
    cases prep <;> exact hs
  refine
    { stream := fun c => ?_, short := ?_, submitted_le := hI.lt hk, queued := ?_, more := ?_
      tokens := htok.symm ▸ h.tokens, accepted := htok.symm ▸ h.accepted
      newConns := (hsame Op.newConns rfl).symm ▸ h.newConns }
  · refine (h.stream c).of_eq rfl rfl (hsame _ ?_) rfl (hsame _ rfl) id fun k o hk' hw => ?_
    · obtain ⟨fd, prep, ud⟩ := q
      cases prep <;> rfl
    · rcases update_cases hk' with ⟨-, ho⟩ | ⟨-, hk'⟩
      · cases ho
        exact ⟨_, _, hk, hwait c hw⟩
      · exact ⟨k, o, hk', hw⟩
  · intro k₁ o₁ c hk₁ hs₁ k₂ o₂ hk₂ hp
    rcases update_cases hk₁ with ⟨-, ho₁⟩ | ⟨-, hk₁⟩
    · cases ho₁
      exact absurd hs₁ (hshort c)
    · rcases update_cases hk₂ with ⟨he₂, ho₂⟩ | ⟨-, hk₂⟩
      · cases ho₂
        have hw := hwait c (hp.resolve_right (hshort c))
        exact he₂.trans (h.short k₁ o₁ c hk₁ hs₁ _ _ hk (Or.inl hw))
      · exact h.short k₁ o₁ c hk₁ hs₁ k₂ o₂ hk₂ hp
  · intro k o hk'
    rcases update_cases hk' with ⟨rfl, ho⟩ | ⟨hne, hk'⟩
    · cases ho
      exact iff_of_false (by rintro ⟨⟩) (Nat.not_succ_le_self _)
    · refine (h.queued k o hk').trans ?_
      show s.kern.submitted ≤ k ↔ s.kern.submitted + 1 ≤ k
      omega
  · intro k o ms hk'
    rcases update_cases hk' with ⟨-, ho⟩ | ⟨-, hk'⟩
    · cases ho
      exact h.more _ ⟨q, conn, .queued, shots⟩ ms hk
    · exact h.more k o ms hk'

section Complete

variable {listenFd : Int} {sh : Shot} {more : Bool} {r : Option Op}

/-- A request that can have several completions has as many as it is asked for. -/
theorem Inv.popped_more (hI : Inv V none [] s) (hk : s.kern.ops k = some o)
    (hpop : o.pop = some (sh, more, r)) (hms : o.sqe.prep.multishot = V.multishot) :
    (V.multishot && more) = more := by
  cases more with
  | false => exact Bool.and_false _
  | true => rw [← hms, (hI.popped hk hpop).2 rfl, Bool.and_self]

/-- The completion of an accept is handled. -/
theorem Fifo.completeAccept (h : Fifo V (fun _ => []) [] s) (hI : Inv V none [] s) (hS : Sep s)
    (hk : s.kern.ops k = some o) (hpop : o.pop = some (sh, more, r))
    (he : s.app.heap o.sqe.userData = some (.accept fd)) (hp : o.sqe.prep = .accept V.multishot) :
    Fifo V (fun _ => []) [] (serve V listenFd
      { s with kern := { s.kern.setOp k r with cur := sh.conn } } o.sqe.userData
        ⟨sh.res, more, sh.buffer⟩) := by
  have hI' := (hI.pop hk hpop he).frame s.kern.submitted sh.conn hI.net (Nat.le_refl _)
  obtain ⟨hshot, -⟩ := hI.popped hk hpop
  rw [hp] at hshot
  have hb : sh.buffer = none := hshot
  obtain ⟨hF, hnew⟩ := h.popAccept hI hk hpop hp sh.conn
  refine hF.turnAccept ?_ he (hI.popped_more hk hpop (by rw [hp]; rfl)) fun hres => ?_
  · rw [hb] at hI'
    cases more <;> exact hI'
  · have hconn := hS.accepts k o hk (by rw [hp]; rfl) sh (Op.pop_mem hpop)
    obtain ⟨c, hc, -⟩ := (if_pos hres).mp hconn
    exact ⟨c, hc, hnew c hc⟩

/-- The completion of a receive is handled while its connection is open and no send is short. -/
theorem Fifo.completeRecv
    (hmark : ∀ more, (V.multishot && more) = more → V.rearm (V.mark (!more)) = !more)
    (h : Fifo V (fun _ => []) [] s) (hI : Inv V none [] s) (hS : Sep s)
    (hk : s.kern.ops k = some o) (hpop : o.pop = some (sh, more, r))
    (he : s.app.heap o.sqe.userData = some (.recv fd)) (hfd : o.sqe.fd = fd)
    (hp : o.sqe.prep = .recv V.multishot) (hopen : OnOpen V s (.complete k))
    (hok : InOrder s (.complete k)) :
    Fifo V (fun _ => []) [] (serve V listenFd
      { s with kern := { s.kern.setOp k r with cur := sh.conn } } o.sqe.userData
        ⟨sh.res, more, sh.buffer⟩) := by
  have hI' := (hI.pop hk hpop he).frame s.kern.submitted sh.conn hI.net (Nat.le_refl _)
  have hmore := hI.popped_more hk hpop (by rw [hp]; rfl)
  obtain ⟨hshot, -⟩ := hI.popped hk hpop
  rw [hp] at hshot
  obtain ⟨c, hc⟩ := hS.client k o hk (by rw [hp]; rfl)
  have hF := h.popRecv hI hk hpop hp hc.conn sh.conn
  obtain ⟨hconn, -⟩ := hc.shots sh (Op.pop_mem hpop)
  have hlast : sh.res ≤ 0 → more = false := by
    intro hres
    rcases Op.pop_cases hpop with ⟨-, shots, hshots, -⟩ | ⟨hm, -⟩
    · have hpos := h.more k o _ hk hp sh (by rw [hshots]; exact List.mem_cons_self)
      omega
    · exact hm
  obtain ⟨res, buffer, conn⟩ := sh
  obtain rfl : conn = some c := hconn
  simp only [OnOpen, InOrder, hk, hpop, hp] at hopen hok
  have hopen' := hopen.resolve_right (by simp [Finishes, he])
  refine hF.turnRecv ?_ he hmore (hmark more hmore) hshot.1 hshot.2 hlast rfl hopen'
    (hfd ▸ hc.fd hopen') fun hres k' o' hk' hs => ?_
  · cases more <;> exact hI'
  · rcases update_cases hk' with ⟨-, ho'⟩ | ⟨-, hk'⟩
    · exact Op.not_open_recv (((Op.pop_rest hpop).1 o' ho').1 ▸ hp) c (Or.inr hs)
    · exact hok hres k' (hI.lt hk') o' hk' hs

/-- The completion of a send is handled, on an open connection or for the last time. -/
theorem Fifo.completeSend {bid len offset : Nat} {rearm : ρ} (h : Fifo V (fun _ => []) [] s)
    (hI : Inv V none [] s) (hS : Sep s) (hk : s.kern.ops k = some o)
    (hpop : o.pop = some (sh, more, r))
    (he : s.app.heap o.sqe.userData = some (.send fd bid len offset rearm)) (hfd : o.sqe.fd = fd)
    (hp : o.sqe.prep = .send (bid * BUF_SIZE + offset) (len - offset)) (hlt : offset < len)
    (hopen : OnOpen V s (.complete k)) :
    Fifo V (fun _ => []) [] (serve V listenFd
      { s with kern := { s.kern.setOp k r with cur := sh.conn } } o.sqe.userData
        ⟨sh.res, more, sh.buffer⟩) := by
  have hI' := (hI.pop hk hpop he).frame s.kern.submitted sh.conn hI.net (Nat.le_refl _)
  obtain ⟨hshot, hmulti⟩ := hI.popped hk hpop
  obtain ⟨c, hc⟩ := hS.client k o hk (by rw [hp]; rfl)
  obtain ⟨hF, hothers⟩ := h.popSend hI hk hpop hp hc.conn sh.conn
  obtain ⟨hconn, -⟩ := hc.shots sh (Op.pop_mem hpop)
  rw [hp] at hshot hmulti
  obtain rfl : more = false := Bool.eq_false_iff.2 fun hmore => by cases hmulti hmore
  obtain ⟨res, buffer, conn⟩ := sh
  obtain rfl : conn = some c := hconn
  obtain rfl : buffer = none := hshot.1
  simp only [OnOpen, hk, hpop] at hopen
  have htok : o.token V s.app.heap = if V.rearm rearm then [c] else [] := by
    unfold Op.token
    rw [hp, he, hc.conn]
    rfl
  rw [htok] at hF
  exact hF.turnSend hI' he hlt rfl hopen (fun hopen' => hfd ▸ hc.fd hopen') hothers

/-- **A step that meets the condition keeps the order.** -/
theorem step_fifo {e : Ev}
    (hmark : ∀ more, (V.multishot && more) = more → V.rearm (V.mark (!more)) = !more)
    (hI : Inv V none [] s) (hS : Sep s) (h : Fifo V (fun _ => []) [] s) (hkern : KernelOrder s e)
    (hopen : OnOpen V s e) (hok : InOrder s e) (hs : step (serve V listenFd) s e = some s') :
    Fifo V (fun _ => []) [] s' := by
  cases e with
  | submit =>
    obtain ⟨K, hK, rfl⟩ := Option.map_eq_some_iff.1 hs
    exact h.submit hI hK
  | exec k res more data =>
    obtain ⟨K, hK, rfl⟩ := Option.map_eq_some_iff.1 hs
    exact h.exec hI hS hkern hok hK
  | complete k =>
    simp only [step, Option.bind_eq_some_iff, Option.map_eq_some_iff] at hs
    obtain ⟨o, hk, ⟨sh, more, r⟩, hpop, rfl⟩ := hs
    obtain ⟨e, he, ht⟩ := hI.event hk
    cases e with
    | accept fd => exact h.completeAccept hI hS hk hpop he ht.2
    | recv fd => exact h.completeRecv hmark hI hS hk hpop he ht.1 ht.2 hopen hok
    | send fd bid len offset rearm =>
      obtain ⟨hfd, hp, hlt, -⟩ := ht
      exact h.completeSend hI hS hk hpop he hfd hp hlt hopen

end Complete

theorem init_fifo (listenFd : Int) :
    Fifo V (fun _ => []) [] (queueAccept V.multishot (State.boot listenFd) listenFd : State ρ) := by
  have hboot : Fifo V (fun _ => []) [] (State.boot listenFd : State ρ) :=
    { stream := fun c => Or.inl rfl
      short := by rintro _ _ _ ⟨⟩
      submitted_le := Nat.le_refl _
      queued := by rintro _ _ ⟨⟩
      more := by rintro _ _ _ ⟨⟩
      tokens := List.nodup_nil
      accepted := by rintro _ ⟨⟩
      newConns := List.nodup_nil }
  exact hboot.queueAccept (boot_inv listenFd) _ _

end AdvCpp.Uring.BufferSelect

namespace AdvCpp.Uring.Multishot

open AdvCpp.Lib BufferSelect

/-- What a connection has sent is a prefix of what it has received. -/
def Echoes (s : BufferSelect.State Bool) : Prop :=
  ∀ c, (s.kern.net.tx c).map Byte.val <+: (s.kern.net.rx c).map Byte.val

/-- **FIFO echo** in the runs in which requests and completions are handled on open connections and
no send is made behind a short one. -/
theorem multishot_fifo {listenFd : Int} {es : List BufferSelect.Ev} {s : BufferSelect.State Bool}
    (hkern : (server listenFd).Meets KernelOrder (server listenFd).init es)
    (hopen : (server listenFd).Meets (OnOpen variant) (server listenFd).init es)
    (hok : (server listenFd).Meets InOrder (server listenFd).init es)
    (hs : (server listenFd).run es = some s) : Echoes s := by
  have hall := hkern.and (hopen.and hok)
  unfold server at hall hs
  rw [handleCqe_eq_serve] at hall hs
  have hinv := Machine.run_inv_of (M := BufferSelect.machine variant (serve variant) listenFd)
    (I := fun s => Inv variant none [] s ∧ Sep s ∧ Fifo variant (fun _ => []) [] s)
    ⟨init_inv listenFd, init_sep listenFd, init_fifo listenFd⟩
    (fun _ _ _ h hok hs => ⟨step_inv h.1 hs, step_sep h.1 h.2.1 hok.2.1 hs,
      step_fifo (fun _ _ => rfl) h.1 h.2.1 h.2.2 hok.1 hok.2.1 hok.2.2 hs⟩) hall hs
  exact fun c => (hinv.2.2.stream c).isPrefix.map Byte.val

/-- Two receives of one client before the sends of both are executed, the second one short. -/
def twoSends : List BufferSelect.Ev :=
  [.submit, .exec 0 5 true [], .complete 0, .submit, .exec 1 2 true [104, 105], .exec 1 2 true [106, 107],
    .complete 1, .complete 1, .submit, .submit, .exec 2 2 false [], .complete 2, .exec 3 1 false [],
    .complete 3, .submit, .exec 4 1 false []]

theorem multishot_fifo_twoSends : ∃ s, (server 3).run twoSends = some s ∧ Echoes s := by
  have hrun : ((server 3).run twoSends).isSome = true := by
    unfold server BufferSelect.machine BufferSelect.State.boot
    rw [setupBufRing_eq]
    rfl
  have hkern : (server 3).Meets KernelOrder (server 3).init twoSends := by
    unfold server BufferSelect.machine BufferSelect.State.boot
    rw [setupBufRing_eq]
    decide +kernel
  have hopen : (server 3).Meets (OnOpen variant) (server 3).init twoSends := by
    unfold server BufferSelect.machine BufferSelect.State.boot
    rw [setupBufRing_eq]
    decide +kernel
  have hok : (server 3).Meets InOrder (server 3).init twoSends := by
    unfold server BufferSelect.machine BufferSelect.State.boot
    rw [setupBufRing_eq]
    decide +kernel
  obtain ⟨s, hs⟩ := Option.isSome_iff_exists.1 hrun
  exact ⟨s, hs, multishot_fifo hkern hopen hok hs⟩

/-- The first of two sends that wait takes one byte of two. -/
def shortSend : List BufferSelect.Ev :=
  [.submit, .exec 0 5 true [], .complete 0, .submit, .exec 1 2 true [1, 2], .exec 1 1 true [3],
    .complete 1, .complete 1, .submit, .submit, .exec 2 1 false [], .exec 3 1 false []]

/-- **The second send overtakes the rest of the first one.** -/
theorem multishot_reordered :
    ¬∀ (listenFd : Int) (es : List BufferSelect.Ev) (s : BufferSelect.State Bool),
      (server listenFd).Meets KernelOrder (server listenFd).init es →
      (server listenFd).run es = some s → Echoes s := by
  intro hall
  have hkern : (server 3).Meets KernelOrder (server 3).init shortSend := by
    unfold server BufferSelect.machine BufferSelect.State.boot
    rw [setupBufRing_eq]
    decide +kernel
  have hrun : ((server 3).run shortSend).map
      (fun s => ((s.kern.net.tx 1).map Byte.val, (s.kern.net.rx 1).map Byte.val)) =
      some ([1, 3], [1, 2, 3]) := by
    unfold server BufferSelect.machine BufferSelect.State.boot
    rw [setupBufRing_eq]
    decide +kernel
  obtain ⟨s, hs, hval⟩ := Option.map_eq_some_iff.1 hrun
  have hpre := hall 3 shortSend s hkern hs 1
  rw [(Prod.mk.inj hval).1, (Prod.mk.inj hval).2] at hpre
  revert hpre
  decide

end AdvCpp.Uring.Multishot
