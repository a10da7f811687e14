import AdvCpp.Lib.Machine
import AdvCpp.Lib.Trace

/-!
# The life of an ethdev port

`main` of `05_ethdev_queue_setup` and `06_ethdev_start_stop`: the body of the `try` block is a
sequence of calls that can fail, and a failure goes to the handler.  The events are the results of
the calls.

* `body_wellOrdered` — the order in which the body makes its calls.
* `step_inv` — what every step keeps.
* `lifecycle_iff` — when the port, the mempool and the EAL are released in the right order.
-/

namespace AdvCpp.Dpdk

open AdvCpp.Lib

/-- The calls, and the other parts of the body that can throw. -/
inductive Call where
  | ealInit
  /-- Options, `resolve_port`, `get_dev_info`, `validate_requested_config`. -/
  | prepare
  | configure
  | adjustNbRxTxDesc
  | validateAdjustedDescriptors
  | pktmbufPoolCreate
  | rxQueueSetup (q : Nat)
  | txQueueSetup (q : Nat)
  | devInfoGet
  | devStart
  | waitForLink
  | devStop
  | devClose
  | mempoolFree
  | ealCleanup
  deriving DecidableEq

inductive Sample where
  | queueSetup
  | startStop
  deriving DecidableEq

/-- The options that matter here. -/
structure Options where
  rxQueues : Nat
  txQueues : Nat
  yes : Bool

def setupCalls (options : Options) : List Call :=
  [.configure, .adjustNbRxTxDesc, .validateAdjustedDescriptors, .pktmbufPoolCreate] ++
    (List.range options.rxQueues).map .rxQueueSetup ++
    (List.range options.txQueues).map .txQueueSetup ++ [.devInfoGet]

/-- The body of the `try` block, up to the release of the port. -/
def body (sample : Sample) (options : Options) : List Call :=
  .prepare ::
    if options.yes then
      setupCalls options ++
        match sample with
        | .queueSetup => []
        | .startStop => [.devStart, .waitForLink, .devStop]
    else []

/-- The variables `configured`, `started`, and whether `pool` is not null. -/
structure Port where
  configured : Bool
  started : Bool
  pool : Bool
  deriving DecidableEq

/-- The three copies of the cleanup. -/
inductive Exit where
  | success
  | closeFailed
  | handler
  deriving DecidableEq

inductive Pc where
  | ealInit
  | body (rest : List Call)
  /-- The handler stops the port. -/
  | stop
  | close (exit : Exit)
  | free (exit : Exit)
  | cleanup (exit : Exit)
  | done (status : Nat)
  deriving DecidableEq

/-- The calls so far are in `trace`, with `true` for those that succeeded. -/
structure State where
  pc : Pc
  port : Port
  trace : List (Call × Bool)
  deriving DecidableEq

inductive Event where
  | ok
  | fail
  /-- `wait_for_link` polls once more. -/
  | poll
  deriving DecidableEq

def Port.after (p : Port) : Call → Port
  | .configure => { p with configured := true }
  | .pktmbufPoolCreate => { p with pool := true }
  | .devStart => { p with started := true }
  | .devStop => { p with started := false }
  | _ => p

def State.record (s : State) (c : Call) (ok : Bool) : State := { s with trace := s.trace ++ [(c, ok)] }

def freePool (exit : Exit) (s : State) : State :=
  { s with pc := if s.port.pool then .free exit else .cleanup exit }

def closePort (exit : Exit) (s : State) : State :=
  if s.port.configured then { s with pc := .close exit } else freePool exit s

/-- `catch (const std::exception &e)`. -/
def handler (s : State) : State :=
  if s.port.started then { s with pc := .stop } else closePort .handler s

/-- The calls that are left. -/
def proceed (rest : List Call) (s : State) : State :=
  match rest with
  | [] => closePort .success s
  | c :: rest => { s with pc := .body (c :: rest) }

section Main

variable (sample : Sample) (options : Options)

def step (s : State) (e : Event) : Option State :=
  match s.pc, e with
  | .ealInit, .ok => some (proceed (body sample options) (s.record .ealInit true))
  | .ealInit, .fail => some { s.record .ealInit false with pc := .done 1 }
  | .body (c :: rest), .ok =>
    some (proceed rest { s.record c true with port := s.port.after c })
  | .body (c :: _), .fail => some (handler (s.record c false))
  | .body (.waitForLink :: _), .poll => some s
  | .stop, .ok => some (closePort .handler (s.record .devStop true))
  | .stop, .fail => some (closePort .handler (s.record .devStop false))
  | .close .success, .ok =>
    some (freePool .success
      { s.record .devClose true with port := { s.port with configured := false } })
  | .close .success, .fail => some (freePool .closeFailed (s.record .devClose false))
  | .close exit, .ok => some (freePool exit (s.record .devClose true))
  | .close exit, .fail => some (freePool exit (s.record .devClose false))
  | .free exit, .ok => some { s.record .mempoolFree true with pc := .cleanup exit }
  | .cleanup exit, .ok =>
    some { s.record .ealCleanup true with pc := .done (if exit = .success then 0 else 1) }
  | .cleanup _, .fail => some { s.record .ealCleanup false with pc := .done 1 }
  | _, _ => none

def init : State := ⟨.ealInit, ⟨false, false, false⟩, []⟩

def machine : Machine State Event := ⟨init, step sample options⟩

end Main

/-! ## What is asked of the calls -/

def called (t : List (Call × Bool)) : List Call := t.map (·.1)

/-- The port has been started, and not been stopped since. -/
def portStarted (t : List (Call × Bool)) : Bool :=
  switched (fun e => e = (.devStart, true)) (fun e => e = (.devStop, true)) t

/-- An RX queue has been given the mempool. -/
def PoolGiven (t : List (Call × Bool)) : Prop := ∃ q, .rxQueueSetup q ∈ called t

/-- `rte_eal_cleanup` comes last, the port is closed when it is not started, and the mempool is freed
once, when the port that was given it is closed. -/
def Allowed (t : List (Call × Bool)) (e : Call × Bool) : Prop :=
  .ealCleanup ∉ called t ∧
    match e.1 with
    | .devClose => portStarted t = false
    | .mempoolFree =>
      .mempoolFree ∉ called t ∧ (PoolGiven t → portStarted t = false ∧ (.devClose, true) ∈ t)
    | _ => True

/-- **The lifecycle.** -/
structure Lifecycle (t : List (Call × Bool)) : Prop where
  allowed : Always Allowed t
  cleanup : (.ealInit, true) ∈ t → (called t).count .ealCleanup = 1

/-- The handler can stop the port, and a port that has been given the mempool can be closed. -/
structure Released (s : State) (e : Event) : Prop where
  stop : s.pc = .stop → e ≠ .fail
  close : ∀ exit, s.pc = .close exit → e = .fail → ¬PoolGiven s.trace

/-! ## The order of the body -/

/-- What has to be there for a call of the body. -/
def Port.Admits (p : Port) : Call → Prop
  | .pktmbufPoolCreate | .devStart => p.configured = true
  | .rxQueueSetup _ => p.pool = true
  | .ealInit | .devClose | .mempoolFree | .ealCleanup => False
  | _ => True

/-- The calls come in order, and leave the port stopped. -/
def WellOrdered : Port → List Call → Prop
  | p, [] => p.started = false
  | p, c :: cs => p.Admits c ∧ WellOrdered (p.after c) cs

theorem wellOrdered_rx {p : Port} (hpool : p.pool = true) {cs : List Call} (h : WellOrdered p cs)
    (qs : List Nat) : WellOrdered p (qs.map .rxQueueSetup ++ cs) := by
  induction qs with
  | nil => exact h
  | cons q qs ih => exact ⟨hpool, ih⟩

theorem wellOrdered_tx {p : Port} {cs : List Call} (h : WellOrdered p cs) (qs : List Nat) :
    WellOrdered p (qs.map .txQueueSetup ++ cs) := by
  induction qs with
  | nil => exact h
  | cons q qs ih => exact ⟨trivial, ih⟩

/-- **The body is in order.** -/
theorem body_wellOrdered (sample : Sample) (options : Options) :
    WellOrdered ⟨false, false, false⟩ (body sample options) := by
  refine ⟨trivial, ?_⟩
  by_cases hyes : options.yes = true
  · rw [if_pos hyes, setupCalls]
    simp only [List.append_assoc]
    refine ⟨trivial, trivial, trivial, rfl, ?_⟩
    refine wellOrdered_rx rfl (wellOrdered_tx ?_ _) _
    refine ⟨trivial, ?_⟩
    cases sample with
    | queueSetup => rfl
    | startStop => exact ⟨rfl, trivial, trivial, rfl⟩
  · rw [if_neg hyes]
    rfl

/-! ## The invariant -/

/-- Before the cleanup; `a` says that all steps were `Released`. -/
structure Ready (a : Prop) (s : State) : Prop where
  meets : a
  allowed : Always Allowed s.trace
  started : portStarted s.trace = s.port.started
  notClosed : (.devClose, true) ∉ s.trace
  notFreed : .mempoolFree ∉ called s.trace
  notCleaned : .ealCleanup ∉ called s.trace
  given : PoolGiven s.trace → s.port.pool = true
  order : s.port.started = true ∨ s.port.pool = true → s.port.configured = true

/-- The port is about to be closed. -/
structure Closing (a : Prop) (s : State) : Prop where
  meets : a ↔ Always Allowed s.trace ∧ portStarted s.trace = false
  notClosed : (.devClose, true) ∉ s.trace
  notFreed : .mempoolFree ∉ called s.trace
  notCleaned : .ealCleanup ∉ called s.trace
  given : PoolGiven s.trace → s.port.pool = true

/-- The mempool is about to be freed. -/
structure Freeing (a : Prop) (s : State) : Prop where
  meets : a ↔ Always Allowed s.trace ∧
    (PoolGiven s.trace → portStarted s.trace = false ∧ (.devClose, true) ∈ s.trace)
  notFreed : .mempoolFree ∉ called s.trace
  notCleaned : .ealCleanup ∉ called s.trace

/-- `rte_eal_cleanup` is about to be called. -/
structure Cleaning (a : Prop) (s : State) : Prop where
  meets : a ↔ Always Allowed s.trace
  notCleaned : .ealCleanup ∉ called s.trace

def Inv (a : Prop) (s : State) : Prop :=
  match s.pc with
  | .ealInit => a ∧ s = init
  | .body rest => Ready a s ∧ WellOrdered s.port rest
  | .stop => Ready a s ∧ s.port.started = true
  | .close _ => Closing a s
  | .free _ => Freeing a s
  | .cleanup _ => Cleaning a s
  | .done _ => a ↔ Lifecycle s.trace

section Steps

variable {a : Prop} {s s' : State}

theorem mem_called_snoc {t : List (Call × Bool)} {e : Call × Bool} {c : Call} :
    c ∈ called (t ++ [e]) ↔ c ∈ called t ∨ c = e.1 := by
  simp [called]

theorem poolGiven_snoc {t : List (Call × Bool)} {e : Call × Bool} :
    PoolGiven (t ++ [e]) ↔ PoolGiven t ∨ ∃ q, e.1 = .rxQueueSetup q := by
  simp only [PoolGiven, mem_called_snoc]
  grind

theorem portStarted_snoc {t : List (Call × Bool)} {e : Call × Bool} :
    portStarted (t ++ [e]) =
      (!decide (e = (.devStop, true)) && (portStarted t || decide (e = (.devStart, true)))) :=
  switched_concat

theorem freePool_inv {exit : Exit} (h : Freeing a s) (hgiven : PoolGiven s.trace → s.port.pool = true) :
    Inv a (freePool exit s) := by
  unfold freePool
  by_cases hpool : s.port.pool = true
  · rw [if_pos hpool]
    exact ⟨h.meets, h.notFreed, h.notCleaned⟩
  · rw [if_neg hpool]
    have hnot : ¬PoolGiven s.trace := fun hg => hpool (hgiven hg)
    exact ⟨h.meets.trans (and_iff_left fun hg => absurd hg hnot), h.notCleaned⟩

theorem closePort_inv {exit : Exit} (h : Closing a s)
    (hoff : s.port.configured = false → portStarted s.trace = false ∧ s.port.pool = false) :
    Inv a (closePort exit s) := by
  unfold closePort
  by_cases hconfigured : s.port.configured = true
  · rw [if_pos hconfigured]
    exact ⟨h.meets, h.notClosed, h.notFreed, h.notCleaned, h.given⟩
  · obtain ⟨hstarted, hpool⟩ := hoff (Bool.eq_false_iff.2 hconfigured)
    have hnot : ¬PoolGiven s.trace := by
      intro hg
      have htrue := h.given hg
      rw [hpool] at htrue
      cases htrue
    rw [if_neg hconfigured]
    refine freePool_inv ⟨?_, h.notFreed, h.notCleaned⟩ h.given
    rw [h.meets]
    tauto

/-- A port that is not started is closed next. -/
theorem Ready.closePort {exit : Exit} (h : Ready a s) (hstopped : s.port.started = false) :
    Inv a (closePort exit s) := by
  have hoff : portStarted s.trace = false := h.started.trans hstopped
  refine closePort_inv ⟨iff_of_true h.meets ⟨h.allowed, hoff⟩, h.notClosed, h.notFreed,
    h.notCleaned, h.given⟩ fun hnot => ⟨hoff, ?_⟩
  by_contra hpool
  rw [h.order (Or.inr (by simpa using hpool))] at hnot
  cases hnot

theorem Ready.handler (h : Ready a s) : Inv a (handler s) := by
  unfold Dpdk.handler
  by_cases hstarted : s.port.started = true
  · rw [if_pos hstarted]
    exact ⟨⟨h.meets, h.allowed, h.started, h.notClosed, h.notFreed, h.notCleaned, h.given, h.order⟩,
      hstarted⟩
  · rw [if_neg hstarted]
    exact h.closePort (Bool.eq_false_iff.2 hstarted)

theorem Ready.proceed {rest : List Call} (h : Ready a s) (hrest : WellOrdered s.port rest) :
    Inv a (proceed rest s) := by
  cases rest with
  | nil => exact h.closePort hrest
  | cons c rest =>
    exact ⟨⟨h.meets, h.allowed, h.started, h.notClosed, h.notFreed, h.notCleaned, h.given, h.order⟩,
      hrest⟩

/-- **A call of the body.** -/
theorem Ready.record {c : Call} (h : Ready a s) (hc : s.port.Admits c) (ok : Bool) :
    Ready a { s.record c ok with port := if ok then s.port.after c else s.port } := by
  have hallowed : Allowed s.trace (c, ok) := by
    refine ⟨h.notCleaned, ?_⟩
    cases c <;> trivial
  refine ⟨h.meets, always_concat.2 ⟨h.allowed, hallowed⟩, ?_, ?_, ?_, ?_, ?_, ?_⟩
  · show portStarted (s.trace ++ [(c, ok)]) = _
    rw [portStarted_snoc, h.started]
    cases ok with
    | false => simp
    | true => cases c <;> simp [Port.after]
  · show (.devClose, true) ∉ s.trace ++ [(c, ok)]
    rw [List.mem_append, List.mem_singleton]
    rintro (hmem | heq)
    · exact h.notClosed hmem
    · cases heq
      exact hc
  · show .mempoolFree ∉ called (s.trace ++ [(c, ok)])
    rw [mem_called_snoc]
    rintro (hmem | rfl)
    · exact h.notFreed hmem
    · exact hc
  · show .ealCleanup ∉ called (s.trace ++ [(c, ok)])
    rw [mem_called_snoc]
    rintro (hmem | rfl)
    · exact h.notCleaned hmem
    · exact hc
  · intro hgiven
    have hpool : s.port.pool = true := by
      obtain hold | ⟨q, rfl⟩ := poolGiven_snoc.1 hgiven
      · exact h.given hold
      · exact hc
    cases ok with
    | false => exact hpool
    | true => cases c <;> simp [Port.after, hpool]
  · have horder := h.order
    cases ok with
    | false => exact horder
    | true => cases c <;> simp_all [Port.after, Port.Admits]

/-- Where nothing can go wrong. -/
theorem released_of_pc {e : Event} (hstop : s.pc ≠ .stop) (hclose : ∀ exit, s.pc ≠ .close exit) :
    Released s e where
  stop := fun hpc => absurd hpc hstop
  close := fun exit hpc => absurd hpc (hclose exit)

/-- **The handler stops the port**, or fails to. -/
theorem stop_inv {ok : Bool} (h : Ready a s) (hstarted : s.port.started = true) {b : Prop}
    (hb : b ↔ ok = true) : Inv (a ∧ b) (closePort .handler (s.record .devStop ok)) := by
  have hallowed : Always Allowed (s.trace ++ [(.devStop, ok)]) :=
    always_concat.2 ⟨h.allowed, h.notCleaned, trivial⟩
  refine closePort_inv ⟨?_, ?_, ?_, ?_, ?_⟩ fun hnot => ?_
  · show a ∧ b ↔ Always Allowed (s.trace ++ [(.devStop, ok)]) ∧
      portStarted (s.trace ++ [(.devStop, ok)]) = false
    rw [and_iff_right h.meets, and_iff_right hallowed, hb, portStarted_snoc, h.started, hstarted]
    cases ok <;> simp
  · show (.devClose, true) ∉ s.trace ++ [(.devStop, ok)]
    simpa using h.notClosed
  · show .mempoolFree ∉ called (s.trace ++ [(.devStop, ok)])
    simpa [mem_called_snoc] using h.notFreed
  · show .ealCleanup ∉ called (s.trace ++ [(.devStop, ok)])
    simpa [mem_called_snoc] using h.notCleaned
  · intro hgiven
    exact h.given (by simpa [State.record, poolGiven_snoc] using hgiven)
  · have hconfigured := h.order (Or.inl hstarted)
    rw [State.record, hconfigured] at hnot
    cases hnot

/-- **The port is closed**, or not. -/
theorem close_inv {exit : Exit} {ok : Bool} {port : Port} (h : Closing a s)
    (hpool : port.pool = s.port.pool) {b : Prop} (hb : b ↔ (ok = false → ¬PoolGiven s.trace)) :
    Inv (a ∧ b) (freePool exit { s.record .devClose ok with port := port }) := by
  have hallowed : Always Allowed (s.trace ++ [(.devClose, ok)]) ↔
      Always Allowed s.trace ∧ portStarted s.trace = false := by
    rw [always_concat]
    exact and_congr_right' ⟨fun hc => hc.2, fun hc => ⟨h.notCleaned, hc⟩⟩
  have hgiven : PoolGiven (s.trace ++ [(.devClose, ok)]) ↔ PoolGiven s.trace := by
    simp [poolGiven_snoc]
  have hstarted : portStarted (s.trace ++ [(.devClose, ok)]) = portStarted s.trace := by
    simp [portStarted_snoc]
  have hclosed : (.devClose, true) ∈ s.trace ++ [(.devClose, ok)] ↔ ok = true := by
    simp [h.notClosed]
  refine freePool_inv ⟨?_, ?_, ?_⟩ fun hg => ?_
  · show a ∧ b ↔ Always Allowed (s.trace ++ [(.devClose, ok)]) ∧
      (PoolGiven (s.trace ++ [(.devClose, ok)]) → portStarted (s.trace ++ [(.devClose, ok)]) = false ∧
        (.devClose, true) ∈ s.trace ++ [(.devClose, ok)])
    rw [hallowed, hgiven, hstarted, hclosed, h.meets, hb]
    cases ok with
    | true => tauto
    | false => simp
  · show .mempoolFree ∉ called (s.trace ++ [(.devClose, ok)])
    simpa [mem_called_snoc] using h.notFreed
  · show .ealCleanup ∉ called (s.trace ++ [(.devClose, ok)])
    simpa [mem_called_snoc] using h.notCleaned
  · exact hpool.trans (h.given (hgiven.1 hg))

/-- **The mempool is freed.** -/
theorem free_inv {exit : Exit} (h : Freeing a s) :
    Inv a { s.record .mempoolFree true with pc := .cleanup exit } := by
  refine ⟨?_, ?_⟩
  · show a ↔ Always Allowed (s.trace ++ [(.mempoolFree, true)])
    rw [always_concat, h.meets]
    exact and_congr_right' ⟨fun hg => ⟨h.notCleaned, h.notFreed, hg⟩, fun hc => hc.2.2⟩
  · show .ealCleanup ∉ called (s.trace ++ [(.mempoolFree, true)])
    simpa [mem_called_snoc] using h.notCleaned

/-- **The EAL is cleaned up.** -/
theorem cleanup_inv {status : Nat} {ok : Bool} (h : Cleaning a s) :
    Inv a { s.record .ealCleanup ok with pc := .done status } := by
  have hcount : (called (s.trace ++ [(.ealCleanup, ok)])).count .ealCleanup = 1 := by
    have hzero := List.count_eq_zero.2 h.notCleaned
    rw [called, List.map_append, List.count_append]
    rw [called] at hzero
    simp [hzero]
  show a ↔ Lifecycle (s.trace ++ [(.ealCleanup, ok)])
  rw [h.meets]
  constructor
  · exact fun hall => ⟨always_concat.2 ⟨hall, h.notCleaned, trivial⟩, fun _ => hcount⟩
  · exact fun hlife => (always_concat.1 hlife.allowed).1

theorem Inv.congr {b : Prop} (hab : a ↔ b) : Inv a s ↔ Inv b s := by
  rw [propext hab]

/-- After `rte_eal_init`. -/
theorem init_ready (ha : a) : Ready a (init.record .ealInit true) where
  meets := ha
  allowed := always_concat.2 ⟨always_nil, by simp [called, init], trivial⟩
  started := rfl
  notClosed := by simp [State.record, init]
  notFreed := by simp [State.record, init, called]
  notCleaned := by simp [State.record, init, called]
  given := by simp [PoolGiven, State.record, init, called]
  order := by simp [State.record, init]

/-- The calls of the body. -/
theorem body_inv {rest : List Call} {e : Event} {sample : Sample} {options : Options}
    (h : Ready a s) (hrest : WellOrdered s.port rest) (hpc : s.pc = .body rest)
    (hs : step sample options s e = some s') : Inv a s' := by
  cases rest with
  | nil => cases e <;> simp [step, hpc] at hs
  | cons c rest =>
    obtain ⟨hc, hrest⟩ := hrest
    cases e with
    | ok =>
      simp only [step, hpc, Option.some.injEq] at hs
      subst hs
      exact (h.record hc true).proceed hrest
    | fail =>
      simp only [step, hpc, Option.some.injEq] at hs
      subst hs
      exact (h.record hc false).handler
    | poll =>
      have hsame : s' = s := by cases c <;> simp_all [step]
      rw [hsame, Inv, hpc]
      exact ⟨h, hc, hrest⟩

/-- **What every step keeps.** -/
theorem step_inv {sample : Sample} {options : Options} {e : Event} (h : Inv a s)
    (hs : step sample options s e = some s') : Inv (a ∧ Released s e) s' := by
  have hinv := h
  unfold Inv at hinv
  cases hpc : s.pc with
  | ealInit =>
    rw [hpc] at hinv
    obtain ⟨ha, rfl⟩ := hinv
    rw [Inv.congr (and_iff_left (released_of_pc (by simp [hpc]) (by simp [hpc])))]
    cases e with
    | ok =>
      cases hs
      exact (init_ready ha).proceed (body_wellOrdered sample options)
    | fail =>
      cases hs
      show a ↔ Lifecycle [(.ealInit, false)]
      refine iff_of_true ha ⟨always_concat.2 ⟨always_nil, by simp [called], trivial⟩, by simp⟩
    | poll => cases hs
  | body rest =>
    rw [hpc] at hinv
    rw [Inv.congr (and_iff_left (released_of_pc (by simp [hpc]) (by simp [hpc])))]
    exact body_inv hinv.1 hinv.2 hpc hs
  | stop =>
    rw [hpc] at hinv
    have hb : ∀ ok, (ok = true ↔ e ≠ .fail) → (Released s e ↔ ok = true) := fun ok hok =>
      ⟨fun hr => hok.2 (hr.stop hpc), fun hr => ⟨fun _ => hok.1 hr, by simp [hpc]⟩⟩
    cases e with
    | ok =>
      simp only [step, hpc, Option.some.injEq] at hs
      subst hs
      exact stop_inv hinv.1 hinv.2 (hb true (by simp))
    | fail =>
      simp only [step, hpc, Option.some.injEq] at hs
      subst hs
      exact stop_inv hinv.1 hinv.2 (hb false (by simp))
    | poll => simp [step, hpc] at hs
  | close exit =>
    rw [hpc] at hinv
    have hb : ∀ ok, (ok = false ↔ e = .fail) →
        (Released s e ↔ (ok = false → ¬PoolGiven s.trace)) := fun ok hok =>
      ⟨fun hr hfalse => hr.close exit hpc (hok.1 hfalse),
        fun hr => ⟨by simp [hpc], fun _ _ he => hr (hok.2 he)⟩⟩
    cases e with
    | ok =>
      cases exit with
      | success =>
        simp only [step, hpc, Option.some.injEq] at hs
        subst hs
        refine close_inv hinv ?_ (hb true (by simp))
        rfl
      | closeFailed | handler =>
        simp only [step, hpc, Option.some.injEq] at hs
        subst hs
        exact close_inv hinv rfl (hb true (by simp))
    | fail =>
      cases exit with
      | success | closeFailed | handler =>
        simp only [step, hpc, Option.some.injEq] at hs
        subst hs
        exact close_inv hinv rfl (hb false (by simp))
    | poll => cases exit <;> simp [step, hpc] at hs
  | free exit =>
    rw [hpc] at hinv
    rw [Inv.congr (and_iff_left (released_of_pc (by simp [hpc]) (by simp [hpc])))]
    cases e with
    | ok =>
      simp only [step, hpc, Option.some.injEq] at hs
      subst hs
      exact free_inv hinv
    | fail | poll => simp [step, hpc] at hs
  | cleanup exit =>
    rw [hpc] at hinv
    rw [Inv.congr (and_iff_left (released_of_pc (by simp [hpc]) (by simp [hpc])))]
    cases e with
    | ok | fail =>
      simp only [step, hpc, Option.some.injEq] at hs
      subst hs
      exact cleanup_inv hinv
    | poll => simp [step, hpc] at hs
  | done status => cases e <;> simp [step, hpc] at hs

theorem init_inv : Inv True init := ⟨trivial, rfl⟩

end Steps

/-- **When everything is released in the right order.**  At the end of a run of either program, the
lifecycle has been kept exactly if all steps were `Released`. -/
theorem lifecycle_iff {sample : Sample} {options : Options} {es : List Event} {s : State}
    {status : Nat} (h : (machine sample options).run es = some s) (hs : s.pc = .done status) :
    Lifecycle s.trace ↔ (machine sample options).Meets Released init es := by
  have hinv : Inv ((machine sample options).Meets Released init es) s :=
    Machine.run_inv_meets (I := Inv) init_inv (fun a s e s' hI hstep => step_inv hI hstep) h
  unfold Inv at hinv
  rw [hs] at hinv
  exact hinv.symm

/-- One queue each way; the port does not come up, and is closed. -/
def noLinkRun : List Event :=
  [.ok, .ok, .ok, .ok, .ok, .ok, .ok, .ok, .ok, .ok, .poll, .fail, .ok, .ok, .ok, .ok]

def noLinkTrace : List (Call × Bool) :=
  [(.ealInit, true), (.prepare, true), (.configure, true), (.adjustNbRxTxDesc, true),
    (.validateAdjustedDescriptors, true), (.pktmbufPoolCreate, true), (.rxQueueSetup 0, true),
    (.txQueueSetup 0, true), (.devInfoGet, true), (.devStart, true), (.waitForLink, false),
    (.devStop, true), (.devClose, true), (.mempoolFree, true), (.ealCleanup, true)]

theorem lifecycle_noLinkRun :
    Lifecycle noLinkTrace ↔ (machine .startStop ⟨1, 1, true⟩).Meets Released init noLinkRun :=
  @lifecycle_iff .startStop ⟨1, 1, true⟩ noLinkRun ⟨.done 1, ⟨true, true, true⟩, noLinkTrace⟩ 1
    (by decide) rfl

/-- **The port cannot be stopped**: the handler closes it all the same, and frees its mempool. -/
theorem started_port_is_closed :
    ¬∀ (sample : Sample) (options : Options) (es : List Event) (s : State) (status : Nat),
      (machine sample options).run es = some s → s.pc = .done status → Lifecycle s.trace := by
  intro h
  let t : List (Call × Bool) :=
    [(.ealInit, true), (.prepare, true), (.configure, true), (.adjustNbRxTxDesc, true),
      (.validateAdjustedDescriptors, true), (.pktmbufPoolCreate, true), (.rxQueueSetup 0, true),
      (.txQueueSetup 0, true), (.devInfoGet, true), (.devStart, true), (.waitForLink, true),
      (.devStop, false), (.devStop, false)]
  have hlife := h .startStop ⟨1, 1, true⟩
    [.ok, .ok, .ok, .ok, .ok, .ok, .ok, .ok, .ok, .ok, .ok, .fail, .fail, .fail, .ok, .ok]
    ⟨.done 1, ⟨true, true, true⟩, t ++ [(.devClose, false), (.mempoolFree, true), (.ealCleanup, true)]⟩
    1 (by decide) rfl
  obtain ⟨-, hclose⟩ := hlife.allowed t (.devClose, false) [(.mempoolFree, true), (.ealCleanup, true)] rfl
  revert hclose
  decide

end AdvCpp.Dpdk
