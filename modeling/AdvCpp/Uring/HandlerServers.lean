import AdvCpp.Lib.Handlers
import AdvCpp.Uring.FileServer
import AdvCpp.Uring.SpliceEcho

/-!
# The coroutine servers with several descriptors for each client

`accept_loop`, `client_handler` and the event loop of `17_splice_echo.cpp` and of
`13_file_server.cpp`, with any number of clients.  A client of the first holds its socket and both
ends of a pipe, a client of the second its socket and a file; all of these numbers come back as soon
as somebody closes them.

* `spliceHandler`, `fileHandler` — the two handlers, with the names of their descriptors.
* `spliceServer_sound` — every client gets its own bytes back, over its own pipe.
* `fileServer_sound` — every client gets the response to its own request.
-/

namespace AdvCpp.Uring

open AdvCpp.Lib
open Handlers (Handler Sound)

/-! ## The splice echo -/

namespace SpliceEcho

/-- `client_handler` of `17_splice_echo.cpp`, as the server runs it. -/
def spliceHandler : Handler State Event Descriptor where
  machine := clientHandler
  client := .fd
  owned := State.owned
  closed := State.closed
  awaits s :=
    match s.place with
    | .toPipe op | .fromPipe op _ => some [op.fdIn, op.fdOut]
    | .pipe2 | .returned => none
  returned s := s.place = .returned

section Lawful

variable {s s' : State} {es : List Event} {e : Event}

theorem returned_iff : spliceHandler.returned s = true ↔ s.place = .returned := by
  simp [spliceHandler]

/-- The descriptors of an awaited splice are open. -/
theorem Inv.uses {names : List Descriptor} (h : Inv s) (hawaits : spliceHandler.awaits s = some names) :
    ∀ d ∈ names, d ∈ s.owned ∧ d ∉ s.closed := by
  obtain ⟨hcounted, -, hcloses⟩ := h
  unfold Counted at hcounted
  unfold Closes at hcloses
  simp only [spliceHandler] at hawaits
  cases hplace : s.place with
  | pipe2 | returned =>
    rw [hplace] at hawaits
    cases hawaits
  | toPipe op | fromPipe op remaining =>
    rw [hplace] at hawaits hcounted hcloses
    obtain ⟨rfl, -⟩ := hcounted
    obtain ⟨howned, hclosed⟩ := hcloses
    cases hawaits
    rw [howned, hclosed]
    simp

theorem drain_names (s : State) (remaining : Nat) :
    (drain s remaining).owned = s.owned ∧ (drain s remaining).closed = s.closed := by
  unfold drain
  split
  · exact ⟨rfl, rfl⟩
  · exact ⟨rfl, rfl⟩

theorem transfer_names (op : AsyncSplice) (res : Int) (data : List UInt8) (s : State) :
    (transfer op res data s).owned = s.owned ∧ (transfer op res data s).closed = s.closed := by
  unfold transfer
  split
  · exact ⟨rfl, rfl⟩
  · exact ⟨rfl, rfl⟩
  · exact ⟨rfl, rfl⟩

/-- A splice that has completed closes everything or nothing. -/
theorem goOn_names {op : AsyncSplice} {res : Int} {data : List UInt8} {remaining : Nat}
    (hs : (if res ≤ 0 then some (done (transfer op res data s))
      else some (drain (transfer op res data s) remaining)) = some s') :
    s.owned <+: s'.owned ∧ s.closed <+: s'.closed := by
  obtain ⟨howned, hclosed⟩ := transfer_names op res data s
  split at hs
  · cases hs
    rw [← howned, ← hclosed]
    exact ⟨List.prefix_refl _, List.prefix_append _ _⟩
  · cases hs
    obtain ⟨howned', hclosed'⟩ := drain_names (transfer op res data s) remaining
    rw [howned', hclosed', howned, hclosed]
    exact ⟨List.prefix_refl _, List.prefix_refl _⟩

theorem step_grows (hs : step s e = some s') : s.owned <+: s'.owned ∧ s.closed <+: s'.closed := by
  cases e with
  | pipe2 res =>
    simp only [step] at hs
    split at hs
    · split at hs
      · cases hs
        exact ⟨List.prefix_refl _, List.prefix_append _ _⟩
      · cases hs
        exact ⟨List.prefix_append _ _, List.prefix_refl _⟩
    · cases hs
  | splice res data =>
    simp only [step] at hs
    split at hs
    · split at hs
      · exact goOn_names hs
      · cases hs
    · split at hs
      · exact goOn_names hs
      · cases hs
    · cases hs

/-- Before the end nothing is closed, then all that is owned. -/
theorem Inv.names (h : Inv s) : s.owned.Nodup ∧ s.closed.Nodup ∧ ∀ d ∈ s.closed, d ∈ s.owned := by
  have hcloses := h.closes
  unfold Closes at hcloses
  split at hcloses
  · rw [hcloses.1, hcloses.2]
    simp
  · rw [hcloses.1, hcloses.2]
    simp
  · rw [hcloses.1, hcloses.2]
    simp
  · obtain ⟨hperm, hnodup⟩ := hcloses
    exact ⟨hnodup, hperm.nodup_iff.2 hnodup, fun d => hperm.mem_iff.1⟩

theorem spliceHandler_lawful : spliceHandler.Lawful where
  init_owned := rfl
  init_closed := rfl
  init_running := rfl
  nodup h := (run_inv h).1.names.1
  once h := (run_inv h).1.names.2.1
  subset h := (run_inv h).1.names.2.2
  uses h hawaits := (run_inv h).1.uses hawaits
  releases h hreturned d hd := by
    have hcloses := (run_inv h).1.closes
    unfold Closes at hcloses
    rw [returned_iff.1 hreturned] at hcloses
    exact hcloses.1.mem_iff.2 hd
  grows _ hs := step_grows hs

end Lawful

/-- What client `c` has got of what it has sent. -/
structure Echoed (c : Nat) (s : Handlers.State State Event Descriptor) (t : State) : Prop where
  execution : clientHandler.run (s.seen c) = some t
  bytes : splicedIn (s.seen c) = t.sent ++ t.pipe
  /-- When the handler waits for more, the client has got everything. -/
  idle : ∀ op, t.place = .toPipe op → t.sent = splicedIn (s.seen c)
  frame : ∀ f, s.frames c = some f → f.state = t
  returned : s.frames c = none → t.place = .returned

/-- **The whole splice server.**  Whatever the clients do and however the numbers are reused, no splice
and no `close` reaches another client's socket or pipe, and every client gets its own bytes. -/
theorem spliceServer_sound (listenFd : Int)
    (es : List (Handlers.Event Event)) (s : Handlers.State State Event Descriptor)
    (h : (Handlers.machine spliceHandler listenFd).run es = some s) :
    Sound spliceHandler s ∧ ∀ c < s.started, ∃ t, Echoed c s t := by
  have hsound := Handlers.run_sound spliceHandler_lawful h
  refine ⟨hsound, fun c hc => ?_⟩
  obtain ⟨t, hrun, hframe⟩ := hsound.execution c hc
  obtain ⟨hinv, hreceived⟩ := run_inv hrun
  have hbytes : splicedIn (s.seen c) = t.sent ++ t.pipe := by rw [← hreceived, hinv.bytes]
  refine ⟨t, hrun, hbytes, fun op hplace => ?_, fun f hf => ?_, fun hf => ?_⟩
  · have hcounted := hinv.counted
    unfold Counted at hcounted
    rw [hplace] at hcounted
    rw [hbytes, hcounted.2, List.append_nil]
  · rw [hf] at hframe
    exact hframe.1
  · rw [hf] at hframe
    exact returned_iff.1 hframe

/-- The second client gets the numbers of the first. -/
def reuse : List (Handlers.Event Event) :=
  [.submit 0, .accepted 0 4, .reap 0 [], .call 0 (.pipe2 0) [5, 6], .submit 1, .submit 2,
    .completed 2 (.splice 0 []), .reap 2 [], .accepted 1 6, .reap 1 [], .call 1 (.pipe2 0) [4, 5],
    .submit 4, .completed 4 (.splice 2 [7, 8]), .reap 4 [], .submit 5, .completed 5 (.splice 1 []),
    .reap 5 []]

theorem spliceServer_sound_reuse : ∃ s,
    (Handlers.machine spliceHandler 3).run reuse = some s ∧ s.started = 2 ∧
      s.table 6 = some (.own 1 .fd) ∧ Sound spliceHandler s ∧ ∀ c < s.started, ∃ t, Echoed c s t := by
  obtain ⟨s, hs, hstarted, hsix⟩ : ∃ s, (Handlers.machine spliceHandler 3).run reuse = some s ∧
      s.started = 2 ∧ s.table 6 = some (.own 1 .fd) := ⟨_, rfl, rfl, rfl⟩
  exact ⟨s, hs, hstarted, hsix, spliceServer_sound 3 reuse s hs⟩

end SpliceEcho

/-! ## The file server -/

namespace FileServer

variable (fs : List UInt8 → Option (List UInt8))

def ownedNames : Bool → List Descriptor
  | true => [.client, .file]
  | false => [.client]

/-- `client_handler` of `13_file_server.cpp`, as the server runs it. -/
def fileHandler : Handler State Event Descriptor where
  machine := clientHandler fs
  client := .client
  owned s := ownedNames s.opened
  closed := State.closed
  awaits s :=
    match s.place with
    | .recv | .sendError _ _ | .sendHeader _ _ _ | .sendChunk _ _ _ _ => some [.client]
    | .read _ _ => some [.file]
    | .returned => none
  returned s := s.place = .returned

section Lawful

variable {fs} {s s' : State} {es : List Event} {e : Event}

theorem fileHandler_returned : (fileHandler fs).returned s = true ↔ s.place = .returned := by
  simp [fileHandler]

theorem Valid.closed_nil (h : Valid s) (hplace : s.place ≠ .returned) : s.closed = [] := by
  rw [h.closed_eq]
  cases hp : s.place with
  | returned => exact absurd hp hplace
  | recv | sendError | sendHeader | read | sendChunk => rfl

/-- Before the end nothing is closed, then all that is owned. -/
theorem Valid.names (h : Valid s) :
    s.closed.Nodup ∧ (∀ d ∈ s.closed, d ∈ (fileHandler fs).owned s) ∧
      (s.place = .returned → ∀ d ∈ (fileHandler fs).owned s, d ∈ s.closed) := by
  by_cases hplace : s.place = .returned
  · have hclosed := h.closed_eq
    rw [hplace] at hclosed
    rw [hclosed]
    show _ ∧ (∀ d ∈ _, d ∈ ownedNames s.opened) ∧ (_ → ∀ d ∈ ownedNames s.opened, d ∈ _)
    cases s.opened with
    | true => simp [ownedNames, closedAt]
    | false => simp [ownedNames, closedAt]
  · rw [h.closed_nil hplace]
    simp [hplace]

/-- The descriptor of an awaited operation is open. -/
theorem Valid.uses {names : List Descriptor} (h : Valid s)
    (hawaits : (fileHandler fs).awaits s = some names) :
    ∀ d ∈ names, d ∈ (fileHandler fs).owned s ∧ d ∉ s.closed := by
  have hloop := h.inLoop
  simp only [fileHandler] at hawaits
  cases hplace : s.place with
  | returned =>
    rw [hplace] at hawaits
    cases hawaits
  | recv | sendError | sendHeader | sendChunk =>
    rw [hplace] at hawaits
    cases hawaits
    rw [h.closed_nil (by simp [hplace])]
    show ∀ d ∈ [Descriptor.client], d ∈ ownedNames s.opened ∧ d ∉ []
    cases s.opened with
    | true => simp [ownedNames]
    | false => simp [ownedNames]
  | read content offset =>
    rw [hplace] at hawaits hloop
    cases hawaits
    rw [h.closed_nil (by simp [hplace])]
    have hopened : s.opened = true := hloop.2
    simp [fileHandler, hopened, ownedNames]

theorem Valid.grows (h : Valid s) (hs : step fs s e = some s') :
    (fileHandler fs).owned s <+: (fileHandler fs).owned s' ∧ s.closed <+: s'.closed := by
  have hsame : s'.opened = s.opened →
      (fileHandler fs).owned s <+: (fileHandler fs).owned s' := by
    intro he
    simp only [fileHandler, he]
    exact List.prefix_refl _
  rw [h.closed_nil (notReturned hs)]
  refine ⟨?_, List.nil_prefix⟩
  cases step_cases h hs with
  | gaveUp _ _ hcont => exact hsame hcont.opened_eq
  | answer request opened _ hplace _ _ =>
    -- nothing is open yet
    have hloop := h.inLoop
    rw [hplace] at hloop
    have hopened : s.opened = false := hloop
    simp only [fileHandler, hopened]
    cases s'.opened with
    | true => exact ⟨[.file], rfl⟩
    | false => exact List.prefix_refl _
  | sent _ _ _ _ _ hcont => exact hsame hcont.opened_eq

theorem fileHandler_lawful (fs : List UInt8 → Option (List UInt8)) : (fileHandler fs).Lawful where
  init_owned := rfl
  init_closed := rfl
  init_running := rfl
  nodup {_ t} _ := by
    show (ownedNames t.opened).Nodup
    cases t.opened with
    | true => decide
    | false => decide
  once h := (@Valid.names fs _ (run_serving h).valid).1
  subset h := (run_serving h).valid.names.2.1
  uses h hawaits := (run_serving h).valid.uses hawaits
  releases h hreturned := (run_serving h).valid.names.2.2 (fileHandler_returned.1 hreturned)
  grows h hs := (run_serving h).valid.grows hs

end Lawful

/-- What client `c` has got. -/
structure Served (fs : List UInt8 → Option (List UInt8)) (c : Nat)
    (s : Handlers.State State Event Descriptor) (t : State) : Prop where
  execution : (clientHandler fs).run (s.seen c) = some t
  /-- The request is what has been received for this client. -/
  request : t.request = ((s.seen c).filterMap receivedOf).head?
  isPrefix : t.sent <+: answer fs t.request
  /-- Unless one of its own operations has failed, a client gets the whole response. -/
  complete : s.frames c = none → .failed ∉ s.seen c →
    ∃ request, t.request = some request ∧ t.sent = (respond fs request).bytes
  frame : ∀ f, s.frames c = some f → f.state = t
  returned : s.frames c = none → t.place = .returned
  /-- It takes no more operations than this. -/
  bounded : (s.seen c).length ≤ 1 + 2 * (answer fs t.request).length

variable {fs}

/-- **The whole file server.**  Whatever fails for whom and however the numbers are reused, no operation
and no `close` reaches another client's socket or file, and every client gets the response to its own
request. -/
theorem fileServer_sound (listenFd : Int)
    (es : List (Handlers.Event Event)) (s : Handlers.State State Event Descriptor)
    (h : (Handlers.machine (fileHandler fs) listenFd).run es = some s) :
    Sound (fileHandler fs) s ∧ ∀ c < s.started, ∃ t, Served fs c s t := by
  have hsound := Handlers.run_sound (fileHandler_lawful fs) h
  refine ⟨hsound, fun c hc => ?_⟩
  obtain ⟨t, hrun, hframe⟩ := hsound.execution c hc
  have hserving := run_serving hrun
  have hsteps := hserving.steps
  have hreturned : s.frames c = none → t.place = .returned := by
    intro hf
    rw [hf] at hframe
    exact fileHandler_returned.1 hframe
  refine ⟨t, hrun, run_request hrun, hserving.isPrefix, fun hf hnot => ?_, fun f hf => ?_, hreturned,
    by omega⟩
  · have hplace := hreturned hf
    obtain ⟨request, hrequest⟩ := hserving.answered (by simp [hplace]) hnot
    have hall := hserving.sent_owed (Or.inr hnot)
    rw [hplace, hrequest, owed, List.append_nil] at hall
    exact ⟨request, hrequest, hall⟩
  · rw [hf] at hframe
    exact hframe.1

/-- The socket of the second client has the number of the first one's file. -/
def fileReuse : List (Handlers.Event Event) :=
  [.submit 0, .accepted 0 4, .reap 0 [], .submit 1,
    .completed 1 (.received (ascii "GET /a HTTP/1.0\r\n\r\n")), .reap 1 [5], .submit 3,
    .completed 3 .failed, .reap 3 [], .submit 2, .accepted 2 5, .reap 2 []]

theorem fileServer_sound_reuse : ∃ s,
    (Handlers.machine (fileHandler greeting) 3).run fileReuse = some s ∧ s.started = 2 ∧
      s.table 5 = some (.own 1 .client) ∧ Sound (fileHandler greeting) s ∧
      ∀ c < s.started, ∃ t, Served greeting c s t := by
  obtain ⟨s, hs, hstarted, hfive⟩ :
      ∃ s, (Handlers.machine (fileHandler greeting) 3).run fileReuse = some s ∧
        s.started = 2 ∧ s.table 5 = some (.own 1 .client) := ⟨_, rfl, rfl, rfl⟩
  exact ⟨s, hs, hstarted, hfive, fileServer_sound 3 fileReuse s hs⟩

end FileServer

end AdvCpp.Uring
