import AdvCpp.Lib.Machine
import AdvCpp.Uring.HttpRequest

/-!
# The response of the file server

One run of `client_handler` of `13_file_server.cpp`.  The events are the results of its `co_await`s,
so a list of events is one schedule of short and failed operations; the files do not change while it
runs.

* `readContentLength_header` — the header says how long the body is.
* `step_cases` — what one step can do.
* `step_inv` — what every step keeps.
* `response_integrity` — what has been sent is a prefix of the response, and what is closed when.
* `sameResponse_iff` — for which requests the response does not depend on how they arrive.
-/

namespace AdvCpp.Uring.FileServer

open AdvCpp.Lib

/-! ## The responses -/

/-- A number as `operator<<` prints it. -/
def decimal (n : Nat) : List UInt8 := (Nat.toDigits 10 n).map fun c => UInt8.ofNat c.toNat

def makeResponseHeader (status : Nat) (statusText : List UInt8) (contentLength : Nat)
    (contentType : List UInt8) : List UInt8 :=
  ascii "HTTP/1.0 " ++ decimal status ++ ascii " " ++ statusText ++ ascii "\r\n" ++
    (ascii "Content-Length: " ++ decimal contentLength ++ ascii "\r\n" ++
      (ascii "Content-Type: " ++ contentType ++ ascii "\r\n" ++ ascii "Connection: close\r\n" ++
        ascii "\r\n"))

/-- The default of `content_type`. -/
def textPlain : List UInt8 := ascii "text/plain"

/-- What there is to answer. -/
inductive Response where
  | badRequest
  | notFound (path : List UInt8)
  | ok (content : List UInt8)

namespace Response

def status : Response → Nat
  | badRequest => 400
  | notFound _ => 404
  | ok _ => 200

def statusText : Response → List UInt8
  | badRequest => ascii "Bad Request"
  | notFound _ => ascii "Not Found"
  | ok _ => ascii "OK"

def body : Response → List UInt8
  | badRequest => []
  | notFound path => ascii "404 Not Found: " ++ path ++ ascii "\n"
  | ok content => content

/-- The header announces the length of the body. -/
def header (r : Response) : List UInt8 :=
  makeResponseHeader r.status r.statusText r.body.length textPlain

def bytes (r : Response) : List UInt8 := r.header ++ r.body

end Response

/-- The response to a request, where `fs` says what is in the files that can be opened. -/
def respond (fs : List UInt8 → Option (List UInt8)) (request : List UInt8) : Response :=
  if parsePath request = [] then .badRequest
  else
    match fs (cString (parsePath request)) with
    | none => .notFound (parsePath request)
    | some content => .ok content

/-- The number at the start of a text. -/
def readNumber (text : List UInt8) : Nat :=
  Nat.ofDigitChars 10 ((text.map fun b => Char.ofNat b.toNat).takeWhile Char.isDigit) 0

/-- What the second line says if it is a Content-Length line. -/
def readContentLength (response : List UInt8) : Option Nat :=
  let line := (response.dropWhile (· ≠ 10)).tail
  if line.take 16 = ascii "Content-Length: " then some (readNumber (line.drop 16)) else none

/-! ## The handler -/

inductive Descriptor where
  | client
  | file
  deriving DecidableEq

/-- The `co_await` where the handler is suspended, with its local variables. -/
inductive Place where
  | recv
  /-- Status 400 or 404. -/
  | sendError (resp : List UInt8) (totalSent : Nat)
  | sendHeader (content header : List UInt8) (totalSent : Nat)
  | read (content : List UInt8) (offset : Nat)
  | sendChunk (content : List UInt8) (offset : Nat) (buf : List UInt8) (totalSent : Nat)
  | returned
  deriving DecidableEq

structure State where
  place : Place
  request : Option (List UInt8)
  sent : List UInt8
  /-- `open` has returned a descriptor. -/
  opened : Bool
  closed : List Descriptor
  deriving DecidableEq

inductive Event where
  /-- The result is negative, or 0 for the end of the file or of the connection. -/
  | failed
  | received (request : List UInt8)
  | sent (n : Nat)
  | bytesRead (n : Nat)
  deriving DecidableEq

def bufSize : Nat := 4096

def closeAll (s : State) (fds : List Descriptor) : State :=
  { s with place := .returned, closed := s.closed ++ fds }

/-- `n` bytes of `buf` are sent from `totalSent` on. -/
def send (s : State) (buf : List UInt8) (totalSent n : Nat) : State :=
  { s with sent := s.sent ++ (buf.drop totalSent).take n }

/-- The loop of an error response. -/
def errorLoop (s : State) (resp : List UInt8) (totalSent : Nat) : State :=
  if totalSent < resp.length then { s with place := .sendError resp totalSent }
  else closeAll s [.client]

/-- The loop over the file. -/
def fileLoop (s : State) (content : List UInt8) (offset : Nat) : State :=
  if offset < content.length then { s with place := .read content offset }
  else closeAll s [.file, .client]

/-- The loop over the header. -/
def headerLoop (s : State) (content header : List UInt8) (totalSent : Nat) : State :=
  if totalSent < header.length then { s with place := .sendHeader content header totalSent }
  else fileLoop s content 0

/-- The end of the loop body. -/
def endChunk (s : State) (content : List UInt8) (offset : Nat) (buf : List UInt8)
    (totalSent : Int) : State :=
  if totalSent < 0 then closeAll s [.file, .client] else fileLoop s content (offset + buf.length)

/-- The loop over what has been read. -/
def chunkLoop (s : State) (content : List UInt8) (offset : Nat) (buf : List UInt8)
    (totalSent : Nat) : State :=
  if totalSent < buf.length then { s with place := .sendChunk content offset buf totalSent }
  else endChunk s content offset buf totalSent

/-- From the parsed request to the first loop. -/
def handle (fs : List UInt8 → Option (List UInt8)) (s : State) (request : List UInt8) : State :=
  let path := parsePath request
  let s := { s with request := some request }
  if path = [] then errorLoop s (makeResponseHeader 400 (ascii "Bad Request") 0 textPlain) 0
  else
    match fs (cString path) with
    | none =>
      let body := ascii "404 Not Found: " ++ path ++ ascii "\n"
      errorLoop s (makeResponseHeader 404 (ascii "Not Found") body.length textPlain ++ body) 0
    | some content =>
      headerLoop { s with opened := true } content
        (makeResponseHeader 200 (ascii "OK") content.length textPlain) 0

def step (fs : List UInt8 → Option (List UInt8)) (s : State) (e : Event) : Option State :=
  match s.place, e with
  | .recv, .failed => some (closeAll s [.client])
  | .recv, .received request =>
    if 0 < request.length ∧ request.length ≤ bufSize - 1 then some (handle fs s request) else none
  | .sendError _ _, .failed => some (closeAll s [.client])
  | .sendError resp totalSent, .sent n =>
    if 0 < n ∧ n ≤ resp.length - totalSent then
      some (errorLoop (send s resp totalSent n) resp (totalSent + n))
    else none
  | .sendHeader _ _ _, .failed => some (closeAll s [.file, .client])
  | .sendHeader content header totalSent, .sent n =>
    if 0 < n ∧ n ≤ header.length - totalSent then
      some (headerLoop (send s header totalSent n) content header (totalSent + n))
    else none
  | .read _ _, .failed => some (closeAll s [.file, .client])
  | .read content offset, .bytesRead n =>
    if 0 < n ∧ n ≤ min (content.length - offset) bufSize then
      some (chunkLoop s content offset ((content.drop offset).take n) 0)
    else none
  -- total_sent = -1
  | .sendChunk content offset buf _, .failed => some (endChunk s content offset buf (-1))
  | .sendChunk content offset buf totalSent, .sent n =>
    if 0 < n ∧ n ≤ buf.length - totalSent then
      some (chunkLoop (send s buf totalSent n) content offset buf (totalSent + n))
    else none
  | _, _ => none

def clientHandler (fs : List UInt8 → Option (List UInt8)) : Machine State Event where
  init := ⟨.recv, none, [], false, []⟩
  step := step fs

/-! ## Reading the header -/

section Header

variable {n status : Nat} {statusText contentType rest : List UInt8}

theorem toChar_toByte {c : Char} (h : c.isDigit) : Char.ofNat (UInt8.ofNat c.toNat).toNat = c := by
  have hlt : c.toNat < 256 := by
    simp only [Char.isDigit, Bool.and_eq_true, decide_eq_true_eq] at h
    have hle : c.toNat ≤ 57 := h.2
    omega
  rw [UInt8.toNat_ofNat', Nat.mod_eq_of_lt hlt, Char.ofNat_toNat]

theorem decimal_toChars :
    (decimal n).map (fun b => Char.ofNat b.toNat) = Nat.toDigits 10 n := by
  rw [decimal, List.map_map]
  calc (Nat.toDigits 10 n).map _ = (Nat.toDigits 10 n).map id := List.map_congr_left fun c hc =>
        toChar_toByte (Nat.isDigit_of_mem_toDigits (by decide) (by decide) hc)
    _ = Nat.toDigits 10 n := List.map_id _

/-- Reading back what was printed. -/
theorem readNumber_decimal : readNumber (decimal n ++ 13 :: rest) = n := by
  have hdigits : ∀ c ∈ Nat.toDigits 10 n, c.isDigit = true := fun c hc =>
    Nat.isDigit_of_mem_toDigits (by decide) (by decide) hc
  rw [readNumber, List.map_append, decimal_toChars, List.takeWhile_append_of_pos hdigits]
  simp [Nat.ofDigitChars_ten_toDigits]

/-- The status line is one line. -/
theorem lineFeed_notMem_decimal : 10 ∉ decimal n := by
  intro hmem
  obtain ⟨c, hc, heq⟩ := List.mem_map.1 hmem
  have hdigit : c.isDigit = true := Nat.isDigit_of_mem_toDigits (by decide) (by decide) hc
  have hc : Char.ofNat (UInt8.ofNat c.toNat).toNat = c := toChar_toByte hdigit
  rw [heq] at hc
  rw [← hc] at hdigit
  revert hdigit
  decide

/-- **The header says how long the body is.** -/
theorem readContentLength_header (htext : 10 ∉ statusText) :
    readContentLength (makeResponseHeader status statusText n contentType ++ rest) = some n := by
  have hline : ∀ b ∈ ascii "HTTP/1.0 " ++ decimal status ++ ascii " " ++ statusText ++ [13],
      decide (b ≠ 10) = true := by
    intro b hb
    rw [decide_eq_true_eq]
    rintro rfl
    simp only [List.mem_append, lineFeed_notMem_decimal, htext, or_false] at hb
    revert hb
    decide
  have hsplit : makeResponseHeader status statusText n contentType ++ rest =
      (ascii "HTTP/1.0 " ++ decimal status ++ ascii " " ++ statusText ++ [13]) ++
        10 :: (ascii "Content-Length: " ++ (decimal n ++ 13 :: 10 ::
          (ascii "Content-Type: " ++ contentType ++ ascii "\r\n" ++ ascii "Connection: close\r\n" ++
            ascii "\r\n" ++ rest))) := by
    have hend : ascii "\r\n" = [13, 10] := by decide
    simp [makeResponseHeader, hend]
  have hlength : (ascii "Content-Length: ").length = 16 := by decide
  rw [readContentLength, hsplit, List.dropWhile_append_of_pos hline,
    List.dropWhile_cons_of_neg (by decide), List.tail_cons]
  rw [if_pos (List.take_left' hlength), List.drop_left' hlength, readNumber_decimal]

theorem readContentLength_bytes (r : Response) :
    readContentLength r.bytes = some r.body.length := by
  refine readContentLength_header ?_
  cases r with
  | badRequest => exact (by decide : 10 ∉ ascii "Bad Request")
  | notFound path => exact (by decide : 10 ∉ ascii "Not Found")
  | ok content => exact (by decide : 10 ∉ ascii "OK")

end Header

/-! ## One step -/

/-- What the handler still has to send. -/
def owed : Place → List UInt8
  | .recv | .returned => []
  | .sendError resp totalSent => resp.drop totalSent
  | .sendHeader content header totalSent => header.drop totalSent ++ content
  | .read content offset => content.drop offset
  | .sendChunk content offset buf totalSent =>
    buf.drop totalSent ++ content.drop (offset + buf.length)

/-- A bound on the number of steps that are left. -/
def work : Place → Nat
  | .recv => 1
  | .returned => 0
  | .sendError resp totalSent => resp.length - totalSent
  | .sendHeader content header totalSent => header.length - totalSent + 2 * content.length
  | .read content offset => 2 * (content.length - offset)
  | .sendChunk content offset buf totalSent =>
    buf.length - totalSent + 2 * (content.length - (offset + buf.length))

/-- The condition of the loop holds, and the file is open in the loops that need it. -/
def InLoop (opened : Bool) : Place → Prop
  | .recv => opened = false
  | .returned => True
  | .sendError resp totalSent => totalSent < resp.length ∧ opened = false
  | .sendHeader _ header totalSent => totalSent < header.length ∧ opened = true
  | .read content offset => offset < content.length ∧ opened = true
  | .sendChunk content offset buf totalSent =>
    totalSent < buf.length ∧ offset + buf.length ≤ content.length ∧ opened = true

/-- Nothing is closed before the end, and at the end what is open. -/
def closedAt (opened : Bool) : Place → List Descriptor
  | .returned => if opened = true then [.file, .client] else [.client]
  | _ => []

structure Valid (s : State) : Prop where
  inLoop : InLoop s.opened s.place
  closed_eq : s.closed = closedAt s.opened s.place

/-- From `s` the handler has gone on to `s'`, where `rest` is still to be sent. -/
structure Continues (s s' : State) (rest : List UInt8) (bound : Nat) : Prop where
  valid : Valid s'
  request_eq : s'.request = s.request
  opened_eq : s'.opened = s.opened
  sent_eq : s'.sent = s.sent
  owed_eq : owed s'.place = rest
  work_le : work s'.place ≤ bound
  notRecv : s'.place ≠ .recv

/-- What one step can do: give up, take a request, or send the next bytes `out` of what is owed (none
when the file is read). -/
inductive Stepped (fs : List UInt8 → Option (List UInt8)) (s : State) (e : Event) (s' : State) :
    Prop where
  | gaveUp (he : e = .failed) (hplace : s'.place = .returned) (hcont : Continues s s' [] 0)
  | answer (request : List UInt8) (opened : Bool) (he : e ≠ .failed) (hplace : s.place = .recv)
      (hopened : opened = true ↔ ∃ content, respond fs request = .ok content)
      (hcont : Continues { s with request := some request, opened := opened } s'
        (respond fs request).bytes (2 * (respond fs request).bytes.length))
  | sent (out rest : List UInt8) (he : e ≠ .failed) (hplace : s.place ≠ .recv)
      (howed : owed s.place = out ++ rest)
      (hcont : Continues { s with sent := s.sent ++ out } s' rest (work s.place - 1))

section Loops

variable {s : State} {content header resp buf : List UInt8} {totalSent offset : Nat}

theorem Continues.mono {s s' : State} {rest : List UInt8} {bound bound' : Nat}
    (h : Continues s s' rest bound) (hle : bound ≤ bound') : Continues s s' rest bound' :=
  { h with work_le := Nat.le_trans h.work_le hle }

theorem closeClient_continues {bound : Nat} (hopened : s.opened = false) (hclosed : s.closed = []) :
    Continues s (closeAll s [.client]) [] bound := by
  refine ⟨⟨trivial, ?_⟩, rfl, rfl, rfl, rfl, Nat.zero_le _, nofun⟩
  simp [closeAll, closedAt, hopened, hclosed]

theorem closeBoth_continues {bound : Nat} (hopened : s.opened = true) (hclosed : s.closed = []) :
    Continues s (closeAll s [.file, .client]) [] bound := by
  refine ⟨⟨trivial, ?_⟩, rfl, rfl, rfl, rfl, Nat.zero_le _, nofun⟩
  simp [closeAll, closedAt, hopened, hclosed]

theorem errorLoop_continues (hopened : s.opened = false) (hclosed : s.closed = []) :
    Continues s (errorLoop s resp totalSent) (resp.drop totalSent) (resp.length - totalSent) := by
  unfold errorLoop
  by_cases hlt : totalSent < resp.length
  · rw [if_pos hlt]
    exact ⟨⟨⟨hlt, hopened⟩, hclosed⟩, rfl, rfl, rfl, rfl, Nat.le_refl _, nofun⟩
  · rw [if_neg hlt]
    have hnil : resp.drop totalSent = [] := List.drop_eq_nil_of_le (Nat.le_of_not_lt hlt)
    rw [hnil]
    exact closeClient_continues hopened hclosed

/-- The bytes that are sent next. -/
theorem drop_eq_sent (buf : List UInt8) (totalSent n : Nat) :
    buf.drop totalSent = (buf.drop totalSent).take n ++ buf.drop (totalSent + n) := by
  rw [← List.drop_drop, List.take_append_drop]

theorem append_eq_sent (buf : List UInt8) (totalSent n : Nat) (rest : List UInt8) :
    buf.drop totalSent ++ rest =
      (buf.drop totalSent).take n ++ (buf.drop (totalSent + n) ++ rest) := by
  rw [← List.append_assoc, ← drop_eq_sent]

theorem fileLoop_continues (hopened : s.opened = true) (hclosed : s.closed = []) :
    Continues s (fileLoop s content offset) (content.drop offset)
      (2 * (content.length - offset)) := by
  unfold fileLoop
  by_cases hlt : offset < content.length
  · rw [if_pos hlt]
    exact ⟨⟨⟨hlt, hopened⟩, hclosed⟩, rfl, rfl, rfl, rfl, Nat.le_refl _, nofun⟩
  · rw [if_neg hlt, List.drop_eq_nil_of_le (Nat.le_of_not_lt hlt)]
    exact closeBoth_continues hopened hclosed

theorem headerLoop_continues (hopened : s.opened = true) (hclosed : s.closed = []) :
    Continues s (headerLoop s content header totalSent) (header.drop totalSent ++ content)
      (header.length - totalSent + 2 * content.length) := by
  unfold headerLoop
  by_cases hlt : totalSent < header.length
  · rw [if_pos hlt]
    exact ⟨⟨⟨hlt, hopened⟩, hclosed⟩, rfl, rfl, rfl, rfl, Nat.le_refl _, nofun⟩
  · have hle : header.length ≤ totalSent := Nat.le_of_not_lt hlt
    rw [if_neg hlt, List.drop_eq_nil_of_le hle, Nat.sub_eq_zero_of_le hle, Nat.zero_add]
    exact fileLoop_continues hopened hclosed

theorem chunkLoop_continues (hopened : s.opened = true) (hclosed : s.closed = [])
    (hle : offset + buf.length ≤ content.length) :
    Continues s (chunkLoop s content offset buf totalSent)
      (buf.drop totalSent ++ content.drop (offset + buf.length))
      (buf.length - totalSent + 2 * (content.length - (offset + buf.length))) := by
  unfold chunkLoop
  by_cases hlt : totalSent < buf.length
  · rw [if_pos hlt]
    exact ⟨⟨⟨hlt, hle, hopened⟩, hclosed⟩, rfl, rfl, rfl, rfl, Nat.le_refl _, nofun⟩
  · have hend : buf.length ≤ totalSent := Nat.le_of_not_lt hlt
    have hnonneg : ¬(totalSent : Int) < 0 := by omega
    rw [if_neg hlt, endChunk, if_neg hnonneg, List.drop_eq_nil_of_le hend,
      Nat.sub_eq_zero_of_le hend, Nat.zero_add]
    exact fileLoop_continues hopened hclosed

/-- The first loop is the one of the response. -/
theorem handle_continues (fs : List UInt8 → Option (List UInt8)) (request : List UInt8)
    (hopened : s.opened = false) (hclosed : s.closed = []) :
    ∃ opened, Continues { s with request := some request, opened := opened } (handle fs s request)
        (respond fs request).bytes (2 * (respond fs request).bytes.length) ∧
      (opened = true ↔ ∃ content, respond fs request = .ok content) := by
  have herror : ∀ resp : List UInt8,
      Continues { s with request := some request, opened := false }
        (errorLoop { s with request := some request } resp 0) resp (2 * resp.length) := by
    intro resp
    rw [← hopened]
    refine (errorLoop_continues (s := { s with request := some request }) hopened hclosed).mono ?_
    omega
  unfold handle respond
  by_cases hpath : parsePath request = []
  · rw [if_pos hpath, if_pos hpath]
    exact ⟨false, herror (Response.bytes .badRequest), by simp⟩
  · rw [if_neg hpath, if_neg hpath]
    cases hfile : fs (cString (parsePath request)) with
    | none => exact ⟨false, herror (Response.bytes (.notFound (parsePath request))), by simp⟩
    | some content =>
      refine ⟨true, ?_, by simp⟩
      refine (headerLoop_continues (s := { s with request := some request, opened := true }) rfl
        hclosed).mono ?_
      dsimp only
      have hlength : (Response.ok content).bytes.length =
          (makeResponseHeader 200 (ascii "OK") content.length textPlain).length + content.length :=
        List.length_append
      omega

end Loops

section Steps

variable {fs : List UInt8 → Option (List UInt8)} {s s' : State} {e : Event}

theorem notReturned (h : step fs s e = some s') : s.place ≠ .returned := by
  intro hret
  unfold step at h
  rw [hret] at h
  cases e <;> cases h

/-- Until the handler has returned, there is something to do. -/
theorem work_pos (hs : Valid s) (hplace : s.place ≠ .returned) : 0 < work s.place := by
  obtain ⟨place, request, sent, opened, closed⟩ := s
  obtain ⟨hloop, -⟩ := hs
  cases place with
  | recv => exact Nat.one_pos
  | returned => exact absurd rfl hplace
  | sendError resp totalSent => exact Nat.sub_pos_of_lt hloop.1
  | sendHeader content header totalSent => exact Nat.add_pos_left (Nat.sub_pos_of_lt hloop.1) _
  | read content offset => exact Nat.mul_pos Nat.two_pos (Nat.sub_pos_of_lt hloop.1)
  | sendChunk content offset buf totalSent =>
    exact Nat.add_pos_left (Nat.sub_pos_of_lt hloop.1) _

/-- **What one step can do.** -/
theorem step_cases (hs : Valid s) (h : step fs s e = some s') : Stepped fs s e s' := by
  obtain ⟨place, request, sent, opened, closed⟩ := s
  obtain ⟨hloop, hclosed⟩ := hs
  cases place with
  | recv =>
    cases e with
    | failed =>
      cases h
      exact .gaveUp rfl rfl (closeClient_continues hloop hclosed)
    | received request =>
      obtain ⟨-, hs'⟩ := Option.ite_none_right_eq_some.1 h
      obtain rfl := Option.some.inj hs'
      obtain ⟨opened, hcont, hopened⟩ := handle_continues fs request hloop hclosed
      exact .answer request opened nofun rfl hopened hcont
    | sent n => cases h
    | bytesRead n => cases h
  | sendError resp totalSent =>
    obtain ⟨hlt, hopened⟩ := hloop
    cases e with
    | failed =>
      cases h
      exact .gaveUp rfl rfl (closeClient_continues hopened hclosed)
    | sent n =>
      obtain ⟨⟨hpos, -⟩, hs'⟩ := Option.ite_none_right_eq_some.1 h
      obtain rfl := Option.some.inj hs'
      refine .sent _ _ nofun nofun (drop_eq_sent resp totalSent n) ?_
      refine (errorLoop_continues (s := send ⟨.sendError resp totalSent, request, sent, opened,
        closed⟩ resp totalSent n) hopened hclosed).mono ?_
      simp only [work]
      omega
    | received request => cases h
    | bytesRead n => cases h
  | sendHeader content header totalSent =>
    obtain ⟨hlt, hopened⟩ := hloop
    cases e with
    | failed =>
      cases h
      exact .gaveUp rfl rfl (closeBoth_continues hopened hclosed)
    | sent n =>
      obtain ⟨⟨hpos, -⟩, hs'⟩ := Option.ite_none_right_eq_some.1 h
      obtain rfl := Option.some.inj hs'
      refine .sent _ _ nofun nofun (append_eq_sent header totalSent n content) ?_
      refine (headerLoop_continues (s := send ⟨.sendHeader content header totalSent, request, sent,
        opened, closed⟩ header totalSent n) hopened hclosed).mono ?_
      simp only [work]
      omega
    | received request => cases h
    | bytesRead n => cases h
  | read content offset =>
    obtain ⟨hlt, hopened⟩ := hloop
    cases e with
    | failed =>
      cases h
      exact .gaveUp rfl rfl (closeBoth_continues hopened hclosed)
    | bytesRead n =>
      obtain ⟨⟨hpos, hn⟩, hs'⟩ := Option.ite_none_right_eq_some.1 h
      obtain rfl := Option.some.inj hs'
      have hlen : ((content.drop offset).take n).length = n := by
        rw [List.length_take, List.length_drop]
        omega
      have hinside : offset + ((content.drop offset).take n).length ≤ content.length := by omega
      have hcont : Continues _ (chunkLoop ⟨.read content offset, request, sent, opened, closed⟩
          content offset ((content.drop offset).take n) 0) _ _ :=
        chunkLoop_continues hopened hclosed hinside
      rw [hlen, List.drop_zero, ← drop_eq_sent] at hcont
      refine .sent [] (content.drop offset) nofun nofun rfl ?_
      simp only [List.append_nil]
      refine hcont.mono ?_
      simp only [work]
      omega
    | received request => cases h
    | sent n => cases h
  | sendChunk content offset buf totalSent =>
    obtain ⟨hlt, hle, hopened⟩ := hloop
    cases e with
    | failed =>
      cases h
      exact .gaveUp rfl rfl (closeBoth_continues hopened hclosed)
    | sent n =>
      obtain ⟨⟨hpos, -⟩, hs'⟩ := Option.ite_none_right_eq_some.1 h
      obtain rfl := Option.some.inj hs'
      refine .sent _ _ nofun nofun (append_eq_sent buf totalSent n _) ?_
      refine (chunkLoop_continues (s := send ⟨.sendChunk content offset buf totalSent, request,
        sent, opened, closed⟩ buf totalSent n) hopened hclosed hle).mono ?_
      simp only [work]
      omega
    | received request => cases h
    | bytesRead n => cases h
  | returned => cases e <;> cases h

/-- Until the handler has returned, an operation can succeed. -/
theorem exists_step (fs : List UInt8 → Option (List UInt8)) (hs : Valid s)
    (hplace : s.place ≠ .returned) :
    ∃ e s', e ≠ .failed ∧ step fs s e = some s' := by
  obtain ⟨place, request, sent, opened, closed⟩ := s
  obtain ⟨hloop, -⟩ := hs
  cases place with
  | recv => exact ⟨.received [0], _, nofun, rfl⟩
  | sendError resp totalSent =>
    exact ⟨.sent 1, _, nofun, if_pos ⟨Nat.one_pos, Nat.sub_pos_of_lt hloop.1⟩⟩
  | sendHeader content header totalSent =>
    exact ⟨.sent 1, _, nofun, if_pos ⟨Nat.one_pos, Nat.sub_pos_of_lt hloop.1⟩⟩
  | read content offset =>
    have hone : 1 ≤ min (content.length - offset) bufSize :=
      Nat.le_min.2 ⟨Nat.sub_pos_of_lt hloop.1, by decide⟩
    exact ⟨.bytesRead 1, _, nofun, if_pos ⟨Nat.one_pos, hone⟩⟩
  | sendChunk content offset buf totalSent =>
    exact ⟨.sent 1, _, nofun, if_pos ⟨Nat.one_pos, Nat.sub_pos_of_lt hloop.1⟩⟩
  | returned => exact absurd rfl hplace

end Steps

/-! ## All runs -/

/-- The response to what has been received. -/
def answer (fs : List UInt8 → Option (List UInt8)) : Option (List UInt8) → List UInt8
  | none => []
  | some request => (respond fs request).bytes

/-- What holds after the events `es`. -/
structure Serving (fs : List UInt8 → Option (List UInt8)) (es : List Event) (s : State) : Prop where
  valid : Valid s
  waiting : s.place = .recv → s.request = none
  answered : s.place ≠ .recv → .failed ∉ es → ∃ request, s.request = some request
  opened_iff : s.opened = true ↔
    ∃ request content, s.request = some request ∧ respond fs request = .ok content
  sent_owed : s.place ≠ .returned ∨ .failed ∉ es → s.sent ++ owed s.place = answer fs s.request
  isPrefix : s.sent <+: answer fs s.request
  steps : es.length + work s.place ≤ 1 + 2 * (answer fs s.request).length

section Runs

variable {fs : List UInt8 → Option (List UInt8)} {es : List Event} {s s' : State} {e : Event}

theorem init_serving : Serving fs [] (clientHandler fs).init where
  valid := ⟨rfl, rfl⟩
  waiting _ := rfl
  answered h := absurd rfl h
  opened_iff := by simp [clientHandler]
  sent_owed _ := rfl
  isPrefix := List.prefix_refl _
  steps := Nat.le_refl _

theorem step_inv (hs : Serving fs es s) (h : step fs s e = some s') :
    Serving fs (es ++ [e]) s' := by
  have hsteps := hs.steps
  have hpending := notReturned h
  have hwork := work_pos hs.valid hpending
  cases step_cases hs.valid h with
  | gaveUp he hplace hcont =>
    have hmem : .failed ∈ es ++ [e] := by simp [he]
    refine ⟨hcont.valid, fun hrecv => absurd hrecv hcont.notRecv, fun _ hnot => absurd hmem hnot,
      ?_, ?_, ?_, ?_⟩
    · rw [hcont.opened_eq, hcont.request_eq]
      exact hs.opened_iff
    · rintro (hne | hnot)
      · exact absurd hplace hne
      · exact absurd hmem hnot
    · rw [hcont.sent_eq, hcont.request_eq]
      exact hs.isPrefix
    · have hle := hcont.work_le
      rw [hcont.request_eq, List.length_append, List.length_singleton]
      omega
  | answer request opened he hplace hopened hcont =>
    have hnone := hs.waiting hplace
    have hsent : s.sent = [] := by
      have hprefix := hs.isPrefix
      rw [hnone] at hprefix
      exact List.prefix_nil.1 hprefix
    have hfirst : es.length + 1 ≤ 1 + 2 * 0 := by rwa [hnone, hplace] at hsteps
    refine ⟨hcont.valid, fun hrecv => absurd hrecv hcont.notRecv,
      fun _ _ => ⟨request, hcont.request_eq⟩, ?_, fun _ => ?_, ?_, ?_⟩
    · rw [hcont.opened_eq, hcont.request_eq]
      simpa using hopened
    · rw [hcont.sent_eq, hcont.request_eq, hcont.owed_eq, hsent]
      rfl
    · rw [hcont.sent_eq, hsent]
      exact List.nil_prefix
    · have hle := hcont.work_le
      rw [hcont.request_eq, List.length_append, List.length_singleton]
      simp only [answer]
      omega
  | sent out rest he hplace howed hcont =>
    have hall : s'.sent ++ owed s'.place = answer fs s'.request := by
      rw [hcont.sent_eq, hcont.owed_eq, hcont.request_eq, List.append_assoc, ← howed]
      exact hs.sent_owed (Or.inl hpending)
    refine ⟨hcont.valid, fun hrecv => absurd hrecv hcont.notRecv, fun _ hnot => ?_, ?_,
      fun _ => hall, ⟨_, hall⟩, ?_⟩
    · rw [hcont.request_eq]
      exact hs.answered hplace fun hmem => hnot (List.mem_append_left _ hmem)
    · rw [hcont.opened_eq, hcont.request_eq]
      exact hs.opened_iff
    · have hle := hcont.work_le
      rw [hcont.request_eq, List.length_append, List.length_singleton]
      dsimp only
      omega

theorem run_serving (h : (clientHandler fs).run es = some s) : Serving fs es s :=
  Machine.run_inv_hist init_serving (fun _ _ _ _ hs hstep => step_inv hs hstep) h

/-- What the peer sees of the handler, and what is closed. -/
structure ResponseIntegrity (fs : List UInt8 → Option (List UInt8)) (es : List Event) (s : State) :
    Prop where
  /-- At all times a prefix of the response. -/
  isPrefix : s.sent <+: answer fs s.request
  /-- All of it if nothing fails. -/
  complete : s.place = .returned → .failed ∉ es →
    ∃ request, s.request = some request ∧ s.sent = (respond fs request).bytes
  /-- The client knows where the body ends. -/
  contentLength : ∀ request, s.request = some request →
    readContentLength (respond fs request).bytes = some (respond fs request).body.length
  opened_iff : s.opened = true ↔
    ∃ request content, s.request = some request ∧ respond fs request = .ok content
  clientClosed : s.closed.count .client = if s.place = .returned then 1 else 0
  fileClosed : s.closed.count .file = if s.place = .returned ∧ s.opened = true then 1 else 0
  /-- The handler returns. -/
  bounded : es.length ≤ 1 + 2 * (answer fs s.request).length
  progress : s.place ≠ .returned → ∃ e s', e ≠ .failed ∧ step fs s e = some s'

/-- **Response integrity.**  Whatever is short or fails, the bytes sent are a prefix of the response to
the request, all of it if nothing fails, and the handler closes what is open once. -/
theorem response_integrity (h : (clientHandler fs).run es = some s) : ResponseIntegrity fs es s := by
  have hs := run_serving h
  have hsteps := hs.steps
  refine ⟨hs.isPrefix, fun hret hnot => ?_, fun request _ => readContentLength_bytes _, hs.opened_iff,
    ?_, ?_, by omega, exists_step fs hs.valid⟩
  · obtain ⟨request, hrequest⟩ := hs.answered (by simp [hret]) hnot
    have hall := hs.sent_owed (Or.inr hnot)
    rw [hret, hrequest, owed, List.append_nil] at hall
    exact ⟨request, hrequest, hall⟩
  · rw [hs.valid.closed_eq]
    cases s.place <;> cases s.opened <;> rfl
  · rw [hs.valid.closed_eq]
    cases s.place <;> cases s.opened <;> rfl

def greeting (path : List UInt8) : Option (List UInt8) :=
  if path = ascii "a" then some (ascii "hello") else none

/-- A file in two reads, the second one sent in two pieces. -/
def shortSends : List Event :=
  [.received (ascii "GET /a HTTP/1.0\r\n\r\n"), .sent 40, .sent 43, .bytesRead 2, .sent 2,
    .bytesRead 3, .sent 1, .sent 2]

theorem response_integrity_shortSends : ∃ s, (clientHandler greeting).run shortSends = some s ∧
    s.place = .returned ∧ ResponseIntegrity greeting shortSends s := by
  have h : (clientHandler greeting).run shortSends = some
      ⟨.returned, some (ascii "GET /a HTTP/1.0\r\n\r\n"), (Response.ok (ascii "hello")).bytes, true,
        [.file, .client]⟩ := by
    decide
  exact ⟨_, h, rfl, response_integrity h⟩

end Runs

/-! ## Requests in pieces -/

/-- The pieces in which TCP may deliver the request. -/
structure Segments (request : List UInt8) (segs : List (List UInt8)) : Prop where
  flatten_eq : segs.flatten = request
  nonempty : ∀ seg ∈ segs, seg ≠ []

def receivedOf : Event → Option (List UInt8)
  | .received request => some request
  | _ => none

/-- `recv` returns the pieces in their order, and nothing fails but a `recv` when there are none. -/
structure Delivers (segs : List (List UInt8)) (es : List Event) : Prop where
  received : es.filterMap receivedOf <+: segs
  failed : .failed ∈ es → segs = []

/-- The handler has sent `out` when it returns. -/
def Sends (fs : List UInt8 → Option (List UInt8)) (segs : List (List UInt8)) (out : List UInt8) :
    Prop :=
  ∃ es s, (clientHandler fs).run es = some s ∧ s.place = .returned ∧ s.sent = out ∧ Delivers segs es

/-- The response is the same in whatever pieces the request arrives. -/
def SameResponse (fs : List UInt8 → Option (List UInt8)) (request : List UInt8) : Prop :=
  ∀ segs segs', Segments request segs → Segments request segs' →
    ∀ out out', Sends fs segs out → Sends fs segs' out' → out = out'

section Segments

variable {fs : List UInt8 → Option (List UInt8)} {s s' : State} {es : List Event} {e : Event}
  {request seg out : List UInt8} {segs : List (List UInt8)}

/-- Only the first operation receives. -/
theorem step_received (hs : Valid s) (h : step fs s (.received request) = some s') :
    s.place = .recv ∧ s'.request = some request := by
  obtain ⟨place, request₀, sent, opened, closed⟩ := s
  obtain ⟨hloop, hclosed⟩ := hs
  cases place with
  | recv =>
    obtain ⟨-, hs'⟩ := Option.ite_none_right_eq_some.1 h
    obtain rfl := Option.some.inj hs'
    obtain ⟨opened, hcont, -⟩ := handle_continues fs request hloop hclosed
    exact ⟨rfl, hcont.request_eq⟩
  | sendError resp totalSent => cases h
  | sendHeader content header totalSent => cases h
  | read content offset => cases h
  | sendChunk content offset buf totalSent => cases h
  | returned => cases h

/-- The operations behind the first one receive nothing, and keep the request. -/
theorem step_other (hs : Valid s) (hplace : s.place ≠ .recv) (h : step fs s e = some s') :
    receivedOf e = none ∧ s'.request = s.request := by
  have hreceived : receivedOf e = none := by
    cases e with
    | received request => exact absurd (step_received hs h).1 hplace
    | failed => rfl
    | sent n => rfl
    | bytesRead n => rfl
  cases step_cases hs h with
  | gaveUp _ _ hcont => exact ⟨hreceived, hcont.request_eq⟩
  | answer _ _ _ hrecv _ _ => exact absurd hrecv hplace
  | sent _ _ _ _ _ hcont => exact ⟨hreceived, hcont.request_eq⟩

/-- The request is what the first operation has received. -/
theorem run_request (h : (clientHandler fs).run es = some s) :
    s.request = (es.filterMap receivedOf).head? := by
  induction es using List.reverseRecOn generalizing s with
  | nil =>
    cases h
    rfl
  | append_singleton es e ih =>
    obtain ⟨s₀, hs₀, hstep⟩ := Machine.run_snoc.1 h
    have hserving := run_serving hs₀
    have ih := ih hs₀
    change step fs s₀ e = some s at hstep
    rw [List.filterMap_append]
    by_cases hplace : s₀.place = .recv
    · -- it is the first operation
      have hnone := hserving.waiting hplace
      have hfirst := hserving.steps
      rw [hnone, hplace] at hfirst
      obtain rfl : es = [] := List.length_eq_zero_iff.1 (by
        simp only [work, answer, List.length_nil] at hfirst
        omega)
      cases e with
      | received request => exact (step_received hserving.valid hstep).2
      | failed =>
        have hkeep : s.request = s₀.request := by
          cases step_cases hserving.valid hstep with
          | gaveUp _ _ hcont => exact hcont.request_eq
          | answer _ _ he _ _ _ => exact absurd rfl he
          | sent _ _ he _ _ _ => exact absurd rfl he
        exact hkeep.trans hnone
      | sent n =>
        unfold step at hstep
        rw [hplace] at hstep
        cases hstep
      | bytesRead n =>
        unfold step at hstep
        rw [hplace] at hstep
        cases hstep
    · obtain ⟨hreceived, hkeep⟩ := step_other hserving.valid hplace hstep
      rw [hkeep, ih, List.filterMap_cons_none hreceived, List.filterMap_nil, List.append_nil]

/-- When nothing fails, the handler sends the rest and returns. -/
theorem exists_completion (fs : List UInt8 → Option (List UInt8)) (hs : Valid s)
    (hplace : s.place ≠ .recv) :
    ∃ es s', (clientHandler fs).exec s es = some s' ∧ s'.place = .returned ∧ .failed ∉ es ∧
      es.filterMap receivedOf = [] := by
  generalize hn : work s.place = n
  induction n using Nat.strongRecOn generalizing s with
  | ind n ih =>
    by_cases hret : s.place = .returned
    · exact ⟨[], s, rfl, hret, by rintro ⟨⟩, rfl⟩
    · obtain ⟨e, s₁, he, hstep⟩ := exists_step fs hs hret
      have hreceived := (step_other hs hplace hstep).1
      have hpos := work_pos hs hret
      cases step_cases hs hstep with
      | gaveUp hfailed _ _ => exact absurd hfailed he
      | answer _ _ _ hrecv _ _ => exact absurd hrecv hplace
      | sent out rest _ _ _ hcont =>
        have hle := hcont.work_le
        obtain ⟨es, s', hexec, hplace', hnot, hnone⟩ :=
          ih (work s₁.place) (by omega) hcont.valid hcont.notRecv rfl
        refine ⟨e :: es, s', Machine.exec_cons.2 ⟨s₁, hstep, hexec⟩, hplace', ?_, ?_⟩
        · rintro (_ | ⟨_, hmem⟩)
          · exact he rfl
          · exact hnot hmem
        · rw [List.filterMap_cons_none hreceived, hnone]

/-- **The handler answers the first piece.** -/
theorem sends_cons (hseg : seg ≠ []) (hlen : seg.length ≤ 4095) :
    Sends fs (seg :: segs) out ↔ out = (respond fs seg).bytes := by
  constructor
  · rintro ⟨es, s, hrun, hplace, rfl, hreceived, hfailed⟩
    have hnot : .failed ∉ es := fun hmem => by cases hfailed hmem
    obtain ⟨request, hrequest, hsent⟩ := (response_integrity hrun).complete hplace hnot
    have hhead := run_request hrun
    rw [hrequest] at hhead
    obtain ⟨t, ht⟩ := hreceived
    cases hfilter : es.filterMap receivedOf with
    | nil =>
      rw [hfilter] at hhead
      cases hhead
    | cons first more =>
      rw [hfilter] at hhead ht
      cases hhead
      cases ht
      exact hsent
  · rintro rfl
    have hguard : 0 < seg.length ∧ seg.length ≤ bufSize - 1 := ⟨List.length_pos_iff.2 hseg, hlen⟩
    have hfirst : step fs (clientHandler fs).init (.received seg) =
        some (handle fs (clientHandler fs).init seg) := if_pos hguard
    obtain ⟨opened, hcont, -⟩ :=
      handle_continues (s := (clientHandler fs).init) fs seg rfl rfl
    obtain ⟨es, s', hexec, hplace, hnot, hnone⟩ :=
      exists_completion fs hcont.valid hcont.notRecv
    have hrun : (clientHandler fs).run (.received seg :: es) = some s' :=
      Machine.exec_cons.2 ⟨_, hfirst, hexec⟩
    have hnot' : .failed ∉ Event.received seg :: es := by
      rintro (_ | ⟨_, hmem⟩)
      exact hnot hmem
    obtain ⟨request, hrequest, hsent⟩ := (response_integrity hrun).complete hplace hnot'
    have hreceived : (Event.received seg :: es).filterMap receivedOf = [seg] := by
      rw [List.filterMap_cons_some (show receivedOf (.received seg) = some seg from rfl), hnone]
    have hhead := run_request hrun
    rw [hrequest, hreceived] at hhead
    cases hhead
    refine ⟨_, s', hrun, hplace, hsent, ?_, fun hmem => absurd hmem hnot'⟩
    rw [hreceived]
    exact List.prefix_append [seg] segs

/-- Without a request there is no response. -/
theorem sends_nil (h : Sends fs [] out) : out = [] := by
  obtain ⟨es, s, hrun, hplace, rfl, hreceived, -⟩ := h
  have hhead := run_request hrun
  rw [List.prefix_nil.1 hreceived] at hhead
  have hprefix := (response_integrity hrun).isPrefix
  rw [hhead] at hprefix
  exact List.prefix_nil.1 hprefix

/-- The status is in the first line. -/
theorem bytes_take (r : Response) : r.bytes.take 12 = ascii "HTTP/1.0 " ++ decimal r.status := by
  have hlen : (ascii "HTTP/1.0 " ++ decimal r.status).length = 12 := by
    cases r with
    | badRequest => exact (by decide : (ascii "HTTP/1.0 " ++ decimal 400).length = 12)
    | notFound path => exact (by decide : (ascii "HTTP/1.0 " ++ decimal 404).length = 12)
    | ok content => exact (by decide : (ascii "HTTP/1.0 " ++ decimal 200).length = 12)
  rw [Response.bytes, Response.header, makeResponseHeader]
  simp only [List.append_assoc]
  rw [← List.append_assoc]
  exact List.take_left' hlen

/-- The first piece says whether there is an answer at all. -/
theorem respond_first {request seg : List UInt8} {segs : List (List UInt8)}
    (h : Segments request (seg :: segs)) (hnil : parsePath request = []) :
    respond fs seg = .badRequest := by
  refine if_pos ?_
  by_contra hne
  have happend := parsePath_append hne segs.flatten
  rw [← List.flatten_cons, h.flatten_eq, hnil] at happend
  exact hne happend.symm

theorem segments_nil (h : Segments request []) : request = [] := h.flatten_eq.symm

/-- A request that is accepted is not accepted when its first byte arrives alone. -/
theorem rejected_of_sameResponse (hlen : request.length ≤ 4095) (hsame : SameResponse fs request) :
    parsePath request = [] := by
  by_contra hne
  cases request with
  | nil => exact hne rfl
  | cons c rest =>
    have hrest : rest ≠ [] := by
      rintro rfl
      exact hne (parsePath_singleton c)
    have hsplit : Segments (c :: rest) [[c], rest] := by
      refine ⟨by simp, fun seg hseg => ?_⟩
      simp only [List.mem_cons, List.not_mem_nil, or_false] at hseg
      rcases hseg with rfl | rfl
      · exact List.cons_ne_nil c []
      · exact hrest
    have hwhole : Segments (c :: rest) [c :: rest] := by
      refine ⟨by simp, fun seg hseg => ?_⟩
      rw [List.mem_singleton.1 hseg]
      exact List.cons_ne_nil c rest
    have heq := hsame _ _ hsplit hwhole _ _
      ((sends_cons (List.cons_ne_nil c []) (by simp)).2 rfl)
      ((sends_cons (List.cons_ne_nil c rest) hlen).2 rfl)
    have hfirst : respond fs [c] = .badRequest := if_pos (parsePath_singleton c)
    have htake := congrArg (List.take 12) heq
    rw [hfirst, bytes_take, bytes_take] at htake
    have hstatus := List.append_cancel_left htake
    rw [respond, if_neg hne] at hstatus
    split at hstatus
    · exact (by decide : decimal 400 ≠ decimal 404) hstatus
    · exact (by decide : decimal 400 ≠ decimal 200) hstatus

/-- Every first piece of a request that is rejected is rejected. -/
theorem sameResponse_of_rejected (hlen : request.length ≤ 4095) (hnil : parsePath request = []) :
    SameResponse fs request := by
  have hpiece : ∀ {segs : List (List UInt8)}, Segments request segs →
      ∀ seg ∈ segs, seg.length ≤ 4095 := by
    intro segs h seg hseg
    have hle := (List.sublist_flatten_of_mem hseg).length_le
    rw [h.flatten_eq] at hle
    omega
  intro segs segs' hsegs hsegs' out out' hout hout'
  cases segs with
  | nil =>
    obtain rfl := segments_nil hsegs
    cases segs' with
    | nil => rw [sends_nil hout, sends_nil hout']
    | cons seg' segs' =>
      have hempty := List.flatten_eq_nil_iff.1 hsegs'.flatten_eq seg' List.mem_cons_self
      exact absurd hempty (hsegs'.nonempty seg' List.mem_cons_self)
  | cons seg segs =>
    have hseg := hsegs.nonempty seg List.mem_cons_self
    cases segs' with
    | nil =>
      obtain rfl := segments_nil hsegs'
      exact absurd (List.flatten_eq_nil_iff.1 hsegs.flatten_eq seg List.mem_cons_self) hseg
    | cons seg' segs' =>
      have hseg' := hsegs'.nonempty seg' List.mem_cons_self
      rw [sends_cons hseg (hpiece hsegs seg List.mem_cons_self)] at hout
      rw [sends_cons hseg' (hpiece hsegs' seg' List.mem_cons_self)] at hout'
      rw [hout, hout', respond_first hsegs hnil, respond_first hsegs' hnil]

/-- **For which requests the response does not depend on the pieces**: those that are rejected even
in one piece. -/
theorem sameResponse_iff (fs : List UInt8 → Option (List UInt8)) (request : List UInt8)
    (hlen : request.length ≤ 4095) : SameResponse fs request ↔ parsePath request = [] :=
  ⟨rejected_of_sameResponse hlen, sameResponse_of_rejected hlen⟩

theorem sameResponse_iff_greeting :
    ¬SameResponse greeting (ascii "GET /a HTTP/1.0\r\n\r\n") ∧
      SameResponse greeting (ascii "PUT /a HTTP/1.0\r\n\r\n") :=
  ⟨fun h => absurd ((sameResponse_iff greeting _ (by decide)).1 h) (by decide),
    (sameResponse_iff greeting _ (by decide)).2 (by decide)⟩

/-- A request for `a` is a bad request when its first byte arrives alone. -/
theorem response_depends_on_segments :
    ¬∀ fs request, request.length ≤ 4095 → SameResponse fs request := by
  intro h
  have hlen : (ascii "GET /a HTTP/1.0\r\n\r\n").length ≤ 4095 := by decide
  have hnil := rejected_of_sameResponse hlen (h greeting _ hlen)
  revert hnil
  decide

end Segments

end AdvCpp.Uring.FileServer
