import ZmqppPty.Auth.Configuration
import ZmqppPty.Lib.Machine
import ZmqppPty.Socket.Receive

/-!
# The handler socket and its lock-step

`zap_handler` is a REP socket: libzmq refuses to send unless a request has been received that is
not answered yet, and to receive while there is one.  An exception leaves the server's loop, and
with it the calls end.

* `Handler`            the socket: what has arrived, whether a request is open, what was sent;
* `answer`             one call of `auth::authenticate(zap_handler)`;
* `machine`            the calls one after the other, each with the configuration of its moment and
                       the interrupts of its receive;
* `answer_request`     a receive that is not interrupted at once: one reply, the socket is ready;
* `answer_interrupted` one that is: the reply `500` to nobody is a state error;
* `lock_step_iff`      so the lock-step is kept iff no receive is interrupted at once.
-/

namespace Zmqpp
namespace Auth
namespace Rep

open Socket (Attempt Inbox OnlyInterrupts wireFrames)
open Message (payloads)

structure Handler where
  inbox : Inbox := {}
  /-- a request was received and is not answered yet -/
  answering : Bool := false
  replies : List (List Bytes) := []

/-- `EFSM`, the state error of libzmq -/
def efsm : Errno := .other 156384763

namespace Handler

/-- the frames of a reply are accepted while a request is open -/
def sendScript (h : Handler) : ℕ → Socket.SendResult := fun _ =>
  if h.answering then .accepted else .failed efsm

/-- a receive out of turn is refused -/
def attempts (h : Handler) (schedule : List Attempt) : List Attempt :=
  if h.answering then [.fails efsm] else schedule

section
variable [VectorGrowth]

/-- `receive(msg)` into a new message -/
def receive (h : Handler) (schedule : List Attempt) : Option Socket.RecvRun :=
  Socket.receive false (h.attempts schedule) h.inbox {}

/-- `send(reply)`; a reply that was accepted closes the request -/
def send (h : Handler) (reply : Message) : Handler × Option Failure :=
  let run := Socket.send reply false h.sendScript
  match run.outcome with
  | .returned true =>
    ({ h with answering := false, replies := h.replies ++ [run.wire.map Prod.fst] }, none)
  | .returned false => (h, none)
  | .threw e => (h, some (.threw e))
  | .assertFailed => (h, some .assertFailed)

end
end Handler

/-- what a call of `authenticate` did: the request it received, if any, the replies it sent, and
what it threw -/
structure Call where
  request : Option (List Bytes) := none
  replies : List (List Bytes) := []
  failure : Option Failure := none

/-- a valid request is answered by a message that begins with its version and sequence -/
theorem authenticate_valid {zmqZ85Encode : Bytes → Option Bytes} (hz : EncodesWords zmqZ85Encode)
    (a : Auth) (w : ValidRequest) :
    ∃ rest, authenticate zmqZ85Encode a w.frames = .ok (ascii "1.0" :: w.sequence :: rest) := by
  obtain ⟨r, hr, hv, hs, -⟩ := zapRequest_valid hz w
  have hne : r.version ≠ [] := by rw [hv]; decide
  unfold authenticate
  rw [hr, ← hv, ← hs]
  show ∃ rest, (if r.version = [] then _ else _) = _
  rw [if_neg hne]
  split <;> exact ⟨_, rfl⟩

theorem attempts_ready {h : Handler} (ha : h.answering = false) (schedule : List Attempt) :
    h.attempts schedule = schedule := by
  unfold Handler.attempts
  rw [ha]
  rfl

section
variable [VectorGrowth]

/-- the message of `zap_request::reply`, one `push_back` for each part -/
def replyMessage (parts : List Bytes) : Message := parts.foldl (fun m b => (m.addRaw b).1) {}

/-- `auth::authenticate(zap_handler)` -/
def answer (zmqZ85Encode : Bytes → Option Bytes) (a : Auth) (schedule : List Attempt)
    (h : Handler) : Option (Handler × Call) :=
  match h.receive schedule with
  | none => none
  | some run =>
    match run.outcome with
    | .error f => some ({ h with inbox := run.inbox }, { failure := some f })
    | .ok received =>
      let h := { h with inbox := run.inbox, answering := received }
      let request := if received then some (payloads run.message) else none
      match authenticate zmqZ85Encode a (payloads run.message) with
      | .error f => some (h, { request := request, failure := some f })
      | .ok reply =>
        let (t, failure) := h.send (replyMessage reply)
        some (t, { request := request, replies := t.replies.drop h.replies.length,
                   failure := failure })

/-- the server's loop, `left` once an exception has left it -/
structure Server where
  handler : Handler := {}
  left : Bool := false

/-- a call: the authenticator at that moment and what happens to its receive -/
structure CallInput where
  configuration : Auth
  schedule : List Attempt

def machine (zmqZ85Encode : Bytes → Option Bytes) : Lib.Machine Server CallInput Call where
  step s c :=
    if s.left then none
    else
      match answer zmqZ85Encode c.configuration c.schedule s.handler with
      | none => none
      | some (h, call) => some (⟨h, call.failure.isSome⟩, [call])

end

/-- the server while these requests are on their way -/
def waiting (requests : List ValidRequest) : Server :=
  { handler := { inbox := { queue := requests.flatMap fun w => wireFrames w.frames } } }

/-- a received request is answered by one reply that echoes its version and its sequence, and
nothing else is sent -/
def CallInStep (c : Call) : Prop :=
  c.failure = none ∧
  match c.request with
  | some msg => ∃ reply, c.replies = [reply] ∧ reply[0]? = msg[0]? ∧ reply[1]? = msg[1]?
  | none => c.replies = []

/-- every call was in step, and no request is left unanswered -/
def LockStep (t : Server) (calls : List Call) : Prop :=
  (∀ c ∈ calls, CallInStep c) ∧ t.handler.answering = false

/-- the receive of the call is interrupted before its first frame -/
def CallInput.Interrupted (c : CallInput) : Prop := c.schedule.head? = some (.fails .eintr)

/-- the server between two calls: no request open, the queue holds whole requests -/
structure Ready (s : Server) (requests : List ValidRequest) : Prop where
  running : s.left = false
  closed : s.handler.answering = false
  queue : s.handler.inbox.queue = requests.flatMap fun w => wireFrames w.frames

theorem ready_waiting (requests : List ValidRequest) : Ready (waiting requests) requests :=
  ⟨rfl, rfl, rfl⟩

theorem lockStep_cons {t : Server} {c : Call} {calls : List Call} :
    LockStep t (c :: calls) ↔ CallInStep c ∧ LockStep t calls := by
  unfold LockStep
  rw [List.forall_mem_cons, and_assoc]

section
variable [VectorGrowth]

/-! ## sending the reply -/

theorem replyMessage_parts (parts : List Bytes) :
    payloads (replyMessage parts) = parts ∧ ∀ k, (replyMessage parts).isSent k = false := by
  induction parts using List.reverseRecOn with
  | nil => exact ⟨rfl, fun k => rfl⟩
  | append_singleton parts b ih =>
    have hconcat : replyMessage (parts ++ [b]) = ((replyMessage parts).addRaw b).1 := by
      unfold replyMessage
      rw [List.foldl_append]
      rfl
    rw [hconcat]
    refine ⟨?_, ?_⟩
    · rw [Message.addRaw_payloads, ih.1]
    · intro k
      unfold Message.isSent at ih ⊢
      rw [Message.addRaw_elems]
      rw [List.getElem?_append]
      split
      · exact ih.2 k
      · rw [List.getElem?_singleton]
        split <;> rfl

theorem replyMessage_count (parts : List Bytes) : (replyMessage parts).count = parts.length := by
  rw [← Message.payloads_length, (replyMessage_parts parts).1]

/-- with a request open the reply goes out and closes it -/
theorem send_answering {h : Handler} (ha : h.answering = true) {reply : List Bytes}
    (hne : reply ≠ []) :
    h.send (replyMessage reply) =
      ({ h with answering := false, replies := h.replies ++ [reply] }, none) := by
  have hcount : 0 < (replyMessage reply).count := by
    rw [replyMessage_count]
    exact List.length_pos_of_ne_nil hne
  have hscript : ∀ k < (replyMessage reply).count, h.sendScript k = .accepted := by
    intro k _
    exact if_pos ha
  obtain ⟨hout, hwire⟩ := Socket.send_accepted h.sendScript hcount
    (fun k _ => (replyMessage_parts reply).2 k) false hscript
  unfold Handler.send
  dsimp only
  rw [hout, hwire]
  exact congrArg (fun x => ({ h with answering := false, replies := h.replies ++ [x] }, none))
    (replyMessage_parts reply).1

/-- with no request open it is a state error -/
theorem send_out_of_step {h : Handler} (ha : h.answering = false) {reply : List Bytes}
    (hne : reply ≠ []) :
    h.send (replyMessage reply) = (h, some (.threw (.zmqInternal efsm))) := by
  have hcount : 0 < (replyMessage reply).count := by
    rw [replyMessage_count]
    exact List.length_pos_of_ne_nil hne
  have hscript : h.sendScript 0 = .failed (.other 156384763) := by
    unfold Handler.sendScript
    rw [ha]
    rfl
  unfold Handler.send
  rw [Socket.send_failed_first h.sendScript hcount false hscript]
  rfl

/-! ## one call -/

/-- **A call whose receive is not interrupted at once** receives the next request, sends its
reply and leaves the socket ready. -/
theorem answer_request {zmqZ85Encode : Bytes → Option Bytes} (hz : EncodesWords zmqZ85Encode)
    (a : Auth) {schedule : List Attempt} (honly : OnlyInterrupts schedule)
    (hstart : schedule.head? = some .runs) {h t : Handler} {c : Call} (ha : h.answering = false)
    {w : ValidRequest} {q : List Socket.InFrame} (hq : h.inbox.queue = wireFrames w.frames ++ q)
    (hc : answer zmqZ85Encode a schedule h = some (t, c)) :
    c.request = some w.frames ∧ CallInStep c ∧ c.failure = none ∧
      t.answering = false ∧ t.inbox.queue = q := by
  unfold answer Handler.receive at hc
  rw [attempts_ready ha] at hc
  cases hrun : Socket.receive false schedule h.inbox {} with
  | none => rw [hrun] at hc; cases hc
  | some run =>
    have hout := Socket.receive_true honly hstart hrun
    have hne : w.frames ≠ [] := List.cons_ne_nil _ _
    obtain ⟨hpay, hqueue⟩ := Socket.receive_front hrun hout hne hq
    obtain ⟨rest, hreply⟩ := authenticate_valid hz a w
    simp only [hrun, hout, hpay, hreply, ↓reduceIte] at hc
    rw [send_answering rfl (List.cons_ne_nil _ _)] at hc
    obtain ⟨rfl, rfl⟩ := Prod.mk.inj (Option.some.inj hc)
    have hsent : (h.replies ++ [ascii "1.0" :: w.sequence :: rest]).drop h.replies.length
        = [ascii "1.0" :: w.sequence :: rest] := List.drop_left
    refine ⟨rfl, ⟨rfl, ?_⟩, rfl, rfl, hqueue⟩
    exact ⟨_, hsent, rfl, rfl⟩

/-- **A call whose receive is interrupted at once** replies to nobody: a state error, which leaves
the server's loop. -/
theorem answer_interrupted (zmqZ85Encode : Bytes → Option Bytes) (a : Auth)
    {schedule : List Attempt} (hstart : schedule.head? = some (.fails .eintr)) {h t : Handler}
    {c : Call} (ha : h.answering = false) (hc : answer zmqZ85Encode a schedule h = some (t, c)) :
    c.request = none ∧ c.failure = some (.threw (.zmqInternal efsm)) := by
  obtain ⟨rest, rfl⟩ := List.head?_eq_some_iff.mp hstart
  obtain ⟨run, hrun, hout⟩ := Socket.receive_interrupted false rest h.inbox {}
  have hpay := (Socket.receive_of_false hrun hout).2
  unfold answer Handler.receive at hc
  rw [attempts_ready ha, hrun] at hc
  simp only [hout, hpay, Bool.false_eq_true, ↓reduceIte] at hc
  have hreply : authenticate zmqZ85Encode a []
      = .ok [[], [], ascii "500", ascii "Internal error", [], []] := rfl
  rw [hreply] at hc
  dsimp only at hc
  rw [send_out_of_step rfl (List.cons_ne_nil _ _)] at hc
  obtain ⟨rfl, rfl⟩ := Prod.mk.inj (Option.some.inj hc)
  exact ⟨rfl, rfl⟩

/-! ## whole runs -/

theorem machine_step {zmqZ85Encode : Bytes → Option Bytes} {s t : Server} {c : CallInput}
    {e : List Call} (h : (machine zmqZ85Encode).step s c = some (t, e)) :
    s.left = false ∧ ∃ u call, answer zmqZ85Encode c.configuration c.schedule s.handler
      = some (u, call) ∧ t = ⟨u, call.failure.isSome⟩ ∧ e = [call] := by
  unfold machine at h
  cases hl : s.left with
  | true => simp only [hl, ↓reduceIte] at h; cases h
  | false =>
    simp only [hl, Bool.false_eq_true, ↓reduceIte] at h
    cases ha : answer zmqZ85Encode c.configuration c.schedule s.handler with
    | none => rw [ha] at h; cases h
    | some uc =>
      obtain ⟨u, call⟩ := uc
      rw [ha] at h
      obtain ⟨rfl, rfl⟩ := Prod.mk.inj (Option.some.inj h)
      exact ⟨rfl, u, call, rfl, rfl, rfl⟩

/-- a receive that no interrupt disturbs at its start needs a request -/
theorem Ready.request_of_answer {zmqZ85Encode : Bytes → Option Bytes} {a : Auth} {s : Server}
    {requests : List ValidRequest} (hs : Ready s requests) {schedule : List Attempt}
    (hstart : schedule.head? = some .runs) {u : Handler} {call : Call}
    (h : answer zmqZ85Encode a schedule s.handler = some (u, call)) : requests ≠ [] := by
  intro hnil
  obtain ⟨rest, rfl⟩ := List.head?_eq_some_iff.mp hstart
  have hq := hs.queue
  rw [hnil] at hq
  unfold answer Handler.receive at h
  rw [attempts_ready hs.closed] at h
  have hblocked : Socket.receive false (.runs :: rest) s.handler.inbox {} = none := by
    unfold Socket.receive Socket.receiveLoop Socket.zmqMsgRecv
    simp [hq, Message.count, Socket.normal]
  rw [hblocked] at h
  cases h

/-- a call returns once every frame of the next request has been let through -/
theorem answer_returns (zmqZ85Encode : Bytes → Option Bytes) (a : Auth) {s : Server}
    {w : ValidRequest} {requests : List ValidRequest} (hs : Ready s (w :: requests))
    {schedule : List Attempt} (honly : OnlyInterrupts schedule)
    (hstart : schedule.head? = some .runs) (hlen : w.frames.length ≤ schedule.count .runs) :
    ∃ u call, answer zmqZ85Encode a schedule s.handler = some (u, call) := by
  have hne : w.frames ≠ [] := List.cons_ne_nil _ _
  obtain ⟨front, last, heq, hfront, hlast, hpay⟩ := Socket.wireFrames_split hne
  have hq : s.handler.inbox.queue
      = front ++ last :: requests.flatMap fun w => wireFrames w.frames := by
    rw [hs.queue, List.flatMap_cons, heq, List.append_assoc]
    rfl
  have hcount : front.length < schedule.count .runs := by
    have hl := congrArg List.length hpay
    rw [List.length_map, List.length_append, List.length_singleton] at hl
    omega
  obtain ⟨run, hrun, hout⟩ :=
    Socket.receive_returns false {} hq hfront hlast honly hstart hcount
  unfold answer Handler.receive
  rw [attempts_ready hs.closed, hrun]
  dsimp only
  rw [hout]
  dsimp only
  cases authenticate zmqZ85Encode a (payloads run.message) with
  | error f => exact ⟨_, _, rfl⟩
  | ok reply => exact ⟨_, _, rfl⟩

/-- **The server keeps the lock-step iff no receive is interrupted before its first frame.** -/
theorem lock_step_iff (zmqZ85Encode : Bytes → Option Bytes) (hz : EncodesWords zmqZ85Encode)
    (requests : List ValidRequest) (inputs : List CallInput)
    (honly : ∀ c ∈ inputs, OnlyInterrupts c.schedule) (t : Server) (calls : List Call)
    (hrun : (machine zmqZ85Encode).exec (waiting requests) inputs = some (t, calls)) :
    LockStep t calls ↔ ∀ c ∈ inputs, ¬ c.Interrupted := by
  have hready := ready_waiting requests
  generalize waiting requests = s at hrun hready
  induction inputs generalizing s requests calls with
  | nil =>
    obtain ⟨rfl, rfl⟩ := Prod.mk.inj (Option.some.inj hrun)
    refine ⟨fun _ c hc => (nomatch hc), fun _ => ⟨fun c hc => (nomatch hc), hready.closed⟩⟩
  | cons input inputs ih =>
    obtain ⟨v, e, calls', hstep, hrest, rfl⟩ := Lib.Machine.exec_cons hrun
    obtain ⟨-, u, call, hanswer, rfl, rfl⟩ := machine_step hstep
    rw [List.singleton_append, lockStep_cons, List.forall_mem_cons]
    have honly1 := honly input List.mem_cons_self
    by_cases hint : input.Interrupted
    · obtain ⟨-, hfail⟩ := answer_interrupted zmqZ85Encode input.configuration hint hready.closed
        hanswer
      constructor
      · intro h
        rw [h.1.1] at hfail
        cases hfail
      · intro h
        exact absurd hint h.1
    · have hstart : input.schedule.head? = some .runs := by
        cases hsched : input.schedule with
        | nil =>
          -- a receive without an attempt does not return
          unfold answer Handler.receive at hanswer
          rw [attempts_ready hready.closed, hsched] at hanswer
          cases hanswer
        | cons x xs =>
          rcases honly1 x (by rw [hsched]; exact List.mem_cons_self) with rfl | rfl
          · rfl
          · exact absurd (by unfold CallInput.Interrupted; rw [hsched]; rfl) hint
      cases requests with
      | nil => exact absurd rfl (hready.request_of_answer hstart hanswer)
      | cons w requests =>
        have hq : s.handler.inbox.queue
            = wireFrames w.frames ++ requests.flatMap fun w => wireFrames w.frames := by
          rw [hready.queue, List.flatMap_cons]
        obtain ⟨-, hin, hnone, hclosed, hqueue⟩ :=
          answer_request hz input.configuration honly1 hstart hready.closed hq hanswer
        have hnext : Ready ⟨u, call.failure.isSome⟩ requests := by
          rw [hnone]
          exact ⟨rfl, hclosed, hqueue⟩
        have hrec := ih requests (fun c hc => honly c (List.mem_cons_of_mem input hc)) calls'
          _ hrest hnext
        exact ⟨fun h => ⟨hint, hrec.mp h.2⟩, fun h => ⟨hin, hrec.mpr h.2⟩⟩

end

/-- one request of a NULL client -/
def oneRequest : ValidRequest where
  toWellFormedRequest := bareRequest "NULL" (by decide)
  curveKey := fun _ key h => by cases h

/-- the six frames of the request arrive, with an interrupt after the first -/
def oneCall : CallInput :=
  ⟨{}, [.runs, .fails .eintr, .runs, .runs, .runs, .runs, .runs]⟩

theorem lock_step_one_request :
    ∃ t calls, (@machine Socket.byOne z85OfWords).exec (waiting [oneRequest]) [oneCall]
        = some (t, calls) ∧ LockStep t calls := by
  refine ⟨_, _, rfl, (@lock_step_iff Socket.byOne z85OfWords z85OfWords_encodes [oneRequest]
    [oneCall] ?_ _ _ rfl).mpr ?_⟩
  · unfold OnlyInterrupts
    decide
  · intro c hc
    rw [List.mem_singleton] at hc
    rw [hc]
    unfold CallInput.Interrupted
    decide

/-- **An interrupted receive is answered all the same**: a state error, and the server is left. -/
theorem interrupt_breaks_lock_step :
    ∃ t calls, (@machine Socket.byOne z85OfWords).exec (waiting [oneRequest])
        [⟨{}, [.fails .eintr]⟩] = some (t, calls) ∧ t.left = true ∧ ¬ LockStep t calls := by
  refine ⟨_, _, rfl, rfl, ?_⟩
  intro h
  cases (h.1 _ List.mem_cons_self).1

end Rep
end Auth
end Zmqpp
