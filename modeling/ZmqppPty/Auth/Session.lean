import ZmqppPty.Auth.LockStep
import ZmqppPty.Auth.Pipe
import ZmqppPty.Lib.Simulation
import ZmqppPty.Socket.Messages

/-!
# The authenticator on its sockets (auth.cpp, actor.cpp, zap_request.cpp)

The two sides of `Auth.Pipe` joined by sockets.  A command is a message that the stream operators
build and `send` hands over frame by frame; the answer is a signal that `wait` picks out; requests
come to the handler socket.  Every call of libzmq may fail.

* `call`, `ret`                a function of the API up to its wait, and the wait;
* `answer`, `handle`           `authenticate` and `handle_command` with what they receive and send;
* `finish`, `caught`, `fail`   how `start_routine` ends;
* `Delivered`                  no call of a send but the first one fails, and only by an exception;
                               interrupts alone disturb the receives;
* `Shows`                      what the sockets hold, of a state of the protocol;
* `simulates`                  so a step on the sockets is one of the protocol, or none;
* `session_refines`            hence every run is one of the protocol, with the replies that were
                               decided on the handler socket.
-/

namespace Zmqpp

open Socket (Attempt Delivers OnlyInterrupts Pipe SendOutcome SendResult arrived wireFrames)
open Message (payloads)

/-- what a function of the API writes to its message -/
def Command.values : Command → List Value
  | .allow address => [.cString ⟨ascii "ALLOW", by decide⟩, .string address]
  | .deny address => [.cString ⟨ascii "DENY", by decide⟩, .string address]
  | .domain name => [.cString ⟨ascii "DOMAIN", by decide⟩, .string name]
  | .plain username password =>
    [.cString ⟨ascii "PLAIN", by decide⟩, .string username, .string password]
  | .curve key => [.cString ⟨ascii "CURVE", by decide⟩, .string key]
  | .gssapi => [.cString ⟨ascii "GSSAPI", by decide⟩]
  | .verbose b =>
    [.cString ⟨ascii "VERBOSE", by decide⟩, .string (if b then ascii "true" else ascii "false")]
  | .terminate => [.cString ⟨ascii "TERMINATE", by decide⟩]

/-- its assertions -/
def Command.Asserted : Command → Prop
  | .domain name => name ≠ []
  | .plain username password => username ≠ [] ∧ password ≠ []
  | .curve key => key ≠ []
  | _ => True

instance : DecidablePred Command.Asserted
  | .domain name => inferInstanceAs (Decidable (name ≠ []))
  | .plain username password => inferInstanceAs (Decidable (username ≠ [] ∧ password ≠ []))
  | .curve key => inferInstanceAs (Decidable (key ≠ []))
  | .allow _ | .deny _ | .gssapi | .verbose _ | .terminate => isTrue trivial

theorem Command.values_wireFormat (c : Command) : c.values.map Value.wireFormat = c.message := by
  cases c <;> rfl

theorem Command.message_ne_nil (c : Command) : c.message ≠ [] := by
  cases c <;> exact List.cons_ne_nil _ _

namespace Auth

structure Session where
  caller : Caller := .idle
  server : Server := .head
  auth : Auth := {}
  /-- the two directions of the actor's pipe -/
  toServer : Pipe := {}
  toCaller : Pipe := {}
  handler : Rep.Handler := {}

/-- how the calls for the two signals of `start_routine` come out -/
structure Finals where
  ok : SendResult := .accepted
  ko : SendResult := .accepted

namespace Session

inductive Label where
  | call (c : Command) (script : ℕ → SendResult)
  /-- the `wait()` of the call returns -/
  | ret (schedules : List (List Attempt))
  /-- libzmq brings a ZAP request -/
  | request (msg : List Bytes)
  | poll (zap pipe : Bool)
  /-- `zmq_poll` fails with `EINTR` -/
  | interrupt (finals : Finals)
  /-- `terminated` is seen -/
  | leave (finals : Finals)
  | authenticate (schedule : List Attempt) (finals : Finals)
  | handle (schedule : List Attempt) (result : SendResult) (finals : Finals)

inductive Event where
  | called (c : Command)
  | returned (c : Command)
  | handled (msg : List Bytes)
  | decided (msg reply : List Bytes)
deriving DecidableEq

/-- the exception or the assertion that a send ends with -/
def failureOf : SendOutcome → Option Failure
  | .returned _ => none
  | .threw e => some (.threw e)
  | .assertFailed => some .assertFailed

/-- what a call of `authenticate` has decided -/
def decisions (call : Rep.Call) : List Event :=
  match call.request, call.replies with
  | some msg, [reply] => [.decided msg reply]
  | _, _ => []

/-- what follows the test of `zap_handler` -/
def afterZap (s : Session) (pipe : Bool) : Session :=
  { s with server := if pipe then .command else .head }

section
variable [VectorGrowth] (host : Order) (zmqZ85Encode : Bytes → Option Bytes)

/-- `send(sig)` on the server's end of the pipe -/
def signal (s : Session) (sig : Signal) (result : SendResult) : Session × Option Failure :=
  let run := Socket.sendSignal host sig.value false fun _ => result
  ({ s with toCaller := s.toCaller.pushAll (arrived run.wire) }, failureOf run.outcome)

/-- the exception handler of `start_routine`; what it throws ends the process -/
def caught (s : Session) (finals : Finals) : Session :=
  match s.signal host .ko finals.ko with
  | (t, none) => { t with server := .done }
  | (t, some _) => { t with server := .aborted }

/-- the routine has returned true -/
def finish (s : Session) (finals : Finals) : Session :=
  match s.signal host .ok finals.ok with
  | (t, none) => { t with server := .done }
  | (t, some (.threw _)) => t.caught host finals
  | (t, some .assertFailed) => { t with server := .aborted }

/-- an exception leaves the routine, a failed assertion ends the process -/
def fail (s : Session) (finals : Finals) : Failure → Session
  | .threw _ => s.caught host finals
  | .assertFailed => { s with server := .aborted }

/-- a function of the API up to its wait.  The destructor may not throw. -/
def call (s : Session) (c : Command) (script : ℕ → SendResult) : Session × List Event :=
  if c.Asserted then
    let run := Socket.send (Message.written host {} c.values) false script
    let s := { s with toServer := s.toServer.pushAll (arrived run.wire) }
    match failureOf run.outcome with
    | none => ({ s with caller := .waiting c }, [.called c])
    | some (.threw _) => (if c = .terminate then { s with server := .aborted } else s, [])
    | some .assertFailed => ({ s with server := .aborted }, [])
  else ({ s with server := .aborted }, [])

/-- its wait -/
def ret (s : Session) (c : Command) (schedules : List (List Attempt)) :
    Option (Session × List Event) :=
  let run := Socket.wait host schedules s.toCaller.inbox
  let s := { s with toCaller := { s.toCaller with inbox := run.inbox } }
  match run.outcome with
  | none => none
  | some (.ok _) =>
    some ({ s with caller := if c = .terminate then .gone else .idle }, [.returned c])
  | some (.error (.threw _)) =>
    some (if c = .terminate then { s with server := .aborted } else { s with caller := .idle }, [])
  | some (.error .assertFailed) => some ({ s with server := .aborted }, [])

/-- `authenticate(zap_handler)` -/
def answer (s : Session) (pipe : Bool) (schedule : List Attempt) (finals : Finals) :
    Option (Session × List Event) :=
  match Rep.answer zmqZ85Encode s.auth schedule s.handler with
  | none => none
  | some (h, call) =>
    let s := { s with handler := h }
    match call.failure with
    | none => some (s.afterZap pipe, decisions call)
    | some f => some (s.fail host finals f, decisions call)

/-- the signals that a command is answered with -/
def signals (s : Session) (result : SendResult) : List Signal → Session × Option Failure
  | [] => (s, none)
  | sig :: sigs =>
    match s.signal host sig result with
    | (t, none) => t.signals result sigs
    | (t, some f) => (t, some f)

/-- `handle_command(*pipe)` -/
def handle (s : Session) (schedule : List Attempt) (result : SendResult) (finals : Finals) :
    Option (Session × List Event) :=
  match Socket.receive false schedule s.toServer.inbox {} with
  | none => none
  | some run =>
    let s := { s with toServer := { s.toServer with inbox := run.inbox } }
    match run.outcome with
    | .error f => some (s.fail host finals f, [])
    | .ok _ =>
      match s.auth.handleCommand (payloads run.message) with
      | .error f => some (s.fail host finals f, [])
      | .ok (a, sigs) =>
        let events := if payloads run.message = [] then [] else [.handled (payloads run.message)]
        match signals host { s with auth := a } result sigs with
        | (t, none) => some ({ t with server := .head }, events)
        | (t, some f) => some (t.fail host finals f, events)

def step (s : Session) (l : Label) : Option (Session × List Event) :=
  if s.server = .aborted then none
  else match l with
  | .call c script =>
    match s.caller with
    | .idle => some (s.call host c script)
    | _ => none
  | .ret schedules =>
    match s.caller with
    | .waiting c => s.ret host c schedules
    | _ => none
  | .request msg =>
    if msg = [] then none
    else
      let inbox := { s.handler.inbox with queue := s.handler.inbox.queue ++ wireFrames msg }
      some ({ s with handler := { s.handler with inbox := inbox } }, [])
  | .poll zap pipe =>
    if s.server = .head ∧ s.auth.terminated = false ∧ (zap || pipe) ∧
        (zap → s.handler.inbox.queue ≠ []) ∧ (pipe → s.toServer.inbox.queue ≠ []) then
      some (if zap then { s with server := .zap pipe } else s.afterZap pipe, [])
    else none
  | .interrupt finals =>
    if s.server = .head ∧ s.auth.terminated = false then some (s.finish host finals, []) else none
  | .leave finals =>
    if s.server = .head ∧ s.auth.terminated = true then some (s.finish host finals, []) else none
  | .authenticate schedule finals =>
    match s.server with
    | .zap pipe => s.answer host zmqZ85Encode pipe schedule finals
    | _ => none
  | .handle schedule result finals =>
    match s.server with
    | .command => s.handle host schedule result finals
    | _ => none

def machine : Lib.Machine Session Label Event := ⟨step host zmqZ85Encode⟩

/-- each send is delivered or throws before its first frame, those of the server are delivered, and
interrupts alone disturb the receives -/
def Delivered (_ : Session) : Label → Prop
  | .call c script => Delivers script c.message.length
  | .ret schedules => ∀ schedule ∈ schedules, OnlyInterrupts schedule
  | .request _ => True
  | .poll _ _ => True
  | .interrupt finals => finals.ok = .accepted
  | .leave finals => finals.ok = .accepted
  | .authenticate schedule finals => OnlyInterrupts schedule ∧ finals.ko = .accepted
  | .handle schedule result _ => OnlyInterrupts schedule ∧ result = .accepted

/-- no `zmq_poll` and no receive of a request is interrupted before it has begun, and no request
makes `zap_request` throw -/
def Undisturbed (_ : Session) : Label → Prop
  | .interrupt _ => False
  | .request msg => ∀ e, zapRequest zmqZ85Encode msg ≠ .error (.threw e)
  | .authenticate schedule _ => schedule.head? ≠ some (.fails .eintr)
  | _ => True

end

/-! ## what the sockets show of the protocol -/

/-- whole requests, of which none makes `zap_request` throw if `calm` -/
def Arriving (zmqZ85Encode : Bytes → Option Bytes) (calm : Prop) (inbox : Socket.Inbox) : Prop :=
  ∃ requests : List (List Bytes), inbox.queue = requests.flatMap wireFrames ∧
    ∀ msg ∈ requests, msg ≠ [] ∧ (calm → ∀ e, zapRequest zmqZ85Encode msg ≠ .error (.threw e))

/-- the state of the protocol that the sockets stand for -/
structure Shows (zmqZ85Encode : Bytes → Option Bytes) (calm : Prop) (s : Session) (u : System) :
    Prop where
  caller : s.caller = u.caller
  server : s.server = u.server
  auth : s.auth = u.auth
  toServer : s.toServer.Holds (u.toServer.map Command.message)
  toCaller : s.toCaller.Holds (u.toCaller.map Signal.frames)
  /-- the poll has reported a command -/
  pending : s.server = .command ∨ s.server = .zap true → u.toServer ≠ []
  closed : s.server ≠ .done → s.handler.answering = false
  arriving : Arriving zmqZ85Encode calm s.handler.inbox

/-- or an assertion has failed, with which everything ends -/
def Related (zmqZ85Encode : Bytes → Option Bytes) (calm : Prop) (s : Session) (u : System) : Prop :=
  s.server = .aborted ∨ Shows zmqZ85Encode calm s u

theorem related_start (zmqZ85Encode : Bytes → Option Bytes) (calm : Prop) :
    Related zmqZ85Encode calm {} {} :=
  Or.inr ⟨rfl, rfl, rfl, Socket.holds_start, Socket.holds_start,
    fun h => (by rcases h with h | h <;> cases h), fun _ => rfl, [], rfl, nofun⟩

/-- an event of the protocol as it is seen on the sockets -/
def seen : Auth.Event → Event
  | .called c => .called c
  | .returned c => .returned c
  | .applied c => .handled c.message
  | .decided msg reply => .decided msg reply

def repliedBy : Event → Option (List Bytes)
  | .decided _ reply => some reply
  | _ => none

/-- what has been decided has been sent -/
def Sends (s t : Session) (e : List Event) : Prop :=
  t.handler.replies = s.handler.replies ++ e.filterMap repliedBy

/-- the protocol takes a step with these events, to a state that the session shows, or stays -/
def Follows (zmqZ85Encode : Bytes → Option Bytes) (calm : Prop) (u : System) (t : Session)
    (e : List Event) : Prop :=
  (e = [] ∧ Related zmqZ85Encode calm t u) ∨
    ∃ l v e', (calm → Auth.Calm zmqZ85Encode u l) ∧
      (Auth.machine zmqZ85Encode).step u l = some (v, e') ∧ e = e'.map seen ∧
      Related zmqZ85Encode calm t v

theorem sends_nothing {s t : Session} (h : t.handler.replies = s.handler.replies) :
    Sends s t [] := h.trans (List.append_nil _).symm

/-- every reply has six parts -/
theorem reply_length {zmqZ85Encode : Bytes → Option Bytes} {a : Auth} {msg reply : List Bytes}
    (h : authenticate zmqZ85Encode a msg = .ok reply) : reply.length = 6 := by
  unfold authenticate at h
  cases hr : zapRequest zmqZ85Encode msg with
  | error f =>
    rw [hr] at h
    cases h
  | ok r =>
    rw [hr] at h
    change (if r.version = [] then _ else if (a.verdict r).1 = true then _ else _) = _ at h
    split at h
    · cases h
      rfl
    · split at h <;> cases h <;> rfl

section
variable [VectorGrowth] {host : Order} {zmqZ85Encode : Bytes → Option Bytes} {calm : Prop}
  {s t : Session} {u : System} {finals : Finals} {e : List Event}

/-- a signal that is accepted -/
theorem signal_accepted (host : Order) {messages : List (List Bytes)} (h : s.toCaller.Holds messages)
    (sig : Signal) :
    ∃ p, s.signal host sig .accepted = ({ s with toCaller := p }, none) ∧
      p.Holds (messages ++ [sig.frames]) := by
  have hpay := Message.signal_payloads host sig.value
  have hne : (Message.streamOut host {} (.signal sig.value)).1.payloads ≠ [] := by
    rw [hpay]
    exact List.cons_ne_nil _ _
  obtain ⟨hout, hholds⟩ := h.send hne (Message.written_unsent host [.signal sig.value]) false
    (fun _ => .accepted) (fun _ _ => rfl)
  rw [hpay] at hholds
  refine ⟨_, ?_, hholds⟩
  unfold signal Socket.sendSignal
  dsimp only
  rw [hout]
  rfl

/-- what the handler socket is left in does not matter -/
theorem Shows.caught (host : Order) (h : Shows zmqZ85Encode calm s u)
    (hko : finals.ko = .accepted) (handler : Rep.Handler) (harriving : Arriving zmqZ85Encode calm handler.inbox) :
    Shows zmqZ85Encode calm (Session.caught host { s with handler := handler } finals)
        (u.finish .ko) ∧
      (Session.caught host { s with handler := handler } finals).handler = handler := by
  obtain ⟨p, hp, hholds⟩ :=
    signal_accepted host (s := { s with handler := handler }) h.toCaller .ko
  unfold Session.caught
  rw [hko, hp]
  refine ⟨⟨h.caller, rfl, h.auth, h.toServer, ?_, nofun, fun hne => absurd rfl hne, harriving⟩,
    rfl⟩
  show p.Holds ((u.toCaller ++ [Signal.ko]).map Signal.frames)
  rw [List.map_append]
  exact hholds

theorem Shows.finish (host : Order) (h : Shows zmqZ85Encode calm s u) (hok : finals.ok = .accepted) :
    Shows zmqZ85Encode calm (s.finish host finals) (u.finish .ok) ∧
      (s.finish host finals).handler = s.handler := by
  obtain ⟨p, hp, hholds⟩ := signal_accepted host h.toCaller .ok
  unfold Session.finish
  rw [hok, hp]
  refine ⟨⟨h.caller, rfl, h.auth, h.toServer, ?_, nofun, fun hne => absurd rfl hne, h.arriving⟩,
    rfl⟩
  show p.Holds ((u.toCaller ++ [Signal.ok]).map Signal.frames)
  rw [List.map_append]
  exact hholds

/-! ## the steps -/

theorem call_follows (h : Shows zmqZ85Encode calm s u) (hlive : s.server ≠ .aborted)
    (hidle : s.caller = .idle) {c : Command} {script : ℕ → SendResult}
    (hd : Delivers script c.message.length) (hs : s.call host c script = (t, e)) :
    Follows zmqZ85Encode calm u t e ∧ Sends s t e := by
  have hpay : (Message.written host {} c.values).payloads = c.message := by
    rw [Message.written_payloads, c.values_wireFormat]
    rfl
  unfold Session.call at hs
  by_cases ha : c.Asserted
  · rw [if_pos ha] at hs
    rcases hd with ⟨code, h0⟩ | haccepted
    · -- thrown before the first frame
      have hcount : 0 < (Message.written host {} c.values).count := by
        rw [← Message.payloads_length, hpay]
        exact List.length_pos_of_ne_nil c.message_ne_nil
      rw [Socket.send_failed_first script hcount false h0] at hs
      obtain ⟨rfl, rfl⟩ := Prod.mk.inj hs
      by_cases hc : c = .terminate
      · rw [if_pos hc]
        exact ⟨Or.inl ⟨rfl, Or.inl rfl⟩, sends_nothing rfl⟩
      · rw [if_neg hc]
        exact ⟨Or.inl ⟨rfl, Or.inr h⟩, sends_nothing rfl⟩
    · have hsent := h.toServer.send (hpay ▸ c.message_ne_nil)
        (Message.written_unsent host c.values) false script (hpay ▸ haccepted)
      obtain ⟨hout, hholds⟩ := hsent
      rw [hpay] at hholds
      dsimp only at hs
      rw [hout] at hs
      obtain ⟨rfl, rfl⟩ := Prod.mk.inj hs
      refine ⟨Or.inr ⟨.call c, { u with caller := .waiting c, toServer := u.toServer ++ [c] },
        [.called c], fun _ => trivial, ?_, rfl, Or.inr ?_⟩, sends_nothing rfl⟩
      · show Auth.step zmqZ85Encode u (.call c) = _
        unfold Auth.step
        rw [if_neg (h.server ▸ hlive), ← h.caller, hidle]
      · refine ⟨rfl, h.server, h.auth, ?_, h.toCaller, fun _ => by simp, h.closed, h.arriving⟩
        show Pipe.Holds _ ((u.toServer ++ [c]).map Command.message)
        rw [List.map_append]
        exact hholds
  · rw [if_neg ha] at hs
    obtain ⟨rfl, rfl⟩ := Prod.mk.inj hs
    exact ⟨Or.inl ⟨rfl, Or.inl rfl⟩, sends_nothing rfl⟩

theorem ret_follows (h : Shows zmqZ85Encode calm s u) (hlive : s.server ≠ .aborted) {c : Command}
    (hwaits : s.caller = .waiting c) {schedules : List (List Attempt)}
    (hd : ∀ schedule ∈ schedules, OnlyInterrupts schedule)
    (hs : s.ret host c schedules = some (t, e)) : Follows zmqZ85Encode calm u t e ∧ Sends s t e := by
  unfold Session.ret at hs
  cases hw : (Socket.wait host schedules s.toCaller.inbox).outcome with
  | none =>
    simp only [hw] at hs
    cases hs
  | some result =>
    cases result with
    | error f => exact absurd hw (Socket.wait_no_error hd)
    | ok v =>
      simp only [hw] at hs
      obtain ⟨rfl, rfl⟩ := Prod.mk.inj (Option.some.inj hs)
      have hholds := h.toCaller
      cases hq : u.toCaller with
      | nil =>
        -- an empty pipe has no signal
        rw [hq] at hholds
        exact absurd hw (hholds.wait_nil v)
      | cons sig rest =>
        rw [hq] at hholds
        obtain ⟨-, hrest⟩ := hholds.wait hw
        refine ⟨Or.inr ⟨.ret,
          { u with caller := if c = .terminate then .gone else .idle, toCaller := rest },
          [.returned c], fun _ => trivial, ?_, rfl, Or.inr ?_⟩, sends_nothing rfl⟩
        · show Auth.step zmqZ85Encode u .ret = _
          unfold Auth.step
          rw [if_neg (h.server ▸ hlive), ← h.caller, hwaits, hq]
        · exact ⟨rfl, h.server, h.auth, h.toServer, hrest, h.pending, h.closed, h.arriving⟩

/-- **What a call of `authenticate` does.** -/
inductive Answered (zmqZ85Encode : Bytes → Option Bytes) (a : Auth) (requests : List (List Bytes))
    (schedule : List Attempt) (h t : Rep.Handler) : Rep.Call → Prop
  | replied (msg : List Bytes) (rest : List (List Bytes)) (reply : List Bytes)
      (hrequests : requests = msg :: rest) (hreply : authenticate zmqZ85Encode a msg = .ok reply)
      (hq : t.inbox.queue = rest.flatMap wireFrames) (hclosed : t.answering = false)
      (hreplies : t.replies = h.replies ++ [reply]) :
      Answered zmqZ85Encode a requests schedule h t ⟨some msg, [reply], none⟩
  | failed (msg : List Bytes) (rest : List (List Bytes)) (f : Failure)
      (hrequests : requests = msg :: rest) (hf : authenticate zmqZ85Encode a msg = .error f)
      (hq : t.inbox.queue = rest.flatMap wireFrames) (hreplies : t.replies = h.replies) :
      Answered zmqZ85Encode a requests schedule h t ⟨some msg, [], some f⟩
  | interrupted (hstart : schedule.head? = some (.fails .eintr))
      (hq : t.inbox.queue = requests.flatMap wireFrames) (hreplies : t.replies = h.replies) :
      Answered zmqZ85Encode a requests schedule h t
        ⟨none, [], some (.threw (.zmqInternal Rep.efsm))⟩

theorem answer_cases {a : Auth} {requests : List (List Bytes)} {schedule : List Attempt}
    {h h' : Rep.Handler} {call : Rep.Call} (honly : OnlyInterrupts schedule)
    (hclosed : h.answering = false) (hq : h.inbox.queue = requests.flatMap wireFrames)
    (hne : ∀ msg ∈ requests, msg ≠ [])
    (hc : Rep.answer zmqZ85Encode a schedule h = some (h', call)) :
    Answered zmqZ85Encode a requests schedule h h' call := by
  unfold Rep.answer Rep.Handler.receive at hc
  rw [Rep.attempts_ready hclosed] at hc
  cases hrun : Socket.receive false schedule h.inbox {} with
  | none =>
    rw [hrun] at hc
    cases hc
  | some run =>
    rcases Socket.receive_interrupts honly hrun with hout | ⟨hout, hstart⟩
    · cases requests with
      | nil =>
        obtain ⟨fs, hfs, ⟨front, last, rfl, -, -⟩, -⟩ := Socket.receive_took hrun hout
        rw [hq] at hfs
        simp at hfs
      | cons msg rest =>
        rw [List.flatMap_cons] at hq
        obtain ⟨hpay, hqueue⟩ :=
          Socket.receive_front hrun hout (hne msg List.mem_cons_self) hq
        simp only [hrun, hout, hpay, ↓reduceIte] at hc
        cases hreply : authenticate zmqZ85Encode a msg with
        | error f =>
          rw [hreply] at hc
          obtain ⟨rfl, rfl⟩ := Prod.mk.inj (Option.some.inj hc)
          exact Answered.failed msg rest f rfl hreply hqueue rfl
        | ok reply =>
          have hlen := reply_length hreply
          have hne' : reply ≠ [] := List.ne_nil_of_length_pos (by omega)
          rw [hreply] at hc
          dsimp only at hc
          rw [Rep.send_answering rfl hne'] at hc
          obtain ⟨rfl, rfl⟩ := Prod.mk.inj (Option.some.inj hc)
          dsimp only
          rw [List.drop_left]
          exact Answered.replied msg rest reply rfl hreply hqueue rfl rfl
    · obtain ⟨hinbox, hpay⟩ := Socket.receive_of_false hrun hout
      simp only [hrun, hout, hpay, Bool.false_eq_true, ↓reduceIte] at hc
      have hreply : authenticate zmqZ85Encode a []
          = .ok [[], [], ascii "500", ascii "Internal error", [], []] := rfl
      rw [hreply] at hc
      dsimp only at hc
      rw [Rep.send_out_of_step rfl (List.cons_ne_nil _ _)] at hc
      obtain ⟨rfl, rfl⟩ := Prod.mk.inj (Option.some.inj hc)
      dsimp only
      rw [List.drop_length]
      refine Answered.interrupted hstart ?_ rfl
      rw [hinbox, hq]

theorem answer_follows (h : Shows zmqZ85Encode calm s u) (hlive : s.server ≠ .aborted)
    {pipe : Bool} (hzap : s.server = .zap pipe) {schedule : List Attempt}
    (honly : OnlyInterrupts schedule) (hko : finals.ko = .accepted)
    (hstart : calm → schedule.head? ≠ some (.fails .eintr))
    (hs : s.answer host zmqZ85Encode pipe schedule finals = some (t, e)) :
    Follows zmqZ85Encode calm u t e ∧ Sends s t e := by
  have hclosed : s.handler.answering = false := h.closed (by rw [hzap]; exact nofun)
  obtain ⟨requests, hq, hrequests⟩ := h.arriving
  have hdecided : ∀ msg reply : List Bytes, msg ≠ [] →
      authenticate zmqZ85Encode s.auth msg = .ok reply →
      (Auth.machine zmqZ85Encode).step u (.authenticate msg)
        = some (u.afterZap pipe, [.decided msg reply]) := by
    intro msg reply hmsg hreply
    show Auth.step zmqZ85Encode u (.authenticate msg) = _
    unfold Auth.step
    rw [if_neg (h.server ▸ hlive), ← h.server, hzap, ← h.auth]
    dsimp only
    rw [if_neg hmsg, hreply]
  have hfailed : ∀ (msg : List Bytes) (f : Failure), msg ≠ [] →
      authenticate zmqZ85Encode s.auth msg = .error f →
      (Auth.machine zmqZ85Encode).step u (.authenticate msg) = some (u.fail f, []) := by
    intro msg f hmsg hf
    show Auth.step zmqZ85Encode u (.authenticate msg) = _
    unfold Auth.step
    rw [if_neg (h.server ▸ hlive), ← h.server, hzap, ← h.auth]
    dsimp only
    rw [if_neg hmsg, hf]
  unfold Session.answer at hs
  cases hc : Rep.answer zmqZ85Encode s.auth schedule s.handler with
  | none =>
    rw [hc] at hs
    cases hs
  | some result =>
    obtain ⟨handler, call⟩ := result
    rw [hc] at hs
    cases answer_cases honly hclosed hq (fun msg hmsg => (hrequests msg hmsg).1) hc with
    | replied msg rest reply hmsgs hreply hq' hclosed' hreplies =>
      subst hmsgs
      obtain ⟨hmsg, hcalm⟩ := hrequests msg List.mem_cons_self
      obtain ⟨rfl, rfl⟩ := Prod.mk.inj (Option.some.inj hs)
      refine ⟨Or.inr ⟨.authenticate msg, u.afterZap pipe, [.decided msg reply], hcalm,
        hdecided msg reply hmsg hreply, rfl, Or.inr ?_⟩, hreplies⟩
      refine ⟨h.caller, rfl, h.auth, h.toServer, h.toCaller, ?_, fun _ => hclosed', rest, hq',
        fun msg' hmsg' => hrequests msg' (List.mem_cons_of_mem msg hmsg')⟩
      intro hpending
      apply h.pending
      cases pipe with
      | true => exact Or.inr hzap
      | false => rcases hpending with hp | hp <;> cases hp
    | failed msg rest f hmsgs hf hq' hreplies =>
      subst hmsgs
      obtain ⟨hmsg, hcalm⟩ := hrequests msg List.mem_cons_self
      obtain ⟨rfl, rfl⟩ := Prod.mk.inj (Option.some.inj hs)
      cases f with
      | assertFailed => exact ⟨Or.inl ⟨rfl, Or.inl rfl⟩, sends_nothing hreplies⟩
      | threw x =>
        obtain ⟨hshows, hhandler⟩ := h.caught host hko handler
          ⟨rest, hq', fun msg' hmsg' => hrequests msg' (List.mem_cons_of_mem msg hmsg')⟩
        exact ⟨Or.inr ⟨.authenticate msg, u.finish .ko, [], hcalm, hfailed msg _ hmsg hf, rfl,
          Or.inr hshows⟩, sends_nothing ((congrArg Rep.Handler.replies hhandler).trans hreplies)⟩
    | interrupted heintr hq' hreplies =>
      obtain ⟨rfl, rfl⟩ := Prod.mk.inj (Option.some.inj hs)
      obtain ⟨hshows, hhandler⟩ := h.caught host hko handler
        ⟨requests, hq', hrequests⟩
      have hinterrupted : (Auth.machine zmqZ85Encode).step u .interruptReceive
          = some (u.finish .ko, []) := by
        show Auth.step zmqZ85Encode u .interruptReceive = _
        unfold Auth.step
        rw [if_neg (h.server ▸ hlive), ← h.server, hzap]
      exact ⟨Or.inr ⟨.interruptReceive, u.finish .ko, [],
        fun hcalm => absurd heintr (hstart hcalm), hinterrupted, rfl,
        Or.inr hshows⟩, sends_nothing ((congrArg Rep.Handler.replies hhandler).trans hreplies)⟩

theorem handle_follows (h : Shows zmqZ85Encode calm s u) (hlive : s.server ≠ .aborted)
    (hcommand : s.server = .command) {schedule : List Attempt} (honly : OnlyInterrupts schedule)
    (hs : s.handle host schedule .accepted finals = some (t, e)) :
    Follows zmqZ85Encode calm u t e ∧ Sends s t e := by
  obtain ⟨c, rest, hq⟩ := List.exists_cons_of_ne_nil (h.pending (Or.inl hcommand))
  have hstep : ∀ interrupted, (Auth.machine zmqZ85Encode).step u (.handle interrupted)
      = if interrupted then some ({ u with server := .head }, [])
        else some ({ u with auth := s.auth.effect c, toServer := rest,
                            toCaller := u.toCaller ++ [.ok], server := .head }, [.applied c]) := by
    intro interrupted
    show Auth.step zmqZ85Encode u (.handle interrupted) = _
    unfold Auth.step
    rw [if_neg (h.server ▸ hlive), ← h.server, hcommand, hq]
    dsimp only
    rw [← h.auth, handleCommand_message]
  unfold Session.handle at hs
  cases hrun : Socket.receive false schedule s.toServer.inbox {} with
  | none =>
    rw [hrun] at hs
    cases hs
  | some run =>
    rcases Socket.receive_interrupts honly hrun with hout | ⟨hout, -⟩
    · have hholds := h.toServer
      rw [hq, List.map_cons] at hholds
      obtain ⟨hpay, hrest⟩ := hholds.receive c.message_ne_nil hrun hout
      simp only [hrun, hout, hpay, handleCommand_message, if_neg c.message_ne_nil] at hs
      obtain ⟨p, hp, hsignals⟩ := signal_accepted host
        (s := { s with toServer := { s.toServer with inbox := run.inbox },
                       auth := s.auth.effect c }) h.toCaller .ok
      unfold signals at hs
      rw [hp] at hs
      obtain ⟨rfl, rfl⟩ := Prod.mk.inj (Option.some.inj hs)
      refine ⟨Or.inr ⟨.handle false, _, _, fun _ => trivial, hstep false, rfl, Or.inr ?_⟩,
        sends_nothing rfl⟩
      refine ⟨h.caller, rfl, rfl, hrest, ?_, ?_, ?_, h.arriving⟩
      · show p.Holds ((u.toCaller ++ [Signal.ok]).map Signal.frames)
        rw [List.map_append]
        exact hsignals
      · rintro (hp | hp) <;> cases hp
      · exact fun _ => h.closed (by rw [hcommand]; exact nofun)
    · obtain ⟨hinbox, hpay⟩ := Socket.receive_of_false hrun hout
      have hnil : ∀ a : Auth, a.handleCommand [] = .ok (a, []) := fun _ => rfl
      simp only [hrun, hout, hpay, hnil, ↓reduceIte, hinbox] at hs
      obtain ⟨rfl, rfl⟩ := Prod.mk.inj (Option.some.inj hs)
      refine ⟨Or.inr ⟨.handle true, _, _, fun _ => trivial, hstep true, rfl, Or.inr ?_⟩,
        sends_nothing rfl⟩
      refine ⟨h.caller, rfl, h.auth, h.toServer, h.toCaller, ?_, ?_, h.arriving⟩
      · rintro (hp | hp) <;> cases hp
      · exact fun _ => h.closed (by rw [hcommand]; exact nofun)

omit [VectorGrowth] in
/-- a request that arrives is no step of the protocol -/
theorem request_follows (h : Shows zmqZ85Encode calm s u) {msg : List Bytes} (hmsg : msg ≠ [])
    (hcalm : calm → ∀ e, zapRequest zmqZ85Encode msg ≠ .error (.threw e)) {inbox : Socket.Inbox}
    (hinbox : inbox = { s.handler.inbox with
      queue := s.handler.inbox.queue ++ wireFrames msg }) :
    Follows zmqZ85Encode calm u { s with handler := { s.handler with inbox := inbox } } [] ∧
      Sends s { s with handler := { s.handler with inbox := inbox } } [] := by
  subst hinbox
  obtain ⟨requests, hq, hrequests⟩ := h.arriving
  refine ⟨Or.inl ⟨rfl, Or.inr ⟨h.caller, h.server, h.auth, h.toServer, h.toCaller, h.pending,
    h.closed, requests ++ [msg], ?_, ?_⟩⟩, sends_nothing rfl⟩
  · show s.handler.inbox.queue ++ wireFrames msg = _
    rw [hq, List.flatMap_append, List.flatMap_singleton]
  · intro msg' hmsg'
    rcases List.mem_append.mp hmsg' with hmem | hmem
    · exact hrequests msg' hmem
    · rw [List.mem_singleton.mp hmem]
      exact ⟨hmsg, hcalm⟩

omit [VectorGrowth] in
theorem poll_follows (h : Shows zmqZ85Encode calm s u) (hlive : s.server ≠ .aborted)
    {zap pipe : Bool} (hhead : s.server = .head) (hgoes : s.auth.terminated = false)
    (hany : (zap || pipe) = true) (hpipe : pipe = true → s.toServer.inbox.queue ≠ [])
    (ht : t = if zap then { s with server := .zap pipe } else s.afterZap pipe) :
    Follows zmqZ85Encode calm u t [] ∧ Sends s t [] := by
  subst ht
  have hqueue : pipe = true → u.toServer ≠ [] := by
    intro hp hnil
    apply hpipe hp
    rw [h.toServer.queue, hnil]
    rfl
  refine ⟨Or.inr ⟨.poll zap pipe,
    if zap then { u with server := .zap pipe } else u.afterZap pipe,
    [], fun _ => trivial, ?_, rfl, Or.inr ?_⟩, sends_nothing (by cases zap <;> rfl)⟩
  · show Auth.step zmqZ85Encode u (.poll zap pipe) = _
    unfold Auth.step
    rw [if_neg (h.server ▸ hlive)]
    exact if_pos ⟨h.server ▸ hhead, h.auth ▸ hgoes, hany, hqueue⟩
  · have hclosed : s.handler.answering = false := h.closed (by rw [hhead]; exact nofun)
    cases zap with
    | true =>
      refine ⟨h.caller, rfl, h.auth, h.toServer, h.toCaller, ?_, fun _ => hclosed, h.arriving⟩
      rintro (hp | hp)
      · cases hp
      · cases hp
        exact hqueue rfl
    | false =>
      refine ⟨h.caller, rfl, h.auth, h.toServer, h.toCaller, ?_, fun _ => hclosed, h.arriving⟩
      intro hp
      cases pipe with
      | true => exact hqueue rfl
      | false => rcases hp with hp | hp <;> cases hp

/-- an interrupted poll and the command TERMINATE end the service alike -/
theorem finish_follows (host : Order) (h : Shows zmqZ85Encode calm s u)
    (hd : finals.ok = .accepted) {l : Auth.Label} (hcalm : calm → Calm zmqZ85Encode u l)
    (hl : (Auth.machine zmqZ85Encode).step u l = some (u.finish .ok, [])) :
    Follows zmqZ85Encode calm u (s.finish host finals) [] ∧
      Sends s (s.finish host finals) [] := by
  obtain ⟨hshows, hhandler⟩ := h.finish host hd
  exact ⟨Or.inr ⟨l, u.finish .ok, [], hcalm, hl, rfl, Or.inr hshows⟩,
    sends_nothing (congrArg Rep.Handler.replies hhandler)⟩

theorem step_follows (h : Shows zmqZ85Encode calm s u) {l : Label} (hd : Delivered s l)
    (hcalm : calm → Undisturbed zmqZ85Encode s l)
    (hs : step host zmqZ85Encode s l = some (t, e)) :
    Follows zmqZ85Encode calm u t e ∧ Sends s t e := by
  unfold step at hs
  split at hs
  · cases hs
  rename_i hlive
  have hlive' : u.server ≠ .aborted := h.server ▸ hlive
  cases l with
  | call c script =>
    dsimp only at hs
    split at hs
    · rename_i hidle
      exact call_follows h hlive hidle hd (Option.some.inj hs)
    · cases hs
  | ret schedules =>
    dsimp only at hs
    split at hs
    · rename_i c hwaits
      exact ret_follows h hlive hwaits hd hs
    · cases hs
  | request msg =>
    dsimp only at hs
    split at hs
    · cases hs
    rename_i hmsg
    obtain ⟨rfl, rfl⟩ := Prod.mk.inj (Option.some.inj hs)
    exact request_follows h hmsg hcalm rfl
  | poll zap pipe =>
    dsimp only at hs
    split at hs
    · rename_i hpoll
      obtain ⟨hhead, hgoes, hany, -, hpipe⟩ := hpoll
      obtain ⟨ht, rfl⟩ := Prod.mk.inj (Option.some.inj hs)
      exact poll_follows h hlive hhead hgoes hany hpipe ht.symm
    · cases hs
  | interrupt finals =>
    dsimp only at hs
    split at hs
    · rename_i hcond
      obtain ⟨rfl, rfl⟩ := Prod.mk.inj (Option.some.inj hs)
      refine finish_follows host h hd (l := .interrupt) hcalm ?_
      show Auth.step zmqZ85Encode u .interrupt = _
      unfold Auth.step
      rw [if_neg hlive']
      exact if_pos ⟨h.server ▸ hcond.1, h.auth ▸ hcond.2⟩
    · cases hs
  | leave finals =>
    dsimp only at hs
    split at hs
    · rename_i hcond
      obtain ⟨rfl, rfl⟩ := Prod.mk.inj (Option.some.inj hs)
      refine finish_follows host h hd (l := .leave) (fun _ => trivial) ?_
      show Auth.step zmqZ85Encode u .leave = _
      unfold Auth.step
      rw [if_neg hlive']
      exact if_pos ⟨h.server ▸ hcond.1, h.auth ▸ hcond.2⟩
    · cases hs
  | authenticate schedule finals =>
    dsimp only at hs
    split at hs
    · rename_i pipe hzap
      exact answer_follows h hlive hzap hd.1 hd.2 hcalm hs
    · cases hs
  | handle schedule result finals =>
    dsimp only at hs
    split at hs
    · rename_i hcommand
      rw [hd.2] at hs
      exact handle_follows h hlive hcommand hd.1 hs
    · cases hs

/-- **A step on the sockets is one of the protocol**, or none. -/
theorem simulates (host : Order) (zmqZ85Encode : Bytes → Option Bytes) (calm : Prop) :
    Lib.Machine.Simulates (machine host zmqZ85Encode) (Auth.machine zmqZ85Encode)
      (fun s l => Delivered s l ∧ (calm → Undisturbed zmqZ85Encode s l))
      (fun u l => calm → Auth.Calm zmqZ85Encode u l) seen (Related zmqZ85Encode calm) := by
  intro s u l t e hrelated hok hs
  rcases hrelated with haborted | h
  · change step host zmqZ85Encode s l = _ at hs
    unfold step at hs
    rw [if_pos haborted] at hs
    cases hs
  · exact (step_follows h hok.1 hok.2 hs).1

/-! ## whole runs -/

/-- the steps are delivered, and undisturbed if the run is `calm` -/
theorem along_calm {labels : List Label}
    (hd : (machine host zmqZ85Encode).Along Delivered {} labels)
    (hcalm : calm → (machine host zmqZ85Encode).Along (Undisturbed zmqZ85Encode) {} labels) :
    (machine host zmqZ85Encode).Along
      (fun s l => Delivered s l ∧ (calm → Undisturbed zmqZ85Encode s l)) {} labels := by
  by_cases h : calm
  · exact (hd.and (hcalm h)).mono fun _ _ hboth => ⟨hboth.1, fun _ => hboth.2⟩
  · exact hd.mono fun _ _ hdelivered => ⟨hdelivered, fun hc => absurd hc h⟩

theorem replies_of_run {labels : List Label}
    (hd : (machine host zmqZ85Encode).Along Delivered {} labels) {tr : List Event}
    (hr : (machine host zmqZ85Encode).exec {} labels = some (s, tr)) :
    s.handler.replies = tr.filterMap repliedBy := by
  have hrun := Lib.Machine.exec_inv
    (fun s tr => (∃ u, Related zmqZ85Encode False s u) ∧
      s.handler.replies = tr.filterMap repliedBy) ?_ [] ⟨⟨{}, related_start _ _⟩, rfl⟩ hd hr
  · exact hrun.2
  intro s tr l t e ⟨⟨u, hrelated⟩, hreplies⟩ hdelivered hs
  change step host zmqZ85Encode s l = _ at hs
  rcases hrelated with haborted | h
  · unfold step at hs
    rw [if_pos haborted] at hs
    cases hs
  · obtain ⟨hfollows, hsends⟩ := step_follows h hdelivered False.elim hs
    refine ⟨?_, ?_⟩
    · rcases hfollows with ⟨-, hstay⟩ | ⟨l', v, e', -, -, -, hnext⟩
      · exact ⟨u, hstay⟩
      · exact ⟨v, hnext⟩
    · rw [List.filterMap_append, ← hreplies]
      exact hsends

end

def clientKey : Bytes :=
  (List.replicate 4 [0x86, 0x4F, 0xD2, 0x6F, 0xB5, 0x59, 0xF7, 0x5B]).flatten

def keyText : Bytes := ascii "HelloWorldHelloWorldHelloWorldHelloWorld"

/-- a CURVE client with this key -/
def keyRequest : ValidRequest where
  sequence := ascii "1"
  domain := ascii "global"
  address := ascii "10.0.0.1"
  identity := []
  mechanism := ascii "CURVE"
  credentials := [clientKey]
  present := by decide
  curveKey := by
    intro _ key hkey
    obtain rfl := Option.some.inj hkey
    rfl

/-- The key is configured while a request is there, and again there is one when the call has
returned.  Interrupts disturb all receives. -/
def busySession : List Label :=
  [.call (.curve keyText) fun _ => .accepted, .request keyRequest.frames, .poll true true,
    .authenticate [.runs, .runs, .fails .eintr, .runs, .runs, .runs, .runs, .runs] {},
    .handle [.fails .eintr] .accepted {}, .poll false true, .handle [.runs, .runs] .accepted {},
    .ret [[.fails .eintr], [.runs]], .request keyRequest.frames, .poll true false,
    .authenticate [.runs, .runs, .runs, .runs, .runs, .runs, .runs] {}]

def busyEvents : List Event :=
  [.called (.curve keyText),
    .decided keyRequest.frames [ascii "1.0", ascii "1", ascii "400", ascii "No access", [], []],
    .handled [ascii "CURVE", keyText], .returned (.curve keyText),
    .decided keyRequest.frames [ascii "1.0", ascii "1", ascii "200", ascii "OK", keyText, []]]

theorem busySession_run :
    ∃ s, (@machine Socket.byOne .littleEndian z85OfWords).exec {} busySession
      = some (s, busyEvents) := by
  have hrun : ((@machine Socket.byOne .littleEndian z85OfWords).exec {} busySession).map Prod.snd
      = some busyEvents := by decide +kernel
  obtain ⟨⟨s, tr⟩, hexec, rfl⟩ := Option.map_eq_some_iff.mp hrun
  exact ⟨s, hexec⟩

theorem busySession_delivered :
    (@machine Socket.byOne .littleEndian z85OfWords).Along Delivered {} busySession := by
  refine Lib.Machine.along_of_mem (p := Delivered ({} : Session)) _ ?_
  simp [busySession, Delivered, OnlyInterrupts, Delivers]

theorem busySession_undisturbed :
    (@machine Socket.byOne .littleEndian z85OfWords).Along (Undisturbed z85OfWords) {}
      busySession := by
  have hparsed : ∀ e, zapRequest z85OfWords keyRequest.frames ≠ .error (.threw e) := by
    obtain ⟨r, hr, -⟩ := zapRequest_valid z85OfWords_encodes keyRequest
    rw [hr]
    exact nofun
  refine Lib.Machine.along_of_mem (p := Undisturbed z85OfWords ({} : Session)) _ ?_
  simp [busySession, Undisturbed, hparsed]

end Session
end Auth
end Zmqpp
