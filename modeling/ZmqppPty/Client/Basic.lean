import ZmqppPty.Lib.Lines
import ZmqppPty.Lib.Machine
import ZmqppPty.Poller.Refine
import ZmqppPty.Message.Stream

/-!
# The command line client (client/main.cpp)

The reader loop of `main`.  Messages are lists of parts.  Of a run the environment chooses, for
each iteration, what `zmq_poll` reports, what the socket delivers and how the sends come out.

* `Stdin`, `fgets`       the stream `stdin`: what is buffered, and what the reads to come return;
* `gather`               the `fgets` loop that makes the parts of a message;
* `receiveBranch`, `stdinBlock`, `stdinBranch`   the branches of the loop's body;
* `iterate`, `machine`   one iteration of the loop.
-/

namespace Zmqpp
namespace Client

/-! ## standard input -/

def newline : UInt8 := 10

structure Stdin where
  /-- read by `fgets` and not returned yet -/
  buffer : Bytes := []
  /-- what the `read` calls to come return; after the last one the pipe is at its end -/
  deliveries : List Bytes := []
deriving DecidableEq, Repr

/-- all that is still to be returned -/
def Stdin.content (stdin : Stdin) : Bytes := stdin.buffer ++ stdin.deliveries.flatten

/-- `room` characters fit; `line` has been copied already -/
def fgetsLoop (room : ℕ) (line buffer : Bytes) (deliveries : List Bytes) : Option Bytes × Stdin :=
  match Lib.Lines.firstLine newline (buffer.take room) with
  | some (front, _) =>
    (some (line ++ front ++ [newline]), ⟨buffer.drop (front.length + 1), deliveries⟩)
  | none =>
    if room ≤ buffer.length then (some (line ++ buffer.take room), ⟨buffer.drop room, deliveries⟩)
    else match deliveries with
      | [] => (if line ++ buffer = [] then none else some (line ++ buffer), {})
      | d :: rest => fgetsLoop (room - buffer.length) (line ++ buffer) d rest

/-- `fgets(buffer, size, stdin)`: the characters stored before the terminating NUL -/
def fgets (size : ℕ) (stdin : Stdin) : Option Bytes × Stdin :=
  fgetsLoop (size - 1) [] stdin.buffer stdin.deliveries

/-- `std::array<char, 1048576>` -/
def bufferSize : ℕ := 1048576

inductive Gathered where
  | message (parts : List Bytes) (stdin : Stdin)
  /-- `strlen` is 0, and `length` the largest `size_t` -/
  | overrun

/-- the loop over `result`; `none` if `fuel` is too small -/
def gather (singlepart : Bool) : ℕ → Option Bytes → List Bytes → Stdin → Option Gathered
  | 0, _, _, _ => none
  | fuel + 1, result, message, stdin =>
    match result with
    | none => some (.message message stdin)
    | some line =>
      let len := strlen (line ++ [0])
      if len = 0 then some .overrun
      else if len - 1 = 0 then some (.message message stdin)
      else
        let message := message ++ [line.take (len - 1)]
        if singlepart then some (.message message stdin)
        else
          let (result, stdin) := fgets bufferSize stdin
          gather singlepart fuel result message stdin

/-! ## the reader loop -/

inductive SocketType where
  | pair
  | publish
  | subscribe
  | pull
  | push
  | request
  | reply
  | xpublish
  | xsubscribe
  | xrequest
  | xreply
  | stream
deriving DecidableEq, Repr

structure Flags where
  canSend : Bool
  canRecv : Bool
  toggles : Bool

/-- the `switch` over `options.type` -/
def SocketType.flags : SocketType → Option Flags
  | .push => some ⟨true, false, false⟩
  | .pull => some ⟨false, true, false⟩
  | .publish => some ⟨true, false, false⟩
  | .subscribe => some ⟨false, true, false⟩
  | .request => some ⟨true, false, true⟩
  | .reply => some ⟨false, true, true⟩
  | _ => none

/-- `client_options`, as far as `main` reads it up to the loop and for what it prints there -/
structure ClientOptions where
  showUsage : Bool := false
  showHelp : Bool := false
  showVersion : Bool := false
  verbose : Bool := false
  annotate : Bool := false
  type : SocketType := .pair
  binds : List Bytes := []
  connects : List Bytes := []
  singlepart : Bool := false

inductive Pc where
  /-- at the head of the loop -/
  | reading
  /-- the loop was left by `break` -/
  | left
  /-- `return EXIT_FAILURE` -/
  | failed
  /-- an exception has left `main` -/
  | threw
  /-- an assertion has failed -/
  | aborted
  /-- `buffer` was written out of its bounds -/
  | overrun
deriving DecidableEq, Repr

structure State where
  singlepart : Bool
  toggles : Bool
  /-- the pointer that the socket object holds -/
  socket : Handle
  standardin : Fd
  poller : Poller
  canSend : Bool
  canRecv : Bool
  message : List Bytes := []
  stdin : Stdin
  pc : Pc := .reading

/-- what the environment does in one iteration -/
structure Iteration where
  zmqPoll : ZmqPoll
  /-- the strings that are received, unless `receive` throws -/
  received : Except Exn (List Bytes) := .ok []
  /-- `socket.send(message, true)` -/
  send : Except Exn Bool := .ok true
  /-- `socket.send(message)` -/
  sendBlocking : Except Exn Bool := .ok true

inductive Event where
  /-- `poll` has returned true; the events that the socket and `standardin` were polled for -/
  | polled (socket standardin : Short)
  | received (parts : List Bytes)
  | sent (parts : List Bytes)
  /-- both sends have returned false -/
  | dropped (parts : List Bytes)
  /-- "No data on stdin, exiting reader." -/
  | exiting
deriving DecidableEq

/-- `main` up to the loop; `none` if it returns before -/
def start (type : SocketType) (singlepart : Bool) (socket : Handle) (fileno : Fd) (stdin : Stdin) :
    Option State :=
  match type.flags with
  | none => none
  | some flags =>
    let standardin := if flags.canSend || flags.toggles then fileno else -1
    if (flags.canSend || flags.toggles) && decide (standardin < 0) then none
    else
      let poller := ({} : Poller).addSocket (some socket) pollIn
      let poller := if 0 ≤ standardin then poller.addFd standardin pollIn else poller
      some { singlepart := singlepart, toggles := flags.toggles, socket := socket,
             standardin := standardin, poller := poller, canSend := flags.canSend,
             canRecv := flags.canRecv, stdin := stdin }

namespace State

def socketMask (s : State) : Short := if s.canRecv then pollIn else pollNone
def stdinMask (s : State) : Short := if s.canSend then pollIn else pollNone

/-- the two `check_for` -/
def checkFor (s : State) : Except Exn Poller :=
  match s.poller.checkForSocket (some s.socket) s.socketMask with
  | (_, .error e) => .error e
  | (p, .ok ()) =>
    if 0 ≤ s.standardin then
      match p.checkForFd s.standardin s.stdinMask with
      | (_, .error e) => .error e
      | (p, .ok ()) => .ok p
    else .ok p

/-- `poller.has_input(socket)` -/
def socketInput (s : State) : Except Exn Bool :=
  (s.poller.eventsSocket (some s.socket)).map fun ev => ev &&& pollIn != 0

/-- `poller.has_input(standardin)` -/
def stdinInput (s : State) : Except Exn Bool :=
  (s.poller.eventsFd s.standardin).map fun ev => ev &&& pollIn != 0

/-- a message on the socket -/
def receiveBranch (s : State) (env : Iteration) : State × List Event :=
  match s.socketInput with
  | .error _ => ({ s with pc := .threw }, [])
  | .ok false => (s, [])
  | .ok true =>
    if s.canRecv then
      match env.received with
      | .error _ => ({ s with pc := .threw }, [])
      | .ok parts =>
        (if s.toggles then { s with canRecv := false, canSend := true } else s, [.received parts])
    else ({ s with pc := .aborted }, [])

/-- the two attempts to send; the message is empty in the end -/
def trySend (s : State) (env : Iteration) : State × List Event :=
  match env.send with
  | .error _ => ({ s with pc := .threw }, [])
  | .ok true => ({ s with message := [] }, [.sent s.message])
  | .ok false =>
    match env.sendBlocking with
    | .error _ => ({ s with pc := .threw }, [])
    | .ok true => ({ s with message := [] }, [.sent s.message])
    | .ok false => ({ s with message := [] }, [.dropped s.message])

/-- a message whose parts have been gathered -/
def sendMessage (s : State) (env : Iteration) : State × List Event :=
  if s.message = [] then (s, [])
  else
    let (s, e) := s.trySend env
    if s.pc = .reading && s.toggles then ({ s with canRecv := true, canSend := false }, e)
    else (s, e)

/-- data on stdin -/
def stdinBlock (s : State) (env : Iteration) : State × List Event :=
  if s.canSend then
    match fgets bufferSize s.stdin with
    | (none, stdin) => ({ s with stdin := stdin, pc := .failed }, [])
    | (some line, stdin) =>
      if s.message = [] then
        match gather s.singlepart (stdin.content.length + 2) (some line) [] stdin with
        | some (.message parts stdin) =>
          sendMessage { s with stdin := stdin, message := parts } env
        | _ => ({ s with pc := .overrun }, [])
      else ({ s with pc := .aborted }, [])
  else ({ s with pc := .aborted }, [])

def stdinBranch (s : State) (env : Iteration) : State × List Event :=
  if 0 ≤ s.standardin then
    match s.stdinInput with
    | .error _ => ({ s with pc := .threw }, [])
    | .ok true => s.stdinBlock env
    | .ok false =>
      if s.canSend && !s.canRecv then ({ s with pc := .left }, [.exiting]) else (s, [])
  else (s, [])

/-- what follows a `poll` that has returned true -/
def dispatch (s : State) (env : Iteration) : State × List Event :=
  let (t, e) := s.receiveBranch env
  if t.pc = .reading then
    let (u, e') := t.stdinBranch env
    (u, .polled s.socketMask s.stdinMask :: (e ++ e'))
  else (t, .polled s.socketMask s.stdinMask :: e)

def iterate (s : State) (env : Iteration) : State × List Event :=
  match s.checkFor with
  | .error _ => ({ s with pc := .threw }, [])
  | .ok p =>
    match p.poll env.zmqPoll with
    | (p, .error _) => ({ s with poller := p, pc := .threw }, [])
    | (p, .ok false) => ({ s with poller := p }, [])
    | (p, .ok true) => dispatch { s with poller := p } env

end State

def step (s : State) (env : Iteration) : Option (State × List Event) :=
  if s.pc = .reading then some (s.iterate env) else none

def machine : Lib.Machine State Iteration Event := ⟨step⟩

theorem step_iterate {s t : State} {env : Iteration} {e : List Event}
    (h : step s env = some (t, e)) : s.pc = .reading ∧ s.iterate env = (t, e) := by
  unfold step at h
  split at h
  · rename_i hpc
    exact ⟨hpc, Option.some.inj h⟩
  · cases h

theorem step_of_iterate {s t : State} {env : Iteration} {e : List Event} (hpc : s.pc = .reading)
    (h : s.iterate env = (t, e)) : machine.step s env = some (t, e) := by
  show (if s.pc = .reading then some (s.iterate env) else none) = _
  rw [if_pos hpc, h]

/-! ## what an iteration polls -/

namespace State

/-- both are in the poller -/
def Wired (s : State) : Prop :=
  ∃ m, Poller.Represents s.poller m ∧ m (.sock s.socket) ≠ none ∧
    (0 ≤ s.standardin → m (.fd s.standardin) ≠ none)

/-- the poller when it is polled -/
def prepared (s : State) : Poller :=
  match s.checkFor with
  | .error _ => s.poller
  | .ok p => p

/-- the state when `poll` has returned -/
def polled (s : State) (env : Iteration) : State :=
  { s with poller := (s.prepared.poll env.zmqPoll).1 }

/-- `poll` returns true -/
def Reports (s : State) (env : Iteration) : Prop := (s.prepared.poll env.zmqPoll).2 = .ok true

/-- `zmq_poll` only reports what was asked for, or an error -/
def LegalPoll (s : State) (env : Iteration) : Prop := Poller.Legal s.prepared env.zmqPoll

/-- the map of the poller after both `check_for` -/
theorem Wired.prepared {s : State} (h : s.Wired) :
    s.checkFor = .ok s.prepared ∧ ∃ m, Poller.Represents s.prepared m ∧
      (∃ ev, m (.sock s.socket) = some ⟨s.socketMask, ev⟩) ∧
      (0 ≤ s.standardin → ∃ ev, m (.fd s.standardin) = some ⟨s.stdinMask, ev⟩) := by
  obtain ⟨m, hrep, hsock, hfd⟩ := h
  obtain ⟨e, he⟩ := Option.ne_none_iff_exists'.mp hsock
  obtain ⟨p, hp, hrep1⟩ := hrep.checkForKey_ok he s.socketMask
  have hsocket : s.poller.checkForSocket (some s.socket) s.socketMask = (p, .ok ()) := hp
  have hne : Key.fd s.standardin ≠ Key.sock s.socket := nofun
  by_cases hstd : 0 ≤ s.standardin
  · obtain ⟨e', he'⟩ := Option.ne_none_iff_exists'.mp (hfd hstd)
    have he1 : Function.update m (.sock s.socket) (some { e with events := s.socketMask })
        (.fd s.standardin) = some e' := by
      rw [Function.update_of_ne hne, he']
    obtain ⟨p', hp', hrep2⟩ := hrep1.checkForKey_ok he1 s.stdinMask
    have hcheck : s.checkFor = .ok p' := by
      have hfdcheck : p.checkForFd s.standardin s.stdinMask = (p', .ok ()) := hp'
      unfold checkFor
      rw [hsocket]
      dsimp only
      rw [if_pos hstd, hfdcheck]
    have hprep : s.prepared = p' := by
      unfold State.prepared
      rw [hcheck]
    rw [hprep]
    refine ⟨hcheck, _, hrep2, ⟨e.revents, ?_⟩, fun _ => ⟨e'.revents, ?_⟩⟩
    · rw [Function.update_of_ne hne.symm, Function.update_self]
    · rw [Function.update_self]
  · have hcheck : s.checkFor = .ok p := by
      unfold checkFor
      rw [hsocket]
      dsimp only
      rw [if_neg hstd]
    have hprep : s.prepared = p := by
      unfold State.prepared
      rw [hcheck]
    rw [hprep]
    refine ⟨hcheck, _, hrep1, ⟨e.revents, ?_⟩, fun h => absurd h hstd⟩
    rw [Function.update_self]

theorem Wired.iterate {s : State} (h : s.Wired) (env : Iteration) :
    s.iterate env =
      match (s.prepared.poll env.zmqPoll).2 with
      | .error _ => ({ s.polled env with pc := .threw }, [])
      | .ok false => (s.polled env, [])
      | .ok true => (s.polled env).dispatch env := by
  unfold State.iterate State.polled
  rw [h.prepared.1]
  dsimp only
  rcases s.prepared.poll env.zmqPoll with ⟨p, (x | _ | _)⟩ <;> rfl

/-- the poller after the poll -/
theorem Wired.polled {s : State} (h : s.Wired) (env : Iteration) :
    (s.polled env).Wired := by
  obtain ⟨-, m, hrep, ⟨ev, hsock⟩, hfd⟩ := h.prepared
  refine ⟨_, hrep.poll env.zmqPoll, ?_, ?_⟩
  · show (m (.sock s.socket)).map _ ≠ none
    rw [hsock]
    exact Option.some_ne_none _
  · intro hstd
    obtain ⟨ev', hev'⟩ := hfd hstd
    show (m (.fd s.standardin)).map _ ≠ none
    rw [hev']
    exact Option.some_ne_none _

theorem input_of_within {ev mask : Short} (h : Within ev (mask ||| pollError))
    (hin : (ev &&& pollIn != 0) = true) : mask &&& pollIn ≠ 0 := by
  intro hmask
  have hev : ev &&& pollIn = ev &&& (mask ||| pollError) &&& pollIn := by rw [h]
  have hnone : (mask ||| pollError) &&& pollIn = 0 := by
    rw [BitVec.and_or_distrib_right, hmask]
    decide
  rw [BitVec.and_assoc, hnone, show ev &&& (0 : Short) = 0 from BitVec.and_zero] at hev
  rw [hev] at hin
  cases hin

/-- `has_input` after a poll -/
theorem hasInput_of_legal {p : Poller} {m : Poller.PollMap} (hrep : Poller.Represents p m)
    {call : ZmqPoll} (hlegal : Poller.Legal p call) {k : Key} {mask ev : Short}
    (hk : m k = some ⟨mask, ev⟩) :
    ∃ b, (((p.poll call).1.eventsKey k).map fun ev => ev &&& pollIn != 0) = .ok b ∧
      (b = true → mask &&& pollIn ≠ 0) := by
  obtain ⟨ev', hwritten, hwithin⟩ := hrep.written_of_legal hlegal hk
  have hevents := (hrep.poll call).eventsKey_eq k
  rw [hk] at hevents
  dsimp only [Option.map_some] at hevents
  rw [hwritten] at hevents
  refine ⟨ev' &&& pollIn != 0, ?_, input_of_within hwithin⟩
  rw [hevents]
  rfl

/-- input was asked for -/
theorem flag_of_mask {b : Bool} (h : (if b then pollIn else pollNone) &&& pollIn ≠ 0) :
    b = true := by
  cases b with
  | true => rfl
  | false => exact absurd rfl h

/-- **Input is only reported where it was asked for.** -/
theorem Wired.socketInput {s : State} (h : s.Wired) {env : Iteration} (hlegal : s.LegalPoll env) :
    ∃ b, (s.polled env).socketInput = .ok b ∧ (b = true → s.canRecv = true) := by
  obtain ⟨-, m, hrep, ⟨ev, hsock⟩, -⟩ := h.prepared
  obtain ⟨b, hb, hmask⟩ := hasInput_of_legal hrep hlegal hsock
  exact ⟨b, hb, fun hin => flag_of_mask (hmask hin)⟩

theorem Wired.stdinInput {s : State} (h : s.Wired) {env : Iteration} (hlegal : s.LegalPoll env)
    (hstd : 0 ≤ s.standardin) :
    ∃ b, (s.polled env).stdinInput = .ok b ∧ (b = true → s.canSend = true) := by
  obtain ⟨-, m, hrep, -, hfd⟩ := h.prepared
  obtain ⟨ev, hev⟩ := hfd hstd
  obtain ⟨b, hb, hmask⟩ := hasInput_of_legal hrep hlegal hev
  exact ⟨b, hb, fun hin => flag_of_mask (hmask hin)⟩

/-- an iteration that finds no message on the socket -/
theorem dispatch_silent {s : State} (hsocket : s.socketInput = .ok false) (hpc : s.pc = .reading)
    (env : Iteration) :
    s.dispatch env
      = ((s.stdinBranch env).1, .polled s.socketMask s.stdinMask :: (s.stdinBranch env).2) := by
  unfold State.dispatch State.receiveBranch
  rw [hsocket]
  dsimp only
  rw [if_pos hpc, List.nil_append]

/-- `zmq_poll` that reports these events of the socket and of stdin -/
def answer (s : State) (socketEvents stdinEvents : Short) : ZmqPoll where
  revents i := s.prepared.items[i]?.map fun it =>
    if it.key = .sock s.socket then socketEvents
    else if it.key = .fd s.standardin then stdinEvents else 0
  result := 1
  errno := .eagain

theorem reports_answer (s : State) (a b : Short) :
    (s.prepared.poll (s.answer a b)).2 = .ok true := rfl

theorem Wired.answer_legal {s : State} (h : s.Wired) {a b : Short}
    (ha : Within a (s.socketMask ||| pollError)) (hb : Within b (s.stdinMask ||| pollError))
    (hstd : 0 ≤ s.standardin) : Poller.Legal s.prepared (s.answer a b) := by
  obtain ⟨-, m, hrep, ⟨ev, hsock⟩, hfd⟩ := h.prepared
  obtain ⟨ev', hev'⟩ := hfd hstd
  intro i it hit
  have hrevents : (s.answer a b).revents i = some (if it.key = .sock s.socket then a
      else if it.key = .fd s.standardin then b else 0) := by
    show (s.prepared.items[i]?.map _) = _
    rw [hit]
    rfl
  refine ⟨_, hrevents, ?_⟩
  obtain ⟨k, e, he, rfl⟩ := hrep.entry it (List.mem_of_getElem? hit)
  rw [e.item_key, e.events_item]
  by_cases hk : k = .sock s.socket
  · subst hk
    rw [if_pos rfl]
    obtain rfl : e = ⟨s.socketMask, ev⟩ := Option.some.inj (he.symm.trans hsock)
    exact ha
  · rw [if_neg hk]
    by_cases hk' : k = .fd s.standardin
    · subst hk'
      rw [if_pos rfl]
      obtain rfl : e = ⟨s.stdinMask, ev'⟩ := Option.some.inj (he.symm.trans hev')
      exact hb
    · rw [if_neg hk']
      exact BitVec.zero_and

/-- what the poller says of stdin after it -/
theorem Wired.answer_stdin {s : State} (h : s.Wired) (a b : Short) (hstd : 0 ≤ s.standardin)
    {env : Iteration} (henv : env.zmqPoll = s.answer a b) :
    (s.polled env).stdinInput = .ok (b &&& pollIn != 0) := by
  obtain ⟨-, m, hrep, -, hfd⟩ := h.prepared
  obtain ⟨ev, hev⟩ := hfd hstd
  obtain ⟨i, -, hi⟩ := hrep.get_of_map hev
  have hslot := hrep.slot_eq_find hi
  rw [Poller.Entry.item_key] at hslot
  have hwritten : Poller.written s.prepared (s.answer a b) (.fd s.standardin) = some b := by
    unfold Poller.written
    rw [hslot]
    show (s.prepared.items[i]?.map _) = some b
    rw [hi, Option.map_some, Poller.Entry.item_key, if_neg nofun, if_pos rfl]
  have hevents := (hrep.poll (s.answer a b)).eventsKey_eq (.fd s.standardin)
  rw [hev] at hevents
  dsimp only [Option.map_some] at hevents
  rw [hwritten] at hevents
  show ((s.prepared.poll env.zmqPoll).1.eventsKey (.fd s.standardin)).map _ = _
  rw [henv, hevents]
  rfl

end State

/-! ## the beginning -/

/-- a socket that can send, now or after toggling, is polled together with stdin -/
theorem start_eq {type : SocketType} {flags : Flags} (hflags : type.flags = some flags)
    (hsends : (flags.canSend || flags.toggles) = true) {singlepart : Bool} {socket : Handle}
    {fileno : Fd} {stdin : Stdin} {s : State}
    (h : start type singlepart socket fileno stdin = some s) :
    0 ≤ fileno ∧
      s = { singlepart := singlepart, toggles := flags.toggles, socket := socket,
            standardin := fileno,
            poller := (({} : Poller).addSocket (some socket) pollIn).addFd fileno pollIn,
            canSend := flags.canSend, canRecv := flags.canRecv, stdin := stdin } := by
  unfold start at h
  rw [hflags] at h
  dsimp only at h
  rw [hsends, Bool.true_and, if_pos rfl] at h
  by_cases hfd : fileno < 0
  · rw [decide_eq_true hfd, if_pos rfl] at h
    cases h
  · rw [decide_eq_false hfd, if_neg Bool.false_ne_true, if_pos (not_lt.mp hfd)] at h
    exact ⟨not_lt.mp hfd, (Option.some.inj h).symm⟩

theorem start_wired {type : SocketType} {flags : Flags} (hflags : type.flags = some flags)
    (hsends : (flags.canSend || flags.toggles) = true) {singlepart : Bool} {socket : Handle}
    {fileno : Fd} {stdin : Stdin} {s : State}
    (h : start type singlepart socket fileno stdin = some s) : s.Wired := by
  obtain ⟨-, rfl⟩ := start_eq hflags hsends h
  have hne : Key.fd fileno ≠ Key.sock socket := nofun
  have hsock := Poller.Represents.init.add (k := .sock socket) pollIn rfl
  have hfd := hsock.add (k := .fd fileno) pollIn (by rw [Function.update_of_ne hne])
  refine ⟨_, hfd, ?_, fun _ => ?_⟩
  · rw [Function.update_of_ne hne.symm, Function.update_self]
    exact Option.some_ne_none _
  · rw [Function.update_self]
    exact Option.some_ne_none _

end Client
end Zmqpp
