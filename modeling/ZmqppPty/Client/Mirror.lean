import ZmqppPty.Client.Toggle
import ZmqppPty.Socket.Send

/-!
# The flags of the client and the state of its socket (client/main.cpp)

A request or a reply socket is in its sending state or in its receiving state: a message received
brings about the first, a message sent completely the second.  The client keeps the flags
`can_send` and `can_recv` beside that, and sends with `socket::send`, whose calls of `zmq_msg_send`
may fail.

* `Script`, `Calls`      what `zmq_msg_send` and the rest of the environment do in an iteration;
* `Session`, `session`    the client together with the state of its socket;
* `Mirrors`              the flags say what that state is, and no assertion has failed;
* `Unfinished`           the iteration makes a message of stdin, and its sends do not end it;
* `Outcome`, `iterate_outcome`      what an iteration may do to the flags;
* `flags_mirror_iff`     the flags mirror the state iff no iteration leaves a message unfinished.
-/

namespace Zmqpp
namespace Client
open Socket (SendResult SendOutcome)

section
variable [VectorGrowth]

/-! ## the sends -/

/-- the results of the `zmq_msg_send` calls of a send; once the first part is accepted they do not
block -/
structure Script where
  result : ℕ → SendResult
  atomic : ∀ k, 0 < k → result k ≠ .failed .eagain

def acceptAll : Script := ⟨Socket.acceptAll, nofun⟩

/-- `message.add_raw` for each part -/
def messageOf (parts : List Bytes) : Message := parts.foldl (fun m part => (m.addRaw part).1) {}

theorem messageOf_elems (parts : List Bytes) :
    (messageOf parts).parts.elems = parts.map Frame.copyOf := by
  have h : ∀ m : Message, (parts.foldl (fun m part => (m.addRaw part).1) m).parts.elems
      = m.parts.elems ++ parts.map Frame.copyOf := by
    induction parts with
    | nil => exact fun m => (List.append_nil _).symm
    | cons part parts ih =>
      intro m
      rw [List.foldl_cons, ih, Message.addRaw_elems, List.append_assoc]
      rfl
  exact h {}

theorem messageOf_count (parts : List Bytes) : (messageOf parts).count = parts.length := by
  unfold Message.count
  rw [messageOf_elems, List.length_map]

theorem messageOf_unsent (parts : List Bytes) (k : ℕ) : (messageOf parts).isSent k = false := by
  unfold Message.isSent
  rw [messageOf_elems, List.getElem?_map]
  cases parts[k]? <;> rfl

/-- the result of a send in which no assertion fails -/
def sendResult : (o : SendOutcome) → o ≠ .assertFailed → Except Exn Bool
  | .returned b, _ => .ok b
  | .threw e, _ => .error e
  | .assertFailed, h => absurd rfl h

/-- `socket.send(message, dont_block)` -/
def Script.send (script : Script) (dont_block : Bool) (parts : List Bytes) : Except Exn Bool :=
  sendResult (Socket.send (messageOf parts) dont_block script.result).outcome
    (Socket.send_not_assertFailed script.result (messageOf_unsent parts) dont_block script.atomic)

/-- the frames that send hands over -/
def Script.wire (script : Script) (dont_block : Bool) (parts : List Bytes) : List (Bytes × ℕ) :=
  (Socket.send (messageOf parts) dont_block script.result).wire

/-- the first call would block or is interrupted -/
def Script.Refused (script : Script) : Prop :=
  script.result 0 = .failed .eagain ∨ script.result 0 = .failed .eintr

/-- of the calls for `n` parts the last one is interrupted, and none before ends the send -/
def Script.LastInterrupted (script : Script) (n : ℕ) : Prop :=
  (∀ k < n, script.result k = .accepted ∨ (0 < k ∧ script.result k = .failed .eintr)) ∧
    script.result (n - 1) = .failed .eintr

section
variable {script : Script} {dont_block : Bool} {parts : List Bytes}

omit [VectorGrowth] in
theorem sendResult_eq_ok {o : SendOutcome} (ho : o ≠ .assertFailed) {b : Bool} :
    sendResult o ho = .ok b ↔ o = .returned b := by
  cases o with
  | returned b' =>
    show Except.ok b' = .ok b ↔ _
    rw [Except.ok.injEq, SendOutcome.returned.injEq]
  | threw e => exact ⟨nofun, nofun⟩
  | assertFailed => exact absurd rfl ho

theorem send_false (hparts : parts ≠ []) :
    script.send dont_block parts = .ok false ↔ script.Refused := by
  unfold Script.send
  rw [sendResult_eq_ok, Socket.send_returned_false]
  · rfl
  · rw [messageOf_count]
    exact List.length_pos_of_ne_nil hparts

theorem send_true (hparts : parts ≠ []) :
    script.send dont_block parts = .ok true ↔ ∀ k < parts.length,
      script.result k = .accepted ∨ (0 < k ∧ script.result k = .failed .eintr) := by
  unfold Script.send
  rw [sendResult_eq_ok, Socket.send_outcome]
  · rw [messageOf_count]
    unfold Socket.GoesOn
    simp only [messageOf_unsent, and_true]
  · rw [messageOf_count]
    exact List.length_pos_of_ne_nil hparts

theorem wire_refused (h : script.send dont_block parts = .ok false) :
    script.wire dont_block parts = [] := by
  unfold Script.send at h
  rw [sendResult_eq_ok] at h
  exact (Socket.send_failsEarly script.result (Or.inl h)).2

/-- a send that returns true ends the message, unless the call for the last part is interrupted -/
theorem wire_completes (hparts : parts ≠ []) (h : script.send dont_block parts = .ok true) :
    Socket.completes (script.wire dont_block parts) = true ↔
      ¬ script.LastInterrupted parts.length := by
  have hgo := (send_true hparts).mp h
  have hpos := List.length_pos_of_ne_nil hparts
  unfold Script.send at h
  rw [sendResult_eq_ok] at h
  unfold Script.wire
  rw [Socket.send_completes script.result (by rw [messageOf_count]; exact hpos) h, messageOf_count]
  constructor
  · intro hacc hlast
    rw [hlast.2] at hacc
    cases hacc
  · intro hno
    rcases hgo (parts.length - 1) (by omega) with hacc | ⟨-, hintr⟩
    · exact hacc
    · exact absurd ⟨hgo, hintr⟩ hno

end

/-! ## the client and its socket -/

/-- what the environment does in one iteration -/
structure Calls where
  zmqPoll : ZmqPoll
  received : Except Exn (List Bytes) := .ok []
  /-- of `socket.send(message, true)` -/
  first : Script := acceptAll
  /-- of `socket.send(message)`, which is called if the first send returns false; that one leaves the
  message as it is -/
  second : Script := acceptAll

/-- the message that the iteration makes if it finds data on stdin -/
def made (s : State) : List Bytes :=
  match fgets bufferSize s.stdin with
  | (none, _) => []
  | (some line, stdin) =>
    match gather s.singlepart (stdin.content.length + 2) (some line) [] stdin with
    | some (.message parts _) => parts
    | _ => []

namespace Calls

/-- the sends of that message come out as the calls of `zmq_msg_send` do -/
def iteration (env : Calls) (s : State) : Iteration where
  zmqPoll := env.zmqPoll
  received := env.received
  send := env.first.send true (made s)
  sendBlocking := env.second.send false (made s)

/-- the frames that the sends of a message hand over -/
def wire (env : Calls) (parts : List Bytes) : List (Bytes × ℕ) :=
  env.first.wire true parts ++
    if env.first.send true parts = .ok false then env.second.wire false parts else []

/-- both sends return false, or one returns true that has not ended the message -/
def LeavesUnfinished (env : Calls) (n : ℕ) : Prop :=
  env.first.LastInterrupted n ∨
    (env.first.Refused ∧ (env.second.Refused ∨ env.second.LastInterrupted n))

end Calls

/-- the client, and whether its socket is in the sending state -/
structure Session where
  client : State
  sending : Bool

/-- the state of the socket after the event; a message that was tried to be sent leaves the sending
state if it was ended -/
def protocol (wire : List (Bytes × ℕ)) (sending : Bool) : Event → Bool
  | .received _ => true
  | .sent _ | .dropped _ => sending && !Socket.completes wire
  | .polled _ _ | .exiting => sending

def Session.step (p : Session) (env : Calls) : Option (Session × List Event) :=
  (Client.step p.client (env.iteration p.client)).map fun r =>
    (⟨r.1, r.2.foldl (protocol (env.wire (made p.client))) p.sending⟩, r.2)

def session : Lib.Machine Session Calls Event := ⟨Session.step⟩

/-- a request socket begins in the sending state, a reply socket in the receiving state -/
def Session.begin (type : SocketType) (s : State) : Session := ⟨s, decide (type = .request)⟩

/-- at the head of the loop one flag is set, `can_send` iff the socket is in its sending state; no
assertion has failed -/
def Session.Mirrors (p : Session) : Prop :=
  p.client.pc ≠ .aborted ∧
    (p.client.pc = .reading → p.client.canSend = !p.client.canRecv ∧ p.client.canSend = p.sending)

/-- `zmq_poll` only reports what was asked for, or an error -/
def Session.LegalPoll (p : Session) (env : Calls) : Prop :=
  p.client.LegalPoll (env.iteration p.client)

/-- the iteration finds data on stdin, makes a message of it, and its sends do not end it -/
def Unfinished (s : State) (env : Calls) : Prop :=
  s.Reports (env.iteration s) ∧ (s.polled (env.iteration s)).stdinInput = .ok true ∧
    made s ≠ [] ∧ env.LeavesUnfinished (made s).length

/-! ## an iteration -/

/-- what becomes of the flags and of the state of the socket, when `u` says whether a message is
left unfinished -/
inductive Outcome (u : Prop) (wire : List (Bytes × ℕ)) (s t : State) (e : List Event) : Prop
  | leaves (hpc : t.pc ≠ .reading) (ha : t.pc ≠ .aborted) (hno : ¬ u)
  | stays (hpc : t.pc = .reading) (hflags : t.canSend = s.canSend ∧ t.canRecv = s.canRecv)
      (hm : t.message = []) (he : ∀ b, e.foldl (protocol wire) b = b) (hno : ¬ u)
  | sends (hpc : t.pc = .reading) (hs : s.canSend = true)
      (hflags : t.canSend = false ∧ t.canRecv = true) (hm : t.message = [])
      (he : ∀ b, e.foldl (protocol wire) b = (b && !Socket.completes wire))
      (hu : Socket.completes wire = true ↔ ¬ u)

omit [VectorGrowth] in
/-- a poll changes nothing of that -/
theorem Outcome.polled {u : Prop} {wire : List (Bytes × ℕ)} {s t : State} {e : List Event}
    (h : Outcome u wire s t e) (a b : Short) : Outcome u wire s t (.polled a b :: e) := by
  cases h with
  | leaves hpc ha hno => exact Outcome.leaves hpc ha hno
  | stays hpc hflags hm he hno => exact Outcome.stays hpc hflags hm he hno
  | sends hpc hs hflags hm he hu => exact Outcome.sends hpc hs hflags hm he hu

/-- the sends of a message, and the toggling after them -/
theorem sendMessage_outcome {s t : State} (htoggles : t.toggles = true) (hpc : t.pc = .reading)
    (hsend : s.canSend = true) (hparts : t.message ≠ []) (env : Calls) (it : Iteration)
    (hfirst : it.send = env.first.send true t.message)
    (hsecond : it.sendBlocking = env.second.send false t.message) :
    Outcome (env.LeavesUnfinished t.message.length) (env.wire t.message) s
      (t.sendMessage it).1 (t.sendMessage it).2 := by
  have hrefused : env.first.send true t.message = .ok false ↔ _ := send_false hparts
  have hrefused' : env.second.send false t.message = .ok false ↔ _ := send_false hparts
  have hgoes : env.first.send true t.message = .ok true ↔ _ := send_true hparts
  have hgoes' : env.second.send false t.message = .ok true ↔ _ := send_true hparts
  unfold State.sendMessage State.trySend
  rw [if_neg hparts, hfirst, hsecond]
  unfold Calls.LeavesUnfinished Calls.wire
  have htoggle : (decide (Pc.reading = .reading) && true) = true := rfl
  cases hf : env.first.send true t.message with
  | error x =>
    rw [hf] at hrefused hgoes
    refine Outcome.leaves nofun nofun ?_
    intro hu
    rcases hu with hlast | ⟨href, -⟩
    · exact nomatch hgoes.mpr hlast.1
    · exact nomatch hrefused.mpr href
  | ok b =>
    cases b with
    | true =>
      have hwire := wire_completes hparts hf
      rw [hf] at hrefused
      have hone : ¬ env.first.Refused := fun href => nomatch hrefused.mpr href
      dsimp only
      rw [hpc, htoggles, if_neg nofun, List.append_nil, if_pos htoggle]
      refine Outcome.sends rfl hsend ⟨rfl, rfl⟩ rfl (fun _ => rfl) ?_
      rw [hwire]
      constructor
      · intro hno hu
        exact hu.elim hno fun h => hone h.1
      · intro hno hlast
        exact hno (Or.inl hlast)
    | false =>
      have hnil := wire_refused hf
      have href := hrefused.mp hf
      rw [hf] at hgoes
      have hno : ¬ env.first.LastInterrupted t.message.length := fun hlast =>
        nomatch hgoes.mpr hlast.1
      rw [hnil, List.nil_append, if_pos rfl]
      cases hs : env.second.send false t.message with
      | error x =>
        rw [hs] at hrefused' hgoes'
        refine Outcome.leaves nofun nofun ?_
        intro hu
        rcases hu with hlast | ⟨-, href' | hlast'⟩
        · exact hno hlast
        · exact nomatch hrefused'.mpr href'
        · exact nomatch hgoes'.mpr hlast'.1
      | ok b' =>
        cases b' with
        | true =>
          have hwire := wire_completes hparts hs
          rw [hs] at hrefused'
          dsimp only
          rw [hpc, htoggles, if_pos htoggle]
          refine Outcome.sends rfl hsend ⟨rfl, rfl⟩ rfl (fun _ => rfl) ?_
          rw [hwire]
          constructor
          · intro hno' hu
            rcases hu with hlast | ⟨-, href' | hlast'⟩
            · exact hno hlast
            · exact nomatch hrefused'.mpr href'
            · exact hno' hlast'
          · intro hu hlast'
            exact hu (Or.inr ⟨href, Or.inr hlast'⟩)
        | false =>
          dsimp only
          rw [wire_refused hs, hpc, htoggles, if_pos htoggle]
          refine Outcome.sends rfl hsend ⟨rfl, rfl⟩ rfl (fun _ => rfl) ?_
          exact ⟨nofun, fun hu => absurd (Or.inr ⟨href, Or.inl (hrefused'.mp hs)⟩) hu⟩

omit [VectorGrowth] in
theorem Outcome.congr {u u' : Prop} {wire : List (Bytes × ℕ)} {s t : State} {e : List Event}
    (h : Outcome u wire s t e) (hu : u' ↔ u) : Outcome u' wire s t e := by
  rw [propext hu]
  exact h

theorem stdinBlock_outcome {s : State} (htoggles : s.toggles = true) (hpc : s.pc = .reading)
    (hsend : s.canSend = true) (hm : s.message = []) (env : Calls) :
    Outcome (made s ≠ [] ∧ env.LeavesUnfinished (made s).length) (env.wire (made s)) s
      (s.stdinBlock (env.iteration s)).1 (s.stdinBlock (env.iteration s)).2 := by
  unfold State.stdinBlock
  rw [if_pos hsend]
  cases hf : fgets bufferSize s.stdin with
  | mk result stdin =>
    cases result with
    | none =>
      have hmade : made s = [] := by
        unfold made
        rw [hf]
      exact Outcome.leaves nofun nofun fun hu => hu.1 hmade
    | some line =>
      dsimp only
      rw [if_pos hm]
      cases hg : gather s.singlepart (stdin.content.length + 2) (some line) [] stdin with
      | none =>
        have hmade : made s = [] := by
          unfold made
          simp only [hf, hg]
        exact Outcome.leaves nofun nofun fun hu => hu.1 hmade
      | some g =>
        cases g with
        | overrun =>
          have hmade : made s = [] := by
            unfold made
            simp only [hf, hg]
          exact Outcome.leaves nofun nofun fun hu => hu.1 hmade
        | message parts stdin' =>
          have hmade : made s = parts := by
            unfold made
            simp only [hf, hg]
          rw [hmade]
          dsimp only
          by_cases hparts : parts = []
          · unfold State.sendMessage
            rw [if_pos hparts]
            exact Outcome.stays hpc ⟨rfl, rfl⟩ hparts (fun _ => rfl) fun hu => hu.1 hparts
          · have hsends := sendMessage_outcome (s := s)
              (t := { s with stdin := stdin', message := parts }) htoggles hpc hsend hparts env
              (env.iteration s) (by rw [← hmade]; rfl) (by rw [← hmade]; rfl)
            exact hsends.congr ⟨fun hu => hu.2, fun hu => ⟨hparts, hu⟩⟩

/-- the test of stdin, in an iteration that has received nothing -/
theorem stdinBranch_outcome {s : State} (h : Toggling s) {b : Bool} (hin : s.stdinInput = .ok b)
    (hsend : b = true → s.canSend = true) (hpc : s.pc = .reading) (hm : s.message = [])
    (env : Calls) :
    Outcome (b = true ∧ made s ≠ [] ∧ env.LeavesUnfinished (made s).length) (env.wire (made s)) s
      (s.stdinBranch (env.iteration s)).1 (s.stdinBranch (env.iteration s)).2 := by
  unfold State.stdinBranch
  rw [if_pos h.stdin, hin]
  cases b with
  | true =>
    have hblock := stdinBlock_outcome h.toggles hpc (hsend rfl) hm env
    exact hblock.congr ⟨fun hu => hu.2, fun hu => ⟨rfl, hu⟩⟩
  | false =>
    dsimp only
    split
    · exact Outcome.leaves nofun nofun nofun
    · exact Outcome.stays hpc ⟨rfl, rfl⟩ hm (fun _ => rfl) nofun

theorem iterate_outcome {s t : State} {env : Calls} {e : List Event} (h : Toggling s)
    (hpc : s.pc = .reading) (hm : s.message = []) (hlegal : s.LegalPoll (env.iteration s))
    (hs : s.iterate (env.iteration s) = (t, e)) :
    Outcome (Unfinished s env) (env.wire (made s)) s t e := by
  have hpolled := h.polled (env.iteration s)
  obtain ⟨b, hb, hrecv⟩ := h.wired.socketInput hlegal
  obtain ⟨b', hb', hsend⟩ := h.wired.stdinInput hlegal h.stdin
  rw [h.wired.iterate] at hs
  cases hp : (s.prepared.poll (env.iteration s).zmqPoll).2 with
  | error x =>
    have hno : ¬ Unfinished s env := fun hu => nomatch hp.symm.trans hu.1
    rw [hp] at hs
    obtain ⟨rfl, rfl⟩ := Prod.mk.inj hs
    exact Outcome.leaves nofun nofun hno
  | ok reports =>
    rw [hp] at hs
    cases reports with
    | false =>
      have hno : ¬ Unfinished s env := fun hu => nomatch hp.symm.trans hu.1
      obtain ⟨rfl, rfl⟩ := Prod.mk.inj hs
      exact Outcome.stays hpc ⟨rfl, rfl⟩ hm (fun _ => rfl) hno
    | true =>
      have hdispatch : (s.polled (env.iteration s)).dispatch (env.iteration s) = (t, e) := hs
      cases b with
      | false =>
        have hbranch := stdinBranch_outcome hpolled hb' hsend hpc hm env
        rw [State.dispatch_silent hb hpc] at hdispatch
        obtain ⟨rfl, rfl⟩ := Prod.mk.inj hdispatch
        apply Outcome.polled
        have hu : Unfinished s env ↔ b' = true ∧ made s ≠ [] ∧
            env.LeavesUnfinished (made s).length := by
          unfold Unfinished
          rw [hb', Except.ok.injEq]
          exact ⟨fun hu => hu.2, fun hu => ⟨hp, hu⟩⟩
        cases hbranch with
        | leaves hpc ha hno => exact Outcome.leaves hpc ha fun h => hno (hu.mp h)
        | stays hpc hflags hm he hno =>
          exact Outcome.stays hpc hflags hm he fun h => hno (hu.mp h)
        | sends hpc hs hflags hm he hc =>
          exact Outcome.sends hpc hs hflags hm he (hc.trans (not_congr hu).symm)
      | true =>
        -- a message has come in, and stdin was not polled for input
        have hcanRecv : s.canRecv = true := hrecv rfl
        obtain rfl := h.stdin_silent hpc hcanRecv hsend
        have hno : ¬ Unfinished s env := fun hu => nomatch hb'.symm.trans hu.2.1
        cases hreceived : env.received with
        | error x =>
          rw [dispatch_threw hb hcanRecv hreceived] at hdispatch
          obtain ⟨rfl, rfl⟩ := Prod.mk.inj hdispatch
          exact Outcome.leaves nofun nofun hno
        | ok parts =>
          rw [dispatch_message hpolled hb' hb hpc hcanRecv hreceived] at hdispatch
          obtain ⟨rfl, rfl⟩ := Prod.mk.inj hdispatch
          exact Outcome.leaves nofun nofun hno

/-! ## runs -/

/-- what a session is in, whatever has become of the messages -/
structure Session.Sound (p : Session) : Prop where
  toggling : Toggling p.client
  empty : p.client.pc = .reading → p.client.message = []

theorem session_step {p q : Session} {env : Calls} {e : List Event}
    (h : p.step env = some (q, e)) :
    p.client.pc = .reading ∧ p.client.iterate (env.iteration p.client) = (q.client, e) ∧
      q.sending = e.foldl (protocol (env.wire (made p.client))) p.sending := by
  obtain ⟨⟨t, e'⟩, hs, hq⟩ := Option.map_eq_some_iff.mp h
  obtain ⟨rfl, rfl⟩ := Prod.mk.inj hq
  obtain ⟨hpc, hit⟩ := step_iterate hs
  exact ⟨hpc, hit, rfl⟩

/-- **An iteration keeps the flags true to the socket iff it leaves no message unfinished.** -/
theorem step_mirrors {p q : Session} {env : Calls} {e : List Event} (h : p.Sound)
    (hmirrors : p.Mirrors) (hlegal : p.LegalPoll env) (hs : p.step env = some (q, e)) :
    q.Mirrors ↔ ¬ Unfinished p.client env := by
  obtain ⟨hpc, hit, hsending⟩ := session_step hs
  unfold Session.Mirrors
  cases iterate_outcome h.toggling hpc (h.empty hpc) hlegal hit with
  | leaves hleft ha hno => exact ⟨fun _ => hno, fun _ => ⟨ha, fun h => absurd h hleft⟩⟩
  | stays hpc' hflags hm he hno =>
    refine ⟨fun _ => hno, fun _ => ⟨?_, fun _ => ?_⟩⟩
    · rw [hpc']
      exact nofun
    · rw [hflags.1, hflags.2, hsending, he]
      exact hmirrors.2 hpc
  | sends hpc' hsend hflags hm he hu =>
    have hstate : p.sending = true := by rw [← (hmirrors.2 hpc).2, hsend]
    rw [hflags.1, hflags.2, hsending, he, hstate, Bool.true_and, ← hu]
    constructor
    · intro hq
      simpa using (hq.2 hpc').2
    · intro hcompletes
      refine ⟨?_, fun _ => ⟨rfl, ?_⟩⟩
      · rw [hpc']
        exact nofun
      · rw [hcompletes]
        rfl

theorem step_sound {p q : Session} {env : Calls} {e : List Event} (h : p.Sound)
    (hlegal : p.LegalPoll env) (hs : p.step env = some (q, e)) : q.Sound := by
  obtain ⟨hpc, hit, -⟩ := session_step hs
  refine ⟨(iterate_cases h.toggling hpc hlegal hit).1, ?_⟩
  cases iterate_outcome h.toggling hpc (h.empty hpc) hlegal hit with
  | leaves hleft ha hno => exact fun h => absurd h hleft
  | stays hpc' hflags hm he hno => exact fun _ => hm
  | sends hpc' hsend hflags hm he hu => exact fun _ => hm

omit [VectorGrowth] in
theorem begin_sound {type : SocketType} (htype : type = .request ∨ type = .reply)
    {singlepart : Bool} {socket : Handle} {fileno : Fd} {stdin : Stdin} {s : State}
    (h : start type singlepart socket fileno stdin = some s) :
    (Session.begin type s).Sound ∧ (Session.begin type s).Mirrors := by
  have htoggling := start_toggling htype h
  rcases htype with rfl | rfl
  · obtain ⟨-, rfl⟩ := start_eq rfl rfl h
    exact ⟨⟨htoggling, fun _ => rfl⟩, nofun, fun _ => ⟨rfl, rfl⟩⟩
  · obtain ⟨-, rfl⟩ := start_eq rfl rfl h
    exact ⟨⟨htoggling, fun _ => rfl⟩, nofun, fun _ => ⟨rfl, rfl⟩⟩

/-- **The flags of the client mirror the state of its socket iff no message is left unfinished**, in
every run of the loop of a request or a reply socket. -/
theorem flags_mirror_iff (type : SocketType) (htype : type = .request ∨ type = .reply)
    (singlepart : Bool) (socket : Handle) (fileno : Fd) (stdin : Stdin) (s₀ : State)
    (hstart : start type singlepart socket fileno stdin = some s₀) (ls : List Calls) (p : Session)
    (es : List Event) (hr : session.exec (Session.begin type s₀) ls = some (p, es))
    (hlegal : session.Along Session.LegalPoll (Session.begin type s₀) ls) :
    session.Throughout (fun p _ => p.Mirrors) (Session.begin type s₀) ls ↔
      session.Along (fun p env => ¬ Unfinished p.client env) (Session.begin type s₀) ls := by
  obtain ⟨hsound, hmirrors⟩ := begin_sound htype hstart
  exact Lib.Machine.throughout_iff_along (fun p _ => p.Sound) (fun p _ => p.Mirrors)
    (fun p tr env q e h hbase hs => step_sound h hbase hs)
    (fun p tr env q e h hp hbase hs => step_mirrors h hp hbase hs) [] hsound hmirrors hlegal hr

/-- whatever becomes of the messages, the assertions of the loop hold -/
theorem assertions_hold {type : SocketType} (htype : type = .request ∨ type = .reply)
    {singlepart : Bool} {socket : Handle} {fileno : Fd} {stdin : Stdin} {s₀ : State}
    (hstart : start type singlepart socket fileno stdin = some s₀) {ls : List Calls} {p : Session}
    {es : List Event} (hr : session.exec (Session.begin type s₀) ls = some (p, es))
    (hlegal : session.Along Session.LegalPoll (Session.begin type s₀) ls) :
    p.client.pc ≠ .aborted := by
  obtain ⟨hsound, hmirrors⟩ := begin_sound htype hstart
  have hrun := Lib.Machine.exec_state (fun p => p.Sound ∧ p.client.pc ≠ .aborted)
    (fun p env q e h hbase hs => by
      refine ⟨step_sound h.1 hbase hs, ?_⟩
      obtain ⟨hpc, hit, -⟩ := session_step hs
      cases iterate_outcome h.1.toggling hpc (h.1.empty hpc) hbase hit with
      | leaves hleft ha hno => exact ha
      | stays hpc' hflags hm he hno =>
        rw [hpc']
        exact nofun
      | sends hpc' hsend hflags hm he hu =>
        rw [hpc']
        exact nofun)
    ⟨hsound, hmirrors.1⟩ hlegal hr
  exact hrun.2

end

/-- the first call of a send has that result, the others accept -/
def firstCall (r : SendResult) : Script where
  result k := if k = 0 then r else .accepted
  atomic k hk := by
    rw [if_neg (Nat.ne_of_gt hk)]
    exact nofun

/-- the line is sent by the second send -/
def secondAttempt : Calls where
  zmqPoll := oneRequest.answer 0 pollIn
  first := firstCall (.failed .eagain)

theorem request_legal : Poller.Legal oneRequest.prepared (oneRequest.answer 0 pollIn) :=
  (start_wired rfl rfl (start_request _)).answer_legal (by decide) (by decide) (by decide)

theorem flags_mirror_second_attempt :
    letI : VectorGrowth := ⟨fun n => n + 1⟩
    ∃ p es, session.exec (Session.begin .request oneRequest) [secondAttempt] = some (p, es) ∧
      session.Throughout (fun p _ => p.Mirrors) (Session.begin .request oneRequest)
        [secondAttempt] := by
  let _ : VectorGrowth := ⟨fun n => n + 1⟩
  have hlegal : session.Along Session.LegalPoll (Session.begin .request oneRequest)
      [secondAttempt] := ⟨request_legal, fun _ _ _ => trivial⟩
  refine ⟨_, _, rfl, ?_⟩
  apply (flags_mirror_iff .request (Or.inl rfl) false 7 0 _ _ (start_request _) _ _ _ rfl
    hlegal).mpr
  refine ⟨?_, fun _ _ _ => trivial⟩
  -- no call is interrupted, and the second send is not refused
  intro hu
  have hfirst : ∀ k, secondAttempt.first.result k ≠ .failed .eintr := by
    intro k
    show (if k = 0 then _ else _) ≠ _
    split <;> exact nofun
  rcases hu.2.2.2 with hlast | ⟨-, (h | h) | hlast⟩
  · exact hfirst _ hlast.2
  · cases h
  · cases h
  · cases hlast.2

/-- neither send hands the line over -/
def bothRefused : Calls where
  zmqPoll := oneRequest.answer 0 pollIn
  first := firstCall (.failed .eagain)
  second := firstCall (.failed .eintr)

/-- **A request that is not sent is waited for**: the line is discarded, and `can_recv` is set
although the socket still waits for a request to send. -/
theorem discarded_request_not_mirrored :
    letI : VectorGrowth := ⟨fun n => n + 1⟩
    ∃ p es, start .request false 7 0 { deliveries := [ascii "a\n\n"] } = some oneRequest ∧
      session.exec (Session.begin .request oneRequest) [bothRefused] = some (p, es) ∧
      session.Along Session.LegalPoll (Session.begin .request oneRequest) [bothRefused] ∧
      ¬ session.Throughout (fun p _ => p.Mirrors) (Session.begin .request oneRequest)
        [bothRefused] := by
  let _ : VectorGrowth := ⟨fun n => n + 1⟩
  have hrun : (session.exec (Session.begin .request oneRequest) [bothRefused]).map (fun r =>
      (r.1.client.pc, r.1.client.canSend, r.1.sending)) = some (.reading, false, true) := by
    decide +kernel
  obtain ⟨⟨p, es⟩, hr, hp⟩ := Option.map_eq_some_iff.mp hrun
  simp only [Prod.mk.injEq] at hp
  obtain ⟨hpc, hsend, hsending⟩ := hp
  refine ⟨p, es, rfl, hr, ⟨request_legal, fun _ _ _ => trivial⟩, ?_⟩
  intro hall
  have hmirrors := (hall [bothRefused] [] p es rfl hr).2 hpc
  rw [hsend, hsending] at hmirrors
  exact nomatch hmirrors.2

end Client
end Zmqpp
