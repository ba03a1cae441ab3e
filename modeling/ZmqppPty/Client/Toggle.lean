import ZmqppPty.Client.Basic

/-!
# Requests and replies in the command line client (client/main.cpp)

A request or a reply socket toggles between sending and receiving.  The test that leaves the
loop reads the flags of the end of the iteration, the poll those of its beginning.

* `Kept`                   what the branches of the loop's body leave as it is;
* `Toggling`                one flag is set at the head of the loop;
* `iterate_cases`           an iteration that receives a message leaves the loop, and any other
                            one leaves it only if stdin was polled;
* `exits_monitored_iff`     so the loop is left as it should be iff no message is received.
-/

namespace Zmqpp
namespace Client

/-! ## what stays -/

/-- the poller and what is in it, and the options -/
structure Kept (s t : State) : Prop where
  poller : t.poller = s.poller
  socket : t.socket = s.socket
  standardin : t.standardin = s.standardin
  toggles : t.toggles = s.toggles
  singlepart : t.singlepart = s.singlepart

theorem Kept.refl (s : State) : Kept s s := ⟨rfl, rfl, rfl, rfl, rfl⟩

theorem Kept.trans {s t u : State} (h : Kept s t) (h' : Kept t u) : Kept s u :=
  ⟨h'.poller.trans h.poller, h'.socket.trans h.socket, h'.standardin.trans h.standardin,
    h'.toggles.trans h.toggles, h'.singlepart.trans h.singlepart⟩

theorem Kept.wired {s t : State} (h : Kept s t) (hs : s.Wired) : t.Wired := by
  obtain ⟨m, hrep, hsock, hfd⟩ := hs
  refine ⟨m, ?_, ?_, ?_⟩
  · rw [h.poller]
    exact hrep
  · rw [h.socket]
    exact hsock
  · rw [h.standardin]
    exact hfd

theorem Kept.stdinInput {s t : State} (h : Kept s t) : t.stdinInput = s.stdinInput := by
  unfold State.stdinInput
  rw [h.poller, h.standardin]

/-- the event is the end of a send -/
def Event.Sending : Event → Prop
  | .sent _ | .dropped _ => True
  | _ => False

/-- what the sending of a message does -/
structure Sends (s t : State) (e : List Event) : Prop where
  kept : Kept s t
  events : ∀ ev ∈ e, ev.Sending
  flags : t.pc = .reading → (t.canSend = s.canSend ∧ t.canRecv = s.canRecv) ∨
    (t.canSend = false ∧ t.canRecv = true)

theorem Sends.of_none {s t : State} (h : Kept s t)
    (hflags : t.canSend = s.canSend ∧ t.canRecv = s.canRecv) : Sends s t [] :=
  ⟨h, nofun, fun _ => Or.inl hflags⟩

theorem trySend_sends (s : State) (env : Iteration) :
    Sends s (s.trySend env).1 (s.trySend env).2 ∧
      (s.trySend env).1.canSend = s.canSend ∧ (s.trySend env).1.canRecv = s.canRecv := by
  have hone : ∀ ev : Event, ev.Sending → ∀ ev' ∈ [ev], ev'.Sending := by
    intro ev hev ev' hmem
    rw [List.mem_singleton.mp hmem]
    exact hev
  unfold State.trySend
  split
  · exact ⟨Sends.of_none ⟨rfl, rfl, rfl, rfl, rfl⟩ ⟨rfl, rfl⟩, rfl, rfl⟩
  · exact ⟨⟨⟨rfl, rfl, rfl, rfl, rfl⟩, hone _ trivial, fun _ => Or.inl ⟨rfl, rfl⟩⟩, rfl, rfl⟩
  · split
    · exact ⟨Sends.of_none ⟨rfl, rfl, rfl, rfl, rfl⟩ ⟨rfl, rfl⟩, rfl, rfl⟩
    · exact ⟨⟨⟨rfl, rfl, rfl, rfl, rfl⟩, hone _ trivial, fun _ => Or.inl ⟨rfl, rfl⟩⟩, rfl, rfl⟩
    · exact ⟨⟨⟨rfl, rfl, rfl, rfl, rfl⟩, hone _ trivial, fun _ => Or.inl ⟨rfl, rfl⟩⟩, rfl, rfl⟩

theorem sendMessage_sends (s : State) (env : Iteration) :
    Sends s (s.sendMessage env).1 (s.sendMessage env).2 := by
  obtain ⟨hsends, hsend, hrecv⟩ := trySend_sends s env
  unfold State.sendMessage
  split
  · exact Sends.of_none (Kept.refl s) ⟨rfl, rfl⟩
  · dsimp only
    split
    · refine ⟨hsends.kept.trans ⟨rfl, rfl, rfl, rfl, rfl⟩, hsends.events, ?_⟩
      exact fun _ => Or.inr ⟨rfl, rfl⟩
    · exact ⟨hsends.kept, hsends.events, fun _ => Or.inl ⟨hsend, hrecv⟩⟩

theorem stdinBlock_sends (s : State) (env : Iteration) :
    Sends s (s.stdinBlock env).1 (s.stdinBlock env).2 := by
  unfold State.stdinBlock
  split
  · split
    · exact Sends.of_none ⟨rfl, rfl, rfl, rfl, rfl⟩ ⟨rfl, rfl⟩
    · split
      · split
        · rename_i parts stdin _
          have h := sendMessage_sends { s with stdin := stdin, message := parts } env
          exact ⟨⟨h.kept.poller, h.kept.socket, h.kept.standardin, h.kept.toggles,
            h.kept.singlepart⟩, h.events, h.flags⟩
        · exact Sends.of_none ⟨rfl, rfl, rfl, rfl, rfl⟩ ⟨rfl, rfl⟩
      · exact Sends.of_none ⟨rfl, rfl, rfl, rfl, rfl⟩ ⟨rfl, rfl⟩
  · exact Sends.of_none ⟨rfl, rfl, rfl, rfl, rfl⟩ ⟨rfl, rfl⟩

/-! ## an iteration -/

structure Toggling (s : State) : Prop where
  wired : s.Wired
  toggles : s.toggles = true
  stdin : 0 ≤ s.standardin
  flags : s.pc = .reading → s.canSend = !s.canRecv

theorem Toggling.of_kept {s t : State} (h : Toggling s) (hf : Kept s t)
    (hflags : t.pc = .reading → t.canSend = !t.canRecv) : Toggling t :=
  ⟨hf.wired h.wired, hf.toggles.trans h.toggles, hf.standardin ▸ h.stdin, hflags⟩

/-- the iteration receives a message -/
def ReceivesMessage (s : State) (env : Iteration) : Prop :=
  s.Reports env ∧ (s.polled env).socketInput = .ok true ∧ ∃ parts, env.received = .ok parts

theorem not_receivesMessage {s : State} {env : Iteration}
    (h : (s.prepared.poll env.zmqPoll).2 ≠ .ok true) : ¬ ReceivesMessage s env :=
  fun hmessage => h hmessage.1

/-- the iteration does not leave the loop, or stdin was polled -/
inductive Continues (s : State) : List Event → Prop
  | silent : Continues s []
  | body (mask : Short) (e : List Event) (he : ∀ ev ∈ e, ev.Sending) :
      Continues s (.polled mask s.stdinMask :: e)
  | exits (mask : Short) (hsend : s.canSend = true) :
      Continues s [.polled mask s.stdinMask, .exiting]

/-- the test of stdin, in an iteration that has received nothing -/
theorem stdinBranch_cases {s : State} (h : Toggling s) {b : Bool} (hin : s.stdinInput = .ok b)
    (hpc : s.pc = .reading) (env : Iteration) :
    Toggling (s.stdinBranch env).1 ∧
      ((∀ ev ∈ (s.stdinBranch env).2, ev.Sending) ∨
        (s.canSend = true ∧ (s.stdinBranch env).2 = [.exiting])) := by
  unfold State.stdinBranch
  rw [if_pos h.stdin, hin]
  cases b with
  | true =>
    have hsends := stdinBlock_sends s env
    refine ⟨h.of_kept hsends.kept ?_, Or.inl hsends.events⟩
    intro ht
    rcases hsends.flags ht with ⟨hsend, hrecv⟩ | ⟨hsend, hrecv⟩
    · rw [hsend, hrecv]
      exact h.flags hpc
    · rw [hsend, hrecv]
      rfl
  | false =>
    dsimp only
    split
    · rename_i hcond
      rw [Bool.and_eq_true] at hcond
      exact ⟨h.of_kept ⟨rfl, rfl, rfl, rfl, rfl⟩ nofun, Or.inr ⟨hcond.1, rfl⟩⟩
    · exact ⟨h, Or.inl nofun⟩

theorem Toggling.polled {s : State} (h : Toggling s) (env : Iteration) : Toggling (s.polled env) :=
  ⟨h.wired.polled env, h.toggles, h.stdin, h.flags⟩

/-- while it may receive, stdin is not polled for input -/
theorem Toggling.stdin_silent {s : State} (h : Toggling s) (hpc : s.pc = .reading)
    (hrecv : s.canRecv = true) {b : Bool} (hsend : b = true → s.canSend = true) : b = false := by
  have hcanSend : s.canSend = false := by
    rw [h.flags hpc, hrecv]
    rfl
  cases b with
  | false => rfl
  | true => exact absurd (hsend rfl) (by rw [hcanSend]; decide)

/-- an iteration without a message -/
theorem dispatch_quiet {s : State} (h : Toggling s) {b : Bool} (hin : s.stdinInput = .ok b)
    (hsocket : s.socketInput = .ok false) (hpc : s.pc = .reading) (env : Iteration) :
    Toggling (s.dispatch env).1 ∧ Continues s (s.dispatch env).2 := by
  obtain ⟨htoggling, hevents⟩ := stdinBranch_cases h hin hpc env
  rw [State.dispatch_silent hsocket hpc]
  refine ⟨htoggling, ?_⟩
  rcases hevents with hsending | ⟨hsend, hexit⟩
  · exact Continues.body _ _ hsending
  · dsimp only
    rw [hexit]
    exact Continues.exits _ hsend

/-- **An iteration with a message leaves the loop.** -/
theorem dispatch_message {s : State} (h : Toggling s) (hstdin : s.stdinInput = .ok false)
    (hsocket : s.socketInput = .ok true) (hpc : s.pc = .reading) (hrecv : s.canRecv = true)
    {env : Iteration} {parts : List Bytes} (hparts : env.received = .ok parts) :
    s.dispatch env = ({ s with canRecv := false, canSend := true, pc := .left },
      [.polled s.socketMask s.stdinMask, .received parts, .exiting]) := by
  have hreceive : s.receiveBranch env
      = ({ s with canRecv := false, canSend := true }, [.received parts]) := by
    unfold State.receiveBranch
    rw [hsocket]
    dsimp only
    rw [if_pos hrecv, hparts]
    dsimp only
    rw [if_pos h.toggles]
  have hbranch : State.stdinBranch { s with canRecv := false, canSend := true } env
      = ({ s with canRecv := false, canSend := true, pc := .left }, [.exiting]) := by
    have hkept : Kept s { s with canRecv := false, canSend := true } := ⟨rfl, rfl, rfl, rfl, rfl⟩
    unfold State.stdinBranch
    rw [hkept.stdinInput, hstdin]
    dsimp only
    rw [if_pos h.stdin]
    rfl
  unfold State.dispatch
  rw [hreceive]
  dsimp only
  rw [if_pos hpc, hbranch]
  rfl

/-- a receive that throws -/
theorem dispatch_threw {s : State} (hsocket : s.socketInput = .ok true) (hrecv : s.canRecv = true)
    {env : Iteration} {x : Exn} (hx : env.received = .error x) :
    s.dispatch env = ({ s with pc := .threw }, [.polled s.socketMask s.stdinMask]) := by
  have hreceive : s.receiveBranch env = ({ s with pc := .threw }, []) := by
    unfold State.receiveBranch
    rw [hsocket]
    dsimp only
    rw [if_pos hrecv, hx]
  unfold State.dispatch
  rw [hreceive]
  rfl

theorem iterate_cases {s t : State} {env : Iteration} {e : List Event} (h : Toggling s)
    (hpc : s.pc = .reading) (hlegal : s.LegalPoll env) (hs : s.iterate env = (t, e)) :
    Toggling t ∧ ((¬ ReceivesMessage s env ∧ Continues s e) ∨
      (ReceivesMessage s env ∧
        ∃ parts, e = [.polled s.socketMask s.stdinMask, .received parts, .exiting])) := by
  have hpolled := h.polled env
  obtain ⟨b, hb, hrecv⟩ := h.wired.socketInput hlegal
  obtain ⟨b', hb', hsend⟩ := h.wired.stdinInput hlegal h.stdin
  rw [h.wired.iterate] at hs
  cases hp : (s.prepared.poll env.zmqPoll).2 with
  | error x =>
    rw [hp] at hs
    obtain ⟨rfl, rfl⟩ := Prod.mk.inj hs
    refine ⟨hpolled.of_kept ⟨rfl, rfl, rfl, rfl, rfl⟩ nofun, Or.inl ⟨?_, Continues.silent⟩⟩
    apply not_receivesMessage
    rw [hp]
    exact nofun
  | ok reports =>
    rw [hp] at hs
    cases reports with
    | false =>
      obtain ⟨rfl, rfl⟩ := Prod.mk.inj hs
      refine ⟨hpolled, Or.inl ⟨?_, Continues.silent⟩⟩
      apply not_receivesMessage
      rw [hp]
      exact nofun
    | true =>
      have hdispatch : (s.polled env).dispatch env = (t, e) := hs
      cases b with
      | false =>
        obtain ⟨htoggling, hcontinues⟩ := dispatch_quiet hpolled hb' hb hpc env
        rw [hdispatch] at htoggling hcontinues
        refine ⟨htoggling, Or.inl ⟨?_, ?_⟩⟩
        · intro hmessage
          rw [hmessage.2.1] at hb
          cases hb
        · cases hcontinues with
          | silent => exact Continues.silent
          | body mask e he => exact Continues.body mask e he
          | exits mask hcan => exact Continues.exits mask hcan
      | true =>
        have hcanRecv : s.canRecv = true := hrecv rfl
        cases hreceived : env.received with
        | error x =>
          rw [dispatch_threw hb hcanRecv hreceived] at hdispatch
          obtain ⟨rfl, rfl⟩ := Prod.mk.inj hdispatch
          refine ⟨hpolled.of_kept ⟨rfl, rfl, rfl, rfl, rfl⟩ nofun, Or.inl ⟨?_, ?_⟩⟩
          · intro hmessage
            obtain ⟨-, -, parts, hparts⟩ := hmessage
            rw [hreceived] at hparts
            cases hparts
          · exact Continues.body _ [] nofun
        | ok parts =>
          obtain rfl := h.stdin_silent hpc hcanRecv hsend
          rw [dispatch_message hpolled hb' hb hpc hcanRecv hreceived] at hdispatch
          obtain ⟨rfl, rfl⟩ := Prod.mk.inj hdispatch
          exact ⟨hpolled.of_kept ⟨rfl, rfl, rfl, rfl, rfl⟩ nofun,
            Or.inr ⟨⟨hp, hb, parts, hreceived⟩, parts, rfl⟩⟩

/-! ## runs -/

/-- what the current iteration has polled stdin for, and whether it has received a message -/
structure Seen where
  stdinMask : Short := pollNone
  received : Bool := false

def see (x : Seen) : Event → Seen
  | .polled _ stdinMask => { stdinMask := stdinMask }
  | .received _ => { x with received := true }
  | _ => x

def seen (tr : List Event) : Seen := tr.foldl see {}

/-- the loop is left in an iteration that has polled stdin for input and received nothing -/
def ExitsMonitored (pre : List Event) (ev : Event) : Prop :=
  ev = .exiting → (seen pre).stdinMask = pollIn ∧ (seen pre).received = false

theorem seen_concat (tr : List Event) (ev : Event) : seen (tr ++ [ev]) = see (seen tr) ev :=
  List.foldl_concat ..

theorem monitored_of_ne {pre : List Event} {ev : Event} (h : ev ≠ .exiting) :
    ExitsMonitored pre ev :=
  fun heq => absurd heq h

theorem eachAfter_sending {tr e : List Event} (h : Lib.EachAfter ExitsMonitored tr)
    (he : ∀ ev ∈ e, ev.Sending) : Lib.EachAfter ExitsMonitored (tr ++ e) := by
  induction e generalizing tr with
  | nil =>
    rw [List.append_nil]
    exact h
  | cons ev e ih =>
    have hne : ev ≠ .exiting := by
      intro heq
      have hsending := he ev List.mem_cons_self
      rw [heq] at hsending
      exact hsending
    rw [List.append_cons]
    exact ih (Lib.eachAfter_concat h (monitored_of_ne hne))
      fun ev' hev' => he ev' (List.mem_cons_of_mem ev hev')

theorem Continues.monitored {s : State} {tr e : List Event} (hc : Continues s e)
    (h : Lib.EachAfter ExitsMonitored tr) : Lib.EachAfter ExitsMonitored (tr ++ e) := by
  cases hc with
  | silent =>
    rw [List.append_nil]
    exact h
  | body mask e he =>
    rw [List.append_cons]
    exact eachAfter_sending (Lib.eachAfter_concat h (monitored_of_ne nofun)) he
  | exits mask hsend =>
    have hpoll : Lib.EachAfter ExitsMonitored (tr ++ [.polled mask s.stdinMask]) :=
      Lib.eachAfter_concat h (monitored_of_ne nofun)
    rw [List.append_cons]
    apply Lib.eachAfter_concat hpoll
    intro _
    rw [seen_concat]
    refine ⟨?_, rfl⟩
    show s.stdinMask = pollIn
    unfold State.stdinMask
    rw [hsend]
    rfl

/-- the exit after a message -/
theorem not_monitored (tr : List Event) (m m' : Short) (parts : List Bytes) :
    ¬ Lib.EachAfter ExitsMonitored (tr ++ [.polled m m', .received parts, .exiting]) := by
  intro h
  have hsplit : tr ++ [.polled m m', .received parts, .exiting]
      = (tr ++ [.polled m m'] ++ [.received parts]) ++ .exiting :: [] := by
    rw [List.append_assoc, List.append_assoc]
    rfl
  have hexit := (h _ _ _ hsplit rfl).2
  rw [seen_concat] at hexit
  cases hexit

/-- the loop begins -/
theorem start_toggling {type : SocketType} (htype : type = .request ∨ type = .reply)
    {singlepart : Bool} {socket : Handle} {fileno : Fd} {stdin : Stdin} {s : State}
    (h : start type singlepart socket fileno stdin = some s) : Toggling s := by
  rcases htype with rfl | rfl
  · have hwired := start_wired rfl rfl h
    obtain ⟨hfd, rfl⟩ := start_eq rfl rfl h
    exact ⟨hwired, rfl, hfd, fun _ => rfl⟩
  · have hwired := start_wired rfl rfl h
    obtain ⟨hfd, rfl⟩ := start_eq rfl rfl h
    exact ⟨hwired, rfl, hfd, fun _ => rfl⟩

/-- **The loop of a request or reply socket is left as it should be iff no message is received.**
-/
theorem exits_monitored_iff (type : SocketType) (htype : type = .request ∨ type = .reply)
    (singlepart : Bool) (socket : Handle) (fileno : Fd) (stdin : Stdin) (s₀ : State)
    (hstart : start type singlepart socket fileno stdin = some s₀) (ls : List Iteration) (s : State)
    (es : List Event) (hr : machine.exec s₀ ls = some (s, es))
    (hlegal : machine.Along State.LegalPoll s₀ ls) :
    Lib.EachAfter ExitsMonitored es ↔
      machine.Along (fun s env => ¬ ReceivesMessage s env) s₀ ls := by
  have htoggling := start_toggling htype hstart
  constructor
  · intro hmonitored
    apply Lib.Machine.along_of_unmarked (fun s _ => Toggling s)
      (fun _ tr => ¬ Lib.EachAfter ExitsMonitored tr) _ _ _ [] htoggling hlegal hr
    · rw [List.nil_append]
      exact fun h => h hmonitored
    · intro s tr l t e h hbase hs
      obtain ⟨hpc, hit⟩ := step_iterate hs
      exact (iterate_cases h hpc hbase hit).1
    · intro s tr l t e h hbase hbad hs
      obtain ⟨hpc, hit⟩ := step_iterate hs
      rcases (iterate_cases h hpc hbase hit).2 with ⟨hno, -⟩ | ⟨-, parts, rfl⟩
      · exact absurd hno hbad
      · exact not_monitored tr _ _ parts
    · intro s tr l t e h hbad hs hmon
      exact hbad (Lib.eachAfter_of_append hmon)
  · intro hnone
    have hrun := Lib.Machine.exec_inv
      (fun s tr => Toggling s ∧ Lib.EachAfter ExitsMonitored tr) (fun s tr l t e h hok hs => by
        obtain ⟨hpc, hit⟩ := step_iterate hs
        obtain ⟨ht, hcases⟩ := iterate_cases h.1 hpc hok.1 hit
        rcases hcases with ⟨-, hc⟩ | ⟨hm, -⟩
        · exact ⟨ht, hc.monitored h.2⟩
        · exact absurd hm hok.2)
      [] ⟨htoggling, Lib.eachAfter_nil⟩ (hlegal.and hnone) hr
    exact hrun.2

/-- the loop of a request or a reply socket at its beginning -/
def toggleLoop (canSend : Bool) (stdin : Stdin) : State where
  singlepart := false
  toggles := true
  socket := 7
  standardin := 0
  poller := (({} : Poller).addSocket (some 7) pollIn).addFd 0 pollIn
  canSend := canSend
  canRecv := !canSend
  stdin := stdin

theorem start_request (stdin : Stdin) :
    start .request false 7 0 stdin = some (toggleLoop true stdin) := rfl

theorem start_reply (stdin : Stdin) :
    start .reply false 7 0 stdin = some (toggleLoop false stdin) := rfl

/-- a line and an empty line are there to be read -/
def oneRequest : State := toggleLoop true { deliveries := [ascii "a\n\n"] }

/-- a request socket sends it -/
theorem exits_monitored_request :
    ∃ s es, machine.exec oneRequest [{ zmqPoll := oneRequest.answer 0 pollIn }] = some (s, es) ∧
      (Lib.EachAfter ExitsMonitored es ↔
        machine.Along (fun s env => ¬ ReceivesMessage s env) oneRequest
          [{ zmqPoll := oneRequest.answer 0 pollIn }]) := by
  refine ⟨_, _, rfl, ?_⟩
  apply exits_monitored_iff .request (Or.inl rfl) false 7 0 _ _ (start_request _) _ _ _ rfl
  refine ⟨?_, fun _ _ _ => trivial⟩
  exact (start_wired rfl rfl (start_request _)).answer_legal (by decide) (by decide) (by decide)

/-- a reply socket receives the first request -/
def firstRequest : Iteration where
  zmqPoll := (toggleLoop false {}).answer pollIn 0
  received := .ok [ascii "a"]

theorem first_request_exits :
    ∃ s es, start .reply false 7 0 {} = some (toggleLoop false {}) ∧
      machine.exec (toggleLoop false {}) [firstRequest] = some (s, es) ∧
      machine.Along State.LegalPoll (toggleLoop false {}) [firstRequest] ∧
      ¬ Lib.EachAfter ExitsMonitored es := by
  refine ⟨_, _, rfl, rfl, ?_, not_monitored [] _ _ _⟩
  refine ⟨?_, fun _ _ _ => trivial⟩
  exact (start_wired rfl rfl (start_reply _)).answer_legal (by decide) (by decide) (by decide)

end Client
end Zmqpp
