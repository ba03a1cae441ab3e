import ZmqppPty.Client.Input

/-!
# What the command line client sends of a pipe (client/main.cpp)

The reader loop of a socket that only sends.  Every iteration that finds input sends one message;
the first one that finds none leaves the loop, and finds none because the pipe is drained.

* `PipePoll`             `zmq_poll` sees the pipe, not the buffer, and a message is sent;
* `Feeding`              the loop, with the lines that are still to come;
* `reads`, `exits`       an iteration with input and one without;
* `feeding_run`          what a run has sent, together with the messages that are still to come;
* `no_input_lost_iff`    all messages are sent iff nothing but empty lines follows the first message
                         in `lastRead`.
-/

namespace Zmqpp
namespace Client

open Lib.Lines (unlines complete)

/-! ## one iteration -/

/-- the iteration's poll and its sends -/
structure PipePoll (s : State) (env : Iteration) : Prop where
  legal : s.LegalPoll env
  /-- only a signal makes `zmq_poll` fail -/
  interrupts : env.zmqPoll.result < 0 → env.zmqPoll.errno = .eintr
  /-- input is reported for a chunk that is still in the pipe, and for nothing else -/
  ready : s.Reports env → ((s.polled env).stdinInput = .ok true ↔ s.stdin.deliveries ≠ [])
  sends : env.send = .ok true ∨ (env.send = .ok false ∧ env.sendBlocking = .ok true)

/-- the messages of a trace -/
def sent (es : List Event) : List (List Bytes) :=
  es.filterMap fun ev =>
    match ev with
    | .sent parts => some parts
    | _ => none

theorem sent_append (es es' : List Event) : sent (es ++ es') = sent es ++ sent es' :=
  List.filterMap_append ..

theorem sent_map (messages : List (List Bytes)) : sent (messages.map Event.sent) = messages := by
  induction messages with
  | nil => rfl
  | cons message messages ih => exact congrArg (message :: ·) ih

/-- the loop of a socket that only sends, and the lines that are still to come -/
structure Feeding (tail : Bytes) (s : State) (lines : List Bytes) : Prop where
  wired : s.Wired
  standardin : 0 ≤ s.standardin
  toggles : s.toggles = false
  canSend : s.canSend = true
  canRecv : s.canRecv = false
  message : s.message = []
  offers : Offers s.stdin lines
  drains : Drains tail s.singlepart s.stdin lines

theorem Feeding.polled {tail : Bytes} {s : State} {lines : List Bytes} (h : Feeding tail s lines)
    (env : Iteration) : Feeding tail (s.polled env) lines :=
  ⟨h.wired.polled env, h.standardin, h.toggles, h.canSend, h.canRecv, h.message, h.offers,
    h.drains⟩

theorem Feeding.setPc {tail : Bytes} {s : State} {lines : List Bytes} (h : Feeding tail s lines)
    (pc : Pc) : Feeding tail { s with pc := pc } lines :=
  ⟨h.wired, h.standardin, h.toggles, h.canSend, h.canRecv, h.message, h.offers, h.drains⟩

/-- the event of a message, if there is one -/
theorem sendMessage_eq {s : State} (htoggles : s.toggles = false) {env : Iteration}
    (hsends : env.send = .ok true ∨ (env.send = .ok false ∧ env.sendBlocking = .ok true)) :
    s.sendMessage env = ({ s with message := [] },
      (if s.message = [] then [] else [s.message]).map Event.sent) := by
  have htry : s.trySend env = ({ s with message := [] }, [.sent s.message]) := by
    unfold State.trySend
    rcases hsends with hsend | ⟨hsend, hblocking⟩
    · rw [hsend]
    · rw [hsend, hblocking]
  unfold State.sendMessage
  by_cases hm : s.message = []
  · rw [if_pos hm, if_pos hm, ← hm]
    rfl
  · rw [if_neg hm, if_neg hm, htry]
    dsimp only
    rw [htoggles, Bool.and_false, if_neg Bool.false_ne_true]
    rfl

/-- **One message is made of the lines and sent.** -/
theorem stdinBlock_eq {tail : Bytes} {s : State} {lines : List Bytes} (h : Feeding tail s lines)
    (hin : s.stdin.deliveries ≠ []) {env : Iteration}
    (hsends : env.send = .ok true ∨ (env.send = .ok false ∧ env.sendBlocking = .ok true)) :
    ∃ stdin, s.stdinBlock env = ({ s with stdin := stdin, message := [] },
        (if firstMessage s.singlepart lines = [] then [] else [firstMessage s.singlepart lines]).map
          Event.sent) ∧
      Feeding tail { s with stdin := stdin, message := [] } (linesAfter s.singlepart lines) := by
  cases lines with
  | nil => exact absurd (fgets_end h.offers).1 hin
  | cons l lines =>
    obtain ⟨stdin', hline, ho', hend, hsome⟩ := fgets_line h.offers
    have hl := h.offers.fits l List.mem_cons_self
    -- what the first line leaves
    have hfollows : Follows tail stdin' (l :: lines) := h.drains.lastRead_eq hin ▸ hsome hin
    obtain ⟨stdin, hgather, ho, hd⟩ :=
      gather_message hl ho' (hfollows.drains h.offers.fits s.singlepart)
    rw [List.nil_append] at hgather
    refine ⟨stdin, ?_, h.wired, h.standardin, h.toggles, h.canSend, h.canRecv, rfl, ho, hd⟩
    unfold State.stdinBlock
    rw [if_pos h.canSend, hline]
    dsimp only
    rw [if_pos h.message, hgather]
    let made : State :=
      { s with stdin := stdin, message := firstMessage s.singlepart (l :: lines) }
    exact @sendMessage_eq made h.toggles env hsends

/-- nothing arrives on the socket -/
theorem Feeding.iterate {tail : Bytes} {s : State} {lines : List Bytes} (h : Feeding tail s lines)
    (hpc : s.pc = .reading) {env : Iteration} (hpipe : PipePoll s env) (hreports : s.Reports env) :
    s.iterate env = (((s.polled env).stdinBranch env).1,
      .polled s.socketMask s.stdinMask :: ((s.polled env).stdinBranch env).2) := by
  obtain ⟨b, hb, hrecv⟩ := h.wired.socketInput hpipe.legal
  have hsocket : (s.polled env).socketInput = .ok false := by
    cases b with
    | false => exact hb
    | true => exact absurd (hrecv rfl) (by rw [h.canRecv]; decide)
  have hreported : (s.prepared.poll env.zmqPoll).2 = .ok true := hreports
  rw [h.wired.iterate, hreported]
  exact State.dispatch_silent hsocket hpc env

/-- **An iteration with input.** -/
theorem Feeding.reads {tail : Bytes} {s : State} {lines : List Bytes} (h : Feeding tail s lines)
    (hpc : s.pc = .reading) {env : Iteration} (hpipe : PipePoll s env) (hreports : s.Reports env)
    (hin : s.stdin.deliveries ≠ []) :
    ∃ t e, s.iterate env = (t, e) ∧ t.pc = .reading ∧ t.singlepart = s.singlepart ∧
      Feeding tail t (linesAfter s.singlepart lines) ∧
      sent e ++ messagesOf s.singlepart (linesAfter s.singlepart lines)
        = messagesOf s.singlepart lines := by
  obtain ⟨stdin, hblock, hfeeding⟩ := stdinBlock_eq (h.polled env) hin hpipe.sends
  have hinput := (hpipe.ready hreports).mpr hin
  have hbranch : (s.polled env).stdinBranch env = (s.polled env).stdinBlock env := by
    unfold State.stdinBranch
    rw [if_pos (h.polled env).standardin, hinput]
  rw [h.iterate hpc hpipe hreports, hbranch, hblock]
  refine ⟨_, _, rfl, hpc, rfl, hfeeding, ?_⟩
  rw [messagesOf_eq s.singlepart lines]
  congr 1
  exact sent_map _

/-- **An iteration without.** -/
theorem Feeding.exits {tail : Bytes} {s : State} {lines : List Bytes} (h : Feeding tail s lines)
    (hpc : s.pc = .reading) {env : Iteration} (hpipe : PipePoll s env) (hreports : s.Reports env)
    (hin : s.stdin.deliveries = []) :
    s.iterate env
      = ({ s.polled env with pc := .left }, [.polled s.socketMask s.stdinMask, .exiting]) := by
  obtain ⟨b, hb, -⟩ := h.wired.stdinInput hpipe.legal h.standardin
  have hnone : b = false := by
    cases b with
    | false => rfl
    | true => exact absurd hin ((hpipe.ready hreports).mp hb)
  subst hnone
  have hcond : ((s.polled env).canSend && !(s.polled env).canRecv) = true := by
    rw [(h.polled env).canSend, (h.polled env).canRecv]
    rfl
  have hbranch : (s.polled env).stdinBranch env
      = ({ s.polled env with pc := .left }, [.exiting]) := by
    unfold State.stdinBranch
    rw [if_pos (h.polled env).standardin, hb]
    dsimp only
    rw [if_pos hcond]
  rw [h.iterate hpc hpipe hreports, hbranch]

/-! ## runs -/

/-- what has been sent and what is still to come, together -/
structure Fed (tail : Bytes) (singlepart : Bool) (messages : List (List Bytes)) (s : State)
    (tr : List Event) : Prop where
  mode : s.singlepart = singlepart
  lines : ∃ lines, Feeding tail s lines ∧ sent tr ++ messagesOf singlepart lines = messages
  drained : s.pc = .reading ∨ (s.pc = .left ∧ s.stdin.deliveries = [])

theorem Fed.iterate {tail : Bytes} {singlepart : Bool} {messages : List (List Bytes)}
    {s t : State} {tr e : List Event} {env : Iteration} (h : Fed tail singlepart messages s tr)
    (hpc : s.pc = .reading) (hpipe : PipePoll s env) (hs : s.iterate env = (t, e)) :
    Fed tail singlepart messages t (tr ++ e) := by
  obtain ⟨lines, hfeeding, htotal⟩ := h.lines
  obtain ⟨reports, hreports⟩ := s.prepared.poll_returns hpipe.interrupts
  cases reports with
  | false =>
    -- a signal, or nothing at all
    rw [hfeeding.wired.iterate, hreports] at hs
    obtain ⟨rfl, rfl⟩ := Prod.mk.inj hs
    rw [List.append_nil]
    exact ⟨h.mode, ⟨lines, hfeeding.polled env, htotal⟩, Or.inl hpc⟩
  | true =>
    by_cases hin : s.stdin.deliveries = []
    · rw [hfeeding.exits hpc hpipe hreports hin] at hs
      obtain ⟨rfl, rfl⟩ := Prod.mk.inj hs
      refine ⟨h.mode, ⟨lines, (hfeeding.polled env).setPc .left, ?_⟩, Or.inr ⟨rfl, hin⟩⟩
      rw [sent_append]
      show sent tr ++ [] ++ _ = _
      rw [List.append_nil, htotal]
    · obtain ⟨t', e', heq, hpc', hmode, hfeeding', hsent⟩ :=
        hfeeding.reads hpc hpipe hreports hin
      obtain ⟨rfl, rfl⟩ := Prod.mk.inj (heq.symm.trans hs)
      rw [h.mode] at hfeeding' hsent
      refine ⟨hmode.trans h.mode, ⟨_, hfeeding', ?_⟩, Or.inl hpc'⟩
      rw [sent_append, List.append_assoc, hsent, htotal]

/-- **What a run has sent**, together with what is still to come, are all the messages. -/
theorem feeding_run {tail : Bytes} {s t : State} {lines : List Bytes} {ls : List Iteration}
    {es : List Event} (h : Feeding tail s lines) (hpc : s.pc = .reading)
    (hpipe : machine.Along PipePoll s ls) (hr : machine.exec s ls = some (t, es)) :
    Fed tail s.singlepart (messagesOf s.singlepart lines) t es := by
  have hrun := Lib.Machine.exec_inv (Fed tail s.singlepart (messagesOf s.singlepart lines))
    (fun s tr env t e h hok hs => by
      obtain ⟨hpc, hit⟩ := step_iterate hs
      exact h.iterate hpc hok hit)
    [] ⟨rfl, ⟨lines, h, rfl⟩, Or.inl hpc⟩ hpipe hr
  exact hrun

/-- when the loop is left, the lines after the first message of `tail` are still in the buffer -/
theorem Fed.left {tail : Bytes} {singlepart : Bool} {messages : List (List Bytes)} {s : State}
    {tr : List Event} (h : Fed tail singlepart messages s tr) (hpc : s.pc = .left) :
    sent tr ++ messagesOf singlepart (linesAfter singlepart (complete newline tail))
      = messages := by
  obtain ⟨lines, hfeeding, htotal⟩ := h.lines
  have hend : s.stdin.deliveries = [] := by
    rcases h.drained with hreading | ⟨-, hend⟩
    · rw [hpc] at hreading
      cases hreading
    · exact hend
  rcases hfeeding.drains with ⟨hne, -⟩ | ⟨-, ls, rfl, hfits, hls⟩
  · exact absurd hend hne
  · rw [Lib.Lines.complete_unlines fun l hl => (hfits l hl).newline, ← h.mode, hls, h.mode, htotal]

/-- `zmq_poll` on the pipe -/
def pipeAnswer (s : State) : Iteration where
  zmqPoll := s.answer 0 (if s.stdin.deliveries = [] then pollError else pollIn)

theorem Feeding.pipeAnswer_legal {tail : Bytes} {s : State} {lines : List Bytes}
    (h : Feeding tail s lines) : PipePoll s (pipeAnswer s) := by
  have hmask : s.stdinMask = pollIn := by
    unfold State.stdinMask
    rw [h.canSend]
    rfl
  refine ⟨h.wired.answer_legal BitVec.zero_and ?_ h.standardin, ?_, ?_, Or.inl rfl⟩
  · rw [hmask]
    split
    · decide
    · decide
  · exact fun hneg => absurd hneg (by decide : ¬ (1 : ℤ) < 0)
  · intro _
    rw [h.wired.answer_stdin 0 _ h.standardin rfl]
    by_cases hin : s.stdin.deliveries = []
    · rw [if_pos hin]
      exact iff_of_false (by decide) (fun hne => hne hin)
    · rw [if_neg hin]
      exact iff_of_true (by decide) hin

/-- **The loop can always be left.** -/
theorem Feeding.leaves {tail : Bytes} {s : State} {lines : List Bytes} (h : Feeding tail s lines)
    (hpc : s.pc = .reading) :
    ∃ ls t es, machine.exec s ls = some (t, es) ∧ machine.Along PipePoll s ls ∧ t.pc = .left := by
  induction hn : lines.length using Nat.strong_induction_on generalizing s lines with
  | _ n ih =>
    have hpipe := h.pipeAnswer_legal
    have hreports : s.Reports (pipeAnswer s) := s.reports_answer _ _
    by_cases hin : s.stdin.deliveries = []
    · have hstep := step_of_iterate hpc (h.exits hpc hpipe hreports hin)
      exact ⟨[pipeAnswer s], _, _, Lib.Machine.exec_cons_of hstep (Lib.Machine.exec_nil _),
        Lib.Machine.Along.cons hstep hpipe trivial, rfl⟩
    · obtain ⟨t, e, hit, hpc', -, hfeeding, -⟩ := h.reads hpc hpipe hreports hin
      have hstep := step_of_iterate hpc hit
      cases lines with
      | nil => exact absurd (fgets_end h.offers).1 hin
      | cons l lines =>
        have hless := linesAfter_length s.singlepart l lines
        rw [List.length_cons] at hn
        obtain ⟨ls, u, es, hexec, halong, hleft⟩ := ih _ (by omega) hfeeding hpc' rfl
        exact ⟨pipeAnswer s :: ls, u, _, Lib.Machine.exec_cons_of hstep hexec,
          Lib.Machine.Along.cons hstep hpipe halong, hleft⟩

/-! ## the whole stream -/

/-- a socket that only sends -/
theorem start_feeding {type : SocketType} (htype : type = .push ∨ type = .publish)
    {singlepart : Bool} {socket : Handle} {fileno : Fd} {deliveries lines : List Bytes}
    (hfits : ∀ l ∈ lines, Fits l) (hchunks : ∀ d ∈ deliveries, d ≠ [])
    (hstream : deliveries.flatten = unlines newline lines) {s : State}
    (h : start type singlepart socket fileno { deliveries := deliveries } = some s) :
    Feeding (lastRead { deliveries := deliveries }) s lines ∧ s.pc = .reading ∧
      s.singlepart = singlepart := by
  have hflags : type.flags = some ⟨true, false, false⟩ := by
    rcases htype with rfl | rfl
    · rfl
    · rfl
  have hwired := start_wired hflags rfl h
  obtain ⟨hfd, rfl⟩ := start_eq hflags rfl h
  refine ⟨⟨hwired, hfd, rfl, rfl, rfl, rfl, ⟨hstream, hchunks, hfits⟩, ?_⟩, rfl, rfl⟩
  by_cases hin : deliveries = []
  · subst hin
    obtain rfl : lines = [] := Lib.Lines.unlines_eq_nil.mp hstream.symm
    exact Or.inr ⟨rfl, [], rfl, nofun, linesAfter_nil singlepart⟩
  · exact Or.inl ⟨hin, rfl⟩

/-- **No input is lost iff nothing but empty lines follows the first message of the text that is
read last.** -/
theorem no_input_lost_iff (type : SocketType) (htype : type = .push ∨ type = .publish)
    (singlepart : Bool) (socket : Handle) (fileno : Fd) (deliveries lines : List Bytes)
    (hfits : ∀ l ∈ lines, Fits l) (hchunks : ∀ d ∈ deliveries, d ≠ [])
    (hstream : deliveries.flatten = unlines newline lines) (s₀ : State)
    (hstart : start type singlepart socket fileno { deliveries := deliveries } = some s₀) :
    (∀ ls s es, machine.exec s₀ ls = some (s, es) → machine.Along PipePoll s₀ ls →
        s.pc = .left → sent es = messagesOf singlepart lines) ↔
      ∀ l ∈ linesAfter singlepart (complete newline (lastRead { deliveries := deliveries })),
        l = [] := by
  obtain ⟨hfeeding, hpc, rfl⟩ := start_feeding htype hfits hchunks hstream hstart
  rw [← messagesOf_eq_nil]
  constructor
  · intro hall
    obtain ⟨ls, s, es, hr, hpipe, hleft⟩ := hfeeding.leaves hpc
    have htotal := (feeding_run hfeeding hpc hpipe hr).left hleft
    rw [hall ls s es hr hpipe hleft] at htotal
    exact List.append_right_eq_self.mp htotal
  · intro hnone ls s es hr hpipe hleft
    have htotal := (feeding_run hfeeding hpc hpipe hr).left hleft
    rw [hnone, List.append_nil] at htotal
    exact htotal

/-- the loop of a push socket at its beginning, one part a message -/
def pushLoop (deliveries : List Bytes) : State where
  singlepart := true
  toggles := false
  socket := 7
  standardin := 0
  poller := (({} : Poller).addSocket (some 7) pollIn).addFd 0 pollIn
  canSend := true
  canRecv := false
  stdin := { deliveries := deliveries }

theorem start_push (deliveries : List Bytes) :
    start .push true 7 0 { deliveries := deliveries } = some (pushLoop deliveries) := rfl

theorem fits_ab : ∀ l ∈ [ascii "a", ascii "b"], Fits l := by
  intro l hl
  rcases List.mem_cons.mp hl with rfl | hl
  · exact ⟨by decide, by decide, by decide⟩
  · obtain rfl := List.mem_singleton.mp hl
    exact ⟨by decide, by decide, by decide⟩

theorem pushLoop_feeding {deliveries : List Bytes} (hchunks : ∀ d ∈ deliveries, d ≠ [])
    (hstream : deliveries.flatten = unlines newline [ascii "a", ascii "b"]) :
    Feeding (lastRead { deliveries := deliveries }) (pushLoop deliveries)
      [ascii "a", ascii "b"] :=
  (start_feeding (Or.inl rfl) fits_ab hchunks hstream (start_push deliveries)).1

/-- both lines are sent if they are read one after the other -/
theorem no_input_lost_apart :
    ∃ ls s es, machine.exec (pushLoop [ascii "a\n", ascii "b\n"]) ls = some (s, es) ∧
      machine.Along PipePoll (pushLoop [ascii "a\n", ascii "b\n"]) ls ∧ s.pc = .left ∧
      sent es = messagesOf true [ascii "a", ascii "b"] := by
  have hall := (no_input_lost_iff .push (Or.inl rfl) true 7 0 [ascii "a\n", ascii "b\n"]
    [ascii "a", ascii "b"] fits_ab (by decide) (by decide) _ (start_push _)).mpr (by decide)
  obtain ⟨ls, s, es, hr, hpipe, hleft⟩ :=
    (@pushLoop_feeding [ascii "a\n", ascii "b\n"] (by decide) (by decide)).leaves rfl
  exact ⟨ls, s, es, hr, hpipe, hleft, hall ls s es hr hpipe hleft⟩

/-- the second line is lost if it is read with the first -/
theorem second_line_lost :
    [ascii "a\nb\n"].flatten = unlines newline [ascii "a", ascii "b"] ∧
      start .push true 7 0 { deliveries := [ascii "a\nb\n"] }
        = some (pushLoop [ascii "a\nb\n"]) ∧
      ∃ ls s es, machine.exec (pushLoop [ascii "a\nb\n"]) ls = some (s, es) ∧
        machine.Along PipePoll (pushLoop [ascii "a\nb\n"]) ls ∧ s.pc = .left ∧
        sent es = [[ascii "a"]] ∧ messagesOf true [ascii "a", ascii "b"] ≠ sent es := by
  refine ⟨by decide, start_push _, ?_⟩
  have hfeeding := @pushLoop_feeding [ascii "a\nb\n"] (by decide) (by decide)
  obtain ⟨ls, s, es, hr, hpipe, hleft⟩ := hfeeding.leaves rfl
  have hrest : messagesOf true (linesAfter true (complete newline
      (lastRead { deliveries := [ascii "a\nb\n"] }))) = [[ascii "b"]] := by decide
  have htotal : sent es ++ [[ascii "b"]] = [[ascii "a"]] ++ [[ascii "b"]] :=
    hrest ▸ (feeding_run hfeeding rfl hpipe hr).left hleft
  have hsent := List.append_cancel_right htotal
  refine ⟨ls, s, es, hr, hpipe, hleft, hsent, ?_⟩
  rw [hsent]
  decide

end Client
end Zmqpp
