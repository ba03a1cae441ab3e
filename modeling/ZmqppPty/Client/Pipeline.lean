import ZmqppPty.Client.Console
import ZmqppPty.Client.Mirror
import ZmqppPty.Client.Piped
import ZmqppPty.Socket.Messages

/-!
# Two clients (client/main.cpp)

A client that pushes the lines of its input, a client that pulls and prints, and the connection
between their sockets.  The two take turns in any order, one iteration of their loops a turn.

* `Pipeline`, `Turn`, `pipeline`  the system: what the sends of an iteration hand over goes into the
                                  pipe, and what an iteration prints is taken from it by `printLoop`;
* `Whole`, `Undisturbed`          turns whose sends hand over all of a message, and whose receives
                                  only interrupts disturb;
* `Flows`                         what has been sent has been printed or is in the pipe, in order;
* `pipeline_prints_input`         what has been printed is the beginning of the input;
* `relayed_as_printed`            and as the input of a third client it is the same messages.
-/

namespace Zmqpp
namespace Client

open Socket (Pipe Attempt InFrame Inbox OnlyInterrupts printLoop arrived wireFrames byOne)
open Lib.Lines (unlines complete)

structure Pipeline where
  pusher : State
  pipe : Pipe := {}
  puller : State

inductive Turn where
  | push (env : Calls)
  /-- the calls of `receive`, if the poll reports a message -/
  | pull (zmqPoll : ZmqPoll) (schedule : List Attempt)

inductive Observed where
  | pushed (ev : Event)
  | pulled (ev : Event)
deriving DecidableEq

/-- the iteration finds data on stdin and makes a message of it -/
def Tries (s : State) (env : Iteration) : Prop :=
  s.Reports env ∧ (s.polled env).stdinInput = .ok true ∧ made s ≠ []

/-- the iteration finds a message on the socket -/
def Takes (s : State) (env : Iteration) : Prop :=
  s.Reports env ∧ (s.polled env).socketInput = .ok true

instance (s : State) (env : Iteration) : Decidable (Tries s env) :=
  inferInstanceAs (Decidable (_ = _ ∧ _ = _ ∧ _ ≠ _))

instance (s : State) (env : Iteration) : Decidable (Takes s env) :=
  inferInstanceAs (Decidable (_ = _ ∧ _ = _))

section
variable [VectorGrowth]

namespace Pipeline

/-- the pipe when the iteration of the pusher has handed over what it sends -/
def fill (p : Pipeline) (env : Calls) : Pipe :=
  if Tries p.pusher (env.iteration p.pusher) then
    p.pipe.pushAll (arrived (env.wire (made p.pusher)))
  else p.pipe

def step (p : Pipeline) : Turn → Option (Pipeline × List Observed)
  | .push env =>
    (Client.step p.pusher (env.iteration p.pusher)).map fun r =>
      ({ p with pusher := r.1, pipe := p.fill env }, r.2.map .pushed)
  | .pull zmqPoll schedule =>
    if Takes p.puller { zmqPoll := zmqPoll } then
      match printLoop schedule p.pipe.inbox [] with
      | none => none
      | some run =>
        (Client.step p.puller
            { zmqPoll := zmqPoll, received := run.outcome.map fun _ => run.lines }).map fun r =>
          ({ p with puller := r.1, pipe := { p.pipe with inbox := run.inbox } }, r.2.map .pulled)
    else
      (Client.step p.puller { zmqPoll := zmqPoll }).map fun r =>
        ({ p with puller := r.1 }, r.2.map .pulled)

end Pipeline

def pipeline : Lib.Machine Pipeline Turn Observed := ⟨Pipeline.step⟩

end

/-- the events of the pusher -/
def pushed (tr : List Observed) : List Event :=
  tr.filterMap fun ev =>
    match ev with
    | .pushed ev => some ev
    | .pulled _ => none

/-- the messages that were received, as they are printed -/
def received (es : List Event) : List (List Bytes) :=
  es.filterMap fun ev =>
    match ev with
    | .received lines => some lines
    | _ => none

/-- what the puller has printed, message by message -/
def printed (tr : List Observed) : List (List Bytes) :=
  tr.filterMap fun ev =>
    match ev with
    | .pulled (.received lines) => some lines
    | _ => none

theorem pushed_append (tr e : List Observed) : pushed (tr ++ e) = pushed tr ++ pushed e :=
  List.filterMap_append ..

theorem printed_append (tr e : List Observed) : printed (tr ++ e) = printed tr ++ printed e :=
  List.filterMap_append ..

theorem pushed_map (es : List Event) : pushed (es.map Observed.pushed) = es := by
  induction es with
  | nil => rfl
  | cons ev es ih => exact congrArg (ev :: ·) ih

theorem printed_map (es : List Event) : printed (es.map Observed.pushed) = [] := by
  induction es with
  | nil => rfl
  | cons ev es ih => exact ih

theorem pushed_map_pulled (es : List Event) : pushed (es.map Observed.pulled) = [] := by
  induction es with
  | nil => rfl
  | cons ev es ih => exact ih

theorem printed_map_pulled (es : List Event) : printed (es.map Observed.pulled) = received es := by
  induction es with
  | nil => rfl
  | cons ev es ih =>
    cases ev with
    | received lines => exact congrArg (lines :: ·) ih
    | polled _ _ => exact ih
    | sent _ => exact ih
    | dropped _ => exact ih
    | exiting => exact ih

/-! ## the turns of the pusher -/

/-- all calls of a send accept the `n` parts, those of the second one if the first is refused -/
def Calls.SendsAll (env : Calls) (n : ℕ) : Prop :=
  (∀ k < n, env.first.result k = .accepted) ∨
    (env.first.Refused ∧ ∀ k < n, env.second.result k = .accepted)

section
variable [VectorGrowth]

theorem Script.wire_accepted {script : Script} {dont_block : Bool} {parts : List Bytes}
    (hne : parts ≠ []) (h : ∀ k < parts.length, script.result k = .accepted) :
    script.send dont_block parts = .ok true ∧
      arrived (script.wire dont_block parts) = wireFrames parts := by
  have hsend : script.send dont_block parts = .ok true :=
    (send_true hne).mpr fun k hk => Or.inl (h k hk)
  refine ⟨hsend, ?_⟩
  have hpay : (messageOf parts).payloads = parts := by
    unfold Message.payloads
    rw [messageOf_elems, List.map_map]
    exact List.map_id _
  have hsays := (Socket.send_says_iff (messageOf parts) dont_block script.result).mpr
    (Or.inr fun k hk => ⟨h k (messageOf_count parts ▸ hk), messageOf_unsent parts k⟩)
  unfold Script.send at hsend
  rw [sendResult_eq_ok] at hsend
  rw [if_pos hsend, hpay] at hsays
  unfold arrived Script.wire
  rw [← hsays, Socket.map_framesOf]

/-- **What a turn hands over** is the message that it makes. -/
theorem Calls.SendsAll.wire {env : Calls} {parts : List Bytes} (h : env.SendsAll parts.length)
    (hne : parts ≠ []) : arrived (env.wire parts) = wireFrames parts := by
  unfold Calls.wire
  rcases h with h | ⟨hrefused, h⟩
  · obtain ⟨hsend, hwire⟩ := @Script.wire_accepted _ env.first true parts hne h
    rw [hsend, if_neg (by simp), List.append_nil, hwire]
  · have hsend : env.first.send true parts = .ok false := (send_false hne).mpr hrefused
    rw [if_pos hsend, wire_refused hsend, List.nil_append]
    exact (Script.wire_accepted hne h).2

theorem Calls.SendsAll.sends {env : Calls} {s : State} (h : env.SendsAll (made s).length)
    (hne : made s ≠ []) :
    (env.iteration s).send = .ok true ∨
      ((env.iteration s).send = .ok false ∧ (env.iteration s).sendBlocking = .ok true) := by
  rcases h with h | ⟨hrefused, h⟩
  · exact Or.inl (Script.wire_accepted hne h).1
  · exact Or.inr ⟨(send_false hne).mpr hrefused, (Script.wire_accepted hne h).1⟩

end

/-- the message that the iteration makes of the lines -/
theorem Feeding.made_eq {tail : Bytes} {s : State} {lines : List Bytes} (h : Feeding tail s lines)
    (hin : s.stdin.deliveries ≠ []) : made s = firstMessage s.singlepart lines := by
  cases lines with
  | nil => exact absurd (fgets_end h.offers).1 hin
  | cons l lines =>
    obtain ⟨stdin', hline, ho', hend, hsome⟩ := fgets_line h.offers
    have hl := h.offers.fits l List.mem_cons_self
    have hfollows : Follows tail stdin' (l :: lines) := h.drains.lastRead_eq hin ▸ hsome hin
    obtain ⟨stdin, hgather, -, -⟩ :=
      gather_message hl ho' (hfollows.drains h.offers.fits s.singlepart)
    unfold made
    rw [hline]
    dsimp only
    rw [hgather, List.nil_append]

/-- an iteration that makes no message does not look at the results of the sends -/
theorem stdinBlock_unsent {s : State} (hm : made s = []) (env env' : Iteration) :
    s.stdinBlock env = s.stdinBlock env' := by
  unfold made at hm
  unfold State.stdinBlock
  split
  · cases hline : fgets bufferSize s.stdin with
    | mk result stdin =>
      cases result with
      | none => rfl
      | some line =>
        rw [hline] at hm
        dsimp only at hm ⊢
        split
        · cases hgather : gather s.singlepart (stdin.content.length + 2) (some line) [] stdin with
          | none => rfl
          | some g =>
            cases g with
            | message parts stdin' =>
              rw [hgather] at hm
              cases (show parts = [] from hm)
              rfl
            | overrun => rfl
        · rfl
  · rfl

theorem receiveBranch_stdin (s : State) (env : Iteration) :
    (s.receiveBranch env).1.stdin = s.stdin ∧
      (s.receiveBranch env).1.singlepart = s.singlepart := by
  unfold State.receiveBranch
  split
  · exact ⟨rfl, rfl⟩
  · exact ⟨rfl, rfl⟩
  · split
    · split
      · exact ⟨rfl, rfl⟩
      · split
        · exact ⟨rfl, rfl⟩
        · exact ⟨rfl, rfl⟩
    · exact ⟨rfl, rfl⟩

theorem made_congr {s t : State} (h : t.stdin = s.stdin ∧ t.singlepart = s.singlepart) :
    made t = made s := by
  unfold made
  rw [h.1, h.2]

theorem iterate_unsent {s : State} (hm : made s = []) {env env' : Iteration}
    (hpoll : env.zmqPoll = env'.zmqPoll) (hreceived : env.received = env'.received) :
    s.iterate env = s.iterate env' := by
  have hdispatch : ∀ p : Poller,
      State.dispatch { s with poller := p } env = State.dispatch { s with poller := p } env' := by
    intro p
    have hrecv : State.receiveBranch { s with poller := p } env
        = State.receiveBranch { s with poller := p } env' := by
      unfold State.receiveBranch
      rw [hreceived]
    have hstdin : (State.receiveBranch { s with poller := p } env').1.stdinBranch env
        = (State.receiveBranch { s with poller := p } env').1.stdinBranch env' := by
      have hkept := made_congr (receiveBranch_stdin { s with poller := p } env')
      unfold State.stdinBranch
      rw [stdinBlock_unsent (hkept.trans hm) env env']
    unfold State.dispatch
    rw [hrecv]
    dsimp only
    rw [hstdin]
  unfold State.iterate
  rw [hpoll]
  split
  · rfl
  · split
    · rfl
    · rfl
    · exact hdispatch _

/-- the events of an iteration say what it sends -/
theorem Feeding.sent_eq {tail : Bytes} {s t : State} {lines : List Bytes} {env : Iteration}
    {e : List Event} (h : Feeding tail s lines) (hpc : s.pc = .reading) (hpipe : PipePoll s env)
    (hs : s.iterate env = (t, e)) : sent e = if Tries s env then [made s] else [] := by
  obtain ⟨reports, hreports⟩ := s.prepared.poll_returns hpipe.interrupts
  cases reports with
  | false =>
    have hno : ¬ Tries s env := fun htries => by
      have := htries.1
      unfold State.Reports at this
      rw [hreports] at this
      cases this
    rw [if_neg hno]
    rw [h.wired.iterate, hreports] at hs
    obtain ⟨-, rfl⟩ := Prod.mk.inj hs
    rfl
  | true =>
    by_cases hin : s.stdin.deliveries = []
    · have hno : ¬ Tries s env := fun htries => (hpipe.ready hreports).mp htries.2.1 hin
      rw [if_neg hno]
      rw [h.exits hpc hpipe hreports hin] at hs
      obtain ⟨-, rfl⟩ := Prod.mk.inj hs
      rfl
    · obtain ⟨t', e', heq, -, -, -, hsent⟩ := h.reads hpc hpipe hreports hin
      obtain ⟨-, rfl⟩ := Prod.mk.inj (heq.symm.trans hs)
      rw [messagesOf_eq s.singlepart lines] at hsent
      rw [List.append_cancel_right hsent, ← h.made_eq hin]
      have htries : Tries s env ↔ made s ≠ [] :=
        ⟨fun htries => htries.2.2, fun hne => ⟨hreports, (hpipe.ready hreports).mpr hin, hne⟩⟩
      by_cases hm : made s = []
      · rw [if_pos hm, if_neg (fun h => htries.mp h hm)]
      · rw [if_neg hm, if_pos (htries.mpr hm)]

section
variable [VectorGrowth]

/-- The poll of the pusher is that of a pipe, and its sends hand over all of a message. -/
structure Whole (s : State) (env : Calls) : Prop where
  legal : s.LegalPoll (env.iteration s)
  interrupts : env.zmqPoll.result < 0 → env.zmqPoll.errno = .eintr
  ready : s.Reports (env.iteration s) →
    ((s.polled (env.iteration s)).stdinInput = .ok true ↔ s.stdin.deliveries ≠ [])
  sends : made s ≠ [] → env.SendsAll (made s).length

/-- the iteration, where one that makes no message is taken to send it -/
theorem Whole.pipePoll {s : State} {env : Calls} (h : Whole s env) :
    ∃ it, PipePoll s it ∧ s.iterate it = s.iterate (env.iteration s) ∧
      (Tries s it ↔ Tries s (env.iteration s)) := by
  by_cases hm : made s = []
  · refine ⟨{ env.iteration s with send := .ok true }, ⟨h.legal, h.interrupts, h.ready, Or.inl rfl⟩,
      iterate_unsent hm rfl rfl, Iff.rfl⟩
  · exact ⟨env.iteration s, ⟨h.legal, h.interrupts, h.ready, (h.sends hm).sends hm⟩, rfl, Iff.rfl⟩

/-- **A turn of the pusher.** -/
theorem Fed.turn {tail : Bytes} {singlepart : Bool} {messages : List (List Bytes)} {s t : State}
    {tr e : List Event} {env : Calls} (h : Fed tail singlepart messages s tr)
    (hwhole : Whole s env) (hs : Client.step s (env.iteration s) = some (t, e)) :
    Fed tail singlepart messages t (tr ++ e) ∧
      sent e = if Tries s (env.iteration s) then [made s] else [] := by
  obtain ⟨hpc, hs⟩ := step_iterate hs
  obtain ⟨it, hpipe, hit, htries⟩ := hwhole.pipePoll
  rw [← hit] at hs
  obtain ⟨lines, hfeeding, -⟩ := h.lines
  refine ⟨h.iterate hpc hpipe hs, ?_⟩
  rw [hfeeding.sent_eq hpc hpipe hs]
  simp only [htries]

end

/-! ## the turns of the puller -/

/-- the loop of a socket that only receives -/
structure Pulling (s : State) : Prop where
  wired : s.Wired
  standardin : s.standardin < 0
  toggles : s.toggles = false
  canRecv : s.canRecv = true

theorem Pulling.polled {s : State} (h : Pulling s) (env : Iteration) : Pulling (s.polled env) :=
  ⟨h.wired.polled env, h.standardin, h.toggles, h.canRecv⟩

/-- **A turn of the puller**: it receives iff the poll says so. -/
theorem Pulling.iterate {s : State} (h : Pulling s) (hpc : s.pc = .reading) {env : Iteration}
    (hlegal : s.LegalPoll env) (hintr : env.zmqPoll.result < 0 → env.zmqPoll.errno = .eintr)
    {lines : List Bytes} (hreceived : Takes s env → env.received = .ok lines) :
    ∃ e, s.iterate env = (s.polled env, e) ∧
      received e = if Takes s env then [lines] else [] := by
  obtain ⟨reports, hreports⟩ := s.prepared.poll_returns hintr
  rw [h.wired.iterate, hreports]
  cases reports with
  | false =>
    have hno : ¬ Takes s env := fun htakes => by
      have := htakes.1
      unfold State.Reports at this
      rw [hreports] at this
      cases this
    exact ⟨[], rfl, by rw [if_neg hno]; rfl⟩
  | true =>
    obtain ⟨b, hb, -⟩ := h.wired.socketInput hlegal
    have hstd : ¬ 0 ≤ (s.polled env).standardin := not_le.mpr h.standardin
    cases b with
    | false =>
      have hno : ¬ Takes s env := fun htakes => by
        rw [htakes.2] at hb
        cases hb
      refine ⟨[.polled (s.polled env).socketMask (s.polled env).stdinMask], ?_, by rw [if_neg hno]; rfl⟩
      dsimp only
      rw [State.dispatch_silent hb hpc]
      unfold State.stdinBranch
      rw [if_neg hstd]
    | true =>
      have htakes : Takes s env := ⟨hreports, hb⟩
      refine ⟨[.polled (s.polled env).socketMask (s.polled env).stdinMask, .received lines], ?_,
        by rw [if_pos htakes]; rfl⟩
      have hrecv : (s.polled env).receiveBranch env = (s.polled env, [.received lines]) := by
        unfold State.receiveBranch
        rw [hb, hreceived htakes]
        dsimp only
        rw [if_pos (h.polled env).canRecv, (h.polled env).toggles, if_neg Bool.false_ne_true]
      dsimp only
      unfold State.dispatch
      rw [hrecv]
      dsimp only
      rw [if_pos (show (s.polled env).pc = .reading from hpc)]
      unfold State.stdinBranch
      rw [if_neg hstd]
      rfl

theorem start_pulling {singlepart : Bool} {socket : Handle} {fileno : Fd} {stdin : Stdin}
    {s : State} (h : start .pull singlepart socket fileno stdin = some s) :
    Pulling s ∧ s.pc = .reading := by
  obtain rfl := Option.some.inj h
  have hstd : (-1 : Fd) < 0 := by decide
  refine ⟨⟨⟨_, Poller.Represents.init.add (k := .sock socket) pollIn rfl, ?_, ?_⟩,
    hstd, rfl, rfl⟩, rfl⟩
  · rw [Function.update_self]
    exact Option.some_ne_none _
  · exact fun hpos => absurd hstd (not_lt.mpr hpos)

/-! ## runs -/

/-- The poll of the puller is legal, and its receives are disturbed by interrupts alone; if it is
`calm`, not even by them. -/
structure Undisturbed (calm : Prop) (s : State) (zmqPoll : ZmqPoll) (schedule : List Attempt) :
    Prop where
  legal : s.LegalPoll { zmqPoll := zmqPoll }
  interrupts : zmqPoll.result < 0 → zmqPoll.errno = .eintr
  only : OnlyInterrupts schedule
  runs : calm → ∀ a ∈ schedule, a = .runs

section
variable [VectorGrowth]

def Turn.Ok (calm : Prop) (p : Pipeline) : Turn → Prop
  | .push env => Whole p.pusher env
  | .pull zmqPoll schedule => Undisturbed calm p.puller zmqPoll schedule

/-- the lines of `shown` are those of the messages with empty ones between them, or none if it is
calm -/
structure Shows (calm : Prop) (shown taken : List (List Bytes)) : Prop where
  lines : shown.flatten.filter (· ≠ []) = taken.flatten.filter (· ≠ [])
  messages : calm → shown = taken

omit [VectorGrowth] in
theorem Shows.append {calm : Prop} {shown taken shown' taken' : List (List Bytes)}
    (h : Shows calm shown taken) (h' : Shows calm shown' taken') :
    Shows calm (shown ++ shown') (taken ++ taken') where
  lines := by
    rw [List.flatten_append, List.flatten_append, List.filter_append, List.filter_append, h.lines,
      h'.lines]
  messages hcalm := by rw [h.messages hcalm, h'.messages hcalm]

/-- what has been sent has been taken, and printed, or is in the pipe, message by message -/
structure Flows (tail : Bytes) (singlepart : Bool) (messages : List (List Bytes)) (calm : Prop)
    (p : Pipeline) (tr : List Observed) : Prop where
  fed : Fed tail singlepart messages p.pusher (pushed tr)
  pulling : Pulling p.puller
  held : p.pipe.held = []
  rcvMore : p.pipe.inbox.rcvMore = false
  flow : ∃ taken inFlight, sent (pushed tr) = taken ++ inFlight ∧
    p.pipe.inbox.queue = inFlight.flatMap wireFrames ∧ (∀ m ∈ inFlight, m ≠ []) ∧
    Shows calm (printed tr) taken

omit [VectorGrowth] in
/-- what one `printLoop` takes of the messages in the queue -/
theorem printLoop_takes {calm : Prop} {schedule : List Attempt} {s : Inbox}
    {inFlight : List (List Bytes)} {run : Socket.PrintRun}
    (hq : s.queue = inFlight.flatMap wireFrames) (hne : ∀ m ∈ inFlight, m ≠ [])
    (hmore : s.rcvMore = false) (honly : OnlyInterrupts schedule)
    (hcalm : calm → ∀ a ∈ schedule, a = .runs) (h : printLoop schedule s [] = some run) :
    run.outcome = .ok () ∧ run.inbox.rcvMore = false ∧ ∃ taken rest, inFlight = taken ++ rest ∧
      run.inbox.queue = rest.flatMap wireFrames ∧ Shows calm [run.lines] taken := by
  cases inFlight with
  | nil =>
    -- nothing is there, and only an interrupt ends the call
    cases schedule with
    | nil => cases h
    | cons a schedule =>
      have ha : a = .fails .eintr := by
        rcases honly a List.mem_cons_self with rfl | ha
        · unfold printLoop Socket.receiveString Socket.receivePart Socket.takePart
            Socket.zmqMsgRecv at h
          rw [hq] at h
          cases h
        · exact ha
      subst ha
      rw [Socket.printLoop_eintr, if_neg (by rw [hmore]; exact Bool.false_ne_true)] at h
      rw [← Option.some.inj h]
      refine ⟨rfl, hmore, [], [], rfl, hq, rfl, fun hc => ?_⟩
      cases hcalm hc _ List.mem_cons_self
  | cons m rest =>
    have hm : m ≠ [] := hne m List.mem_cons_self
    obtain ⟨hout, hcases⟩ := Socket.printLoop_message hm hq hmore honly h
    refine ⟨hout, Socket.printLoop_ends h hout, ?_⟩
    rcases hcases with ⟨hqueue, used, hused, hlines⟩ | ⟨hhead, hinbox, hlines⟩
    · refine ⟨[m], rest, rfl, hqueue, ?_, fun hc => ?_⟩
      · rw [List.flatten_singleton, List.flatten_singleton, hlines,
          Socket.filter_linesOf hused.count_eq]
      · rw [hlines, (Socket.linesOf_eq_iff hused).mpr fun a ha =>
          hcalm hc a (List.mem_of_mem_take ha)]
    · rw [hinbox, hlines]
      refine ⟨[], m :: rest, rfl, hq, rfl, fun hc => ?_⟩
      cases schedule with
      | nil => cases hhead
      | cons a schedule =>
        rw [hcalm hc a List.mem_cons_self] at hhead
        cases hhead

/-- a turn of the pusher leaves the puller as it is -/
theorem push_puller {p q : Pipeline} {env : Calls} {e : List Observed}
    (h : pipeline.step p (.push env) = some (q, e)) : q.puller = p.puller := by
  obtain ⟨r, -, heq⟩ := Option.map_eq_some_iff.mp
    (show (Client.step p.pusher (env.iteration p.pusher)).map _ = some (q, e) from h)
  cases heq
  rfl

section
variable {tail : Bytes} {singlepart : Bool} {messages : List (List Bytes)} {calm : Prop}
  {p q : Pipeline} {tr e : List Observed}

/-- a turn of the pusher puts what it sends into the pipe -/
theorem Flows.push {env : Calls} (h : Flows tail singlepart messages calm p tr)
    (hok : Whole p.pusher env) (hs : pipeline.step p (.push env) = some (q, e)) :
    Flows tail singlepart messages calm q (tr ++ e) := by
  obtain ⟨taken, inFlight, hsent, hqueue, hne, hshows⟩ := h.flow
  obtain ⟨⟨t, es⟩, hstep, heq⟩ := Option.map_eq_some_iff.mp
    (show (Client.step p.pusher (env.iteration p.pusher)).map _ = _ from hs)
  cases heq
  obtain ⟨hfed, hsends⟩ := h.fed.turn hok hstep
  have hpushed : pushed (tr ++ es.map Observed.pushed) = pushed tr ++ es := by
    rw [pushed_append, pushed_map]
  have hprinted : printed (tr ++ es.map Observed.pushed) = printed tr := by
    rw [printed_append, printed_map, List.append_nil]
  by_cases htries : Tries p.pusher (env.iteration p.pusher)
  · have hmade := htries.2.2
    rw [if_pos htries] at hsends
    have hfill : p.fill env
        = ⟨[], { p.pipe.inbox with queue := p.pipe.inbox.queue ++ wireFrames (made p.pusher) }⟩ := by
      unfold Pipeline.fill
      rw [if_pos htries, (hok.sends hmade).wire hmade, Socket.pushAll_wireFrames h.held hmade]
    refine ⟨hpushed ▸ hfed, h.pulling, ?_, ?_, taken, inFlight ++ [made p.pusher], ?_, ?_, ?_,
      hprinted ▸ hshows⟩
    · rw [hfill]
    · rw [hfill]
      exact h.rcvMore
    · rw [hpushed, sent_append, hsent, hsends, List.append_assoc]
    · rw [hfill, List.flatMap_append, ← hqueue, List.flatMap_singleton]
    · intro m hm
      rcases List.mem_append.mp hm with hm | hm
      · exact hne m hm
      · rw [List.mem_singleton.mp hm]
        exact hmade
  · rw [if_neg htries] at hsends
    have hfill : p.fill env = p.pipe := if_neg htries
    refine ⟨hpushed ▸ hfed, h.pulling, ?_, ?_, taken, inFlight, ?_, ?_, hne, hprinted ▸ hshows⟩
    · rw [hfill]
      exact h.held
    · rw [hfill]
      exact h.rcvMore
    · rw [hpushed, sent_append, hsends, List.append_nil, hsent]
    · rw [hfill]
      exact hqueue

/-- a turn of the puller that prints what `printLoop` takes out of the pipe -/
theorem Flows.pull_takes {zmqPoll : ZmqPoll} {schedule : List Attempt}
    (h : Flows tail singlepart messages calm p tr)
    (hok : Undisturbed calm p.puller zmqPoll schedule)
    (htakes : Takes p.puller { zmqPoll := zmqPoll })
    (hs : pipeline.step p (.pull zmqPoll schedule) = some (q, e)) :
    Flows tail singlepart messages calm q (tr ++ e) := by
  obtain ⟨taken, inFlight, hsent, hqueue, hne, hshows⟩ := h.flow
  have hstep : (match printLoop schedule p.pipe.inbox [] with
      | none => none
      | some run =>
        (Client.step p.puller
            { zmqPoll := zmqPoll, received := run.outcome.map fun _ => run.lines }).map fun r =>
          ({ p with puller := r.1, pipe := { p.pipe with inbox := run.inbox } },
            r.2.map Observed.pulled)) = some (q, e) := (if_pos htakes).symm.trans hs
  cases hrun : printLoop schedule p.pipe.inbox [] with
  | none =>
    rw [hrun] at hstep
    cases hstep
  | some run =>
    rw [hrun] at hstep
    obtain ⟨⟨t, es⟩, hclient, heq⟩ := Option.map_eq_some_iff.mp hstep
    cases heq
    obtain ⟨hout, hmore, now, rest, rfl, hrest, hshown⟩ :=
      printLoop_takes hqueue hne h.rcvMore hok.only hok.runs hrun
    obtain ⟨hpc, hit⟩ := step_iterate hclient
    obtain ⟨es', hes, hreceived⟩ := @Pulling.iterate p.puller h.pulling hpc
      { zmqPoll := zmqPoll, received := run.outcome.map fun _ => run.lines }
      hok.legal hok.interrupts run.lines fun _ => by rw [hout]; rfl
    obtain ⟨rfl, rfl⟩ := Prod.mk.inj (hes.symm.trans hit)
    rw [if_pos (show Takes p.puller
      { zmqPoll := zmqPoll, received := run.outcome.map fun _ => run.lines } from htakes)]
      at hreceived
    have hpushed : pushed (tr ++ es'.map Observed.pulled) = pushed tr := by
      rw [pushed_append, pushed_map_pulled, List.append_nil]
    refine ⟨hpushed.symm ▸ h.fed, h.pulling.polled _, h.held, hmore, taken ++ now, rest, ?_,
      hrest, fun m hm => hne m (List.mem_append_right now hm), ?_⟩
    · rw [hpushed, hsent, List.append_assoc]
    · rw [printed_append, printed_map_pulled, hreceived]
      exact hshows.append hshown

/-- one that finds nothing to receive -/
theorem Flows.pull_idle {zmqPoll : ZmqPoll} {schedule : List Attempt}
    (h : Flows tail singlepart messages calm p tr)
    (hok : Undisturbed calm p.puller zmqPoll schedule)
    (htakes : ¬ Takes p.puller { zmqPoll := zmqPoll })
    (hs : pipeline.step p (.pull zmqPoll schedule) = some (q, e)) :
    Flows tail singlepart messages calm q (tr ++ e) := by
  obtain ⟨taken, inFlight, hsent, hqueue, hne, hshows⟩ := h.flow
  have hstep : (Client.step p.puller { zmqPoll := zmqPoll }).map (fun r =>
      ({ p with puller := r.1 }, r.2.map Observed.pulled)) = some (q, e) :=
    (if_neg htakes).symm.trans hs
  obtain ⟨⟨t, es⟩, hclient, heq⟩ := Option.map_eq_some_iff.mp hstep
  cases heq
  obtain ⟨hpc, hit⟩ := step_iterate hclient
  obtain ⟨es', hes, hreceived⟩ := @Pulling.iterate p.puller h.pulling hpc
    { zmqPoll := zmqPoll } hok.legal hok.interrupts [] fun ht => absurd ht htakes
  obtain ⟨rfl, rfl⟩ := Prod.mk.inj (hes.symm.trans hit)
  rw [if_neg htakes] at hreceived
  have hpushed : pushed (tr ++ es'.map Observed.pulled) = pushed tr := by
    rw [pushed_append, pushed_map_pulled, List.append_nil]
  have hprinted : printed (tr ++ es'.map Observed.pulled) = printed tr := by
    rw [printed_append, printed_map_pulled, hreceived, List.append_nil]
  exact ⟨hpushed.symm ▸ h.fed, h.pulling.polled _, h.held, h.rcvMore, taken, inFlight,
    hpushed ▸ hsent, hqueue, hne, hprinted ▸ hshows⟩

theorem Flows.step {turn : Turn} (h : Flows tail singlepart messages calm p tr)
    (hok : turn.Ok calm p) (hs : pipeline.step p turn = some (q, e)) :
    Flows tail singlepart messages calm q (tr ++ e) := by
  cases turn with
  | push env => exact h.push hok hs
  | pull zmqPoll schedule =>
    by_cases htakes : Takes p.puller { zmqPoll := zmqPoll }
    · exact h.pull_takes hok htakes hs
    · exact h.pull_idle hok htakes hs

end

/-- two clients at their beginning -/
structure Begins (singlepart : Bool) (lines : List Bytes) (deliveries : List Bytes)
    (p : Pipeline) : Prop where
  fits : ∀ l ∈ lines, Fits l
  chunks : ∀ d ∈ deliveries, d ≠ []
  stream : deliveries.flatten = unlines newline lines
  pusher : ∃ socket fileno,
    start .push singlepart socket fileno { deliveries := deliveries } = some p.pusher
  pipe : p.pipe = {}
  puller : ∃ singlepart socket fileno stdin, start .pull singlepart socket fileno stdin
    = some p.puller

omit [VectorGrowth] in
theorem Begins.flows {singlepart : Bool} {lines deliveries : List Bytes} {p : Pipeline}
    (h : Begins singlepart lines deliveries p) (calm : Prop) :
    Flows (lastRead { deliveries := deliveries }) singlepart (messagesOf singlepart lines) calm p
      [] := by
  obtain ⟨socket, fileno, hpush⟩ := h.pusher
  obtain ⟨_, _, _, _, hpull⟩ := h.puller
  obtain ⟨hfeeding, hpc, hmode⟩ := start_feeding (Or.inl rfl) h.fits h.chunks h.stream hpush
  refine ⟨⟨hmode, ⟨lines, hfeeding, rfl⟩, Or.inl hpc⟩, (start_pulling hpull).1, ?_, ?_, [], [], rfl,
    ?_, nofun, rfl, fun _ => rfl⟩
  · rw [h.pipe]
  · rw [h.pipe]
  · rw [h.pipe]
    rfl

theorem Begins.run {singlepart : Bool} {lines deliveries : List Bytes} {p q : Pipeline}
    (h : Begins singlepart lines deliveries p) {calm : Prop} {turns : List Turn}
    {tr : List Observed} (hok : pipeline.Along (Turn.Ok calm) p turns)
    (hr : pipeline.exec p turns = some (q, tr)) :
    Flows (lastRead { deliveries := deliveries }) singlepart (messagesOf singlepart lines) calm q
      tr :=
  Lib.Machine.exec_inv (Flows _ _ _ calm) (fun _ _ _ _ _ h hok hs => h.step hok hs) []
    (h.flows calm) hok hr

omit [VectorGrowth] in
/-- the lines of the messages -/
theorem lines_of_messagesOf (singlepart : Bool) (lines : List Bytes) :
    (messagesOf singlepart lines).flatten = lines.filter fun l => l ≠ [] := by
  cases singlepart with
  | false => exact Lib.Lines.flatten_runs lines
  | true =>
    show ((lines.filter fun l => l ≠ []).map fun l => [l]).flatten = _
    rw [← List.flatMap_def, List.flatMap_singleton']

/-- **What has been printed is the beginning of the input**, whatever the order of the turns and
the chunks that the input comes in: line by line if interrupts disturb the receives, where they only
add empty lines, and message by message if they do not.  When the pusher has left its loop and the
pipe is empty, all has been printed but what it leaves in its buffer. -/
theorem pipeline_prints_input (singlepart : Bool) (lines deliveries : List Bytes) (p q : Pipeline)
    (turns : List Turn) (tr : List Observed) (calm : Prop)
    (hbegins : Begins singlepart lines deliveries p)
    (hok : pipeline.Along (Turn.Ok calm) p turns) (hr : pipeline.exec p turns = some (q, tr)) :
    ((printed tr).flatten.filter (· ≠ []) <+: lines.filter (· ≠ []) ∧
      (q.pusher.pc = .left → q.pipe.inbox.queue = [] →
        (printed tr).flatten.filter (· ≠ []) ++ (linesAfter singlepart
            (complete newline (lastRead { deliveries := deliveries }))).filter (· ≠ [])
          = lines.filter (· ≠ []))) ∧
      (calm → printed tr <+: messagesOf singlepart lines ∧
        (q.pusher.pc = .left → q.pipe.inbox.queue = [] →
          printed tr ++ messagesOf singlepart (linesAfter singlepart
              (complete newline (lastRead { deliveries := deliveries })))
            = messagesOf singlepart lines)) := by
  have hflows := hbegins.run hok hr
  obtain ⟨taken, inFlight, hsent, hqueue, hne, hshows⟩ := hflows.flow
  obtain ⟨rest, -, htotal⟩ := hflows.fed.lines
  rw [hsent, List.append_assoc] at htotal
  -- nothing is in flight at the end
  have hend : q.pusher.pc = .left → q.pipe.inbox.queue = [] →
      taken ++ messagesOf singlepart (linesAfter singlepart
        (complete newline (lastRead { deliveries := deliveries })))
        = messagesOf singlepart lines := by
    intro hleft hempty
    have hnone : inFlight = [] := by
      cases inFlight with
      | nil => rfl
      | cons m inFlight =>
        rw [hempty, List.flatMap_cons] at hqueue
        have hm := (List.append_eq_nil_iff.mp hqueue.symm).1
        exact absurd ((List.append_nil _).trans hm)
          (Socket.wireFrames_ne_nil (hne m List.mem_cons_self) [])
    have htaken := hflows.fed.left hleft
    rwa [hsent, hnone, List.append_nil] at htaken
  refine ⟨⟨?_, fun hleft hempty => ?_⟩, fun hcalm => ?_⟩
  · have hlines : taken.flatten <+: lines.filter (· ≠ []) := by
      rw [← lines_of_messagesOf singlepart lines, ← htotal, List.flatten_append]
      exact List.prefix_append ..
    rw [hshows.lines]
    simpa using hlines.filter (· ≠ [])
  · have hlines := congrArg List.flatten (hend hleft hempty)
    rw [List.flatten_append, lines_of_messagesOf, lines_of_messagesOf] at hlines
    have hfilter := congrArg (List.filter (· ≠ [])) hlines
    rw [hshows.lines]
    simpa using hfilter
  · rw [hshows.messages hcalm]
    exact ⟨⟨_, htotal⟩, hend⟩

omit [VectorGrowth] in
/-- the messages of lines that `fgets` returns in one piece -/
theorem messagesOf_fits {singlepart : Bool} {lines : List Bytes} (hfits : ∀ l ∈ lines, Fits l) :
    ∀ m ∈ messagesOf singlepart lines, m ≠ [] ∧ ∀ part ∈ m, part ≠ [] ∧ Fits part := by
  intro m hm
  refine ⟨?_, fun part hpart => ?_⟩
  · cases singlepart with
    | false => exact of_decide_eq_true (List.mem_filter.mp hm).2
    | true =>
      obtain ⟨l, -, rfl⟩ := List.mem_map.mp hm
      exact List.cons_ne_nil l []
  · have hmem := List.mem_flatten_of_mem hm hpart
    rw [lines_of_messagesOf] at hmem
    obtain ⟨hline, hne⟩ := List.mem_filter.mp hmem
    exact ⟨of_decide_eq_true hne, hfits part hline⟩

/-- **What has been printed can be sent on.**  As the input of a third client, in any chunks, it is
the messages that the first one has made, whether that one makes a message of each line or not. -/
theorem relayed_as_printed (options : ClientOptions) (hplain : options.annotate = false)
    (singlepart : Bool) (lines deliveries : List Bytes) (p q : Pipeline) (turns : List Turn)
    (tr : List Observed) (stdin : Stdin)
    (hbegins : Begins singlepart lines deliveries p)
    (hok : pipeline.Along (Turn.Ok True) p turns) (hr : pipeline.exec p turns = some (q, tr))
    (hc : stdin.content = printout options ((printed tr).map .received)) :
    printed tr <+: messagesOf singlepart lines ∧
      inputLoop false (stdin.content.length + 1) stdin = some (.messages (printed tr)) := by
  obtain ⟨taken, inFlight, hsent, -, -, hshows⟩ := (hbegins.run hok hr).flow
  obtain ⟨rest, -, htotal⟩ := (hbegins.run hok hr).fed.lines
  rw [hsent, List.append_assoc, ← hshows.messages trivial] at htotal
  refine ⟨⟨_, htotal⟩, inputLoop_printout hplain hc fun m hm => ?_⟩
  exact messagesOf_fits hbegins.fits m (htotal ▸ List.mem_append_left _ hm)

end

/-- the loop of a pull socket at its beginning -/
def pullLoop : State where
  singlepart := false
  toggles := false
  socket := 8
  standardin := -1
  poller := ({} : Poller).addSocket (some 8) pollIn
  canSend := false
  canRecv := true
  stdin := {}

theorem start_pull : start .pull false 8 0 {} = some pullLoop := rfl

def twoClients : Pipeline where
  pusher := pushLoop [ascii "a\n", ascii "b\n"]
  puller := pullLoop

theorem twoClients_begins :
    Begins true [ascii "a", ascii "b"] [ascii "a\n", ascii "b\n"] twoClients :=
  ⟨fits_ab, by decide, by decide, ⟨7, 0, start_push _⟩, rfl, ⟨false, 8, 0, {}, start_pull⟩⟩

/-- the first line is sent and received -/
def lineAcross : List Turn :=
  [.push { zmqPoll := (pipeAnswer (pushLoop [ascii "a\n", ascii "b\n"])).zmqPoll },
    .pull (pullLoop.answer pollIn 0) [.runs]]

theorem pull_legal : Poller.Legal pullLoop.prepared (pullLoop.answer pollIn 0) := by
  intro i it hit
  match i, hit with
  | 0, hit =>
    cases hit
    exact ⟨_, rfl, by decide⟩
  | i + 1, hit => cases hit

theorem lineAcross_ok : (@pipeline byOne).Along (@Turn.Ok byOne True) twoClients lineAcross := by
  let _ : VectorGrowth := byOne
  have hpush := (@pushLoop_feeding [ascii "a\n", ascii "b\n"] (by decide) (by decide)).pipeAnswer_legal
  refine ⟨⟨hpush.legal, hpush.interrupts, hpush.ready, fun _ => Or.inl fun _ _ => rfl⟩, ?_⟩
  intro p e hs
  -- the turn of the pusher leaves the puller as it is
  have hpuller : p.puller = pullLoop := push_puller hs
  refine ⟨?_, fun _ _ _ => trivial⟩
  show Undisturbed True p.puller _ _
  rw [hpuller]
  refine ⟨pull_legal, fun hneg => absurd hneg (by decide : ¬ (1 : ℤ) < 0), ?_, ?_⟩
  · exact fun a ha => Or.inl (List.mem_singleton.mp ha)
  · exact fun _ a ha => List.mem_singleton.mp ha

theorem lineAcross_runs :
    ∃ q tr, (@pipeline byOne).exec twoClients lineAcross = some (q, tr) ∧
      printed tr = [[ascii "a"]] := by
  have hrun : ((@pipeline byOne).exec twoClients lineAcross).map (fun r => printed r.2)
      = some [[ascii "a"]] := by decide +kernel
  obtain ⟨⟨q, tr⟩, hr, hprinted⟩ := Option.map_eq_some_iff.mp hrun
  exact ⟨q, tr, hr, hprinted⟩

theorem pipeline_prints_line :
    ∃ q tr, (@pipeline byOne).exec twoClients lineAcross = some (q, tr) ∧
      printed tr = [[ascii "a"]] ∧ printed tr <+: messagesOf true [ascii "a", ascii "b"] := by
  obtain ⟨q, tr, hr, hprinted⟩ := lineAcross_runs
  refine ⟨q, tr, hr, hprinted, ?_⟩
  exact ((@pipeline_prints_input byOne true _ _ _ q lineAcross tr True twoClients_begins
    lineAcross_ok hr).2 trivial).1

theorem relayed_as_printed_line :
    ∃ q tr, (@pipeline byOne).exec twoClients lineAcross = some (q, tr) ∧
      inputLoop false 4 ⟨[], [ascii "a", ascii "\n\n"]⟩ = some (.messages (printed tr)) := by
  obtain ⟨q, tr, hr, hprinted⟩ := lineAcross_runs
  have hc : Stdin.content ⟨[], [ascii "a", ascii "\n\n"]⟩
      = printout {} ((printed tr).map .received) := by
    rw [hprinted]
    decide
  exact ⟨q, tr, hr, (@relayed_as_printed byOne {} rfl true _ _ _ q lineAcross tr
    ⟨[], [ascii "a", ascii "\n\n"]⟩ twoClients_begins lineAcross_ok hr hc).2⟩

end Client
end Zmqpp
