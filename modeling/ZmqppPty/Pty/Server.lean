import ZmqppPty.Lib.Machine
import ZmqppPty.Socket.Parts
import ZmqppPty.Socket.Reuse

/-!
# The PTY server (zmq_pty_server.cpp)

The loop of `main`: a message is received into a new object, its first part is printed, and
`"End.\n"` is sent on the same socket, which is a pull socket.  Of a run the environment chooses,
for each turn, what has arrived, how the `zmq_msg_recv` calls end and what the send comes to.

* `iterate`, `machine`     one turn of the loop;
* `Serving`, `Served`      what a turn prints of the messages that are waiting;
* `server_prints_iff`      each turn prints the first part of its message, and the loop goes on iff
                           no turn is interrupted before its message and no send throws;
* `Turn.OnPull`            a pull socket sends nothing, so the loop ends with its first turn.
-/

namespace Zmqpp
namespace Pty
namespace Server

open Socket (Inbox InFrame Attempt SendResult OnlyInterrupts wireFrames sendString byOne)

inductive Pc where
  /-- at the head of the loop -/
  | receiving
  /-- an exception has left `main` -/
  | threw
deriving DecidableEq, Repr

structure State where
  inbox : Inbox := {}
  /-- `text` is declared before the loop -/
  text : Bytes := []
  pc : Pc := .receiving

/-- what the environment does in one turn -/
structure Turn where
  /-- the messages that arrive until `receive` returns -/
  arrived : List (List Bytes) := []
  schedule : List Attempt
  /-- of `zmq_send` -/
  reply : SendResult

inductive Event where
  | printed (text : Bytes)
deriving DecidableEq

section
variable [VectorGrowth] (host : Order)

/-- the body of the loop; `none` as long as `receive` does not return -/
def iterate (s : State) (turn : Turn) : Option (State × List Event) :=
  let inbox := { s.inbox with queue := s.inbox.queue ++ turn.arrived.flatMap wireFrames }
  match Socket.receive false turn.schedule inbox {} with
  | none => none
  | some run =>
    match run.outcome with
    | .error _ => some ({ s with inbox := run.inbox, pc := .threw }, [])
    | .ok _ =>
      match (run.message.streamIn host .string).2 with
      | .ok (.string text) =>
        match (sendString (ascii "End.\n") false turn.reply).outcome with
        | .error _ => some ({ inbox := run.inbox, text := text, pc := .threw }, [.printed text])
        | .ok _ => some ({ inbox := run.inbox, text := text }, [.printed text])
      | _ => some ({ s with inbox := run.inbox, pc := .threw }, [])

def step (s : State) (turn : Turn) : Option (State × List Event) :=
  if s.pc = .receiving then iterate host s turn else none

def machine : Lib.Machine State Turn Event := ⟨step host⟩

end

/-- what is printed of a message -/
def firstPart (parts : List Bytes) : Bytes := parts.headD []

def texts (es : List Event) : List Bytes :=
  es.map fun ev =>
    match ev with
    | .printed text => text

namespace Turn

/-- the messages have parts, and only interrupts disturb the receive -/
structure Orderly (turn : Turn) : Prop where
  arrived : ∀ m ∈ turn.arrived, m ≠ []
  only : OnlyInterrupts turn.schedule

/-- the receive is not interrupted before its message -/
def Takes (turn : Turn) : Prop := turn.schedule.head? = some .runs

instance : DecidablePred Takes := fun turn =>
  inferInstanceAs (Decidable (turn.schedule.head? = some .runs))

/-- the message is taken, and the send returns -/
def Continues (turn : Turn) : Prop :=
  turn.Takes ∧ ∀ code, turn.reply ≠ .failed (.other code)

/-- libzmq: a pull socket sends nothing, and says so by an error that is no interrupt -/
def OnPull (turn : Turn) : Prop := ∃ code, turn.reply = .failed (.other code)

theorem OnPull.ends {turn : Turn} (h : turn.OnPull) : ¬ turn.Continues := by
  obtain ⟨code, hreply⟩ := h
  exact fun hcontinues => hcontinues.2 code hreply

end Turn

/-- these messages are waiting -/
structure Serving (s : State) (pending : List (List Bytes)) : Prop where
  receiving : s.pc = .receiving
  queue : s.inbox.queue = pending.flatMap wireFrames
  parts : ∀ m ∈ pending, m ≠ []

/-- what a turn makes of the messages that are waiting then -/
inductive Served (turn : Turn) (waiting : List (List Bytes)) (t : State) (e : List Event) : Prop
  | prints (m : List Bytes) (rest : List (List Bytes)) (htakes : turn.Takes)
      (hwaiting : waiting = m :: rest) (he : e = [.printed (firstPart m)])
      (hnext : turn.Continues → Serving t rest) (hlast : ¬ turn.Continues → t.pc = .threw)
  | interrupted (hno : ¬ turn.Takes) (he : e = []) (hpc : t.pc = .threw)

theorem sendString_ok_iff (str : Bytes) (reply : SendResult) :
    (∃ b, (sendString str false reply).outcome = .ok b) ↔
      ∀ code, reply ≠ .failed (.other code) := by
  cases reply with
  | accepted => exact iff_of_true ⟨true, rfl⟩ nofun
  | failed e =>
    cases e with
    | eagain => exact iff_of_true ⟨false, rfl⟩ nofun
    | eintr => exact iff_of_true ⟨false, rfl⟩ nofun
    | other code =>
      refine iff_of_false ?_ fun h => h code rfl
      rintro ⟨b, hb⟩
      cases hb

section
variable {host : Order}

/-- the first part of a message is read first -/
theorem streamIn_first {m : Message} {part : Bytes} {parts : List Bytes}
    (hpay : m.payloads = part :: parts) (hcursor : m.readCursor = 0) :
    (m.streamIn host .string).2 = .ok (.string part) := by
  have hfirst : m.payloads[0]? = some part := by
    rw [hpay]
    rfl
  show m.getValue host .string m.readCursor = _
  unfold Message.getValue
  rw [hcursor, (Message.get_of_payloads hfirst).1]
  rfl

/-- a message without parts cannot be read -/
theorem streamIn_nothing {m : Message} (hpay : m.payloads = []) :
    (m.streamIn host .string).2 = .error (.threw Message.outsideRange) := by
  have hcount := (Message.payloads_eq_nil m).mp hpay
  show m.getValue host .string m.readCursor = _
  exact Message.getValue_error .string (by rw [hcount]; exact Nat.zero_le _)

section
variable [VectorGrowth]

/-- a receive that is not interrupted before its message takes the one that has waited longest -/
theorem receive_waiting (host : Order) {turn : Turn} {inbox : Inbox} {waiting : List (List Bytes)}
    {run : Socket.RecvRun} (hqueue : inbox.queue = waiting.flatMap wireFrames)
    (hparts : ∀ m ∈ waiting, m ≠ []) (honly : OnlyInterrupts turn.schedule) (htakes : turn.Takes)
    (hrun : Socket.receive false turn.schedule inbox {} = some run) :
    run.outcome = .ok true ∧ ∃ m rest, waiting = m :: rest ∧
      run.inbox.queue = rest.flatMap wireFrames ∧
      (run.message.streamIn host .string).2 = .ok (.string (firstPart m)) := by
  have hout := Socket.receive_true honly htakes hrun
  refine ⟨hout, ?_⟩
  cases waiting with
  | nil =>
    obtain ⟨front, last, hsplit, -⟩ := Socket.receive_of_true hrun hout
    rw [hqueue] at hsplit
    cases front <;> cases hsplit
  | cons m rest =>
    have hm : m ≠ [] := hparts m List.mem_cons_self
    obtain ⟨part, others, rfl⟩ := List.exists_cons_of_ne_nil hm
    obtain ⟨hpay, hrest⟩ := Socket.receive_front hrun hout hm (hqueue.trans List.flatMap_cons)
    have hcursor : run.message.readCursor = 0 := by
      rw [Socket.receive_readCursor hrun]
      rfl
    exact ⟨part :: others, rest, rfl, hrest, streamIn_first hpay hcursor⟩

/-- one that is interrupted before returns false, and there is nothing to read -/
theorem receive_no_message (host : Order) {turn : Turn} {inbox : Inbox} {run : Socket.RecvRun}
    (honly : OnlyInterrupts turn.schedule) (hno : ¬ turn.Takes)
    (hrun : Socket.receive false turn.schedule inbox {} = some run) :
    run.outcome = .ok false ∧
      (run.message.streamIn host .string).2 = .error (.threw Message.outsideRange) := by
  cases hsched : turn.schedule with
  | nil =>
    rw [hsched] at hrun
    cases hrun
  | cons a schedule =>
    rcases honly a (hsched ▸ List.mem_cons_self) with rfl | rfl
    · exact absurd (by rw [Turn.Takes, hsched]; rfl) hno
    · rw [hsched] at hrun
      obtain ⟨run', hrun', hout⟩ := Socket.receive_interrupted false schedule inbox {}
      obtain rfl := Option.some.inj (hrun.symm.trans hrun')
      exact ⟨hout, streamIn_nothing (Socket.receive_of_false hrun hout).2⟩

/-- **A turn**: it prints the first part of the message that has waited longest, unless it is
interrupted before. -/
theorem Serving.step {s t : State} {pending : List (List Bytes)} {turn : Turn} {e : List Event}
    (h : Serving s pending) (horderly : turn.Orderly)
    (hs : (machine host).step s turn = some (t, e)) :
    Served turn (pending ++ turn.arrived) t e := by
  have hit : iterate host s turn = some (t, e) := by
    rw [← hs]
    exact (if_pos h.receiving).symm
  unfold iterate at hit
  dsimp only at hit
  set inbox : Inbox := { s.inbox with queue := s.inbox.queue ++ turn.arrived.flatMap wireFrames }
    with hinbox
  have hqueue : inbox.queue = (pending ++ turn.arrived).flatMap wireFrames := by
    rw [hinbox, List.flatMap_append, ← h.queue]
  have hparts : ∀ m ∈ pending ++ turn.arrived, m ≠ [] := by
    intro m hm
    exact (List.mem_append.mp hm).elim (h.parts m) (horderly.arrived m)
  cases hrun : Socket.receive false turn.schedule inbox {} with
  | none =>
    rw [hrun] at hit
    cases hit
  | some run =>
    rw [hrun] at hit
    dsimp only at hit
    by_cases htakes : turn.Takes
    · obtain ⟨hout, m, rest, hwaiting, hrest, hread⟩ :=
        receive_waiting host hqueue hparts horderly.only htakes hrun
      rw [hout] at hit
      dsimp only at hit
      rw [hread] at hit
      dsimp only at hit
      have hok := sendString_ok_iff (ascii "End.\n") turn.reply
      cases hsend : (sendString (ascii "End.\n") false turn.reply).outcome with
      | error x =>
        rw [hsend] at hit hok
        obtain ⟨rfl, rfl⟩ := Prod.mk.inj (Option.some.inj hit)
        have hno : ¬ turn.Continues := fun hc => by
          obtain ⟨b, hb⟩ := hok.mpr hc.2
          cases hb
        exact .prints m rest htakes hwaiting rfl (fun hc => absurd hc hno) fun _ => rfl
      | ok b =>
        rw [hsend] at hit hok
        obtain ⟨rfl, rfl⟩ := Prod.mk.inj (Option.some.inj hit)
        refine .prints m rest htakes hwaiting rfl (fun _ => ⟨rfl, hrest, ?_⟩)
          fun hno => absurd ⟨htakes, hok.mp ⟨b, rfl⟩⟩ hno
        intro m' hm'
        exact hparts m' (hwaiting ▸ List.mem_cons_of_mem m hm')
    · obtain ⟨hout, hread⟩ := receive_no_message host horderly.only htakes hrun
      rw [hout] at hit
      dsimp only at hit
      rw [hread] at hit
      obtain ⟨rfl, rfl⟩ := Prod.mk.inj (Option.some.inj hit)
      exact .interrupted htakes rfl rfl

/-- **Each turn that takes a message prints its first part**, in order, and the loop goes on iff
every turn does. -/
theorem Serving.run {s t : State} {pending : List (List Bytes)} {turns : List Turn}
    {es : List Event} (h : Serving s pending) (horderly : ∀ turn ∈ turns, turn.Orderly)
    (hr : (machine host).exec s turns = some (t, es)) :
    (texts es <+: (pending ++ turns.flatMap Turn.arrived).map firstPart ∧
        (texts es).length = turns.countP fun turn => turn.Takes) ∧
      (t.pc = .receiving ↔ ∀ turn ∈ turns, turn.Continues) := by
  induction turns generalizing s pending es with
  | nil =>
    rw [Lib.Machine.exec_nil, Option.some.injEq, Prod.mk.injEq] at hr
    obtain ⟨rfl, rfl⟩ := hr
    exact ⟨⟨List.nil_prefix, rfl⟩, iff_of_true h.receiving nofun⟩
  | cons turn turns ih =>
    obtain ⟨v, e, es', hs, hr', rfl⟩ := Lib.Machine.exec_cons hr
    have hrest : ∀ turn ∈ turns, turn.Orderly :=
      fun turn' h' => horderly turn' (List.mem_cons_of_mem turn h')
    rw [List.flatMap_cons, ← List.append_assoc, List.forall_mem_cons]
    -- nothing follows a turn that throws
    have hlast : ¬ turn.Continues → v.pc = .threw → turns = [] ∧ es' = [] ∧
        (t.pc = .receiving ↔ turn.Continues ∧ ∀ turn ∈ turns, turn.Continues) := by
      intro hno hpc
      have hnone : turns = [] := by
        cases turns with
        | nil => rfl
        | cons turn' turns =>
          obtain ⟨w, e1, e2, hs', -, -⟩ := Lib.Machine.exec_cons hr'
          have hstops : (machine host).step v turn' = none := if_neg (by rw [hpc]; exact nofun)
          rw [hstops] at hs'
          cases hs'
      subst hnone
      rw [Lib.Machine.exec_nil, Option.some.injEq, Prod.mk.injEq] at hr'
      obtain ⟨rfl, rfl⟩ := hr'
      refine ⟨rfl, rfl, iff_of_false ?_ fun hboth => hno hboth.1⟩
      rw [hpc]
      exact nofun
    cases h.step (horderly turn List.mem_cons_self) hs with
    | interrupted hno he hpc =>
      obtain ⟨rfl, rfl, hiff⟩ := hlast (fun hc => hno hc.1) hpc
      rw [he, List.countP_cons_of_neg (by simpa using hno)]
      exact ⟨⟨List.nil_prefix, rfl⟩, hiff⟩
    | prints m rest htakes hwaiting he hnext hend =>
      rw [hwaiting, he, List.countP_cons_of_pos (by simpa using htakes)]
      by_cases hc : turn.Continues
      · obtain ⟨⟨hbegun, hcount⟩, hiff⟩ := ih (hnext hc) hrest hr'
        exact ⟨⟨List.cons_prefix_cons.mpr ⟨rfl, hbegun⟩, congrArg (· + 1) hcount⟩,
          hiff.trans (and_iff_right hc).symm⟩
      · obtain ⟨rfl, rfl, hiff⟩ := hlast hc (hend hc)
        exact ⟨⟨List.cons_prefix_cons.mpr ⟨rfl, List.nil_prefix⟩, rfl⟩, hiff⟩

/-- **The server prints the first parts of the messages, in order**, one in each turn that is not
interrupted before its message, and its loop goes on iff no turn is and no send throws.  On a pull
socket, which sends nothing, there is no second turn. -/
theorem server_prints_iff (host : Order) (turns : List Turn) (t : State) (es : List Event)
    (horderly : ∀ turn ∈ turns, turn.Orderly) (hr : (machine host).exec {} turns = some (t, es)) :
    (texts es <+: (turns.flatMap Turn.arrived).map firstPart ∧
        (texts es).length = turns.countP fun turn => turn.Takes) ∧
      (t.pc = .receiving ↔ ∀ turn ∈ turns, turn.Continues) ∧
      ((∀ turn ∈ turns, turn.OnPull) → turns.length ≤ 1) := by
  have hserving : Serving {} [] := ⟨rfl, rfl, nofun⟩
  obtain ⟨hbegun, hiff⟩ := hserving.run horderly hr
  refine ⟨hbegun, hiff, fun hpull => ?_⟩
  cases turns with
  | nil => exact Nat.zero_le 1
  | cons turn turns =>
    cases turns with
    | nil => exact Nat.le_refl 1
    | cons turn' turns =>
      -- the first turn would have had to continue
      obtain ⟨v, e, es', hs, hr', -⟩ := Lib.Machine.exec_cons hr
      obtain ⟨w, e1, e2, hs', -, -⟩ := Lib.Machine.exec_cons hr'
      have hone : (machine host).exec {} [turn] = some (v, e ++ []) :=
        Lib.Machine.exec_cons_of hs (Lib.Machine.exec_nil v)
      have hfirst : ∀ x ∈ [turn], x.Orderly := fun x hx => by
        rw [List.mem_singleton.mp hx]
        exact horderly turn List.mem_cons_self
      have hgoes : v.pc = .receiving := by
        by_contra hno
        have : (machine host).step v turn' = none := if_neg hno
        rw [this] at hs'
        cases hs'
      have hcontinues := (hserving.run hfirst hone).2.mp hgoes turn (List.mem_singleton.mpr rfl)
      exact absurd hcontinues (hpull turn List.mem_cons_self).ends

end

end

/-- a message of two parts, and the send that a pull socket refuses -/
def oneTurn : List Turn :=
  [{ arrived := [[ascii "a", ascii "b"], [ascii "c"]], schedule := [.runs, .runs],
     reply := .failed (.other 95) }]

theorem server_prints_one :
    ∃ t es, (@machine byOne .littleEndian).exec {} oneTurn = some (t, es) ∧
      texts es = [ascii "a"] ∧ t.pc ≠ .receiving := by
  have horderly : ∀ turn ∈ oneTurn, turn.Orderly := by
    intro turn hturn
    rw [List.mem_singleton.mp hturn]
    refine ⟨by decide, fun a ha => Or.inl ?_⟩
    simpa using ha
  refine ⟨_, _, rfl, rfl, fun hpc => ?_⟩
  have hall := (@server_prints_iff byOne .littleEndian oneTurn _ _ horderly rfl).2.1.mp hpc
  exact (hall _ List.mem_cons_self).2 95 rfl

end Server
end Pty
end Zmqpp
