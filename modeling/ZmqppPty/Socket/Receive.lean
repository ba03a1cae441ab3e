import ZmqppPty.Socket.Send

/-!
# Receiving a message (socket::receive(message&, bool) in socket.cpp)

The socket is the queue of frames that have arrived.  The environment decides of each
`zmq_msg_recv` call whether it goes through or fails.

* `receiveLoop`, `receive`   the loop over the frames and the whole function; `none` as long as it
                             has not returned;
* `receiveLoop_induct`       the turns of a loop that returns;
* `receiveLoop_ok`           the loop invariant: what a loop that returns has popped, and what it
                             has added to the message;
* `receive_one_message`      a receive that returns true has consumed exactly one message, one that
                             returns false nothing;
* `receive_returns`          with interrupts only it does return, as soon as every frame of the
                             first message has been let through.
-/

namespace Zmqpp
namespace Socket

open Message (payloads payloads_length payloads_eq_nil)

/-- a frame on its way in -/
structure InFrame where
  msg : ZmqMsg
  more : Bool
deriving DecidableEq, Repr

structure Inbox where
  queue : List InFrame := []
  recvBuffer : ZmqMsg := {}
  /-- `ZMQ_RCVMORE` -/
  rcvMore : Bool := false
deriving DecidableEq, Repr

/-- what happens to a `zmq_msg_recv` call from outside -/
inductive Attempt where
  | runs
  | fails (error : Errno)
deriving DecidableEq, Repr

inductive RecvResult where
  | received (inbox : Inbox) (released : List Block)
  | failed (error : Errno)
  | blocked

/-- `zmq_msg_recv(&_recv_buffer, _socket, flags)`: the head frame replaces the buffer's content -/
def zmqMsgRecv (flags : ℕ) (s : Inbox) : Attempt → RecvResult
  | .fails e => .failed e
  | .runs =>
    match s.queue with
    | [] => if flags &&& dontWait ≠ 0 then .failed .eagain else .blocked
    | f :: q =>
      .received { queue := q, recvBuffer := f.msg, rcvMore := f.more } (zmqMsgClose s.recvBuffer)

/-- `get(socket_option::receive_more, more)` -/
def getReceiveMore (s : Inbox) : Bool :=
  let int_value : ℤ := if s.rcvMore then 1 else 0
  int_value == 1

/-- `zmq_msg_move(&dest, &_recv_buffer)` on the last part of the message -/
def moveIntoLast (m : Message) (s : Inbox) : Message × Inbox × List Block :=
  match m.parts.elems[m.count - 1]? with
  | none => (m, s, [])
  | some f =>
    let (dest, buffer, r) := zmqMsgMove f.msg s.recvBuffer
    (m.setFrame (m.count - 1) { f with msg := dest }, { s with recvBuffer := buffer }, r)

/-- how a receive ended, the message and the socket it left, and the blocks it released -/
structure RecvRun where
  outcome : Except Failure Bool
  message : Message
  inbox : Inbox
  released : List Block

section
variable [VectorGrowth]

/-- The loop.  A list of attempts that is used up leaves it waiting, as does a call that blocks. -/
def receiveLoop (flags : ℕ) : List Attempt → Inbox → Message → List Block → Option RecvRun
  | [], _, _, _ => none
  | a :: schedule, s, m, released =>
    match zmqMsgRecv flags s a with
    | .blocked => none
    | .failed e =>
      if m.count = 0 ∧ e = .eagain then some ⟨.ok false, m, s, released⟩
      else if e = .eintr then
        if m.count = 0 then some ⟨.ok false, m, s, released⟩
        else receiveLoop flags schedule s m released
      else if e = .eagain then some ⟨.error .assertFailed, m, s, released⟩
      else some ⟨.error (.threw (.zmqInternal e)), m, s, released⟩
    | .received s r =>
      let (m, r') := m.rawNewMsg
      let (m, s, r'') := moveIntoLast m s
      let released := released ++ r ++ r' ++ r''
      if getReceiveMore s then receiveLoop flags schedule s m released
      else some ⟨.ok true, m, s, released⟩

/-- `socket::receive(message&, bool)`; what the message held is discarded first -/
def receive (dont_block : Bool) (schedule : List Attempt) (s : Inbox) (m : Message) :
    Option RecvRun :=
  let flags := if dont_block then dontWait else normal
  if 0 < m.count then
    let (discarded, m, r) := Message.swap {} m
    receiveLoop flags schedule s m (r ++ discarded.destroy)
  else
    receiveLoop flags schedule s m []

end

def InFrame.payload (f : InFrame) : Bytes := f.msg.data

/-! ## one frame -/

theorem getReceiveMore_eq (s : Inbox) : getReceiveMore s = s.rcvMore := by
  unfold getReceiveMore
  cases s.rcvMore <;> rfl

theorem zmqMsgRecv_received {flags : ℕ} {s t : Inbox} {a : Attempt} {r : List Block}
    (h : zmqMsgRecv flags s a = .received t r) :
    a = .runs ∧ ∃ f q, s.queue = f :: q ∧
      t = { queue := q, recvBuffer := f.msg, rcvMore := f.more } := by
  unfold zmqMsgRecv at h
  cases a with
  | fails e => cases h
  | runs =>
    cases hq : s.queue with
    | nil => rw [hq] at h; dsimp only at h; split at h <;> cases h
    | cons f q =>
      rw [hq] at h
      injection h with ht
      exact ⟨rfl, f, q, rfl, ht.symm⟩

section
variable [VectorGrowth]

/-- the new part takes the buffer's content, and the buffer is left empty -/
theorem moveIntoLast_rawNewMsg (m : Message) (s : Inbox) :
    payloads (moveIntoLast m.rawNewMsg.1 s).1 = payloads m ++ [s.recvBuffer.data] ∧
      (moveIntoLast m.rawNewMsg.1 s).1.readCursor = m.readCursor ∧
      (moveIntoLast m.rawNewMsg.1 s).2 = ({ s with recvBuffer := {} }, []) := by
  have helems : m.rawNewMsg.1.parts.elems = m.parts.elems ++ [Frame.mk {} false] :=
    m.parts.pushBack_elems _
  have hcount : m.rawNewMsg.1.count - 1 = m.parts.elems.length := by
    unfold Message.count
    rw [helems, List.length_append]
    rfl
  unfold moveIntoLast
  rw [hcount, helems, List.getElem?_concat_length]
  refine ⟨?_, rfl, rfl⟩
  show List.map _ (List.set m.rawNewMsg.1.parts.elems _ _) = _
  rw [helems, List.set_append_right _ _ (Nat.le_refl _), Nat.sub_self, List.map_append]
  rfl

/-! ## the loop -/

/-- one turn of the loop on a frame that arrived -/
theorem receiveLoop_received (flags : ℕ) (schedule : List Attempt) (m : Message)
    (released : List Block) {s : Inbox} {f : InFrame} {q : List InFrame} (h : s.queue = f :: q) :
    ∃ m' released', payloads m' = payloads m ++ [f.payload] ∧ m'.readCursor = m.readCursor ∧
      receiveLoop flags (.runs :: schedule) s m released =
        if f.more = true then receiveLoop flags schedule ⟨q, {}, f.more⟩ m' released'
        else some ⟨.ok true, m', ⟨q, {}, f.more⟩, released'⟩ := by
  obtain ⟨hm, hcursor, hs⟩ := moveIntoLast_rawNewMsg m ⟨q, f.msg, f.more⟩
  refine ⟨_, released ++ zmqMsgClose s.recvBuffer ++ m.rawNewMsg.2 ++
    (moveIntoLast m.rawNewMsg.1 ⟨q, f.msg, f.more⟩).2.2, hm, hcursor, ?_⟩
  have hr : zmqMsgRecv flags s .runs
      = .received ⟨q, f.msg, f.more⟩ (zmqMsgClose s.recvBuffer) := by
    unfold zmqMsgRecv
    rw [h]
  conv_lhs => unfold receiveLoop
  simp only [hr, hs, getReceiveMore_eq]

/-- one turn of the loop on a call that fails -/
theorem receiveLoop_failed {flags : ℕ} {schedule : List Attempt} {s : Inbox} {m : Message}
    {released : List Block} {a : Attempt} {e : Errno} {run : RecvRun}
    (hr : zmqMsgRecv flags s a = .failed e)
    (h : receiveLoop flags (a :: schedule) s m released = some run) :
    (run = ⟨.ok false, m, s, released⟩ ∧ m.count = 0) ∨
      (0 < m.count ∧ receiveLoop flags schedule s m released = some run) ∨
      ∃ failure, run = ⟨.error failure, m, s, released⟩ := by
  unfold receiveLoop at h
  simp only [hr] at h
  by_cases h0 : m.count = 0
  · by_cases he : e = .eagain ∨ e = .eintr
    · refine Or.inl ⟨?_, h0⟩
      rcases he with he | he
      · rw [if_pos ⟨h0, he⟩] at h
        exact (Option.some.inj h).symm
      · rw [if_neg (by simp [he]), if_pos he, if_pos h0] at h
        exact (Option.some.inj h).symm
    · obtain ⟨he1, he2⟩ := not_or.mp he
      rw [if_neg (fun hc => he1 hc.2), if_neg he2, if_neg he1] at h
      exact Or.inr (Or.inr ⟨_, (Option.some.inj h).symm⟩)
  · rw [if_neg (fun hc => h0 hc.1)] at h
    by_cases he : e = .eintr
    · rw [if_pos he, if_neg h0] at h
      exact Or.inr (Or.inl ⟨Nat.pos_of_ne_zero h0, h⟩)
    · rw [if_neg he] at h
      split at h <;> exact Or.inr (Or.inr ⟨_, (Option.some.inj h).symm⟩)

/-- the frame `f` has been taken off the queue and added to the message -/
structure Takes (f : InFrame) (m m' : Message) : Prop where
  payloads_eq : payloads m' = payloads m ++ [f.payload]
  readCursor_eq : m'.readCursor = m.readCursor

/-- Induction over the turns of a loop that returns: `gaveUp` and `threw` are calls that fail, `more`
and `last` frames that arrive.  An interrupted turn leaves everything as it was. -/
@[elab_as_elim]
theorem receiveLoop_induct {run : RecvRun} {P : Inbox → Message → List Block → Prop}
    (gaveUp : ∀ s m released, run = ⟨.ok false, m, s, released⟩ → m.count = 0 → P s m released)
    (threw : ∀ s m released failure, run = ⟨.error failure, m, s, released⟩ → P s m released)
    (last : ∀ s m released f q m' released', s.queue = f :: q → f.more = false →
      Takes f m m' → run = ⟨.ok true, m', ⟨q, {}, f.more⟩, released'⟩ →
      P s m released)
    (more : ∀ s m released f q m' released', s.queue = f :: q → f.more = true →
      Takes f m m' → P ⟨q, {}, f.more⟩ m' released' → P s m released)
    {flags : ℕ} {schedule : List Attempt} {s : Inbox} {m : Message} {released : List Block}
    (h : receiveLoop flags schedule s m released = some run) : P s m released := by
  induction schedule generalizing s m released with
  | nil => cases h
  | cons a schedule ih =>
    cases hr : zmqMsgRecv flags s a with
    | blocked =>
      unfold receiveLoop at h
      rw [hr] at h
      cases h
    | failed e =>
      rcases receiveLoop_failed hr h with ⟨hrun, h0⟩ | ⟨-, h'⟩ | ⟨failure, hrun⟩
      · exact gaveUp s m released hrun h0
      · exact ih h'
      · exact threw s m released failure hrun
    | received t r =>
      obtain ⟨rfl, f, q, hq, -⟩ := zmqMsgRecv_received hr
      obtain ⟨m', released', hpay, hcursor, hloop⟩ :=
        receiveLoop_received flags schedule m released hq
      have htakes : Takes f m m' := ⟨hpay, hcursor⟩
      rw [hloop] at h
      by_cases hmore : f.more = true
      · rw [if_pos hmore] at h
        exact more s m released f q m' released' hq hmore htakes (ih h)
      · rw [if_neg hmore] at h
        exact last s m released f q m' released' hq (Bool.eq_false_iff.mpr hmore) htakes
          (Option.some.inj h).symm

/-- **What a loop that returns has done.**  With `true` it has popped frames up to the first one
without the more flag and added them to the message; with `false` it has done nothing. -/
theorem receiveLoop_ok {flags : ℕ} {schedule : List Attempt} {s : Inbox} {m : Message}
    {released : List Block} {run : RecvRun}
    (h : receiveLoop flags schedule s m released = some run) :
    (run.outcome = .ok true → ∃ front last, s.queue = front ++ last :: run.inbox.queue ∧
      (∀ f ∈ front, f.more = true) ∧ last.more = false ∧
      payloads run.message = payloads m ++ (front ++ [last]).map InFrame.payload) ∧
    (run.outcome = .ok false → run.inbox = s ∧ run.message = m ∧ m.count = 0) := by
  refine receiveLoop_induct ?gaveUp ?threw ?last ?more h
  case gaveUp =>
    intro s m released hrun h0
    subst hrun
    exact ⟨fun ht => (nomatch ht), fun _ => ⟨rfl, rfl, h0⟩⟩
  case threw =>
    intro s m released failure hrun
    subst hrun
    exact ⟨fun ht => (nomatch ht), fun hf => (nomatch hf)⟩
  case last =>
    intro s m released f q m' released' hq hmore htakes hrun
    subst hrun
    exact ⟨fun _ => ⟨[], f, hq, fun g hg => (nomatch hg), hmore, htakes.payloads_eq⟩,
      fun hf => (nomatch hf)⟩
  case more =>
    intro s m released f q m' released' hq hmore htakes ih
    obtain ⟨htrue, hfalse⟩ := ih
    constructor
    · intro ht
      obtain ⟨front, last, hqueue, hfront, hlast, hpay⟩ := htrue ht
      refine ⟨f :: front, last, ?_, ?_, hlast, ?_⟩
      · rw [hq, List.cons_append]
        exact congrArg (f :: ·) hqueue
      · intro g hg
        rcases List.mem_cons.mp hg with rfl | hg
        · exact hmore
        · exact hfront g hg
      · rw [hpay, htakes.payloads_eq, List.append_assoc]
        rfl
    · intro hf
      -- the part just added keeps the rest of the loop from returning false
      have h0 := (payloads_eq_nil m').mpr (hfalse hf).2.2
      rw [htakes.payloads_eq] at h0
      exact absurd h0 (by simp)

end

/-! ## the whole receive -/

/-- a receive has consumed exactly the first message of the queue, or nothing -/
def ConsumesOneMessage (s : Inbox) (run : RecvRun) : Prop :=
  (run.outcome = .ok true → ∃ front last, s.queue = front ++ last :: run.inbox.queue ∧
    (∀ f ∈ front, f.more = true) ∧ last.more = false ∧
    payloads run.message = (front ++ [last]).map InFrame.payload) ∧
  (run.outcome = .ok false → run.inbox.queue = s.queue ∧ payloads run.message = [])

section
variable [VectorGrowth]

theorem receive_eq_loop (dont_block : Bool) (schedule : List Attempt) (s : Inbox) (m : Message) :
    ∃ flags m' released, m'.count = 0 ∧
      m'.readCursor = (if 0 < m.count then 0 else m.readCursor) ∧
      receive dont_block schedule s m = receiveLoop flags schedule s m' released := by
  unfold receive
  by_cases h : 0 < m.count
  · exact ⟨_, {}, _, rfl, (if_pos h).symm, if_pos h⟩
  · exact ⟨_, m, _, Nat.eq_zero_of_not_pos h, (if_neg h).symm, if_neg h⟩

/-- what a receive that returns true has popped -/
theorem receive_of_true {dont_block : Bool} {schedule : List Attempt} {s : Inbox} {m : Message}
    {run : RecvRun} (h : receive dont_block schedule s m = some run) (ht : run.outcome = .ok true) :
    ∃ front last, s.queue = front ++ last :: run.inbox.queue ∧ (∀ f ∈ front, f.more = true) ∧
      last.more = false ∧ payloads run.message = (front ++ [last]).map InFrame.payload := by
  obtain ⟨flags, m', released, h0, -, heq⟩ := receive_eq_loop dont_block schedule s m
  rw [heq] at h
  have hloop := (receiveLoop_ok h).1 ht
  rw [(payloads_eq_nil m').mpr h0] at hloop
  exact hloop

/-- a receive that returns false has popped nothing, and the message is empty -/
theorem receive_of_false {dont_block : Bool} {schedule : List Attempt} {s : Inbox} {m : Message}
    {run : RecvRun} (h : receive dont_block schedule s m = some run)
    (hf : run.outcome = .ok false) : run.inbox = s ∧ payloads run.message = [] := by
  obtain ⟨flags, m', released, h0, -, heq⟩ := receive_eq_loop dont_block schedule s m
  rw [heq] at h
  obtain ⟨hinbox, hmessage, -⟩ := (receiveLoop_ok h).2 hf
  rw [hmessage]
  exact ⟨hinbox, (payloads_eq_nil m').mpr h0⟩

/-- **A receive that returns true has consumed exactly one message, one that returns false
nothing**, whatever the message held before and whatever calls failed. -/
theorem receive_one_message (dont_block : Bool) (schedule : List Attempt) (s : Inbox) (m : Message)
    (run : RecvRun) (h : receive dont_block schedule s m = some run) :
    ConsumesOneMessage s run := by
  refine ⟨receive_of_true h, ?_⟩
  intro hf
  obtain ⟨hinbox, hpay⟩ := receive_of_false h hf
  exact ⟨congrArg Inbox.queue hinbox, hpay⟩

/-! ## the read cursor -/

/-- the loop only appends parts -/
theorem receiveLoop_readCursor {flags : ℕ} {schedule : List Attempt} {s : Inbox} {m : Message}
    {released : List Block} {run : RecvRun}
    (h : receiveLoop flags schedule s m released = some run) :
    run.message.readCursor = m.readCursor := by
  refine receiveLoop_induct ?gaveUp ?threw ?last ?more h
  case gaveUp =>
    intro s m released hrun _
    rw [hrun]
  case threw =>
    intro s m released failure hrun
    rw [hrun]
  case last =>
    intro s m released f q m' released' _ _ htakes hrun
    rw [hrun]
    exact htakes.readCursor_eq
  case more =>
    intro s m released f q m' released' _ _ htakes ih
    exact ih.trans htakes.readCursor_eq

/-- a cursor is discarded with the parts it belongs to, and only with them -/
theorem receive_readCursor {dont_block : Bool} {schedule : List Attempt} {s : Inbox} {m : Message}
    {run : RecvRun} (h : receive dont_block schedule s m = some run) :
    run.message.readCursor = if 0 < m.count then 0 else m.readCursor := by
  obtain ⟨flags, m', released, -, hcursor, heq⟩ := receive_eq_loop dont_block schedule s m
  rw [heq] at h
  exact (receiveLoop_readCursor h).trans hcursor

/-! ## it does return -/

/-- no call fails but by an interrupt -/
def OnlyInterrupts (schedule : List Attempt) : Prop :=
  ∀ a ∈ schedule, a = .runs ∨ a = .fails .eintr

theorem receiveLoop_returns {flags : ℕ} {schedule : List Attempt} {front : List InFrame}
    {last : InFrame} {rest : List InFrame} {s : Inbox} {m : Message} {released : List Block}
    (hq : s.queue = front ++ last :: rest) (hfront : ∀ f ∈ front, f.more = true)
    (hlast : last.more = false) (honly : OnlyInterrupts schedule)
    (hstart : 0 < m.count ∨ schedule.head? = some .runs)
    (hlen : front.length < schedule.count .runs) :
    ∃ run, receiveLoop flags schedule s m released = some run ∧ run.outcome = .ok true := by
  induction schedule generalizing s m front released with
  | nil => simp at hlen
  | cons a schedule ih =>
    have honly' : OnlyInterrupts schedule := fun b hb => honly b (List.mem_cons_of_mem a hb)
    rcases honly a List.mem_cons_self with rfl | rfl
    · cases front with
      | nil =>
        obtain ⟨m', released', -, -, hloop⟩ := receiveLoop_received flags schedule m released hq
        rw [hloop, hlast]
        exact ⟨_, rfl, rfl⟩
      | cons f front =>
        obtain ⟨m', released', hm', -, hloop⟩ := receiveLoop_received flags schedule m released hq
        rw [hloop, if_pos (hfront f List.mem_cons_self)]
        have hpos : 0 < m'.count := by
          rw [← payloads_length, hm', List.length_append]
          exact Nat.succ_pos _
        have hlen' : front.length < schedule.count .runs := by
          rw [List.count_cons_self, List.length_cons] at hlen
          omega
        exact ih rfl (fun g hg => hfront g (List.mem_cons_of_mem f hg)) honly' (Or.inl hpos) hlen'
    · -- the interrupt is not the first call, so part of the message is there
      have hpos : 0 < m.count := by
        rcases hstart with h | h
        · exact h
        · cases h
      have hlen' : front.length < schedule.count .runs := by
        rwa [List.count_cons_of_ne (by decide)] at hlen
      obtain ⟨run, hrun, hout⟩ := ih hq hfront honly' (Or.inl hpos) hlen'
      refine ⟨run, ?_, hout⟩
      unfold receiveLoop
      simp only [zmqMsgRecv, Nat.ne_of_gt hpos, false_and, ↓reduceIte]
      exact hrun

/-- **With interrupts only, the first call not among them, a receive returns true as soon as every
frame of the first message has been let through.** -/
theorem receive_returns (dont_block : Bool) {schedule : List Attempt} {front : List InFrame}
    {last : InFrame} {rest : List InFrame} {s : Inbox} (m : Message)
    (hq : s.queue = front ++ last :: rest) (hfront : ∀ f ∈ front, f.more = true)
    (hlast : last.more = false) (honly : OnlyInterrupts schedule)
    (hstart : schedule.head? = some .runs) (hlen : front.length < schedule.count .runs) :
    ∃ run, receive dont_block schedule s m = some run ∧ run.outcome = .ok true := by
  obtain ⟨flags, m', released, -, -, heq⟩ := receive_eq_loop dont_block schedule s m
  rw [heq]
  exact receiveLoop_returns hq hfront hlast honly (Or.inr hstart) hlen

/-- nothing has arrived -/
theorem receive_nothing {s : Inbox} (hq : s.queue = []) (m : Message) (schedule : List Attempt) :
    ∃ run, receive true (.runs :: schedule) s m = some run ∧ run.outcome = .ok false := by
  have hagain : zmqMsgRecv dontWait s .runs = .failed .eagain := by
    unfold zmqMsgRecv
    rw [hq]
    rfl
  have hloop : ∀ (m : Message) (released : List Block), m.count = 0 →
      receiveLoop dontWait (.runs :: schedule) s m released = some ⟨.ok false, m, s, released⟩ := by
    intro m released hm
    unfold receiveLoop
    rw [hagain]
    exact if_pos ⟨hm, rfl⟩
  unfold receive
  by_cases h : 0 < m.count
  · exact ⟨_, (if_pos h).trans (hloop {} _ rfl), rfl⟩
  · exact ⟨_, (if_neg h).trans (hloop m _ (Nat.eq_zero_of_not_pos h)), rfl⟩

theorem receiveLoop_true {flags : ℕ} (hflags : flags &&& dontWait = 0) {schedule : List Attempt}
    {s : Inbox} {m : Message} {released : List Block} {run : RecvRun}
    (honly : OnlyInterrupts schedule) (hstart : 0 < m.count ∨ schedule.head? = some .runs)
    (h : receiveLoop flags schedule s m released = some run) : run.outcome = .ok true := by
  induction schedule generalizing s m released with
  | nil => cases h
  | cons a schedule ih =>
    have honly' : OnlyInterrupts schedule := fun b hb => honly b (List.mem_cons_of_mem a hb)
    rcases honly a List.mem_cons_self with rfl | rfl
    · cases hq : s.queue with
      | nil =>
        unfold receiveLoop at h
        simp only [zmqMsgRecv, hq, hflags, ne_eq, not_true_eq_false, ↓reduceIte] at h
        cases h
      | cons f q =>
        obtain ⟨m', released', hm', -, hloop⟩ := receiveLoop_received flags schedule m released hq
        rw [hloop] at h
        by_cases hmore : f.more = true
        · rw [if_pos hmore] at h
          have hpos : 0 < m'.count := by
            rw [← payloads_length, hm', List.length_append]
            exact Nat.succ_pos _
          exact ih honly' (Or.inl hpos) h
        · rw [if_neg hmore] at h
          exact (congrArg RecvRun.outcome (Option.some.inj h)).symm
    · have hpos : 0 < m.count := by
        rcases hstart with h | h
        · exact h
        · cases h
      rcases receiveLoop_failed rfl h with ⟨-, h0⟩ | ⟨-, h'⟩ | ⟨failure, rfl⟩
      · omega
      · exact ih honly' (Or.inl hpos) h'
      · unfold receiveLoop at h
        simp only [zmqMsgRecv, Nat.ne_of_gt hpos, false_and, ↓reduceIte] at h
        exact ih honly' (Or.inl hpos) h

/-- a blocking receive that only interrupts disturb, the first call excepted, returns nothing but
true -/
theorem receive_true {schedule : List Attempt} {s : Inbox} {m : Message} {run : RecvRun}
    (honly : OnlyInterrupts schedule) (hstart : schedule.head? = some .runs)
    (h : receive false schedule s m = some run) : run.outcome = .ok true := by
  unfold receive at h
  simp only [Bool.false_eq_true, ↓reduceIte] at h
  split at h <;> exact receiveLoop_true rfl honly (Or.inr hstart) h

/-- an interrupt before the first frame makes the receive return false -/
theorem receive_interrupted (dont_block : Bool) (schedule : List Attempt) (s : Inbox)
    (m : Message) :
    ∃ run, receive dont_block (.fails .eintr :: schedule) s m = some run ∧
      run.outcome = .ok false := by
  obtain ⟨flags, m', released, h0, -, heq⟩ := receive_eq_loop dont_block (.fails .eintr :: schedule) s m
  rw [heq]
  unfold receiveLoop
  simp only [zmqMsgRecv, h0, ↓reduceIte]
  exact ⟨_, rfl, rfl⟩

end

/-! ## messages on the wire -/

/-- the frames of a message of these parts -/
def wireFrames : List Bytes → List InFrame
  | [] => []
  | [b] => [⟨⟨b, none⟩, false⟩]
  | b :: bs => ⟨⟨b, none⟩, true⟩ :: wireFrames bs

theorem wireFrames_split {parts : List Bytes} (h : parts ≠ []) :
    ∃ front last, wireFrames parts = front ++ [last] ∧ (∀ f ∈ front, f.more = true) ∧
      last.more = false ∧ (front ++ [last]).map InFrame.payload = parts := by
  induction parts with
  | nil => exact absurd rfl h
  | cons b bs ih =>
    cases bs with
    | nil => exact ⟨[], ⟨⟨b, none⟩, false⟩, rfl, fun f hf => (nomatch hf), rfl, rfl⟩
    | cons c bs =>
      obtain ⟨front, last, heq, hfront, hlast, hpay⟩ := ih (List.cons_ne_nil c bs)
      refine ⟨⟨⟨b, none⟩, true⟩ :: front, last, ?_, ?_, hlast, ?_⟩
      · show (⟨⟨b, none⟩, true⟩ : InFrame) :: wireFrames (c :: bs) = _
        rw [heq]
        rfl
      · intro f hf
        rcases List.mem_cons.mp hf with rfl | hf
        · rfl
        · exact hfront f hf
      · rw [List.cons_append, List.map_cons, hpay]
        rfl

/-- a queue has one first message -/
theorem first_message_unique {front front' q q' : List InFrame} {last last' : InFrame}
    (h : front ++ last :: q = front' ++ last' :: q') (hfront : ∀ f ∈ front, f.more = true)
    (hlast : last.more = false) (hfront' : ∀ f ∈ front', f.more = true)
    (hlast' : last'.more = false) : front = front' ∧ last = last' ∧ q = q' := by
  induction front generalizing front' with
  | nil =>
    cases front' with
    | nil =>
      obtain ⟨h1, h2⟩ := List.cons.inj h
      exact ⟨rfl, h1, h2⟩
    | cons f front' =>
      obtain ⟨rfl, -⟩ := List.cons.inj h
      rw [hfront' _ List.mem_cons_self] at hlast
      cases hlast
  | cons f front ih =>
    cases front' with
    | nil =>
      obtain ⟨rfl, -⟩ := List.cons.inj h
      rw [hfront _ List.mem_cons_self] at hlast'
      cases hlast'
    | cons g front' =>
      obtain ⟨rfl, h2⟩ := List.cons.inj h
      obtain ⟨rfl, h3, h4⟩ := ih h2 (fun x hx => hfront x (List.mem_cons_of_mem f hx))
        (fun x hx => hfront' x (List.mem_cons_of_mem f hx))
      exact ⟨rfl, h3, h4⟩

/-- **What a receive gets from a queue that begins with a message**: that message. -/
theorem receive_front [VectorGrowth] {dont_block : Bool} {schedule : List Attempt} {s : Inbox}
    {m : Message} {run : RecvRun} (h : receive dont_block schedule s m = some run)
    (hout : run.outcome = .ok true) {parts : List Bytes} (hne : parts ≠ [])
    {q : List InFrame} (hq : s.queue = wireFrames parts ++ q) :
    payloads run.message = parts ∧ run.inbox.queue = q := by
  obtain ⟨front, last, heq, hfront, hlast, hpay⟩ :=
    receive_of_true h hout
  obtain ⟨front', last', heq', hfront', hlast', hpay'⟩ := wireFrames_split hne
  rw [hq, heq', List.append_assoc, List.singleton_append] at heq
  obtain ⟨rfl, rfl, rfl⟩ := first_message_unique heq hfront' hlast' hfront hlast
  exact ⟨hpay.trans hpay', rfl⟩

/-- a vector that grows by one -/
abbrev byOne : VectorGrowth := ⟨fun n => n + 1⟩

/-- two frames of one message and the frame of the next one -/
def twoMessages : Inbox :=
  { queue := [⟨⟨ascii "a", none⟩, true⟩, ⟨⟨ascii "b", none⟩, false⟩, ⟨⟨ascii "c", none⟩, false⟩] }

/-- a receive into a used message, interrupted between the two frames -/
theorem receive_one_message_interrupted :
    ∃ run, @receive byOne false [.runs, .fails .eintr, .runs] twoMessages threeParts = some run ∧
      run.outcome = .ok true ∧ ConsumesOneMessage twoMessages run := by
  refine ⟨_, rfl, rfl, ?_⟩
  exact @receive_one_message byOne false [.runs, .fails .eintr, .runs] twoMessages threeParts _ rfl

end Socket
end Zmqpp
