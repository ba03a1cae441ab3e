import ZmqppPty.Message.Release
import ZmqppPty.Socket.Connection

/-!
# Blocks on their way (message.cpp, socket.cpp)

A block that was handed over with a release function goes where its frame goes: from a message to
libzmq with `zmq_msg_send`, through the pipe, into `_recv_buffer` with `zmq_msg_recv`, and from
there into a message.  Between two threads the frame itself arrives; over a network its bytes do,
and libzmq closes the frame.

* `handOver`        the structures that a send of a message hands over; `handOver_pair`: they are
                    the frames of its `wire`;
* `discarded`       what the `local` message of `send` closes;
* `Transport`, `machine`   messages, the connection, and the calls on both;
* `send_balance`, `receiveLoop_balance`, …   where the blocks are after a call;
* `accounts`        so every call accounts for every block;
* `blocks_released_once_iff`   each is released exactly once iff no part is erased that owns one
                    before the last.
-/

namespace Zmqpp
namespace Socket

open Lib (exists_split)

/-! ## sending -/

/-- the structure behind `message.raw_msg(i)` -/
def msgAt (m : Message) (i : ℕ) : ZmqMsg := (m.parts.elems[i]?.map Frame.msg).getD {}

/-- the structures that the calls of `sendLoop` hand over, each with whether another one follows -/
def handOverLoop (script : ℕ → SendResult) (parts : ℕ) :
    ℕ → ℕ → ℕ → Bool → Message → List InFrame
  | 0, _, _, _, _ => []
  | n + 1, i, call, dont_wait, m =>
    match script call with
    | .accepted =>
      let f : InFrame := ⟨msgAt m i, flagFor dont_wait i parts &&& sendMore != 0⟩
      -- the assertion of `message.sent(i)` comes after the call
      if m.isSent i then [f]
      else f :: handOverLoop script parts n (i + 1) (call + 1) dont_wait (m.markSent i)
    | .failed .eagain => []
    | .failed .eintr =>
      if i = 0 then [] else handOverLoop script parts n (i + 1) (call + 1) true m
    | .failed (.other _) => []

def handOver (m : Message) (dont_block : Bool) (script : ℕ → SendResult) : List InFrame :=
  handOverLoop script m.count m.count 0 0 dont_block m

/-- a send that returns true swaps the message with a local one, whose destructor closes what the
interrupted calls have left -/
def discarded (m : Message) (dont_block : Bool) (script : ℕ → SendResult) : List Block :=
  let run := sendLoop script m.count m.count 0 0 dont_block m []
  if 0 < m.count ∧ run.outcome = .returned true then run.message.destroy else []

theorem frames_concat (wire : List (Bytes × ℕ)) (f : Bytes × ℕ) :
    frames (wire ++ [f]) = frames wire ++ [(f.1, f.2 &&& sendMore != 0)] := List.map_append ..

theorem msgAt_data (m : Message) (i : ℕ) : (msgAt m i).data = data m i := by
  unfold msgAt data
  cases m.parts.elems[i]? <;> rfl

theorem handOverLoop_pair (script : ℕ → SendResult) (parts n i call : ℕ) (dw : Bool) (m : Message)
    (wire : List (Bytes × ℕ)) :
    frames (sendLoop script parts n i call dw m wire).wire
      = frames wire ++ (handOverLoop script parts n i call dw m).map InFrame.pair := by
  induction n generalizing i call dw m wire with
  | zero => exact (List.append_nil _).symm
  | succ n ih =>
    unfold sendLoop handOverLoop
    cases hcall : script call with
    | accepted =>
      dsimp only
      have hpair : InFrame.pair ⟨msgAt m i, flagFor dw i parts &&& sendMore != 0⟩
          = (data m i, flagFor dw i parts &&& sendMore != 0) := by
        rw [← msgAt_data]
        rfl
      by_cases hsent : m.isSent i = true
      · rw [if_pos hsent, if_pos hsent, frames_concat, List.map_singleton, hpair]
      · rw [if_neg hsent, if_neg hsent, ih, frames_concat, List.map_cons, hpair,
          List.append_assoc]
        rfl
    | failed e =>
      cases e with
      | eagain =>
        dsimp only
        split <;> exact (List.append_nil _).symm
      | eintr =>
        dsimp only
        by_cases hi : i = 0
        · rw [if_pos hi, if_pos hi]
          exact (List.append_nil _).symm
        · rw [if_neg hi, if_neg hi, ih]
      | other code => exact (List.append_nil _).symm

/-- **The structures handed over are the frames that the socket has accepted.** -/
theorem handOver_pair (m : Message) (dont_block : Bool) (script : ℕ → SendResult) :
    (handOver m dont_block script).map InFrame.pair = frames (send m dont_block script).wire := by
  unfold handOver send
  by_cases hm : m.count = 0
  · rw [if_pos hm, hm]
    rfl
  · have hloop := handOverLoop_pair script m.count m.count 0 0 dont_block m []
    rw [if_neg hm]
    dsimp only
    split <;> exact hloop.symm

/-! ## where the blocks are -/

def InFrame.blocks (f : InFrame) : List Block := zmqMsgClose f.msg

def Inbox.blocks (s : Inbox) : List Block :=
  s.queue.flatMap InFrame.blocks ++ zmqMsgClose s.recvBuffer

def Pipe.blocks (p : Pipe) : List Block := p.held.flatMap InFrame.blocks ++ p.inbox.blocks

theorem count_push (p : Pipe) (f : InFrame) (b : Block) :
    (p.push f).blocks.count b = p.blocks.count b + f.blocks.count b := by
  unfold Pipe.push Pipe.blocks Inbox.blocks
  split <;>
    simp only [List.flatMap_append, List.flatMap_singleton, List.flatMap_nil, List.nil_append,
      List.count_append] <;>
    omega

theorem count_pushAll (p : Pipe) (fs : List InFrame) (b : Block) :
    (p.pushAll fs).blocks.count b = p.blocks.count b + (fs.flatMap InFrame.blocks).count b := by
  induction fs generalizing p with
  | nil => rfl
  | cons f fs ih =>
    show ((p.push f).pushAll fs).blocks.count b = _
    rw [ih, count_push, List.flatMap_cons, List.count_append]
    omega

/-- a frame is replaced -/
theorem count_setFrame {m : Message} {i : ℕ} {f : Frame} (h : m.parts.elems[i]? = some f)
    (g : Frame) (b : Block) :
    (m.setFrame i g).blocks.count b + f.destroy.count b
      = m.blocks.count b + g.destroy.count b := by
  unfold Message.setFrame Message.blocks
  obtain ⟨x, y, hxy, rfl⟩ := exists_split h
  dsimp only
  rw [hxy, List.set_append_right _ _ (Nat.le_refl _), Nat.sub_self, List.set_cons_zero]
  simp only [List.flatMap_append, List.flatMap_cons, List.count_append]
  omega

/-- the call that hands part `i` over -/
theorem count_markSent {m : Message} {i : ℕ} (hi : i < m.count) (b : Block) :
    (m.markSent i).blocks.count b + (zmqMsgClose (msgAt m i)).count b = m.blocks.count b := by
  have hget : m.parts.elems[i]? = some m.parts.elems[i] := List.getElem?_eq_getElem hi
  have hmsg : msgAt m i = (m.parts.elems[i]).msg := by
    unfold msgAt
    rw [hget]
    rfl
  rw [hmsg]
  exact count_setFrame hget ⟨zmqMsgInit, true⟩ b

theorem sendLoop_balance (script : ℕ → SendResult) (parts n i call : ℕ) (dw : Bool) (m : Message)
    (wire : List (Bytes × ℕ)) (hn : i + n ≤ m.count) (b : Block) :
    (sendLoop script parts n i call dw m wire).message.blocks.count b
      + ((handOverLoop script parts n i call dw m).flatMap InFrame.blocks).count b
      = m.blocks.count b := by
  induction n generalizing i call dw m wire with
  | zero => rfl
  | succ n ih =>
    unfold sendLoop handOverLoop
    cases hcall : script call with
    | accepted =>
      dsimp only
      have hmark := count_markSent (show i < m.count by omega) b
      by_cases hsent : m.isSent i = true
      · rw [if_pos hsent, if_pos hsent, List.flatMap_singleton]
        exact hmark
      · have hlen : (m.markSent i).count = m.count := List.length_set ..
        have hrest := ih (i + 1) (call + 1) dw (m.markSent i)
          (wire ++ [(data m i, flagFor dw i parts)]) (by rw [hlen]; omega)
        rw [if_neg hsent, if_neg hsent, List.flatMap_cons, List.count_append]
        show _ + ((zmqMsgClose (msgAt m i)).count b + _) = _
        omega
    | failed e =>
      cases e with
      | eagain =>
        dsimp only
        split <;> rfl
      | eintr =>
        dsimp only
        by_cases hi : i = 0
        · rw [if_pos hi, if_pos hi]
          rfl
        · rw [if_neg hi, if_neg hi]
          exact ih (i + 1) (call + 1) true m wire (by omega)
      | other code => rfl

/-- **After a send** a block of the message is where it was, has been handed over, or has been
released with the `local` message. -/
theorem send_balance (m : Message) (dont_block : Bool) (script : ℕ → SendResult) (b : Block) :
    (discarded m dont_block script).count b + (send m dont_block script).message.blocks.count b
      + ((handOver m dont_block script).flatMap InFrame.blocks).count b = m.blocks.count b := by
  unfold discarded send handOver
  by_cases hm : m.count = 0
  · have hnot : ¬ (0 < m.count ∧
        (sendLoop script m.count m.count 0 0 dont_block m []).outcome = .returned true) :=
      fun h => absurd h.1 (by omega)
    rw [if_neg hnot, if_pos hm, hm]
    exact Nat.zero_add _
  · have hloop := sendLoop_balance script m.count m.count 0 0 dont_block m []
      (Nat.le_of_eq (Nat.zero_add _)) b
    have hpos : 0 < m.count := Nat.pos_of_ne_zero hm
    rw [if_neg hm]
    dsimp only
    by_cases htrue : (sendLoop script m.count m.count 0 0 dont_block m []).outcome = .returned true
    · rw [if_pos ⟨hpos, htrue⟩, htrue]
      have hempty : (({} : Message).blocks).count b = 0 := rfl
      show (Message.destroy _).count b + (({} : Message).blocks).count b + _ = _
      rw [Message.destroy_eq, hempty]
      omega
    · rw [if_neg fun h => htrue h.2]
      split
      · rename_i h
        exact absurd h htrue
      · rw [List.count_nil, Nat.zero_add]
        exact hloop

/-! ## receiving -/

/-- what a `zmq_msg_recv` call does with the blocks of the socket -/
theorem zmqMsgRecv_balance {flags : ℕ} {s t : Inbox} {a : Attempt} {r : List Block}
    (h : zmqMsgRecv flags s a = .received t r) (b : Block) :
    r.count b + t.blocks.count b = s.blocks.count b := by
  unfold zmqMsgRecv at h
  cases a with
  | fails e => cases h
  | runs =>
    cases hq : s.queue with
    | nil =>
      rw [hq] at h
      dsimp only at h
      split at h <;> cases h
    | cons f q =>
      rw [hq] at h
      cases h
      unfold Inbox.blocks
      rw [hq, List.flatMap_cons]
      simp only [List.count_append]
      show _ + (_ + f.blocks.count b) = _
      omega

section
variable [VectorGrowth]

/-- the new part takes over what the buffer holds -/
theorem moveIntoLast_balance (m : Message) (s : Inbox) (b : Block) :
    (moveIntoLast m.rawNewMsg.1 s).1.blocks.count b
      + (moveIntoLast m.rawNewMsg.1 s).2.1.blocks.count b
      = m.blocks.count b + s.blocks.count b := by
  have helems : m.rawNewMsg.1.parts.elems = m.parts.elems ++ [Frame.mk {} false] :=
    m.parts.pushBack_elems _
  have hcount : m.rawNewMsg.1.count - 1 = m.parts.elems.length := by
    unfold Message.count
    rw [helems, List.length_append]
    rfl
  have hlast : m.rawNewMsg.1.parts.elems[m.rawNewMsg.1.count - 1]? = some (Frame.mk {} false) := by
    rw [hcount, helems, List.getElem?_concat_length]
  have hnew : m.rawNewMsg.1.blocks = m.blocks := by
    unfold Message.blocks
    rw [helems, List.flatMap_append]
    exact List.append_nil _
  have hset : (m.rawNewMsg.1.setFrame (m.rawNewMsg.1.count - 1)
      ⟨s.recvBuffer, false⟩).blocks.count b
      = m.blocks.count b + (zmqMsgClose s.recvBuffer).count b := by
    have h := count_setFrame hlast ⟨s.recvBuffer, false⟩ b
    rw [hnew] at h
    exact (Nat.add_zero _).symm.trans h
  have hbuffer : (Inbox.blocks { s with recvBuffer := {} }).count b
      + (zmqMsgClose s.recvBuffer).count b = s.blocks.count b := by
    unfold Inbox.blocks
    simp only [List.count_append]
    rfl
  unfold moveIntoLast
  rw [hlast]
  show (m.rawNewMsg.1.setFrame (m.rawNewMsg.1.count - 1) ⟨s.recvBuffer, false⟩).blocks.count b
    + (Inbox.blocks { s with recvBuffer := {} }).count b = _
  omega

theorem receiveLoop_balance {flags : ℕ} {schedule : List Attempt} {s : Inbox} {m : Message}
    {released : List Block} {run : RecvRun}
    (h : receiveLoop flags schedule s m released = some run) (b : Block) :
    run.released.count b + run.message.blocks.count b + run.inbox.blocks.count b
      = released.count b + m.blocks.count b + s.blocks.count b := by
  induction schedule generalizing s m released with
  | nil => cases h
  | cons a schedule ih =>
    cases hr : zmqMsgRecv flags s a with
    | blocked =>
      unfold receiveLoop at h
      rw [hr] at h
      cases h
    | failed e =>
      rcases receiveLoop_failed hr h with ⟨rfl, -⟩ | ⟨-, h'⟩ | ⟨failure, rfl⟩
      · rfl
      · exact ih h'
      · rfl
    | received t r =>
      have hrecv := zmqMsgRecv_balance hr b
      have hmove := moveIntoLast_balance m t b
      have hnew : m.rawNewMsg.2 = [] := m.parts.pushBack_released _
      have hclosed : (moveIntoLast m.rawNewMsg.1 t).2.2 = [] :=
        congrArg Prod.snd (moveIntoLast_rawNewMsg m t).2.2
      unfold receiveLoop at h
      rw [hr] at h
      dsimp only at h
      generalize moveIntoLast m.rawNewMsg.1 t = moved at h hmove hclosed
      obtain ⟨m', t', closed⟩ := moved
      dsimp only at h hmove hclosed
      rw [hnew, hclosed] at h
      split at h
      · have hrest := ih h
        simp only [List.count_append, List.count_nil] at hrest
        omega
      · rw [← Option.some.inj h]
        simp only [List.count_append, List.count_nil]
        omega

/-- **After a receive** a block of the old message has been released, and one that was on its way is
where it was, in the buffer, in the new message, or has been released as the buffer was used
again. -/
theorem receive_balance {dont_block : Bool} {schedule : List Attempt} {s : Inbox} {m : Message}
    {run : RecvRun} (h : receive dont_block schedule s m = some run) (b : Block) :
    run.released.count b + run.message.blocks.count b + run.inbox.blocks.count b
      = m.blocks.count b + s.blocks.count b := by
  unfold receive at h
  by_cases hm : 0 < m.count
  · rw [if_pos hm, Message.swap_eq] at h
    have hloop := receiveLoop_balance h b
    rw [hloop, List.nil_append, Message.destroy_eq]
    show _ + 0 + _ = _
    rfl
  · rw [if_neg hm] at h
    rw [receiveLoop_balance h b, List.count_nil, Nat.zero_add]

omit [VectorGrowth] in
theorem takePart_balance {α : Type} {flags : ℕ} {store : Bytes → α} {a : Attempt} {s : Inbox}
    {value : α} {run : TakeRun α} (h : takePart flags store a s value = some run) (b : Block) :
    run.released.count b + run.inbox.blocks.count b = s.blocks.count b := by
  unfold takePart at h
  cases hr : zmqMsgRecv flags s a with
  | blocked =>
    rw [hr] at h
    cases h
  | received t r =>
    rw [hr] at h
    rw [← Option.some.inj h]
    exact zmqMsgRecv_balance hr b
  | failed e =>
    rw [hr] at h
    dsimp only at h
    split at h <;>
    · rw [← Option.some.inj h]
      exact Nat.zero_add _

/-! ## messages and a connection -/

structure Transport where
  messages : Messages := {}
  pipe : Pipe := {}

inductive Act where
  | message (op : MessageOp)
  | send (m : ℕ) (dont_block : Bool) (script : ℕ → SendResult)
  | sendPart (string : Bytes) (flags : ℕ) (result : SendResult)
  | receive (m : ℕ) (dont_block : Bool) (schedule : List Attempt)
  | receivePart (flags : ℕ) (attempt : Attempt) (string : Bytes)
  /-- the bytes of frame `i` cross a network, and libzmq closes the frame -/
  | copied (i : ℕ)

namespace Transport

/-- the frame that has arrived instead of `f` -/
def copyOf (f : InFrame) : InFrame := { f with msg := { f.msg with block := none } }

def withCopy (s : Inbox) (i : ℕ) (f : InFrame) : Inbox :=
  { s with queue := s.queue.set i (copyOf f) }

/-- One call, or a frame that crosses a network.  No step where C++ leaves the call undefined, where
it does not return, and where an assertion ends the process. -/
def step (s : Transport) : Act → Option (Transport × List Block)
  | .message op => (s.messages.step op).map fun r => ({ s with messages := r.1 }, r.2)
  | .send i dont_block script => s.messages.all[i]?.bind fun m =>
    let run := Socket.send m dont_block script
    if run.outcome = .assertFailed then none
    else some (
      { messages := { s.messages with all := s.messages.all.set i run.message }
        pipe := s.pipe.pushAll (handOver m dont_block script) },
      discarded m dont_block script)
  | .sendPart string flags result =>
    some ({ s with pipe := s.pipe.pushAll (arrived (Socket.sendPart string flags result).wire) },
      [])
  | .receive i dont_block schedule => s.messages.all[i]?.bind fun m =>
    (Socket.receive dont_block schedule s.pipe.inbox m).bind fun run =>
      if run.outcome = .error .assertFailed then none
      else some (
        { messages := { s.messages with all := s.messages.all.set i run.message }
          pipe := { s.pipe with inbox := run.inbox } },
        run.released)
  | .receivePart flags attempt string =>
    (Socket.receivePart flags attempt s.pipe.inbox string).map fun run =>
      ({ s with pipe := { s.pipe with inbox := run.inbox } }, run.released)
  | .copied i => s.pipe.inbox.queue[i]?.bind fun f =>
    some ({ s with pipe := { s.pipe with inbox := withCopy s.pipe.inbox i f } },
      zmqMsgClose f.msg)

def machine : Lib.Machine Transport Act Block := ⟨step⟩

omit [VectorGrowth] in
/-- what the messages and the connection hold, which their destructors and libzmq release -/
def destroyAll (s : Transport) : List Block := s.messages.destroyAll ++ s.pipe.blocks

/-- the blocks a call drops without releasing them -/
def lost (s : Transport) : Act → List Block
  | .message op => op.lost s.messages
  | _ => []

/-- a call erases no part that owns a block and is not the last of its message -/
def ErasesNoBlock (s : Transport) (act : Act) : Prop := s.lost act = []

instance (s : Transport) (act : Act) : Decidable (s.ErasesNoBlock act) :=
  inferInstanceAs (Decidable (_ = _))

/-- every block handed over is released exactly once, counting the destruction of everything -/
def ReleasedOnce (s : Transport) (released : List Block) : Prop :=
  ∀ b < s.messages.next, (released ++ s.destroyAll).count b = 1

omit [VectorGrowth] in
theorem count_destroyAll (s : Transport) (b : Block) :
    s.destroyAll.count b = s.messages.owned.count b + s.pipe.blocks.count b := List.count_append

omit [VectorGrowth] in
/-- the blocks of the frames that have arrived in the socket -/
theorem count_inbox (p : Pipe) (inbox : Inbox) (b : Block) :
    (Pipe.blocks { p with inbox := inbox }).count b + p.inbox.blocks.count b
      = p.blocks.count b + inbox.blocks.count b := by
  unfold Pipe.blocks
  simp only [List.count_append]
  omega

omit [VectorGrowth] in
theorem copied_balance {s : Inbox} {i : ℕ} {f : InFrame} (h : s.queue[i]? = some f) (b : Block) :
    (zmqMsgClose f.msg).count b + (withCopy s i f).blocks.count b = s.blocks.count b := by
  obtain ⟨x, y, hxy, rfl⟩ := exists_split h
  have hcopy : (copyOf f).blocks = [] := rfl
  unfold withCopy Inbox.blocks
  dsimp only
  rw [hxy, List.set_append_right _ _ (Nat.le_refl _), Nat.sub_self, List.set_cons_zero]
  simp only [List.flatMap_append, List.flatMap_cons, List.count_append, hcopy, List.count_nil]
  show _ = _ + (f.blocks.count b + _) + _
  unfold InFrame.blocks
  omega

/-- **A call accounts for every block.** -/
theorem step_balance {s t : Transport} {act : Act} {e : List Block}
    (h : s.step act = some (t, e)) : s.messages.next ≤ t.messages.next ∧ ∀ b,
      e.count b + t.destroyAll.count b + (s.lost act).count b
        = s.destroyAll.count b + Lib.givenOut s.messages.next t.messages.next b := by
  -- a call that hands no new block over
  have hold {t : Transport} (hnext : t.messages.next = s.messages.next)
      (hb : ∀ b, e.count b + t.destroyAll.count b = s.destroyAll.count b) :
      s.messages.next ≤ t.messages.next ∧ ∀ b,
        e.count b + t.destroyAll.count b + ([] : List Block).count b
          = s.destroyAll.count b + Lib.givenOut s.messages.next t.messages.next b := by
    refine ⟨hnext.ge, fun b => ?_⟩
    rw [hnext, Lib.givenOut_self, hb b]
    rfl
  cases act with
  | message op =>
    obtain ⟨⟨m, r⟩, hstep, heq⟩ := Option.map_eq_some_iff.mp h
    cases heq
    obtain ⟨hle, hcount⟩ := Messages.step_balance hstep
    refine ⟨hle, fun b => ?_⟩
    have hb : r.count b + m.owned.count b + (op.lost s.messages).count b
        = s.messages.owned.count b + Lib.givenOut s.messages.next m.next b := hcount b
    show _ + _ + (op.lost s.messages).count b = _
    rw [count_destroyAll, count_destroyAll]
    dsimp only
    omega
  | send i dont_block script =>
    obtain ⟨m, hm, h⟩ := Option.bind_eq_some_iff.mp h
    dsimp only at h
    split at h
    · cases h
    · cases h
      refine hold rfl fun b => ?_
      have hsend := send_balance m dont_block script b
      have hset := Messages.count_owned_set hm (Socket.send m dont_block script).message b
      rw [count_destroyAll, count_destroyAll, count_pushAll]
      unfold Messages.owned
      dsimp only
      omega
  | sendPart string flags result =>
    cases Option.some.inj h
    refine hold rfl fun b => ?_
    have hnone : ((arrived (Socket.sendPart string flags result).wire).flatMap
        InFrame.blocks) = [] := by
      apply List.flatMap_eq_nil_iff.mpr
      intro f hf
      obtain ⟨x, -, rfl⟩ := List.mem_map.mp hf
      rfl
    rw [count_destroyAll, count_destroyAll, count_pushAll, hnone]
    exact Nat.zero_add _
  | receive i dont_block schedule =>
    obtain ⟨m, hm, h⟩ := Option.bind_eq_some_iff.mp h
    obtain ⟨run, hrun, h⟩ := Option.bind_eq_some_iff.mp h
    dsimp only at h
    split at h
    · cases h
    · cases h
      refine hold rfl fun b => ?_
      have hreceive := receive_balance hrun b
      have hset := Messages.count_owned_set hm run.message b
      have hinbox := count_inbox s.pipe run.inbox b
      rw [count_destroyAll, count_destroyAll]
      unfold Messages.owned
      dsimp only
      omega
  | receivePart flags attempt string =>
    obtain ⟨run, hrun, heq⟩ := Option.map_eq_some_iff.mp h
    cases heq
    refine hold rfl fun b => ?_
    have htake := takePart_balance hrun b
    have hinbox := count_inbox s.pipe run.inbox b
    rw [count_destroyAll, count_destroyAll]
    dsimp only
    omega
  | copied i =>
    obtain ⟨f, hf, h⟩ := Option.bind_eq_some_iff.mp h
    cases h
    refine hold rfl fun b => ?_
    have hcopied := copied_balance hf b
    have hinbox := count_inbox s.pipe (withCopy s.pipe.inbox i f) b
    rw [count_destroyAll, count_destroyAll]
    dsimp only
    omega

def accounts : Lib.Accounts machine where
  owned := destroyAll
  next s := s.messages.next
  lost := lost
  grows _ _ _ _ h := (step_balance h).1
  step _ _ _ _ h := (step_balance h).2

/-- **Every block handed over is released exactly once**, whatever sends and receives fail, are
interrupted or throw, and whether its frame is passed on or copied, iff the run never erases a part
that owns a block and is not the last of its message.  What a send hands over are the frames that
the socket accepts. -/
theorem blocks_released_once_iff (acts : List Act) (t : Transport) (released : List Block)
    (h : machine.exec {} acts = some (t, released)) :
    (ReleasedOnce t released ↔ machine.Along ErasesNoBlock {} acts) ∧
      ∀ m dont_block script, (handOver m dont_block script).map InFrame.pair
        = frames (Socket.send m dont_block script).wire :=
  ⟨accounts.once_iff rfl rfl h, handOver_pair⟩

end Transport
end

/-- Three blocks in a message.  The second call of its send is interrupted, so block 1 goes with the
`local` message; the frame of block 0 is copied, and block 2 arrives. -/
def interruptedShipment : List Act :=
  [.message .construct, .message .construct, .message (.move 0 [1]), .message (.move 0 [2]),
    .message (.move 0 [3]), .send 0 false interruptSecond, .copied 0,
    .receive 1 false [.runs, .fails .eintr, .runs]]

theorem blocks_released_interrupted :
    ∃ t, (@Transport.machine byOne).exec {} interruptedShipment = some (t, [1, 0]) ∧
      t.destroyAll = [2] ∧ t.ReleasedOnce [1, 0] := by
  let _ : VectorGrowth := byOne
  have hrun : (Transport.machine.exec {} interruptedShipment).map (fun r => (r.2, r.1.destroyAll))
      = some ([1, 0], [2]) := by decide +kernel
  obtain ⟨⟨t, released⟩, ht, heq⟩ := Option.map_eq_some_iff.mp hrun
  obtain ⟨rfl, hleft⟩ := Prod.mk.inj heq
  refine ⟨t, ht, hleft, (Transport.blocks_released_once_iff _ t _ ht).1.mpr ?_⟩
  decide +kernel

end Socket
end Zmqpp
