import ZmqppPty.Message.Basic

/-!
# Sending a message (socket::send(message&, bool) in socket.cpp)

The socket is its answers: `script k` is the result of the `k`-th `zmq_msg_send` call of the send.
A call that accepts the frame takes its content over, a failing call leaves it untouched.

* `sendLoop`, `send`         the loop over the parts and the whole function;
* `sendLoop_outcome`         when the loop ends with `true`: every call accepts an unsent part,
                             or is interrupted after the first part;
* `sendLoop_wire`            what it hands to the socket then: the parts whose call accepted them.
                             The `continue` after an interrupt also runs the loop's `++i`, so an
                             interrupted part is passed over, not tried again;
* `sends_every_part_iff`     hence a send that returns true is complete iff no such interrupt
                             occurred;
* `failed_send_harmless`     a send that fails before the first frame is accepted has done nothing,
                             and when the message can be sent again;
* `send_returned_false`, `send_completes`     when a send returns false, and when one that returns
                             true has ended the message.
-/

namespace Zmqpp
namespace Socket

def normal : ℕ := 0
/-- `ZMQ_DONTWAIT` -/
def dontWait : ℕ := 1
/-- `ZMQ_SNDMORE` -/
def sendMore : ℕ := 2

/-- the result of one `zmq_msg_send` -/
inductive SendResult where
  | accepted
  | failed (error : Errno)
deriving DecidableEq, Repr

inductive SendOutcome where
  | returned (b : Bool)
  | threw (e : Exn)
  | assertFailed
deriving DecidableEq, Repr

/-- how a send ended, the message it left, and the frames the socket accepted with their flags -/
structure SendRun where
  outcome : SendOutcome
  message : Message
  wire : List (Bytes × ℕ)
deriving DecidableEq, Repr

def data (m : Message) (i : ℕ) : Bytes := (m.parts.elems[i]?.map fun f => f.msg.data).getD []

def flagFor (dont_wait : Bool) (i parts : ℕ) : ℕ :=
  let flag := if dont_wait then normal ||| dontWait else normal
  if i < parts - 1 then flag ||| sendMore else flag

/-- The loop from part `i` on, `n` parts before its end, at the `call`-th call of the send. -/
def sendLoop (script : ℕ → SendResult) (parts : ℕ) :
    ℕ → ℕ → ℕ → Bool → Message → List (Bytes × ℕ) → SendRun
  | 0, _, _, _, m, wire => ⟨.returned true, m, wire⟩
  | n + 1, i, call, dont_wait, m, wire =>
    let flag := flagFor dont_wait i parts
    match script call with
    | .accepted =>
      let wire := wire ++ [(data m i, flag)]
      -- `message.sent(i)` asserts that the part was not sent before
      if m.isSent i then ⟨.assertFailed, m.markSent i, wire⟩
      else sendLoop script parts n (i + 1) (call + 1) dont_wait (m.markSent i) wire
    | .failed .eagain =>
      if i = 0 then ⟨.returned false, m, wire⟩ else ⟨.assertFailed, m, wire⟩
    | .failed .eintr =>
      if i = 0 then ⟨.returned false, m, wire⟩
      else sendLoop script parts n (i + 1) (call + 1) true m wire
    | .failed (.other code) => ⟨.threw (.zmqInternal (.other code)), m, wire⟩

/-- `socket::send(message&, bool)`; on success the message is swapped with an empty one -/
def send (m : Message) (dont_block : Bool) (script : ℕ → SendResult) : SendRun :=
  if m.count = 0 then
    ⟨.threw (.invalidArgument "sending requires messages have at least one part"), m, []⟩
  else
    let run := sendLoop script m.count m.count 0 0 dont_block m []
    match run.outcome with
    | .returned true => { run with message := {} }
    | _ => run

/-- the parts in order, each with whether its frame must carry `SNDMORE` -/
def wholeMessage (m : Message) : List (Bytes × Bool) :=
  (List.range m.count).map fun i => (data m i, decide (i + 1 < m.count))

/-- the accepted frames, each with whether it carried `SNDMORE` -/
def frames (wire : List (Bytes × ℕ)) : List (Bytes × Bool) :=
  wire.map fun f => (f.1, f.2 &&& sendMore != 0)

/-- a send that returns true has handed over every part, once, in order and properly flagged -/
def SendsEveryPart (m : Message) (dont_block : Bool) (script : ℕ → SendResult) : Prop :=
  (send m dont_block script).outcome = .returned true →
    frames (send m dont_block script).wire = wholeMessage m

/-! ## the loop -/

theorem flagFor_sendMore (dont_wait : Bool) (i parts : ℕ) :
    (flagFor dont_wait i parts &&& sendMore != 0) = decide (i + 1 < parts) := by
  unfold flagFor
  by_cases h : i < parts - 1
  · have h' : i + 1 < parts := by omega
    cases dont_wait <;> simp [h, h', normal, dontWait, sendMore]
  · have h' : ¬ i + 1 < parts := by omega
    cases dont_wait <;> simp [h, h', normal, dontWait, sendMore]

theorem isSent_markSent (m : Message) {i k : ℕ} (h : i ≠ k) :
    (m.markSent i).isSent k = m.isSent k := by
  show (((m.parts.elems.set i _)[k]?).map Frame.sent).getD false = _
  rw [List.getElem?_set_ne h]
  rfl

theorem data_markSent (m : Message) {i k : ℕ} (h : i ≠ k) : data (m.markSent i) k = data m k := by
  show (((m.parts.elems.set i _)[k]?).map _).getD [] = _
  rw [List.getElem?_set_ne h]
  rfl

/-- call `k` does not end the loop: it accepts an unsent part, or is interrupted after the first -/
def GoesOn (m : Message) (script : ℕ → SendResult) (k : ℕ) : Prop :=
  (script k = .accepted ∧ m.isSent k = false) ∨ (0 < k ∧ script k = .failed .eintr)

theorem goesOn_markSent {m : Message} {script : ℕ → SendResult} {i k : ℕ} (h : i ≠ k) :
    GoesOn (m.markSent i) script k ↔ GoesOn m script k := by
  unfold GoesOn
  rw [isSent_markSent m h]

variable (script : ℕ → SendResult) (parts : ℕ)

theorem forall_from {p : ℕ → Prop} {i n : ℕ} :
    (∀ k, i ≤ k → k < i + (n + 1) → p k) ↔ p i ∧ ∀ k, i + 1 ≤ k → k < i + 1 + n → p k := by
  constructor
  · intro h
    exact ⟨h i (Nat.le_refl i) (by omega), fun k h1 h2 => h k (by omega) (by omega)⟩
  · intro hall k h1 h2
    obtain ⟨h0, h⟩ := hall
    by_cases e : k = i
    · rw [e]; exact h0
    · exact h k (by omega) (by omega)

/-- **When the loop ends with true**: every remaining call goes on. -/
theorem sendLoop_outcome (n i : ℕ) (dw : Bool) (m : Message) (wire : List (Bytes × ℕ)) :
    (sendLoop script parts n i i dw m wire).outcome = .returned true ↔
      ∀ k, i ≤ k → k < i + n → GoesOn m script k := by
  induction n generalizing i dw m wire with
  | zero => exact ⟨fun _ k h1 h2 => by omega, fun _ => rfl⟩
  | succ n ih =>
    rw [forall_from]
    unfold sendLoop
    have hrest : (∀ k, i + 1 ≤ k → k < i + 1 + n → GoesOn (m.markSent i) script k) ↔
        ∀ k, i + 1 ≤ k → k < i + 1 + n → GoesOn m script k := by
      constructor
      · intro h k h1 h2; exact (goesOn_markSent (by omega)).mp (h k h1 h2)
      · intro h k h1 h2; exact (goesOn_markSent (by omega)).mpr (h k h1 h2)
    cases hs : script i with
    | accepted =>
      cases hsent : m.isSent i with
      | true => simp [GoesOn, hs, hsent]
      | false =>
        have hi : GoesOn m script i := Or.inl ⟨hs, hsent⟩
        simp only [Bool.false_eq_true, ↓reduceIte]
        rw [ih, hrest]
        exact ⟨fun h => ⟨hi, h⟩, fun h => h.2⟩
    | failed e =>
      cases e with
      | eagain =>
        have hi : ¬ GoesOn m script i := by simp [GoesOn, hs]
        refine ⟨fun h => ?_, fun h => absurd h.1 hi⟩
        by_cases h0 : i = 0 <;> simp [h0] at h
      | eintr =>
        by_cases h0 : i = 0
        · have hi : ¬ GoesOn m script i := by
            rintro (⟨h, -⟩ | ⟨h, -⟩)
            · rw [hs] at h; cases h
            · omega
          refine ⟨fun h => ?_, fun h => absurd h.1 hi⟩
          simp [h0] at h
        · have hi : GoesOn m script i := Or.inr ⟨Nat.pos_of_ne_zero h0, hs⟩
          simp only [h0, ↓reduceIte]
          rw [ih]
          exact ⟨fun h => ⟨hi, h⟩, fun h => h.2⟩
      | other code =>
        have hi : ¬ GoesOn m script i := by simp [GoesOn, hs]
        simp [hi]

/-- the parts from `i` on whose call accepted them -/
def acceptedParts (m : Message) (n i : ℕ) : List (Bytes × Bool) :=
  ((List.range' i n).filter fun k => script k = .accepted).map
    fun k => (data m k, decide (k + 1 < parts))

theorem acceptedParts_markSent (m : Message) (n i : ℕ) :
    acceptedParts script parts (m.markSent i) n (i + 1) = acceptedParts script parts m n (i + 1) := by
  unfold acceptedParts
  apply List.map_congr_left
  intro k hk
  have hk' := List.mem_range'_1.mp (List.mem_of_mem_filter hk)
  rw [data_markSent m (by omega)]

/-- **What a loop that ends with true has handed over**: the parts whose call accepted them. -/
theorem sendLoop_wire (n i : ℕ) (dw : Bool) (m : Message) (wire : List (Bytes × ℕ))
    (h : (sendLoop script parts n i i dw m wire).outcome = .returned true) :
    frames (sendLoop script parts n i i dw m wire).wire
      = frames wire ++ acceptedParts script parts m n i := by
  induction n generalizing i dw m wire with
  | zero => exact (List.append_nil _).symm
  | succ n ih =>
    unfold sendLoop at h ⊢
    cases hs : script i with
    | accepted =>
      cases hsent : m.isSent i with
      | true => simp [hs, hsent] at h
      | false =>
        simp only [hs, hsent, Bool.false_eq_true, ↓reduceIte] at h ⊢
        rw [ih _ _ _ _ h, acceptedParts_markSent]
        have hflag := flagFor_sendMore dw i parts
        have hcons : acceptedParts script parts m (n + 1) i
            = (data m i, decide (i + 1 < parts)) :: acceptedParts script parts m n (i + 1) := by
          unfold acceptedParts
          rw [List.range'_succ, List.filter_cons_of_pos (by simpa using hs), List.map_cons]
        rw [hcons]
        unfold frames
        rw [List.map_append, List.map_singleton, hflag, List.append_assoc, List.singleton_append]
    | failed e =>
      have hskip : acceptedParts script parts m (n + 1) i
          = acceptedParts script parts m n (i + 1) := by
        unfold acceptedParts
        rw [List.range'_succ, List.filter_cons_of_neg (by simp [hs])]
      rw [hs] at h
      cases e with
      | eagain => by_cases h0 : i = 0 <;> simp [h0] at h
      | eintr =>
        by_cases h0 : i = 0
        · simp [h0] at h
        · simp only [h0, ↓reduceIte] at h ⊢
          rw [ih _ _ _ _ h, hskip]
      | other code => cases h

/-! ## the whole send -/

theorem send_of_loop {m : Message} (hm : 0 < m.count) (dont_block : Bool) :
    (send m dont_block script).outcome
      = (sendLoop script m.count m.count 0 0 dont_block m []).outcome := by
  unfold send
  rw [if_neg (Nat.ne_of_gt hm)]
  dsimp only
  split <;> rfl

theorem send_outcome {m : Message} (hm : 0 < m.count) (dont_block : Bool) :
    (send m dont_block script).outcome = .returned true ↔ ∀ k < m.count, GoesOn m script k := by
  have h := sendLoop_outcome script m.count m.count 0 dont_block m []
  simp only [Nat.zero_le, Nat.zero_add, forall_const] at h
  rw [← h, send_of_loop script hm]

theorem send_wire {m : Message} (dont_block : Bool)
    (h : (send m dont_block script).outcome = .returned true) :
    frames (send m dont_block script).wire = acceptedParts script m.count m m.count 0 := by
  unfold send at h ⊢
  by_cases h0 : m.count = 0
  · rw [if_pos h0] at h; cases h
  · rw [if_neg h0] at h ⊢
    have hr : (sendLoop script m.count m.count 0 0 dont_block m []).outcome = .returned true := by
      dsimp only at h
      split at h
      · assumption
      · exact h
    simp only [hr]
    exact sendLoop_wire script m.count m.count 0 dont_block m [] hr

/-- a first call that fails for good: nothing is handed over, and the error is thrown -/
theorem send_failed_first {m : Message} (hm : 0 < m.count) (dont_block : Bool) {code : ℕ}
    (h : script 0 = .failed (.other code)) :
    send m dont_block script = ⟨.threw (.zmqInternal (.other code)), m, []⟩ := by
  obtain ⟨n, hn⟩ := Nat.exists_eq_succ_of_ne_zero (Nat.ne_of_gt hm)
  unfold send
  rw [if_neg (Nat.ne_of_gt hm), hn]
  unfold sendLoop
  rw [h]

/-- the accepted parts are the whole message iff every call accepted its part -/
theorem acceptedParts_eq_iff (m : Message) :
    acceptedParts script m.count m m.count 0 = wholeMessage m ↔
      ∀ k < m.count, script k = .accepted := by
  unfold acceptedParts wholeMessage
  rw [← List.range_eq_range']
  constructor
  · intro h k hk
    have hlen := congrArg List.length h
    rw [List.length_map, List.length_map] at hlen
    have hall := List.length_filter_eq_length_iff.mp hlen k (List.mem_range.mpr hk)
    simpa using hall
  · intro h
    rw [List.filter_eq_self.mpr fun k hk => by simpa using h k (List.mem_range.mp hk)]

theorem wholeMessage_data (m : Message) :
    (wholeMessage m).map Prod.fst = m.parts.elems.map fun f => f.msg.data := by
  unfold wholeMessage
  rw [List.map_map]
  apply List.ext_getElem?
  intro i
  rw [List.getElem?_map, List.getElem?_map]
  by_cases h : i < m.count
  · rw [List.getElem?_range h]
    show some (data m i) = _
    unfold data
    rw [List.getElem?_eq_getElem h]
    rfl
  · rw [List.getElem?_eq_none (by simpa using h), List.getElem?_eq_none (Nat.le_of_not_lt h)]
    rfl

/-- **A send whose calls all accept** hands over the contents of the parts. -/
theorem send_accepted {m : Message} (hm : 0 < m.count) (hunsent : ∀ k < m.count, m.isSent k = false)
    (dont_block : Bool) (h : ∀ k < m.count, script k = .accepted) :
    (send m dont_block script).outcome = .returned true ∧
      (send m dont_block script).wire.map Prod.fst = m.parts.elems.map fun f => f.msg.data := by
  have hout : (send m dont_block script).outcome = .returned true :=
    (send_outcome script hm dont_block).mpr fun k hk => Or.inl ⟨h k hk, hunsent k hk⟩
  refine ⟨hout, ?_⟩
  have hwire := send_wire script dont_block hout
  rw [(acceptedParts_eq_iff script m).mpr h] at hwire
  rw [← wholeMessage_data, ← hwire]
  unfold frames
  rw [List.map_map]
  rfl

/-- **A send loses no part iff no call for a part after the first is interrupted in a send whose
calls all go on.** -/
theorem sends_every_part_iff (m : Message) (hm : 0 < m.count) (dont_block : Bool)
    (script : ℕ → SendResult) :
    SendsEveryPart m dont_block script ↔
      ((∀ k < m.count, GoesOn m script k) → ∀ k < m.count, 0 < k → script k ≠ .failed .eintr) := by
  unfold SendsEveryPart
  rw [send_outcome script hm]
  constructor
  · intro h hgo k hk _ hintr
    have hout := (send_outcome script hm dont_block).mpr hgo
    have hall := h hgo
    rw [send_wire script dont_block hout, acceptedParts_eq_iff] at hall
    rw [hall k hk] at hintr
    cases hintr
  · intro h hgo
    have hout := (send_outcome script hm dont_block).mpr hgo
    rw [send_wire script dont_block hout, acceptedParts_eq_iff]
    intro k hk
    rcases hgo k hk with hacc | ⟨hpos, hintr⟩
    · exact hacc.1
    · exact absurd hintr (h hgo k hk hpos)

/-- a message of three parts -/
def threeParts : Message :=
  { parts := ⟨[Frame.copyOf (ascii "a"), Frame.copyOf (ascii "b"), Frame.copyOf (ascii "c")], 4⟩ }

/-- every call accepts -/
def acceptAll : ℕ → SendResult := fun _ => .accepted

/-- the second call is interrupted, all others accept -/
def interruptSecond : ℕ → SendResult := fun k => if k = 1 then .failed .eintr else .accepted

theorem sends_every_part_accepted : SendsEveryPart threeParts false acceptAll :=
  (sends_every_part_iff threeParts (by decide) false acceptAll).mpr fun _ _ _ _ h => by cases h

/-- **An interrupt at the second of three parts loses that part**, and the send returns true. -/
theorem interrupted_send_loses_part :
    (send threeParts false interruptSecond).outcome = .returned true ∧
      frames (send threeParts false interruptSecond).wire
        = [(ascii "a", true), (ascii "c", false)] ∧
      ¬ SendsEveryPart threeParts false interruptSecond := by
  refine ⟨by decide, by decide, ?_⟩
  intro h
  exact absurd (h (by decide)) (by decide)

/-! ## a send that fails -/

/-- past the first part the loop does not return false, and what the socket has accepted stays
accepted -/
theorem sendLoop_later (n i call : ℕ) (hi : 0 < i) (dw : Bool) (m : Message)
    (wire : List (Bytes × ℕ)) :
    (sendLoop script parts n i call dw m wire).outcome ≠ .returned false ∧
      wire <+: (sendLoop script parts n i call dw m wire).wire := by
  have hne : i ≠ 0 := Nat.ne_of_gt hi
  induction n generalizing i call dw m wire with
  | zero => exact ⟨fun h => (nomatch h), List.prefix_refl wire⟩
  | succ n ih =>
    unfold sendLoop
    cases hs : script call with
    | accepted =>
      have hmore : wire <+: wire ++ [(data m i, flagFor dw i parts)] := List.prefix_append ..
      dsimp only
      split
      · exact ⟨fun h => (nomatch h), hmore⟩
      · obtain ⟨hout, hwire⟩ := ih (i + 1) (call + 1) (Nat.succ_pos i) dw (m.markSent i)
          (wire ++ [(data m i, flagFor dw i parts)]) (Nat.succ_ne_zero i)
        exact ⟨hout, hmore.trans hwire⟩
    | failed e =>
      cases e with
      | eagain =>
        simp only [hne, ↓reduceIte]
        exact ⟨fun h => (nomatch h), List.prefix_refl wire⟩
      | eintr =>
        simp only [hne, ↓reduceIte]
        exact ih (i + 1) (call + 1) (Nat.succ_pos i) true m wire (Nat.succ_ne_zero i)
      | other code => exact ⟨fun h => (nomatch h), List.prefix_refl wire⟩

/-- the send returned false, or threw before a frame was accepted -/
def FailsEarly (run : SendRun) : Prop :=
  run.outcome = .returned false ∨ (∃ e, run.outcome = .threw e) ∧ run.wire = []

/-- an early failure is one of the first call, or there was nothing to send -/
theorem sendLoop_failsEarly {n : ℕ} {dw : Bool} {m : Message}
    (h : FailsEarly (sendLoop script parts n 0 0 dw m [])) :
    (sendLoop script parts n 0 0 dw m []).message = m ∧
      (sendLoop script parts n 0 0 dw m []).wire = [] := by
  cases n with
  | zero => exact ⟨rfl, rfl⟩
  | succ n =>
    unfold sendLoop at h ⊢
    cases hs : script 0 with
    | accepted =>
      -- the first frame is on the wire from here on
      simp only [hs] at h
      split at h
      · rcases h with h | ⟨-, h⟩
        · cases h
        · simp at h
      · obtain ⟨hout, hwire⟩ := sendLoop_later script parts n 1 1 Nat.one_pos dw (m.markSent 0)
          ([] ++ [(data m 0, flagFor dw 0 parts)])
        rcases h with h | ⟨-, h⟩
        · exact absurd h hout
        · rw [h] at hwire
          simp at hwire
    | failed e => cases e <;> exact ⟨rfl, rfl⟩

/-- a send that does not succeed is its loop -/
theorem send_eq_loop {m : Message} (hm : 0 < m.count) {dont_block : Bool}
    (h : (send m dont_block script).outcome ≠ .returned true) :
    send m dont_block script = sendLoop script m.count m.count 0 0 dont_block m [] := by
  unfold send at h ⊢
  rw [if_neg (Nat.ne_of_gt hm)] at h ⊢
  dsimp only at h ⊢
  split at h
  · exact absurd ‹_› h
  · rfl

theorem send_failsEarly {m : Message} {dont_block : Bool}
    (h : FailsEarly (send m dont_block script)) :
    (send m dont_block script).message = m ∧ (send m dont_block script).wire = [] := by
  by_cases hm : m.count = 0
  · unfold send
    rw [if_pos hm]
    exact ⟨rfl, rfl⟩
  · have hout : (send m dont_block script).outcome ≠ .returned true := by
      intro htrue
      unfold FailsEarly at h
      rw [htrue] at h
      rcases h with h | ⟨⟨e, h⟩, -⟩ <;> cases h
    have heq := send_eq_loop script (Nat.pos_of_ne_zero hm) hout
    rw [heq] at h ⊢
    exact sendLoop_failsEarly script m.count h

/-- once its calls are accepted, a send of the message hands over all of it -/
def SendsWhole (m : Message) : Prop :=
  ∀ dont_block script, (∀ k < m.count, script k = .accepted) →
    (send m dont_block script).outcome = .returned true ∧
      frames (send m dont_block script).wire = wholeMessage m

/-- `send` refuses a message without parts, and `message::sent` asserts that no part is sent
twice -/
theorem sendsWhole_iff (m : Message) :
    SendsWhole m ↔ 0 < m.count ∧ ∀ k < m.count, m.isSent k = false := by
  constructor
  · intro h
    have hout := (h false acceptAll fun _ _ => rfl).1
    have hm : 0 < m.count := by
      by_contra hm
      unfold send at hout
      rw [if_pos (Nat.eq_zero_of_not_pos hm)] at hout
      cases hout
    refine ⟨hm, fun k hk => ?_⟩
    rcases (send_outcome acceptAll hm false).mp hout k hk with ⟨-, hunsent⟩ | ⟨-, hintr⟩
    · exact hunsent
    · cases hintr
  · rintro ⟨hm, hunsent⟩ dont_block script haccept
    have hout := (send_accepted script hm hunsent dont_block haccept).1
    refine ⟨hout, ?_⟩
    rw [send_wire script dont_block hout]
    exact (acceptedParts_eq_iff script m).mpr haccept

/-- **A failed send is harmless.**  If it returns false or throws before a frame is accepted, then
no frame is accepted and the message is as it was.  Another send of it hands over the whole message
iff it has parts and an earlier send has not left some of them sent. -/
theorem failed_send_harmless (m : Message) (dont_block : Bool) (script : ℕ → SendResult)
    (h : FailsEarly (send m dont_block script)) :
    (send m dont_block script).wire = [] ∧ (send m dont_block script).message = m ∧
      (SendsWhole (send m dont_block script).message ↔
        0 < m.count ∧ ∀ k < m.count, m.isSent k = false) := by
  obtain ⟨hmessage, hwire⟩ := send_failsEarly script h
  refine ⟨hwire, hmessage, ?_⟩
  rw [hmessage]
  exact sendsWhole_iff m

/-- every call fails with `EAGAIN` -/
def wouldBlock : ℕ → SendResult := fun _ => .failed .eagain

theorem failed_send_again :
    (send threeParts true wouldBlock).message = threeParts ∧
      SendsWhole (send threeParts true wouldBlock).message := by
  obtain ⟨-, hmessage, hagain⟩ :=
    failed_send_harmless threeParts true wouldBlock (Or.inl (by decide))
  exact ⟨hmessage, hagain.mpr (by decide)⟩

/-- the second call fails for good -/
def failSecond : ℕ → SendResult := fun k => if k = 1 then .failed (.other 88) else .accepted

/-- what a send leaves that throws after the first part -/
def halfSent : Message := (send threeParts false failSecond).message

/-- **A half-sent message cannot be sent again**: a send of it that would block returns false, and
the next one fails an assertion. -/
theorem half_sent_again :
    (send threeParts false failSecond).outcome = .threw (.zmqInternal (.other 88)) ∧
      (send halfSent true wouldBlock).outcome = .returned false ∧
      (send halfSent true wouldBlock).message = halfSent ∧
      (send halfSent false acceptAll).outcome = .assertFailed ∧ ¬ SendsWhole halfSent := by
  refine ⟨by decide, by decide, by decide, by decide, ?_⟩
  intro h
  exact absurd (h false acceptAll fun _ _ => rfl).1 (by decide)

/-! ## how a send ends -/

/-- a frame without `SNDMORE` has been accepted -/
def completes (wire : List (Bytes × ℕ)) : Bool := (frames wire).any fun f => !f.2

/-- **When a send returns false**: its first call would block or is interrupted. -/
theorem send_returned_false {m : Message} (hm : 0 < m.count) (dont_block : Bool) :
    (send m dont_block script).outcome = .returned false ↔
      script 0 = .failed .eagain ∨ script 0 = .failed .eintr := by
  rw [send_of_loop script hm]
  obtain ⟨n, hn⟩ := Nat.exists_eq_succ_of_ne_zero (Nat.ne_of_gt hm)
  rw [hn]
  unfold sendLoop
  cases hs : script 0 with
  | accepted =>
    have hlater := (sendLoop_later script n.succ n 1 1 Nat.one_pos dont_block (m.markSent 0)
      ([] ++ [(data m 0, flagFor dont_block 0 n.succ)])).1
    dsimp only
    split
    · exact ⟨nofun, nofun⟩
    · exact ⟨fun h => absurd h hlater, nofun⟩
  | failed e => cases e <;> simp

/-- no part was sent before, and after the first part no call would block -/
theorem sendLoop_not_assertFailed (n i : ℕ) (dw : Bool) (m : Message) (wire : List (Bytes × ℕ))
    (hunsent : ∀ k, i ≤ k → m.isSent k = false)
    (hatomic : ∀ k, 0 < k → script k ≠ .failed .eagain) :
    (sendLoop script parts n i i dw m wire).outcome ≠ .assertFailed := by
  induction n generalizing i dw m wire with
  | zero => exact nofun
  | succ n ih =>
    unfold sendLoop
    cases hs : script i with
    | accepted =>
      simp only [hunsent i (Nat.le_refl i), Bool.false_eq_true, ↓reduceIte]
      apply ih
      intro k hk
      rw [isSent_markSent m (by omega)]
      exact hunsent k (by omega)
    | failed e =>
      cases e with
      | eagain =>
        by_cases h0 : i = 0
        · simp [h0]
        · exact absurd hs (hatomic i (Nat.pos_of_ne_zero h0))
      | eintr =>
        by_cases h0 : i = 0
        · simp [h0]
        · simp only [h0, ↓reduceIte]
          exact ih (i + 1) true m wire fun k hk => hunsent k (by omega)
      | other code => exact nofun

theorem send_not_assertFailed {m : Message} (hunsent : ∀ k, m.isSent k = false) (dont_block : Bool)
    (hatomic : ∀ k, 0 < k → script k ≠ .failed .eagain) :
    (send m dont_block script).outcome ≠ .assertFailed := by
  by_cases hm : m.count = 0
  · unfold send
    rw [if_pos hm]
    exact nofun
  · rw [send_of_loop script (Nat.pos_of_ne_zero hm)]
    exact sendLoop_not_assertFailed script m.count m.count 0 dont_block m []
      (fun k _ => hunsent k) hatomic

/-- **A send that returns true completes the message iff the call for its last part accepts.** -/
theorem send_completes {m : Message} (hm : 0 < m.count) {dont_block : Bool}
    (h : (send m dont_block script).outcome = .returned true) :
    completes (send m dont_block script).wire = true ↔ script (m.count - 1) = .accepted := by
  unfold completes
  rw [send_wire script dont_block h, List.any_eq_true]
  unfold acceptedParts
  constructor
  · intro hlast
    obtain ⟨f, hf, hmore⟩ := hlast
    obtain ⟨k, hk, rfl⟩ := List.mem_map.mp hf
    obtain ⟨hrange, hacc⟩ := List.mem_filter.mp hk
    have hlt := List.mem_range'_1.mp hrange
    have hk' : k = m.count - 1 := by
      simp only [Bool.not_eq_true', decide_eq_false_iff_not] at hmore
      omega
    rw [← hk']
    exact of_decide_eq_true hacc
  · intro hacc
    refine ⟨_, List.mem_map.mpr ⟨m.count - 1, List.mem_filter.mpr ⟨?_, decide_eq_true hacc⟩, rfl⟩, ?_⟩
    · rw [List.mem_range'_1]
      omega
    · simp only [Bool.not_eq_true', decide_eq_false_iff_not]
      omega

end Socket
end Zmqpp
