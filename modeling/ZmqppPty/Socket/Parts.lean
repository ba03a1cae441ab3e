import ZmqppPty.Socket.Receive

/-!
# Single parts (socket.cpp and the receive loop of client/main.cpp)

`send_raw`, `receive_raw` and the `std::string` overloads of `send` and `receive` hand over or take
one part each.  A part that is taken stays in the receive buffer.

* `sendRaw`, `sendPart`, `sendString`            hand over a part;
* `receivePart`, `receiveString`, `receiveRaw`   take one;
* `printLoop`                the client's loop over the parts of a message.  It does not look at what
                             `receive` returns: an interrupted call prints an empty line, and the
                             loop goes on with what `has_more_parts` said before;
* `printLoop_more`           the loop invariant: what the loop prints of the rest of a message;
* `print_loop_takes_message` it takes one message or nothing, and prints it as it is iff no call is
                             interrupted before its last part.
-/

namespace Zmqpp
namespace Socket

open Message (payloads)

/-- how a call that hands over one part ended, and what the socket accepted -/
structure PartRun where
  outcome : Except Exn Bool
  wire : List (Bytes × ℕ)

/-- `send_raw`; `buffer` is the `length` bytes that its pointer is to -/
def sendRaw (buffer : Bytes) (flags : ℕ) : SendResult → PartRun
  | .accepted => ⟨.ok true, [(buffer, flags)]⟩
  | .failed e =>
    if e = .eagain ∨ e = .eintr then ⟨.ok false, []⟩ else ⟨.error (.zmqInternal e), []⟩

/-- `send(std::string const&, int)` -/
def sendPart (string : Bytes) (flags : ℕ) (result : SendResult) : PartRun :=
  sendRaw string flags result

/-- `send(std::string const&, bool)` -/
def sendString (str : Bytes) (dont_block : Bool) (result : SendResult) : PartRun :=
  sendPart str (if dont_block then dontWait else normal) result

/-- a call that fails hands nothing over -/
theorem sendPart_failed (string : Bytes) (flags : ℕ) (e : Errno) :
    (sendPart string flags (.failed e)).wire = [] ∧
      (sendPart string flags (.failed e)).outcome ≠ .ok true := by
  unfold sendPart sendRaw
  dsimp only
  split
  · exact ⟨rfl, nofun⟩
  · exact ⟨rfl, nofun⟩

/-- how a call that takes one part ended, the socket it left, and what its argument holds then -/
structure TakeRun (α : Type) where
  outcome : Except Exn Bool
  inbox : Inbox
  released : List Block
  value : α

/-- `receive` and `receive_raw` differ in what they `store` of the part -/
def takePart {α : Type} (flags : ℕ) (store : Bytes → α) (a : Attempt) (s : Inbox) (value : α) :
    Option (TakeRun α) :=
  match zmqMsgRecv flags s a with
  | .blocked => none
  | .received s r => some ⟨.ok true, s, r, store s.recvBuffer.data⟩
  | .failed e =>
    if e = .eagain ∨ e = .eintr then some ⟨.ok false, s, [], value⟩
    else some ⟨.error (.zmqInternal e), s, [], value⟩

/-- `receive(std::string&, int)` -/
def receivePart (flags : ℕ) (a : Attempt) (s : Inbox) (string : Bytes) : Option (TakeRun Bytes) :=
  takePart flags (fun data => data) a s string

/-- `receive(std::string&, bool)` -/
def receiveString (dont_block : Bool) (a : Attempt) (s : Inbox) (str : Bytes) :
    Option (TakeRun Bytes) :=
  receivePart (if dont_block then dontWait else normal) a s str

/-- `receive_raw`; the buffer has room for `length` bytes -/
def receiveRaw (flags : ℕ) (a : Attempt) (s : Inbox) (buffer : Bytes) (length : ℕ) :
    Option (TakeRun (Bytes × ℕ)) :=
  takePart flags (fun data =>
    let length := min length data.length
    (data.take length ++ buffer.drop length, length)) a s (buffer, length)

def hasMoreParts (s : Inbox) : Bool := getReceiveMore s

/-! ## the receive loop of the client -/

structure PrintRun where
  outcome : Except Exn Unit
  inbox : Inbox
  lines : List Bytes

/-- `do { … } while(socket.has_more_parts());`, with a new `std::string message` in each turn -/
def printLoop : List Attempt → Inbox → List Bytes → Option PrintRun
  | [], _, _ => none
  | a :: schedule, s, lines =>
    match receiveString false a s [] with
    | none => none
    | some run =>
      match run.outcome with
      | .error e => some ⟨.error e, run.inbox, lines⟩
      | .ok _ =>
        let lines := lines ++ [run.value]
        if hasMoreParts run.inbox then printLoop schedule run.inbox lines
        else some ⟨.ok (), run.inbox, lines⟩

/-- a part for each call that goes through, an empty line for each one that is interrupted -/
def linesOf : List Attempt → List Bytes → List Bytes
  | .runs :: schedule, b :: parts => b :: linesOf schedule parts
  | _ :: schedule, parts => [] :: linesOf schedule parts
  | [], _ => []

theorem receiveString_runs {s : Inbox} {f : InFrame} {q : List InFrame} (h : s.queue = f :: q)
    (str : Bytes) :
    receiveString false .runs s str
      = some ⟨.ok true, ⟨q, f.msg, f.more⟩, zmqMsgClose s.recvBuffer, f.payload⟩ := by
  unfold receiveString receivePart takePart zmqMsgRecv
  rw [h]
  rfl

theorem receiveString_eintr (s : Inbox) (str : Bytes) :
    receiveString false (.fails .eintr) s str = some ⟨.ok false, s, [], str⟩ := rfl

/-- a turn that takes a part -/
theorem printLoop_runs {schedule : List Attempt} {s : Inbox} {f : InFrame} {q : List InFrame}
    (h : s.queue = f :: q) (lines : List Bytes) :
    printLoop (.runs :: schedule) s lines =
      if f.more = true then printLoop schedule ⟨q, f.msg, f.more⟩ (lines ++ [f.payload])
      else some ⟨.ok (), ⟨q, f.msg, f.more⟩, lines ++ [f.payload]⟩ := by
  conv_lhs => unfold printLoop
  rw [receiveString_runs h]
  simp only [hasMoreParts, getReceiveMore_eq]

/-- an interrupted turn -/
theorem printLoop_eintr (schedule : List Attempt) (s : Inbox) (lines : List Bytes) :
    printLoop (.fails .eintr :: schedule) s lines =
      if s.rcvMore = true then printLoop schedule s (lines ++ [[]])
      else some ⟨.ok (), s, lines ++ [[]]⟩ := by
  conv_lhs => unfold printLoop
  rw [receiveString_eintr]
  simp only [hasMoreParts, getReceiveMore_eq]

theorem linesOf_length (schedule : List Attempt) (parts : List Bytes) :
    (linesOf schedule parts).length = schedule.length := by
  induction schedule generalizing parts with
  | nil => rfl
  | cons a schedule ih =>
    cases a with
    | runs =>
      cases parts with
      | nil => exact congrArg (· + 1) (ih [])
      | cons b parts => exact congrArg (· + 1) (ih parts)
    | fails e => exact congrArg (· + 1) (ih parts)

/-- empty lines apart, the lines are the parts of the calls that go through -/
theorem filter_linesOf {schedule : List Attempt} {parts : List Bytes}
    (h : schedule.count .runs = parts.length) :
    (linesOf schedule parts).filter (· ≠ []) = parts.filter (· ≠ []) := by
  induction schedule generalizing parts with
  | nil =>
    rw [List.count_nil] at h
    rw [List.eq_nil_of_length_eq_zero h.symm]
    rfl
  | cons a schedule ih =>
    cases a with
    | runs =>
      rw [List.count_cons_self] at h
      cases parts with
      | nil => cases h
      | cons b parts =>
        show ((b :: linesOf schedule parts).filter _) = _
        rw [List.filter_cons, List.filter_cons, ih (Nat.succ.inj h)]
    | fails e =>
      rw [List.count_cons_of_ne (by simp)] at h
      show (([] : Bytes) :: linesOf schedule parts).filter _ = _
      rw [List.filter_cons_of_neg (by simp), ih h]

/-- calls that all go through print the parts -/
theorem linesOf_runs (parts : List Bytes) :
    linesOf (List.replicate parts.length .runs) parts = parts := by
  induction parts with
  | nil => rfl
  | cons b parts ih => exact congrArg (b :: ·) ih

/-- The calls of a loop that has taken `n` parts: they are the first ones of the schedule, and the
last of them went through. -/
structure Used (schedule used : List Attempt) (n : ℕ) : Prop where
  prefix_of : used <+: schedule
  count_eq : used.count .runs = n
  last_runs : used.getLast? = some .runs

theorem Used.cons {schedule used : List Attempt} {n k : ℕ} (h : Used schedule used n) (a : Attempt)
    (hk : (a :: used).count .runs = k) : Used (a :: schedule) (a :: used) k := by
  refine ⟨(List.prefix_cons_inj a).mpr h.prefix_of, hk, ?_⟩
  rw [List.getLast?_cons, h.last_runs]
  rfl

/-- **What the loop does in the middle of a message**: it takes the rest of it, and its lines are
the parts with an empty line for each interrupt. -/
theorem printLoop_more {schedule : List Attempt} {s : Inbox} {lines parts : List Bytes}
    {q : List InFrame} {run : PrintRun} (hne : parts ≠ []) (hq : s.queue = wireFrames parts ++ q)
    (honly : OnlyInterrupts schedule) (hstart : s.rcvMore = true ∨ schedule.head? = some .runs)
    (h : printLoop schedule s lines = some run) :
    run.outcome = .ok () ∧ run.inbox.queue = q ∧
      ∃ used, Used schedule used parts.length ∧ run.lines = lines ++ linesOf used parts := by
  induction schedule generalizing s lines parts with
  | nil => cases h
  | cons a schedule ih =>
    have honly' : OnlyInterrupts schedule := fun b hb => honly b (List.mem_cons_of_mem a hb)
    rcases honly a List.mem_cons_self with rfl | rfl
    · cases parts with
      | nil => exact absurd rfl hne
      | cons b parts =>
        cases parts with
        | nil =>
          -- the last part ends the loop
          rw [printLoop_runs (f := ⟨⟨b, none⟩, false⟩) hq, if_neg (by simp)] at h
          rw [← Option.some.inj h]
          refine ⟨rfl, rfl, [.runs], ⟨?_, rfl, rfl⟩, rfl⟩
          exact List.cons_prefix_cons.mpr ⟨rfl, List.nil_prefix⟩
        | cons c parts =>
          rw [printLoop_runs (f := ⟨⟨b, none⟩, true⟩) hq, if_pos rfl] at h
          obtain ⟨hout, hqueue, used, hused, hlines⟩ :=
            ih (List.cons_ne_nil c parts) rfl honly' (Or.inl rfl) h
          refine ⟨hout, hqueue, .runs :: used, hused.cons .runs ?_, ?_⟩
          · rw [List.count_cons_self, hused.count_eq]
            rfl
          · rw [hlines, List.append_assoc]
            rfl
    · rw [printLoop_eintr] at h
      by_cases hmore : s.rcvMore = true
      · rw [if_pos hmore] at h
        obtain ⟨hout, hqueue, used, hused, hlines⟩ := ih hne hq honly' (Or.inl hmore) h
        refine ⟨hout, hqueue, .fails .eintr :: used, hused.cons _ ?_, ?_⟩
        · rw [List.count_cons_of_ne (by simp), hused.count_eq]
        · rw [hlines, List.append_assoc]
          rfl
      · rcases hstart with hstart | hstart
        · exact absurd hstart hmore
        · cases hstart

/-- no call is interrupted before the last part iff as many calls are used as there are parts -/
theorem Used.length_eq_iff {schedule used : List Attempt} {n : ℕ} (h : Used schedule used n) :
    used.length = n ↔ ∀ a ∈ schedule.take n, a = .runs := by
  have hle : n ≤ used.length := h.count_eq ▸ List.count_le_length
  have htake : schedule.take n = used.take n := by
    obtain ⟨rest, rfl⟩ := h.prefix_of
    rw [List.take_append_of_le_length hle]
  rw [htake]
  constructor
  · intro hlen a ha
    rw [List.take_of_length_le (Nat.le_of_eq hlen)] at ha
    have hall : used.count .runs = used.length := h.count_eq.trans hlen.symm
    exact (List.count_eq_length.mp hall a ha).symm
  · intro hall
    have hfront : (used.take n).count .runs = n := by
      rw [List.count_eq_length.mpr fun a ha => (hall a ha).symm, List.length_take]
      exact Nat.min_eq_left hle
    have hsplit := h.count_eq
    rw [← List.take_append_drop n used, List.count_append, hfront] at hsplit
    by_contra hlen
    -- the last call is beyond the first `n`, and it goes through
    have hback : used.drop n ≠ [] := by
      intro hnil
      rw [List.drop_eq_nil_iff] at hnil
      omega
    have hlast := h.last_runs
    rw [← List.take_append_drop n used, List.getLast?_append_of_ne_nil _ hback] at hlast
    have hpos := List.count_pos_iff.mpr (List.mem_of_getLast? hlast)
    omega

theorem linesOf_eq_iff {schedule used : List Attempt} {parts : List Bytes}
    (h : Used schedule used parts.length) :
    linesOf used parts = parts ↔ ∀ a ∈ schedule.take parts.length, a = .runs := by
  rw [← h.length_eq_iff]
  constructor
  · intro heq
    rw [← linesOf_length used parts, heq]
  · intro hlen
    have hall : used = List.replicate parts.length .runs := by
      rw [List.eq_replicate_iff]
      refine ⟨hlen, ?_⟩
      intro a ha
      exact (List.count_eq_length.mp (h.count_eq.trans hlen.symm) a ha).symm
    rw [hall, linesOf_runs]

theorem wireFrames_ne_nil {parts : List Bytes} (h : parts ≠ []) (q : List InFrame) :
    wireFrames parts ++ q ≠ q := by
  intro heq
  obtain ⟨front, last, hframes, -, -, -⟩ := wireFrames_split h
  have hlen := congrArg List.length heq
  rw [hframes, List.length_append, List.length_append, List.length_singleton] at hlen
  omega

/-- the loop takes a message, unless its first call is interrupted -/
theorem printLoop_message {schedule : List Attempt} {s : Inbox} {parts : List Bytes}
    {q : List InFrame} {run : PrintRun} (hne : parts ≠ []) (hq : s.queue = wireFrames parts ++ q)
    (hmore : s.rcvMore = false) (honly : OnlyInterrupts schedule)
    (h : printLoop schedule s [] = some run) :
    run.outcome = .ok () ∧
      ((run.inbox.queue = q ∧
          ∃ used, Used schedule used parts.length ∧ run.lines = linesOf used parts) ∨
        (schedule.head? = some (.fails .eintr) ∧ run.inbox = s ∧ run.lines = [[]])) := by
  by_cases hstart : schedule.head? = some .runs
  · obtain ⟨hout, hqueue, used, hused, hlines⟩ :=
      printLoop_more hne hq honly (Or.inr hstart) h
    rw [List.nil_append] at hlines
    exact ⟨hout, Or.inl ⟨hqueue, used, hused, hlines⟩⟩
  · cases schedule with
    | nil => cases h
    | cons a schedule =>
      have ha : a = .fails .eintr := by
        rcases honly a List.mem_cons_self with rfl | ha
        · exact absurd rfl hstart
        · exact ha
      subst ha
      rw [printLoop_eintr, if_neg (by simp [hmore])] at h
      rw [← Option.some.inj h]
      exact ⟨rfl, Or.inr ⟨rfl, rfl, rfl⟩⟩

/-- the loop goes on as long as there are more parts -/
theorem printLoop_ends {schedule : List Attempt} {s : Inbox} {lines : List Bytes} {run : PrintRun}
    (h : printLoop schedule s lines = some run) (hout : run.outcome = .ok ()) :
    run.inbox.rcvMore = false := by
  induction schedule generalizing s lines with
  | nil => cases h
  | cons a schedule ih =>
    unfold printLoop at h
    split at h
    · cases h
    · split at h
      · rw [← Option.some.inj h] at hout
        cases hout
      · split at h
        · exact ih h
        · rename_i hmore
          rw [← Option.some.inj h]
          unfold hasMoreParts at hmore
          rw [getReceiveMore_eq] at hmore
          exact Bool.eq_false_iff.mpr hmore

/-- **The client's loop takes exactly one message, or nothing**: an interrupt before the first part
leaves the queue as it is.  It prints the parts, in order, with an empty line for each call that is
interrupted; they are the message as it is iff no call is interrupted before its last part. -/
theorem print_loop_takes_message (schedule : List Attempt) (s : Inbox) (parts : List Bytes)
    (q : List InFrame) (run : PrintRun) (hne : parts ≠ []) (hq : s.queue = wireFrames parts ++ q)
    (hmore : s.rcvMore = false) (honly : OnlyInterrupts schedule)
    (h : printLoop schedule s [] = some run) :
    run.outcome = .ok () ∧
      ((run.inbox.queue = q ∧
          ∃ used, Used schedule used parts.length ∧ run.lines = linesOf used parts) ∨
        run.inbox = s ∧ run.lines = [[]]) ∧
      (run.lines = parts ∧ run.inbox.queue = q ↔
        ∀ a ∈ schedule.take parts.length, a = .runs) := by
  obtain ⟨hout, ⟨hqueue, used, hused, hlines⟩ | ⟨hhead, hinbox, hlines⟩⟩ :=
    printLoop_message hne hq hmore honly h
  · refine ⟨hout, Or.inl ⟨hqueue, used, hused, hlines⟩, ?_⟩
    rw [hlines, hqueue, ← linesOf_eq_iff hused]
    exact ⟨fun h => h.1, fun h => ⟨h, rfl⟩⟩
  · refine ⟨hout, Or.inr ⟨hinbox, hlines⟩, ?_⟩
    constructor
    · intro hboth
      rw [hinbox] at hboth
      exact absurd (hq.symm.trans hboth.2) (wireFrames_ne_nil hne q)
    · intro hall
      cases parts with
      | nil => exact absurd rfl hne
      | cons b parts =>
        cases schedule with
        | nil => cases hhead
        | cons a schedule =>
          rw [hall a List.mem_cons_self] at hhead
          cases hhead

/-- two parts of a message, then another message -/
def oneOfTwo : Inbox :=
  { queue := wireFrames [ascii "a", ascii "b"] ++ wireFrames [ascii "c"] }

/-- an interrupt between the two parts prints an empty line -/
theorem print_loop_takes_message_interrupted :
    ∃ run, printLoop [.runs, .fails .eintr, .runs] oneOfTwo [] = some run ∧
      run.lines = [ascii "a", [], ascii "b"] ∧ run.lines ≠ [ascii "a", ascii "b"] := by
  refine ⟨_, rfl, by decide, ?_⟩
  have hspec := print_loop_takes_message [.runs, .fails .eintr, .runs] oneOfTwo
    [ascii "a", ascii "b"] (wireFrames [ascii "c"]) _ (by decide) rfl rfl
    (by unfold OnlyInterrupts; decide) rfl
  intro hlines
  exact absurd (hspec.2.2.mp ⟨hlines, by decide⟩) (by decide)

/-! ## part by part and as a message -/

theorem printLoop_returns {schedule : List Attempt} {s : Inbox} {lines parts : List Bytes}
    {q : List InFrame} (hne : parts ≠ []) (hq : s.queue = wireFrames parts ++ q)
    (honly : OnlyInterrupts schedule) (hlen : parts.length ≤ schedule.count .runs) :
    ∃ run, printLoop schedule s lines = some run := by
  induction schedule generalizing s lines parts with
  | nil =>
    rw [List.count_nil] at hlen
    exact absurd (List.eq_nil_of_length_eq_zero (Nat.eq_zero_of_le_zero hlen)) hne
  | cons a schedule ih =>
    have honly' : OnlyInterrupts schedule := fun b hb => honly b (List.mem_cons_of_mem a hb)
    rcases honly a List.mem_cons_self with rfl | rfl
    · rw [List.count_cons_self] at hlen
      match parts, hne, hq, hlen with
      | [b], _, hq, _ =>
        rw [printLoop_runs (f := ⟨⟨b, none⟩, false⟩) hq, if_neg (by simp)]
        exact ⟨_, rfl⟩
      | b :: c :: parts, _, hq, hlen =>
        rw [printLoop_runs (f := ⟨⟨b, none⟩, true⟩) hq, if_pos rfl]
        exact ih (List.cons_ne_nil c parts) rfl honly' (Nat.le_of_succ_le_succ hlen)
    · rw [List.count_cons_of_ne (by simp)] at hlen
      rw [printLoop_eintr]
      by_cases hmore : s.rcvMore = true
      · rw [if_pos hmore]
        exact ih hne hq honly' hlen
      · rw [if_neg hmore]
        exact ⟨_, rfl⟩

/-- **Part by part or as a message**: under the same calls the client's loop and `receive` of a
message both return normally and take the same frames, and the lines are the parts of that message,
empty lines apart. -/
theorem print_loop_agrees_with_receive [VectorGrowth] (schedule : List Attempt) (s : Inbox)
    (m : Message) (parts : List Bytes) (q : List InFrame) (hne : parts ≠ [])
    (hq : s.queue = wireFrames parts ++ q) (honly : OnlyInterrupts schedule)
    (hstart : schedule.head? = some .runs) (hlen : parts.length ≤ schedule.count .runs) :
    ∃ run run', printLoop schedule s [] = some run ∧ receive false schedule s m = some run' ∧
      run.outcome = .ok () ∧ run'.outcome = .ok true ∧ run.inbox.queue = run'.inbox.queue ∧
      run.lines.filter (· ≠ []) = (payloads run'.message).filter (· ≠ []) := by
  obtain ⟨run, hrun⟩ : ∃ run, printLoop schedule s [] = some run :=
    printLoop_returns hne hq honly hlen
  obtain ⟨hret, hqueue, used, hused, hlines⟩ := printLoop_more hne hq honly (Or.inr hstart) hrun
  obtain ⟨front, last, heq, hfront, hlast, hpay⟩ := wireFrames_split hne
  have hfrontlen : front.length < schedule.count .runs := by
    rw [← hpay, List.length_map, List.length_append, List.length_singleton] at hlen
    exact hlen
  have hq' : s.queue = front ++ last :: q := by
    rw [hq, heq, List.append_assoc, List.singleton_append]
  obtain ⟨run', hrun', hout⟩ :=
    receive_returns false m hq' hfront hlast honly hstart hfrontlen
  obtain ⟨hparts, hrest⟩ := receive_front hrun' hout hne hq
  refine ⟨run, run', hrun, hrun', hret, hout, hqueue.trans hrest.symm, ?_⟩
  rw [hparts, hlines, List.nil_append, filter_linesOf hused.count_eq]

theorem print_loop_agrees_with_receive_interrupted :
    ∃ run run', printLoop [.runs, .fails .eintr, .runs] oneOfTwo [] = some run ∧
      @receive byOne false [.runs, .fails .eintr, .runs] oneOfTwo {} = some run' ∧
      run.inbox.queue = run'.inbox.queue := by
  obtain ⟨run, run', hrun, hrun', -, -, hqueue, -⟩ :=
    @print_loop_agrees_with_receive byOne [.runs, .fails .eintr, .runs] oneOfTwo {}
      [ascii "a", ascii "b"] (wireFrames [ascii "c"]) (by decide) rfl
      (by unfold OnlyInterrupts; decide) rfl (by decide)
  exact ⟨run, run', hrun, hrun', hqueue⟩

end Socket
end Zmqpp
