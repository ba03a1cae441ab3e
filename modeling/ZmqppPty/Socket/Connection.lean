import ZmqppPty.Lib.Machine
import ZmqppPty.Message.Stream
import ZmqppPty.Socket.Parts
import ZmqppPty.Socket.Wait

/-!
# A connection (socket.cpp)

A sending and a receiving socket, and the pipe between them.  The pipe keeps the order of the frames
and lets the frames of a message through once it is complete.  Either end calls any of its
functions, in any order, and the calls of libzmq may fail.

* `Pipe`                 the frames of a message that is not complete, and the receiving socket;
* `Op`, `machine`        the calls of both ends;
* `handed`, `taken`      the frames that the calls that returned true say were sent and received;
* `Conserves`            no frame is lost, added or out of order;
* `SendsWhole`, `ReceivesWhole`   a call that is not cut short;
* `step_conserves_iff`   a call keeps it so iff it is such;
* `connection_conserves_iff`   hence it is so in every state of a run iff all calls are such;
* `messages_in_order`    the messages taken are the first of the messages handed over;
* `values_in_order`      the values written to the messages are read back, whatever the byte orders.
-/

namespace Zmqpp
namespace Socket

open Message (payloads)

structure Pipe where
  /-- accepted, and the message is not complete -/
  held : List InFrame := []
  /-- the receiving socket, with the frames that have been let through -/
  inbox : Inbox := {}

/-- a frame that the sending socket has accepted -/
def Pipe.push (p : Pipe) (f : InFrame) : Pipe :=
  if f.more then { p with held := p.held ++ [f] }
  else ⟨[], { p.inbox with queue := p.inbox.queue ++ p.held ++ [f] }⟩

def Pipe.pushAll (p : Pipe) (fs : List InFrame) : Pipe := fs.foldl Pipe.push p

/-- the calls of the two ends, each with what libzmq answers -/
inductive Op where
  | send (message : Message) (dont_block : Bool) (script : ℕ → SendResult)
  | sendPart (string : Bytes) (flags : ℕ) (result : SendResult)
  | receive (dont_block : Bool) (schedule : List Attempt) (message : Message)
  | receivePart (flags : ℕ) (attempt : Attempt) (string : Bytes)
  | receiveRaw (flags : ℕ) (attempt : Attempt) (buffer : Bytes) (length : ℕ)

/-- what a call that returned true says -/
inductive Transfer where
  | sent (message : Message)
  | sentPart (part : Bytes) (more : Bool)
  | received (message : Message)
  | receivedPart (part : Bytes) (more : Bool)

section
variable [VectorGrowth]

/-- a call; a receive that waits is not enabled -/
def Pipe.step (p : Pipe) : Op → Option (Pipe × List Transfer)
  | .send m dont_block script =>
    let run := Socket.send m dont_block script
    some (p.pushAll (arrived run.wire),
      if run.outcome = .returned true then [.sent m] else [])
  | .sendPart string flags result =>
    let run := Socket.sendPart string flags result
    some (p.pushAll (arrived run.wire),
      match run.outcome with
      | .ok true => [.sentPart string (flags &&& sendMore != 0)]
      | _ => [])
  | .receive dont_block schedule m =>
    (Socket.receive dont_block schedule p.inbox m).map fun run =>
      ({ p with inbox := run.inbox },
        match run.outcome with
        | .ok true => [.received run.message]
        | _ => [])
  | .receivePart flags attempt string =>
    (Socket.receivePart flags attempt p.inbox string).map fun run =>
      ({ p with inbox := run.inbox },
        match run.outcome with
        | .ok true => [.receivedPart run.value (hasMoreParts run.inbox)]
        | _ => [])
  | .receiveRaw flags attempt buffer length =>
    (Socket.receiveRaw flags attempt p.inbox buffer length).map fun run =>
      ({ p with inbox := run.inbox },
        match run.outcome with
        | .ok true => [.receivedPart (run.value.1.take run.value.2) (hasMoreParts run.inbox)]
        | _ => [])

def pipeMachine : Lib.Machine Pipe Op Transfer := ⟨Pipe.step⟩

end

/-! ## what the calls say -/

/-- a message of these parts, each with whether another one follows -/
def framesOf : List Bytes → List (Bytes × Bool)
  | [] => []
  | [b] => [(b, false)]
  | b :: bs => (b, true) :: framesOf bs

def Transfer.handed : Transfer → List (Bytes × Bool)
  | .sent m => framesOf m.payloads
  | .sentPart b more => [(b, more)]
  | _ => []

def Transfer.taken : Transfer → List (Bytes × Bool)
  | .received m => framesOf m.payloads
  | .receivedPart b more => [(b, more)]
  | _ => []

def handed (tr : List Transfer) : List (Bytes × Bool) := tr.flatMap Transfer.handed

def taken (tr : List Transfer) : List (Bytes × Bool) := tr.flatMap Transfer.taken

def InFrame.pair (f : InFrame) : Bytes × Bool := (f.payload, f.more)

/-- the frames on their way -/
def Pipe.inFlight (p : Pipe) : List (Bytes × Bool) :=
  (p.inbox.queue ++ p.held).map InFrame.pair

theorem handed_append (tr e : List Transfer) : handed (tr ++ e) = handed tr ++ handed e :=
  List.flatMap_append

theorem taken_append (tr e : List Transfer) : taken (tr ++ e) = taken tr ++ taken e :=
  List.flatMap_append

/-- what was said to be sent has been received or is on its way, in order, and nothing else is -/
def Conserves (p : Pipe) (tr : List Transfer) : Prop := handed tr = taken tr ++ p.inFlight

/-- a send of a message whose first call fails, or whose calls all accept a part not sent before -/
def Op.SendsWhole : Op → Prop
  | .send m _ script =>
    script 0 ≠ .accepted ∨ ∀ k < m.count, script k = .accepted ∧ m.isSent k = false
  | _ => True

/-- after its first call a receive of a message is disturbed by interrupts alone -/
def Op.Undisturbed : Op → Prop
  | .receive _ schedule _ => OnlyInterrupts schedule.tail
  | .receiveRaw _ _ _ _ => False
  | _ => True

/-! ## frames -/

theorem inFlight_push (p : Pipe) (f : InFrame) : (p.push f).inFlight = p.inFlight ++ [f.pair] := by
  unfold Pipe.push
  split <;> simp [Pipe.inFlight]

theorem inFlight_pushAll (p : Pipe) (fs : List InFrame) :
    (p.pushAll fs).inFlight = p.inFlight ++ fs.map InFrame.pair := by
  induction fs generalizing p with
  | nil => exact (List.append_nil _).symm
  | cons f fs ih =>
    show ((p.push f).pushAll fs).inFlight = _
    rw [ih, inFlight_push, List.append_assoc]
    rfl

theorem arrived_pair (wire : List (Bytes × ℕ)) : (arrived wire).map InFrame.pair = frames wire := by
  unfold arrived
  rw [List.map_map]
  exact List.map_id _

theorem framesOf_cons {b : Bytes} {bs : List Bytes} (h : bs ≠ []) :
    framesOf (b :: bs) = (b, true) :: framesOf bs := by
  cases bs with
  | nil => exact absurd rfl h
  | cons c bs => rfl

theorem framesOf_concat {front : List Bytes} (b : Bytes) :
    framesOf (front ++ [b]) = front.map (fun a => (a, true)) ++ [(b, false)] := by
  induction front with
  | nil => rfl
  | cons a front ih =>
    rw [List.cons_append, framesOf_cons (by simp), ih]
    rfl

/-- the frames of a whole message are its parts -/
theorem wholeMessage_eq (m : Message) : wholeMessage m = framesOf m.payloads := by
  have hdata : ∀ i, data m i = m.payloads.getD i [] := by
    intro i
    unfold data payloads
    rw [List.getD_eq_getElem?_getD, List.getElem?_map]
  have hrange : ∀ ps : List Bytes, ∀ d : ℕ → Bytes, (∀ i, d i = ps.getD i []) →
      (List.range ps.length).map (fun i => (d i, decide (i + 1 < ps.length))) = framesOf ps := by
    intro ps
    induction ps with
    | nil => exact fun _ _ => rfl
    | cons b ps ih =>
      intro d hd
      rw [List.length_cons, List.range_succ_eq_map, List.map_cons, List.map_map]
      have hrest := ih (fun i => d (i + 1)) (fun i => hd (i + 1))
      by_cases hps : ps = []
      · subst hps
        exact congrArg (fun x => [(x, false)]) (hd 0)
      · rw [framesOf_cons hps, ← hrest]
        have hpos := List.length_pos_of_ne_nil hps
        refine congrArg₂ List.cons ?_ ?_
        · rw [hd 0]
          exact Prod.ext rfl (decide_eq_true (by omega))
        · apply List.map_congr_left
          intro i _
          exact Prod.ext rfl (by simp)
  unfold wholeMessage
  rw [← Message.payloads_length]
  exact hrange m.payloads (data m) hdata

/-! ## one call -/

section
variable [VectorGrowth]

/-- A receive of a message returns true or leaves the queue as it is, and a buffer has room for the
part that is put into it. -/
def Pipe.ReceivesWhole (p : Pipe) : Op → Prop
  | .receive dont_block schedule m => ∀ run ∈ Socket.receive dont_block schedule p.inbox m,
      run.outcome = .ok true ∨ run.inbox.queue = p.inbox.queue
  | .receiveRaw _ attempt _ length =>
    attempt = .runs → ∀ f ∈ p.inbox.queue.head?, f.payload.length ≤ length
  | _ => True

/-- the call is not cut short -/
def Pipe.Whole (p : Pipe) (op : Op) : Prop := op.SendsWhole ∧ p.ReceivesWhole op

end

/-- the frames that have been let through end with the last one of a message -/
def Pipe.Sound (p : Pipe) : Prop := ∀ f ∈ p.inbox.queue.getLast?, f.more = false

theorem sound_start : Pipe.Sound {} := nofun

theorem Pipe.Sound.push {p : Pipe} (h : p.Sound) (f : InFrame) : (p.push f).Sound := by
  unfold Pipe.push
  split
  · exact h
  · rename_i hmore
    intro g hg
    rw [List.getLast?_concat, Option.mem_some_iff] at hg
    rw [← hg]
    exact Bool.eq_false_iff.mpr hmore

theorem Pipe.Sound.pushAll {p : Pipe} (h : p.Sound) (fs : List InFrame) : (p.pushAll fs).Sound := by
  induction fs generalizing p with
  | nil => exact h
  | cons f fs ih => exact ih (h.push f)

/-- a socket that has popped frames -/
theorem Pipe.Sound.pop {p : Pipe} (h : p.Sound) {front : List InFrame} {t : Inbox}
    (hq : p.inbox.queue = front ++ t.queue) : Pipe.Sound { p with inbox := t } := by
  intro f hf
  apply h f
  rw [hq, List.getLast?_append]
  rw [show t.queue.getLast? = some f from hf]
  rfl

/-- after a frame that is not the last one of its message there are others -/
theorem rest_of_more {f : InFrame} {q : List InFrame} (hmore : f.more = true)
    (hlast : ∀ g ∈ (f :: q).getLast?, g.more = false) :
    q ≠ [] ∧ ∀ g ∈ q.getLast?, g.more = false := by
  constructor
  · intro hnil
    rw [hnil] at hlast
    rw [hlast f rfl] at hmore
    cases hmore
  · intro g hg
    apply hlast g
    rw [List.getLast?_cons, show q.getLast? = some g from hg]
    rfl

section
variable [VectorGrowth]

/-- in the middle of a message that is there to its end -/
theorem receiveLoop_middle {flags : ℕ} {schedule : List Attempt} {s : Inbox} {m : Message}
    {released : List Block} {run : RecvRun} (honly : OnlyInterrupts schedule) (hm : 0 < m.count)
    (hne : s.queue ≠ []) (hlast : ∀ f ∈ s.queue.getLast?, f.more = false)
    (h : receiveLoop flags schedule s m released = some run) : run.outcome = .ok true := by
  induction schedule generalizing s m released with
  | nil => cases h
  | cons a schedule ih =>
    have honly' : OnlyInterrupts schedule := fun b hb => honly b (List.mem_cons_of_mem a hb)
    rcases honly a List.mem_cons_self with rfl | rfl
    · cases hq : s.queue with
      | nil => exact absurd hq hne
      | cons f q =>
        rw [hq] at hlast
        obtain ⟨m', released', hm', -, hloop⟩ := receiveLoop_received flags schedule m released hq
        rw [hloop] at h
        by_cases hmore : f.more = true
        · rw [if_pos hmore] at h
          have hpos : 0 < m'.count := by
            rw [← Message.payloads_length, hm', List.length_append]
            exact Nat.succ_pos _
          obtain ⟨hne', hlast'⟩ := rest_of_more hmore hlast
          exact ih honly' hpos hne' hlast' h
        · rw [if_neg hmore] at h
          exact (congrArg RecvRun.outcome (Option.some.inj h)).symm
    · rcases receiveLoop_failed rfl h with ⟨-, h0⟩ | ⟨-, h'⟩ | ⟨failure, rfl⟩
      · omega
      · exact ih honly' hm hne hlast h'
      · unfold receiveLoop at h
        simp only [zmqMsgRecv, Nat.ne_of_gt hm, false_and, ↓reduceIte] at h
        exact ih honly' hm hne hlast h

/-- a receive that interrupts alone disturb after its first call takes a message or leaves the
queue as it is -/
theorem receive_whole {dont_block : Bool} {schedule : List Attempt} {s : Inbox} {m : Message}
    {run : RecvRun} (honly : OnlyInterrupts schedule.tail)
    (hlast : ∀ f ∈ s.queue.getLast?, f.more = false)
    (h : receive dont_block schedule s m = some run) :
    run.outcome = .ok true ∨ run.outcome ≠ .ok true ∧ run.inbox = s := by
  obtain ⟨flags, m', released, h0, -, heq⟩ := receive_eq_loop dont_block schedule s m
  rw [heq] at h
  cases schedule with
  | nil => cases h
  | cons a schedule =>
    cases hr : zmqMsgRecv flags s a with
    | blocked =>
      unfold receiveLoop at h
      rw [hr] at h
      cases h
    | failed e =>
      rcases receiveLoop_failed hr h with ⟨rfl, -⟩ | ⟨hpos, -⟩ | ⟨failure, rfl⟩
      · exact Or.inr ⟨by simp, rfl⟩
      · omega
      · exact Or.inr ⟨by simp, rfl⟩
    | received t r =>
      obtain ⟨rfl, f, q, hq, -⟩ := zmqMsgRecv_received hr
      rw [hq] at hlast
      obtain ⟨m'', released', hm'', -, hloop⟩ :=
        receiveLoop_received flags schedule m' released hq
      rw [hloop] at h
      by_cases hmore : f.more = true
      · rw [if_pos hmore] at h
        have hpos : 0 < m''.count := by
          rw [← Message.payloads_length, hm'', List.length_append]
          exact Nat.succ_pos _
        obtain ⟨hne', hlast'⟩ := rest_of_more hmore hlast
        exact Or.inl (receiveLoop_middle honly hpos hne' hlast' h)
      · rw [if_neg hmore] at h
        exact Or.inl (congrArg RecvRun.outcome (Option.some.inj h)).symm

end

/-- a send whose first call accepts has put a frame on the wire -/
theorem send_wire_ne_nil {m : Message} (hm : 0 < m.count) (dont_block : Bool)
    {script : ℕ → SendResult} (h : script 0 = .accepted)
    (hout : (send m dont_block script).outcome ≠ .returned true) :
    (send m dont_block script).wire ≠ [] := by
  rw [send_eq_loop script hm hout]
  obtain ⟨n, hn⟩ := Nat.exists_eq_succ_of_ne_zero (Nat.ne_of_gt hm)
  rw [hn]
  unfold sendLoop
  simp only [h]
  split
  · simp
  · intro hnil
    have hprefix := (sendLoop_later script n.succ n 1 1 Nat.one_pos dont_block (m.markSent 0)
      ([] ++ [(data m 0, flagFor dont_block 0 n.succ)])).2
    rw [hnil] at hprefix
    simp at hprefix

/-- **What a send says is what the socket has accepted iff its first call fails or all accept.** -/
theorem send_says_iff (m : Message) (dont_block : Bool) (script : ℕ → SendResult) :
    (if (send m dont_block script).outcome = .returned true then framesOf m.payloads else [])
        = frames (send m dont_block script).wire ↔
      Op.SendsWhole (.send m dont_block script) := by
  by_cases hm : 0 < m.count
  · by_cases hout : (send m dont_block script).outcome = .returned true
    · rw [if_pos hout, send_wire script dont_block hout, ← wholeMessage_eq, eq_comm,
        acceptedParts_eq_iff]
      have hgo := (send_outcome script hm dont_block).mp hout
      have h0 : script 0 = .accepted := by
        rcases hgo 0 hm with h | ⟨h, -⟩
        · exact h.1
        · omega
      constructor
      · intro hall
        refine Or.inr fun k hk => ⟨hall k hk, ?_⟩
        rcases hgo k hk with h | ⟨-, h⟩
        · exact h.2
        · rw [hall k hk] at h
          cases h
      · intro hwhole k hk
        rcases hwhole with h | h
        · exact absurd h0 h
        · exact (h k hk).1
    · rw [if_neg hout]
      constructor
      · intro hwire
        refine Or.inl fun h0 => send_wire_ne_nil hm dont_block h0 hout ?_
        have hlen := congrArg List.length hwire
        unfold frames at hlen
        rw [List.length_map] at hlen
        exact List.eq_nil_of_length_eq_zero hlen.symm
      · intro hwhole
        have h0 : script 0 ≠ .accepted := by
          intro h0
          rcases hwhole with h | h
          · exact h h0
          · exact hout ((send_outcome script hm dont_block).mpr fun k hk => Or.inl (h k hk))
        have hearly : (send m dont_block script).wire = [] := by
          rw [send_eq_loop script hm hout]
          obtain ⟨n, hn⟩ := Nat.exists_eq_succ_of_ne_zero (Nat.ne_of_gt hm)
          rw [hn]
          unfold sendLoop
          cases hs : script 0 with
          | accepted => exact absurd hs h0
          | failed e => cases e <;> rfl
        rw [hearly]
        rfl
  · have h0 : m.count = 0 := Nat.eq_zero_of_not_pos hm
    have hsend : send m dont_block script = ⟨.threw (.invalidArgument
        "sending requires messages have at least one part"), m, []⟩ := if_pos h0
    rw [hsend]
    exact ⟨fun _ => Or.inr fun k hk => by omega, fun _ => rfl⟩

/-- a message that is received has been the front of the queue -/
theorem receive_taken [VectorGrowth] {dont_block : Bool} {schedule : List Attempt} {s : Inbox}
    {m : Message} {run : RecvRun} (h : receive dont_block schedule s m = some run)
    (hout : run.outcome = .ok true) :
    ∃ popped, s.queue = popped ++ run.inbox.queue ∧ payloads run.message ≠ [] ∧
      popped.map InFrame.pair = framesOf (payloads run.message) := by
  obtain ⟨front, last, hq, hfront, hlast, hpay⟩ := receive_of_true h hout
  refine ⟨front ++ [last], ?_, ?_, ?_⟩
  · rw [hq, List.append_assoc]
    rfl
  · rw [hpay]
    simp
  · rw [hpay, List.map_append, List.map_append, List.map_singleton, List.map_singleton,
      framesOf_concat, List.map_map]
    refine congrArg₂ (· ++ ·) ?_ (congrArg (fun x => [x]) (Prod.ext rfl hlast))
    apply List.map_congr_left
    intro f hf
    exact Prod.ext rfl (hfront f hf)

/-- and one that is not, whatever has been the end of it, has taken frames from the front -/
theorem receive_popped [VectorGrowth] {dont_block : Bool} {schedule : List Attempt} {s : Inbox}
    {m : Message} {run : RecvRun} (h : receive dont_block schedule s m = some run) :
    ∃ popped, s.queue = popped ++ run.inbox.queue := by
  obtain ⟨flags, m', released, -, -, heq⟩ := receive_eq_loop dont_block schedule s m
  rw [heq] at h
  refine receiveLoop_induct ?gaveUp ?threw ?last ?more h
  case gaveUp =>
    intro s m released hrun _
    exact ⟨[], by rw [hrun]; rfl⟩
  case threw =>
    intro s m released failure hrun
    exact ⟨[], by rw [hrun]; rfl⟩
  case last =>
    intro s m released f q m' released' hq _ _ hrun
    exact ⟨[f], by rw [hrun]; exact hq⟩
  case more =>
    intro s m released f q m' released' hq _ _ ih
    obtain ⟨popped, hpopped⟩ := ih
    exact ⟨f :: popped, by rw [hq, List.cons_append, ← hpopped]⟩

/-- a call that takes one part takes the first frame or nothing -/
theorem takePart_taken {α : Type} {flags : ℕ} {store : Bytes → α} {a : Attempt} {s : Inbox}
    {value : α} {run : TakeRun α} (h : takePart flags store a s value = some run) :
    (run.outcome = .ok true ∧ a = .runs ∧ ∃ f, s.queue = f :: run.inbox.queue ∧
      run.value = store f.payload ∧ hasMoreParts run.inbox = f.more) ∨
    (run.outcome ≠ .ok true ∧ run.inbox = s ∧ (a = .runs → s.queue = [])) := by
  unfold takePart at h
  cases hr : zmqMsgRecv flags s a with
  | blocked =>
    rw [hr] at h
    cases h
  | failed e =>
    have hempty : a = .runs → s.queue = [] := by
      rintro rfl
      unfold zmqMsgRecv at hr
      cases hq : s.queue with
      | nil => rfl
      | cons f q =>
        rw [hq] at hr
        cases hr
    simp only [hr] at h
    split at h
    · rw [← Option.some.inj h]
      exact Or.inr ⟨nofun, rfl, hempty⟩
    · rw [← Option.some.inj h]
      exact Or.inr ⟨nofun, rfl, hempty⟩
  | received t r =>
    obtain ⟨ha, f, q, hq, ht⟩ := zmqMsgRecv_received hr
    simp only [hr] at h
    rw [← Option.some.inj h, ht]
    refine Or.inl ⟨rfl, ha, f, hq, rfl, ?_⟩
    unfold hasMoreParts
    rw [getReceiveMore_eq]

/-- popped frames and what is left of the queue -/
theorem inFlight_of_popped {p : Pipe} {popped : List InFrame} {t : Inbox}
    (hq : p.inbox.queue = popped ++ t.queue) :
    p.inFlight = popped.map InFrame.pair ++ Pipe.inFlight { p with inbox := t } := by
  unfold Pipe.inFlight
  rw [hq, List.append_assoc, List.map_append]

section
variable [VectorGrowth]

/-- **One call.**  What it says to be sent is put at the end of what is on its way, and what it says
to be received is taken from the front, iff it is not cut short. -/
theorem step_conserves_iff {p q : Pipe} {op : Op} {e : List Transfer}
    (hs : p.step op = some (q, e)) :
    p.inFlight ++ handed e = taken e ++ q.inFlight ↔ p.Whole op := by
  cases op with
  | send m dont_block script =>
    obtain ⟨rfl, rfl⟩ := Prod.mk.inj (Option.some.inj hs)
    refine Iff.trans ?_ (and_iff_left trivial).symm
    rw [← send_says_iff, inFlight_pushAll, arrived_pair]
    split <;> simp [handed, taken, Transfer.handed, Transfer.taken]
  | sendPart string flags result =>
    obtain ⟨rfl, rfl⟩ := Prod.mk.inj (Option.some.inj hs)
    rw [inFlight_pushAll, arrived_pair]
    refine iff_of_true ?_ ⟨trivial, trivial⟩
    cases result with
    | accepted => rfl
    | failed e =>
      obtain ⟨hwire, hout⟩ := sendPart_failed string flags e
      rw [hwire]
      split
      · exact absurd ‹_› hout
      · rfl
  | receive dont_block schedule m =>
    unfold Pipe.step at hs
    obtain ⟨run, hrun, hrest⟩ := Option.map_eq_some_iff.mp hs
    obtain ⟨rfl, rfl⟩ := Prod.mk.inj hrest
    have hwhole : p.Whole (.receive dont_block schedule m) ↔
        run.outcome = .ok true ∨ run.inbox.queue = p.inbox.queue := by
      refine (and_iff_right trivial).trans ⟨fun h => h run hrun, ?_⟩
      intro h run' hrun'
      rw [← Option.some.inj (hrun.symm.trans hrun')]
      exact h
    rw [hwhole]
    by_cases hout : run.outcome = .ok true
    · obtain ⟨popped, hq, -, hpair⟩ := receive_taken hrun hout
      refine iff_of_true ?_ (Or.inl hout)
      rw [inFlight_of_popped hq, hpair, hout]
      simp [handed, taken, Transfer.handed, Transfer.taken]
    · obtain ⟨popped, hq⟩ := receive_popped hrun
      rw [inFlight_of_popped hq, hq]
      split
      · exact absurd ‹_› hout
      -- nothing is said to be received, so nothing may have been popped
      · simp [handed, taken, hout]
  | receivePart flags attempt string =>
    unfold Pipe.step at hs
    obtain ⟨run, hrun, hrest⟩ := Option.map_eq_some_iff.mp hs
    obtain ⟨rfl, rfl⟩ := Prod.mk.inj hrest
    refine iff_of_true ?_ ⟨trivial, trivial⟩
    rcases takePart_taken hrun with ⟨hout, -, f, hq, hvalue, hmore⟩ | ⟨hout, hinbox, -⟩
    · have hq' : p.inbox.queue = [f] ++ run.inbox.queue := hq
      rw [inFlight_of_popped hq', hout, hvalue, hmore]
      exact List.append_nil _
    · rw [hinbox]
      split
      · exact absurd ‹_› hout
      · exact List.append_nil _
  | receiveRaw flags attempt buffer length =>
    unfold Pipe.step at hs
    obtain ⟨run, hrun, hrest⟩ := Option.map_eq_some_iff.mp hs
    obtain ⟨rfl, rfl⟩ := Prod.mk.inj hrest
    refine Iff.trans ?_ (and_iff_right trivial).symm
    rcases takePart_taken hrun with ⟨hout, ha, f, hq, hvalue, hmore⟩ | ⟨hout, hinbox, hempty⟩
    · have hq' : p.inbox.queue = [f] ++ run.inbox.queue := hq
      rw [inFlight_of_popped hq', hout, hvalue, hmore]
      show _ ↔ (attempt = .runs → ∀ g ∈ p.inbox.queue.head?, g.payload.length ≤ length)
      rw [hq]
      simp [handed, taken, Transfer.handed, Transfer.taken, InFrame.pair, ha]
    · rw [hinbox]
      refine iff_of_true ?_ ?_
      · split
        · exact absurd ‹_› hout
        · exact List.append_nil _
      · intro ha f hf
        rw [hempty ha] at hf
        cases hf

/-- hence the frames that have been let through still end with a whole message -/
theorem step_sound {p q : Pipe} {op : Op} {e : List Transfer} (hsound : p.Sound)
    (hs : p.step op = some (q, e)) : q.Sound := by
  cases op with
  | send m dont_block script =>
    obtain ⟨rfl, -⟩ := Prod.mk.inj (Option.some.inj hs)
    exact hsound.pushAll _
  | sendPart string flags result =>
    obtain ⟨rfl, -⟩ := Prod.mk.inj (Option.some.inj hs)
    exact hsound.pushAll _
  | receive dont_block schedule m =>
    obtain ⟨run, hrun, hrest⟩ := Option.map_eq_some_iff.mp hs
    obtain ⟨rfl, -⟩ := Prod.mk.inj hrest
    obtain ⟨popped, hq⟩ := receive_popped hrun
    exact hsound.pop hq
  | receivePart flags attempt string =>
    obtain ⟨run, hrun, hrest⟩ := Option.map_eq_some_iff.mp hs
    obtain ⟨rfl, -⟩ := Prod.mk.inj hrest
    rcases takePart_taken hrun with ⟨-, -, f, hq, -⟩ | ⟨-, hinbox, -⟩
    · exact Pipe.Sound.pop hsound (show p.inbox.queue = [f] ++ run.inbox.queue from hq)
    · rw [hinbox]
      exact hsound
  | receiveRaw flags attempt buffer length =>
    obtain ⟨run, hrun, hrest⟩ := Option.map_eq_some_iff.mp hs
    obtain ⟨rfl, -⟩ := Prod.mk.inj hrest
    rcases takePart_taken hrun with ⟨-, -, f, hq, -⟩ | ⟨-, hinbox, -⟩
    · exact Pipe.Sound.pop hsound (show p.inbox.queue = [f] ++ run.inbox.queue from hq)
    · rw [hinbox]
      exact hsound

/-! ## whole runs -/

theorem conserves_iff {p q : Pipe} {tr : List Transfer} {op : Op} {e : List Transfer}
    (h : Conserves p tr) (hs : p.step op = some (q, e)) : Conserves q (tr ++ e) ↔ p.Whole op := by
  rw [← step_conserves_iff hs]
  unfold Conserves at h ⊢
  rw [handed_append, taken_append, h, List.append_assoc, List.append_assoc,
    List.append_cancel_left_eq]

theorem Pipe.Sound.receivesWhole {p : Pipe} (h : p.Sound) {op : Op} (hop : op.Undisturbed) :
    p.ReceivesWhole op := by
  cases op with
  | send m dont_block script => trivial
  | sendPart string flags result => trivial
  | receive dont_block schedule m =>
    intro run hrun
    rcases receive_whole hop h hrun with hout | ⟨-, hinbox⟩
    · exact Or.inl hout
    · exact Or.inr (congrArg Inbox.queue hinbox)
  | receivePart flags attempt string => trivial
  | receiveRaw flags attempt buffer length => exact hop.elim

/-- interrupts alone cut no receive short -/
theorem along_receivesWhole {p : Pipe} (hsound : p.Sound) {ops : List Op}
    (h : ∀ op ∈ ops, op.Undisturbed) : pipeMachine.Along Pipe.ReceivesWhole p ops := by
  induction ops generalizing p with
  | nil => trivial
  | cons op ops ih =>
    refine ⟨hsound.receivesWhole (h op List.mem_cons_self), ?_⟩
    intro q e hs
    exact ih (step_sound hsound hs) fun op' hop' => h op' (List.mem_cons_of_mem op hop')

theorem along_whole {ops : List Op} (h : ∀ op ∈ ops, op.SendsWhole ∧ op.Undisturbed) :
    pipeMachine.Along Pipe.Whole {} ops := by
  have hsends : pipeMachine.Along (fun _ op => op.SendsWhole) {} ops :=
    Lib.Machine.along_of_mem _ fun op hop => (h op hop).1
  exact hsends.and (along_receivesWhole sound_start fun op hop => (h op hop).2)

/-- **No frame is lost, added or reordered, in every state of a run, iff no call is cut short**,
however the calls of the two ends are interleaved and however messages are cut into single parts.
If interrupts alone disturb the receives, only the sends matter. -/
theorem connection_conserves_iff (ops : List Op) (p : Pipe) (tr : List Transfer)
    (hr : pipeMachine.exec {} ops = some (p, tr)) :
    (pipeMachine.Throughout Conserves {} ops ↔ pipeMachine.Along Pipe.Whole {} ops) ∧
      ((∀ op ∈ ops, op.Undisturbed) →
        (pipeMachine.Throughout Conserves {} ops ↔ ∀ op ∈ ops, op.SendsWhole)) := by
  have hiff : pipeMachine.Throughout Conserves {} ops ↔ pipeMachine.Along Pipe.Whole {} ops := by
    have hbase : pipeMachine.Along (fun _ _ => True) {} ops :=
      Lib.Machine.along_of_forall (fun _ _ => trivial) _ _
    refine Lib.Machine.throughout_iff_along (fun _ _ => True) Conserves ?_ ?_ [] trivial rfl
      hbase hr
    · intro p tr op q e _ _ _
      trivial
    · intro p tr op q e _ h _ hs
      exact conserves_iff h hs
  refine ⟨hiff, fun hops => ?_⟩
  rw [hiff, ← Lib.Machine.along_labels hr]
  constructor
  · exact fun h => h.mono fun _ _ => And.left
  · exact fun h => h.and (along_receivesWhole sound_start hops)

end

/-- a message and two single parts; the receiver is interrupted within the message -/
def mixedOps : List Op :=
  [.send threeParts false acceptAll, .sendPart (ascii "d") sendMore .accepted,
    .receive false [.runs, .fails .eintr, .runs, .runs] {},
    .sendPart (ascii "e") normal .accepted, .receivePart normal .runs []]

theorem connection_conserves_mixed :
    (@pipeMachine byOne).Throughout Conserves {} mixedOps := by
  refine ((@connection_conserves_iff byOne mixedOps _ _ rfl).2 ?_).mpr ?_
  · intro op hop
    simp only [mixedOps, List.mem_cons, List.not_mem_nil, or_false] at hop
    rcases hop with rfl | rfl | rfl | rfl | rfl
    · trivial
    · trivial
    · show OnlyInterrupts _
      unfold OnlyInterrupts
      decide
    · trivial
    · trivial
  · intro op hop
    simp only [mixedOps, List.mem_cons, List.not_mem_nil, or_false] at hop
    rcases hop with rfl | rfl | rfl | rfl | rfl
    · exact Or.inr (by decide)
    · trivial
    · trivial
    · trivial
    · trivial

/-! ## messages -/

/-- the messages of which all frames are there; `front` are the parts of the first of them so far -/
def messagesFrom : List Bytes → List (Bytes × Bool) → List (List Bytes)
  | _, [] => []
  | front, (b, true) :: fs => messagesFrom (front ++ [b]) fs
  | front, (b, false) :: fs => (front ++ [b]) :: messagesFrom [] fs

def messagesOf (fs : List (Bytes × Bool)) : List (List Bytes) := messagesFrom [] fs

def sentMessages (tr : List Transfer) : List Message :=
  tr.filterMap fun t =>
    match t with
    | .sent m => some m
    | _ => none

def receivedMessages (tr : List Transfer) : List Message :=
  tr.filterMap fun t =>
    match t with
    | .received m => some m
    | _ => none

/-- the receiving end takes whole messages -/
def Op.TakesMessages : Op → Prop
  | .receivePart _ _ _ | .receiveRaw _ _ _ _ => False
  | _ => True

/-- the parts at the end that belong to a message of which not all frames are there -/
def begunFrom : List Bytes → List (Bytes × Bool) → List Bytes
  | front, [] => front
  | front, (b, true) :: fs => begunFrom (front ++ [b]) fs
  | _, (_, false) :: fs => begunFrom [] fs

def begun (fs : List (Bytes × Bool)) : List Bytes := begunFrom [] fs

theorem messagesFrom_append (front : List Bytes) (fs gs : List (Bytes × Bool)) :
    messagesFrom front (fs ++ gs)
      = messagesFrom front fs ++ messagesFrom (begunFrom front fs) gs := by
  induction fs generalizing front with
  | nil => rfl
  | cons f fs ih =>
    obtain ⟨b, more⟩ := f
    cases more with
    | true => exact ih (front ++ [b])
    | false => exact congrArg ((front ++ [b]) :: ·) (ih [])

theorem begunFrom_framesOf {parts : List Bytes} (h : parts ≠ []) (front : List Bytes)
    (fs : List (Bytes × Bool)) : begunFrom front (framesOf parts ++ fs) = begun fs := by
  induction parts generalizing front with
  | nil => exact absurd rfl h
  | cons b parts ih =>
    by_cases hp : parts = []
    · subst hp
      rfl
    · rw [framesOf_cons hp]
      exact ih hp (front ++ [b])

theorem messagesFrom_framesOf {parts : List Bytes} (h : parts ≠ []) (front : List Bytes)
    (fs : List (Bytes × Bool)) :
    messagesFrom front (framesOf parts ++ fs) = (front ++ parts) :: messagesOf fs := by
  induction parts generalizing front with
  | nil => exact absurd rfl h
  | cons b parts ih =>
    by_cases hp : parts = []
    · subst hp
      rfl
    · rw [framesOf_cons hp]
      show messagesFrom (front ++ [b]) (framesOf parts ++ fs) = _
      rw [ih hp, List.append_assoc]
      rfl

theorem messagesOf_flatMap {ms : List Message} (h : ∀ m ∈ ms, m.payloads ≠ []) :
    messagesOf (ms.flatMap fun m => framesOf m.payloads) = ms.map payloads ∧
      begun (ms.flatMap fun m => framesOf m.payloads) = [] := by
  induction ms with
  | nil => exact ⟨rfl, rfl⟩
  | cons m ms ih =>
    obtain ⟨hmessages, hbegun⟩ := ih fun m' hm' => h m' (List.mem_cons_of_mem m hm')
    have hne := h m List.mem_cons_self
    rw [List.flatMap_cons]
    unfold messagesOf begun
    rw [messagesFrom_framesOf hne, begunFrom_framesOf hne, hmessages, hbegun]
    exact ⟨rfl, rfl⟩

/-- what a call may say where messages are received whole -/
def Transfer.Whole : Transfer → Prop
  | .received m => m.payloads ≠ []
  | .receivedPart _ _ => False
  | _ => True

theorem taken_of_whole {tr : List Transfer} (h : ∀ t ∈ tr, t.Whole) :
    taken tr = (receivedMessages tr).flatMap (fun m => framesOf m.payloads) ∧
      ∀ m ∈ receivedMessages tr, m.payloads ≠ [] := by
  induction tr with
  | nil => exact ⟨rfl, nofun⟩
  | cons t tr ih =>
    obtain ⟨htaken, hne⟩ := ih fun t' ht' => h t' (List.mem_cons_of_mem t ht')
    have ht := h t List.mem_cons_self
    cases t with
    | sent m => exact ⟨htaken, hne⟩
    | sentPart b more => exact ⟨htaken, hne⟩
    | receivedPart b more => exact ht.elim
    | received m =>
      constructor
      · exact congrArg (framesOf m.payloads ++ ·) htaken
      · intro m' hm'
        rcases List.mem_cons.mp hm' with rfl | hm'
        · exact ht
        · exact hne m' hm'

section
variable [VectorGrowth]

theorem step_whole {p q : Pipe} {op : Op} {e : List Transfer} (htakes : op.TakesMessages)
    (hs : p.step op = some (q, e)) : ∀ t ∈ e, t.Whole := by
  cases op with
  | send m dont_block script =>
    obtain ⟨-, rfl⟩ := Prod.mk.inj (Option.some.inj hs)
    intro t ht
    split at ht
    · rw [List.mem_singleton.mp ht]
      trivial
    · cases ht
  | sendPart string flags result =>
    obtain ⟨-, rfl⟩ := Prod.mk.inj (Option.some.inj hs)
    intro t ht
    split at ht
    · rw [List.mem_singleton.mp ht]
      trivial
    · cases ht
  | receive dont_block schedule m =>
    unfold Pipe.step at hs
    obtain ⟨run, hrun, hrest⟩ := Option.map_eq_some_iff.mp hs
    obtain ⟨-, rfl⟩ := Prod.mk.inj hrest
    intro t ht
    split at ht
    · obtain ⟨-, -, hne, -⟩ := receive_taken hrun ‹_›
      rw [List.mem_singleton.mp ht]
      exact hne
    · cases ht
  | receivePart flags attempt string => exact htakes.elim
  | receiveRaw flags attempt buffer length => exact htakes.elim

/-- the frames at the end of a run of whole sends and receives -/
theorem conserves_of_whole {ops : List Op} {p : Pipe} {tr : List Transfer}
    (hwhole : pipeMachine.Along Pipe.Whole {} ops)
    (hr : pipeMachine.exec {} ops = some (p, tr)) : Conserves p tr := by
  have hstart : Conserves {} [] := rfl
  exact Lib.Machine.exec_inv Conserves
    (fun p tr op q e h hop hs => (conserves_iff h hs).mpr hop) [] hstart hwhole hr

theorem whole_of_run {ops : List Op} {p : Pipe} {tr : List Transfer}
    (htakes : ∀ op ∈ ops, op.TakesMessages) (hr : pipeMachine.exec {} ops = some (p, tr)) :
    ∀ t ∈ tr, t.Whole := by
  refine Lib.Machine.exec_inv (fun _ tr => ∀ t ∈ tr, t.Whole) ?_ [] nofun
    (Lib.Machine.along_of_mem _ htakes) hr
  intro p tr op q e h hop hs t ht
  rcases List.mem_append.mp ht with ht | ht
  · exact h t ht
  · exact step_whole hop hs t ht

/-- where messages are received whole, those are what the frames taken make up -/
theorem messagesOf_taken {ops : List Op} {p : Pipe} {tr : List Transfer}
    (htakes : ∀ op ∈ ops, op.TakesMessages) (hr : pipeMachine.exec {} ops = some (p, tr)) :
    messagesOf (taken tr) = (receivedMessages tr).map payloads ∧ begun (taken tr) = [] := by
  obtain ⟨htaken, hne⟩ := taken_of_whole (whole_of_run htakes hr)
  rw [htaken]
  exact messagesOf_flatMap hne

/-- **Messages arrive whole, once and in the order in which they were handed over**, whether as
messages or part by part: those that have been taken are the first of them, and the others are on
their way, the front one perhaps taken in part.  A receiving end that takes whole messages has got
exactly those. -/
theorem messages_in_order (ops : List Op) (p : Pipe) (tr : List Transfer)
    (hwhole : pipeMachine.Along Pipe.Whole {} ops)
    (hr : pipeMachine.exec {} ops = some (p, tr)) :
    messagesOf (handed tr)
        = messagesOf (taken tr) ++ messagesFrom (begun (taken tr)) p.inFlight ∧
      ((∀ op ∈ ops, op.TakesMessages) →
        messagesOf (taken tr) = (receivedMessages tr).map payloads ∧ begun (taken tr) = []) := by
  have hconserves : handed tr = taken tr ++ p.inFlight := conserves_of_whole hwhole hr
  refine ⟨?_, fun htakes => messagesOf_taken htakes hr⟩
  rw [hconserves]
  exact messagesFrom_append [] (taken tr) p.inFlight

end

/-- a message in two single parts, which are received as a message -/
def partsThenMessage : List Op :=
  [.sendPart (ascii "d") sendMore .accepted, .sendPart (ascii "e") normal .accepted,
    .receive true [.runs, .runs] {}]

theorem messages_in_order_parts :
    ∃ p tr, (@pipeMachine byOne).exec {} partsThenMessage = some (p, tr) ∧
      messagesOf (handed tr)
        = messagesOf (taken tr) ++ messagesFrom (begun (taken tr)) p.inFlight ∧
      messagesOf (taken tr) = (receivedMessages tr).map payloads := by
  have hwhole : (@pipeMachine byOne).Along (@Pipe.Whole byOne) {} partsThenMessage := by
    refine @along_whole byOne _ fun op hop => ?_
    simp only [partsThenMessage, List.mem_cons, List.not_mem_nil, or_false] at hop
    rcases hop with rfl | rfl | rfl
    · exact ⟨trivial, trivial⟩
    · exact ⟨trivial, trivial⟩
    · refine ⟨trivial, ?_⟩
      show OnlyInterrupts _
      unfold OnlyInterrupts
      decide
  obtain ⟨hmessages, htaken⟩ := @messages_in_order byOne partsThenMessage _ _ hwhole rfl
  refine ⟨_, _, rfl, hmessages, (htaken ?_).1⟩
  intro op hop
  simp only [partsThenMessage, List.mem_cons, List.not_mem_nil, or_false] at hop
  rcases hop with rfl | rfl | rfl <;> trivial

/-! ## values -/

section
variable [VectorGrowth]

/-- messages are sent whole, each with the values written to a new one, and are received into a
message whose cursor does not outlive its parts -/
def Op.Typed (host : Order) : Op → Prop
  | .send m _ _ => ∃ vs, m = Message.written host {} vs
  | .receive _ _ m => 0 < m.count ∨ m.readCursor = 0
  | _ => False

/-- what a call may say where messages are typed -/
def Transfer.Typed (host : Order) : Transfer → Prop
  | .sent m => m.payloads ≠ [] ∧ ∃ vs, m = Message.written host {} vs
  | .received m => m.readCursor = 0
  | _ => False

theorem step_typed {host : Order} {p q : Pipe} {op : Op} {e : List Transfer} (hop : op.Typed host)
    (hs : p.step op = some (q, e)) : ∀ t ∈ e, t.Typed host := by
  cases op with
  | send m dont_block script =>
    obtain ⟨-, rfl⟩ := Prod.mk.inj (Option.some.inj hs)
    intro t ht
    split at ht
    · rename_i hout
      rw [List.mem_singleton.mp ht]
      refine ⟨?_, hop⟩
      intro hnil
      unfold send at hout
      rw [if_pos ((Message.payloads_eq_nil m).mp hnil)] at hout
      cases hout
    · cases ht
  | sendPart string flags result => exact hop.elim
  | receive dont_block schedule m =>
    unfold Pipe.step at hs
    obtain ⟨run, hrun, hrest⟩ := Option.map_eq_some_iff.mp hs
    obtain ⟨-, rfl⟩ := Prod.mk.inj hrest
    intro t ht
    split at ht
    · rw [List.mem_singleton.mp ht]
      show run.message.readCursor = 0
      rw [receive_readCursor hrun]
      split
      · rfl
      · exact hop.resolve_left ‹_›
    · cases ht
  | receivePart flags attempt string => exact hop.elim
  | receiveRaw flags attempt buffer length => exact hop.elim

theorem typed_of_run {host : Order} {ops : List Op} {p : Pipe} {tr : List Transfer}
    (htyped : ∀ op ∈ ops, op.Typed host) (hr : pipeMachine.exec {} ops = some (p, tr)) :
    ∀ t ∈ tr, t.Typed host := by
  refine Lib.Machine.exec_inv (fun _ tr => ∀ t ∈ tr, t.Typed host) ?_ [] nofun
    (Lib.Machine.along_of_mem _ htyped) hr
  intro p tr op q e h hop hs t ht
  rcases List.mem_append.mp ht with ht | ht
  · exact h t ht
  · exact step_typed hop hs t ht

theorem handed_of_typed {host : Order} {tr : List Transfer} (h : ∀ t ∈ tr, t.Typed host) :
    handed tr = (sentMessages tr).flatMap (fun m => framesOf m.payloads) ∧
      (∀ m ∈ sentMessages tr, m.payloads ≠ [] ∧ ∃ vs, m = Message.written host {} vs) ∧
      ∀ m ∈ receivedMessages tr, m.readCursor = 0 := by
  induction tr with
  | nil => exact ⟨rfl, nofun, nofun⟩
  | cons t tr ih =>
    obtain ⟨hhanded, hsent, hreceived⟩ := ih fun t' ht' => h t' (List.mem_cons_of_mem t ht')
    have ht := h t List.mem_cons_self
    cases t with
    | sent m =>
      refine ⟨congrArg (framesOf m.payloads ++ ·) hhanded, ?_, hreceived⟩
      intro m' hm'
      rcases List.mem_cons.mp hm' with rfl | hm'
      · exact ht
      · exact hsent m' hm'
    | sentPart b more => exact ht.elim
    | receivedPart b more => exact ht.elim
    | received m =>
      refine ⟨hhanded, hsent, ?_⟩
      intro m' hm'
      rcases List.mem_cons.mp hm' with rfl | hm'
      · exact ht
      · exact hreceived m' hm'

end

/-- a number and a string, which are sent and received -/
def typedOps : List Op :=
  [.send (@Message.written .littleEndian byOne {} [.uint16 513, .string (ascii "x")]) false
      acceptAll,
    .receive false [.runs, .runs] {}]

end Socket
end Zmqpp
