import ZmqppPty.Socket.Connection

/-!
# Whole messages on a connection (socket.cpp)

While the calls of libzmq for a message are all accepted, a connection is a queue of messages.

* `Pipe.Holds`       the pipe holds these messages and nothing else;
* `Delivers`         the calls of a send: the first one throws, or all are accepted;
* `Pipe.Holds.send`, `Pipe.Holds.receive`, `Pipe.Holds.wait`   the ends put messages in and take
                     them out, the signals with a wait.
-/

namespace Zmqpp
namespace Message
variable [VectorGrowth] (host : Order)

theorem written_elems (m : Message) (vs : List Value) :
    (m.written host vs).parts.elems = m.parts.elems ++ vs.map fun v => Frame.copyOf v.wireFormat := by
  induction vs generalizing m with
  | nil => exact (List.append_nil _).symm
  | cons v vs ih =>
    show ((m.streamOut host v).1.written host vs).parts.elems = _
    rw [ih, streamOut_eq, addRaw_elems, List.append_assoc]
    rfl

/-- no part of a message that has been written was sent -/
theorem written_unsent (vs : List Value) (part : ℕ) :
    (written host {} vs).isSent part = false := by
  unfold isSent
  rw [written_elems]
  show ((vs.map fun v => Frame.copyOf v.wireFormat)[part]?.map Frame.sent).getD false = false
  rw [List.getElem?_map]
  cases vs[part]? <;> rfl

end Message

namespace Socket

open Message (payloads)

structure Pipe.Holds (p : Pipe) (messages : List (List Bytes)) : Prop where
  held : p.held = []
  queue : p.inbox.queue = messages.flatMap wireFrames

theorem holds_start : Pipe.Holds {} [] := ⟨rfl, rfl⟩

/-- the calls of a send of `n` parts -/
def Delivers (script : ℕ → SendResult) (n : ℕ) : Prop :=
  (∃ code, script 0 = .failed (.other code)) ∨ ∀ k < n, script k = .accepted

/-- whole messages behind those in the queue -/
theorem pushAll_wireFrames {p : Pipe} (hheld : p.held = []) {parts : List Bytes}
    (hne : parts ≠ []) :
    p.pushAll (wireFrames parts)
      = ⟨[], { p.inbox with queue := p.inbox.queue ++ wireFrames parts }⟩ := by
  obtain ⟨front, last, hframes, hfront, hlast, -⟩ := wireFrames_split hne
  have hpush : ∀ (fs : List InFrame) (p : Pipe), (∀ f ∈ fs, f.more = true) →
      p.pushAll fs = { p with held := p.held ++ fs } := by
    intro fs
    induction fs with
    | nil =>
      intro p _
      show p = { p with held := p.held ++ [] }
      rw [List.append_nil]
    | cons f fs ih =>
      intro p hfs
      show (p.push f).pushAll fs = _
      unfold Pipe.push
      rw [if_pos (hfs f List.mem_cons_self), ih _ fun g hg => hfs g (List.mem_cons_of_mem f hg)]
      show Pipe.mk (p.held ++ [f] ++ fs) p.inbox = _
      rw [List.append_assoc]
      rfl
  rw [hframes]
  show (List.foldl Pipe.push p (front ++ [last])) = _
  rw [List.foldl_append]
  show (p.pushAll front).push last = _
  rw [hpush front p hfront, hheld, List.nil_append]
  unfold Pipe.push
  rw [if_neg (by rw [hlast]; exact Bool.false_ne_true), List.append_assoc]

theorem map_framesOf (parts : List Bytes) :
    (framesOf parts).map (fun f => (⟨⟨f.1, none⟩, f.2⟩ : InFrame)) = wireFrames parts := by
  induction parts with
  | nil => rfl
  | cons b parts ih =>
    cases parts with
    | nil => rfl
    | cons c parts => exact congrArg (_ :: ·) ih

theorem isMessage_unique {fs gs a b : List InFrame} (hfs : IsMessage fs) (hgs : IsMessage gs)
    (h : fs ++ a = gs ++ b) : fs = gs ∧ a = b := by
  obtain ⟨front, last, rfl, hfront, hlast⟩ := hfs
  obtain ⟨front', last', rfl, hfront', hlast'⟩ := hgs
  rw [List.append_assoc, List.append_assoc] at h
  obtain ⟨rfl, rfl, rfl⟩ := first_message_unique h hfront hlast hfront' hlast'
  exact ⟨rfl, rfl⟩

/-- a queue that begins with a signal -/
theorem FirstSignal.of_frames {sig : Signal} {v : Int64} {q rest : List InFrame}
    (h : FirstSignal (wireFrames sig.frames ++ q) v rest) : v = sig.value ∧ rest = q := by
  obtain ⟨before, msg, hq, hbefore, hmsg, hspells⟩ := h
  have hfirst : IsMessage (wireFrames sig.frames) := ⟨[], _, rfl, nofun, rfl⟩
  have hsignal : SpellsSignal (partsOf (wireFrames sig.frames)) sig.value :=
    signalOf_eq_some.mp sig.signalOf_frames
  cases before with
  | nil =>
    obtain ⟨rfl, rfl⟩ := isMessage_unique hfirst hmsg hq
    have hv := signalOf_eq_some.mpr hspells
    rw [signalOf_eq_some.mpr hsignal] at hv
    exact ⟨(Option.some.inj hv).symm, rfl⟩
  | cons fs before =>
    obtain ⟨hfs, hno⟩ := hbefore fs List.mem_cons_self
    rw [List.flatten_cons, List.append_assoc, List.append_assoc] at hq
    obtain ⟨rfl, -⟩ := isMessage_unique hfirst hfs hq
    exact absurd hsignal (hno _)

section
variable {p : Pipe} {messages : List (List Bytes)}

/-- **A message whose calls are all accepted** is the last one that the pipe holds. -/
theorem Pipe.Holds.send (h : p.Holds messages) {m : Message} (hne : m.payloads ≠ [])
    (hunsent : ∀ part, m.isSent part = false) (dont_block : Bool) (script : ℕ → SendResult)
    (haccepted : ∀ k < m.payloads.length, script k = .accepted) :
    (Socket.send m dont_block script).outcome = .returned true ∧
      (p.pushAll (arrived (Socket.send m dont_block script).wire)).Holds
        (messages ++ [m.payloads]) := by
  rw [Message.payloads_length] at haccepted
  have hcount : 0 < m.count := by
    rw [← Message.payloads_length]
    exact List.length_pos_of_ne_nil hne
  have hout := (send_accepted script hcount (fun k _ => hunsent k) dont_block haccepted).1
  have hsays := (send_says_iff m dont_block script).mpr
    (Or.inr fun k hk => ⟨haccepted k hk, hunsent k⟩)
  rw [if_pos hout] at hsays
  have hwire : arrived (Socket.send m dont_block script).wire = wireFrames m.payloads := by
    unfold arrived
    rw [← hsays, map_framesOf]
  refine ⟨hout, ?_⟩
  rw [hwire, pushAll_wireFrames h.held hne]
  refine ⟨rfl, ?_⟩
  show p.inbox.queue ++ _ = _
  rw [h.queue, List.flatMap_append, List.flatMap_singleton]

variable [VectorGrowth]

/-- **A receive that returns true** takes the first message. -/
theorem Pipe.Holds.receive {parts : List Bytes} (h : p.Holds (parts :: messages))
    (hne : parts ≠ []) {dont_block : Bool} {schedule : List Attempt} {m : Message} {run : RecvRun}
    (hrun : Socket.receive dont_block schedule p.inbox m = some run)
    (hout : run.outcome = .ok true) :
    payloads run.message = parts ∧ Pipe.Holds { p with inbox := run.inbox } messages := by
  have hq : p.inbox.queue = wireFrames parts ++ messages.flatMap wireFrames := by
    rw [h.queue, List.flatMap_cons]
  obtain ⟨hpay, hqueue⟩ := receive_front hrun hout hne hq
  exact ⟨hpay, h.held, hqueue⟩

/-- one that interrupts alone disturb returns false iff the first of them comes before all frames -/
theorem receive_interrupts {schedule : List Attempt} {s : Inbox} {m : Message} {run : RecvRun}
    (honly : OnlyInterrupts schedule) (hrun : Socket.receive false schedule s m = some run) :
    run.outcome = .ok true ∨
      run.outcome = .ok false ∧ schedule.head? = some (.fails .eintr) := by
  cases schedule with
  | nil =>
    obtain ⟨flags, m', released, -, -, heq⟩ := receive_eq_loop false [] s m
    rw [heq] at hrun
    cases hrun
  | cons a schedule =>
    rcases honly a List.mem_cons_self with rfl | rfl
    · exact Or.inl (receive_true honly rfl hrun)
    · obtain ⟨run', hrun', hout⟩ := receive_interrupted false schedule s m
      obtain rfl := Option.some.inj (hrun.symm.trans hrun')
      exact Or.inr ⟨hout, rfl⟩

/-! ## signals -/

/-- **A wait takes the first signal** where the pipe holds nothing else before it. -/
theorem Pipe.Holds.wait {host : Order} {sig : Signal} {schedules : List (List Attempt)} {v : Int64}
    (h : p.Holds (sig.frames :: messages))
    (hv : (Socket.wait host schedules p.inbox).outcome = some (.ok v)) :
    v = sig.value ∧
      Pipe.Holds { p with inbox := (Socket.wait host schedules p.inbox).inbox } messages := by
  have hreads : WithinFrames [] := fun r hr => (nomatch hr)
  have hfirst := (waitLoop_ok hreads).2 v hv
  rw [h.queue, List.flatMap_cons] at hfirst
  obtain ⟨rfl, hrest⟩ := hfirst.of_frames
  exact ⟨rfl, h.held, hrest⟩

/-- in an empty pipe there is none -/
theorem Pipe.Holds.wait_nil {host : Order} {schedules : List (List Attempt)} (h : p.Holds [])
    (v : Int64) : (Socket.wait host schedules p.inbox).outcome ≠ some (.ok v) := by
  intro hv
  have hreads : WithinFrames [] := fun r hr => (nomatch hr)
  obtain ⟨before, msg, hq, -, ⟨front, last, rfl, -, -⟩, -⟩ := (waitLoop_ok hreads).2 v hv
  rw [h.queue] at hq
  simp at hq

/-- it throws nothing if interrupts alone disturb its receives -/
theorem wait_no_error {host : Order} {schedules : List (List Attempt)} {s : Inbox} {f : Failure}
    (honly : ∀ schedule ∈ schedules, OnlyInterrupts schedule) :
    (Socket.wait host schedules s).outcome ≠ some (.error f) := by
  unfold Socket.wait
  generalize ({} : Message) = m
  generalize ([] : List (ℕ × ℕ)) = reads
  induction schedules generalizing s m reads with
  | nil =>
    intro h
    cases h
  | cons schedule schedules ih =>
    have hrest := fun l hl => honly l (List.mem_cons_of_mem schedule hl)
    cases hr : Socket.receive false schedule s m with
    | none =>
      rw [waitLoop, hr]
      intro h
      cases h
    | some run =>
      rcases receive_interrupts (honly schedule List.mem_cons_self) hr with hout | ⟨hout, -⟩
      · by_cases hsig : ∃ sig, SpellsSignal run.message.payloads sig
        · obtain ⟨sig, hsig⟩ := hsig
          rw [waitLoop_signal hr hout hsig]
          intro h
          cases h
        · rw [waitLoop_skip hr hout (not_exists.mp hsig)]
          exact ih hrest _ _
      · rw [waitLoop_again hr hout]
        exact ih hrest _ _

end

end Socket
end Zmqpp
