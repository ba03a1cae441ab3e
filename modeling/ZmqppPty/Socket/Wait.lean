import ZmqppPty.Message.Signal
import ZmqppPty.Socket.Receive

/-!
# Waiting for a signal (socket::wait in socket.cpp)

* `wait`                    receives until a message is a signal.  The environment gives each receive
                            its attempts;
* `WaitRun.reads`           the reads of frames, how long they are and how long the frame is;
* `FirstSignal`             a queue of messages up to the first signal in it;
* `LetsThrough`             receives that interrupts alone disturb;
* `waitLoop_ok`             a wait that returns has consumed the queue up to its first signal, and
                            no read has left its frame;
* `waitLoop_returns`        with interrupts only it does return;
* `wait_first_signal`       both, and that a signal which is sent is such a message.
-/

namespace Zmqpp
namespace Socket

open Message (payloads payloads_eq_nil)

structure WaitRun where
  /-- `none` as long as the wait has not returned -/
  outcome : Option (Except Failure Int64)
  inbox : Inbox
  /-- the bytes read and the bytes of the frame -/
  reads : List (ℕ × ℕ)

/-- `get(sig, 0)` reads eight bytes, if `raw_data` finds the part -/
def getReads (m : Message) : List (ℕ × ℕ) :=
  match m.size 0 with
  | .error _ => []
  | .ok size => [(8, size)]

/-- `is_signal()` calls it behind its tests -/
def isSignalReads (m : Message) : List (ℕ × ℕ) :=
  if m.count = 1 then
    match m.size 0 with
    | .error _ => []
    | .ok size => if size = 8 then getReads m else []
  else []

section
variable [VectorGrowth] (host : Order)

/-- `while(!receive(msg));` within `for (;;)`, which begins with a new `msg` -/
def waitLoop : List (List Attempt) → Inbox → Message → List (ℕ × ℕ) → WaitRun
  | [], s, _, reads => ⟨none, s, reads⟩
  | schedule :: schedules, s, msg, reads =>
    match receive false schedule s msg with
    | none => ⟨none, s, reads⟩
    | some run =>
      match run.outcome with
      | .error f => ⟨some (.error f), run.inbox, reads⟩
      | .ok false => waitLoop schedules run.inbox run.message reads
      | .ok true =>
        let reads := reads ++ isSignalReads run.message
        match run.message.isSignal host with
        | .error f => ⟨some (.error f), run.inbox, reads⟩
        | .ok false => waitLoop schedules run.inbox {} reads
        | .ok true =>
          ⟨some (run.message.getSignal host 0), run.inbox, reads ++ getReads run.message⟩

/-- `socket::wait()` -/
def wait (schedules : List (List Attempt)) (s : Inbox) : WaitRun :=
  waitLoop host schedules s {} []

/-- `socket::send(signal, bool)` -/
def sendSignal (sig : Int64) (dont_block : Bool) (script : ℕ → SendResult) : SendRun :=
  send (Message.streamOut host {} (.signal sig)).1 dont_block script

end

/-! ## messages in the queue -/

/-- the frames of one message -/
def IsMessage (fs : List InFrame) : Prop :=
  ∃ front last, fs = front ++ [last] ∧ (∀ f ∈ front, f.more = true) ∧ last.more = false

def partsOf (fs : List InFrame) : List Bytes := fs.map InFrame.payload

/-- the first signal in the queue is `sig`, and `rest` is what follows its message -/
def FirstSignal (queue : List InFrame) (sig : Int64) (rest : List InFrame) : Prop :=
  ∃ (before : List (List InFrame)) (msg : List InFrame), queue = before.flatten ++ msg ++ rest ∧
    (∀ fs ∈ before, IsMessage fs ∧ ∀ v, ¬ SpellsSignal (partsOf fs) v) ∧
    IsMessage msg ∧ SpellsSignal (partsOf msg) sig

/-- what the frames of a send are on arrival -/
def arrived (wire : List (Bytes × ℕ)) : List InFrame :=
  (frames wire).map fun f => ⟨⟨f.1, none⟩, f.2⟩

/-- Interrupts alone disturb the receives.  Of those that are not interrupted before their first
frame there are `k`, and each of them lets `n` frames through. -/
structure LetsThrough (n k : ℕ) (schedules : List (List Attempt)) : Prop where
  only : ∀ schedule ∈ schedules, OnlyInterrupts schedule
  first : ∀ schedule ∈ schedules, schedule.head? = some (.fails .eintr) ∨
    (schedule.head? = some .runs ∧ n ≤ schedule.count .runs)
  enough : k ≤ schedules.countP fun schedule => schedule.head? = some .runs

theorem FirstSignal.skip {fs queue rest : List InFrame} {sig : Int64} (hfs : IsMessage fs)
    (hno : ∀ v, ¬ SpellsSignal (partsOf fs) v) (h : FirstSignal queue sig rest) :
    FirstSignal (fs ++ queue) sig rest := by
  obtain ⟨before, msg, hq, hbefore, hmsg, hsig⟩ := h
  refine ⟨fs :: before, msg, ?_, ?_, hmsg, hsig⟩
  · rw [hq, List.flatten_cons]
    simp only [List.append_assoc]
  · intro gs hgs
    rcases List.mem_cons.mp hgs with rfl | hgs
    · exact ⟨hfs, hno⟩
    · exact hbefore gs hgs

theorem LetsThrough.tail {n k : ℕ} {schedule : List Attempt} {schedules : List (List Attempt)}
    (h : LetsThrough n k (schedule :: schedules)) (hk : schedule.head? ≠ some .runs) :
    LetsThrough n k schedules := by
  refine ⟨fun l hl => h.only l (List.mem_cons_of_mem _ hl),
    fun l hl => h.first l (List.mem_cons_of_mem _ hl), ?_⟩
  have henough := h.enough
  rwa [List.countP_cons_of_neg (by simpa using hk)] at henough

theorem LetsThrough.next {n k : ℕ} {schedule : List Attempt} {schedules : List (List Attempt)}
    (h : LetsThrough n (k + 1) (schedule :: schedules)) : LetsThrough n k schedules := by
  refine ⟨fun l hl => h.only l (List.mem_cons_of_mem _ hl),
    fun l hl => h.first l (List.mem_cons_of_mem _ hl), ?_⟩
  have henough := h.enough
  rw [List.countP_cons] at henough
  split at henough <;> omega

/-! ## reads -/

/-- no read leaves its frame -/
def WithinFrames (reads : List (ℕ × ℕ)) : Prop := ∀ r ∈ reads, r.1 ≤ r.2

theorem WithinFrames.append {a b : List (ℕ × ℕ)} (ha : WithinFrames a) (hb : WithinFrames b) :
    WithinFrames (a ++ b) := by
  intro r hr
  rcases List.mem_append.mp hr with hr | hr
  · exact ha r hr
  · exact hb r hr

theorem getReads_within {m : Message} (h : m.size 0 = .ok 8) : WithinFrames (getReads m) := by
  unfold getReads
  rw [h]
  intro r hr
  rw [List.mem_singleton.mp hr]

theorem isSignalReads_within (m : Message) : WithinFrames (isSignalReads m) := by
  unfold isSignalReads
  split
  · split
    · nofun
    · rename_i size hsize
      split
      · rename_i h8
        exact getReads_within (h8 ▸ hsize)
      · nofun
  · nofun

/-- a signal is in a part of eight bytes -/
theorem size_of_signal {m : Message} {sig : Int64} (h : SpellsSignal m.payloads sig) :
    m.size 0 = .ok 8 := by
  obtain ⟨b, hparts, -⟩ := h
  have hpart : m.payloads[0]? = some (signalHeader ++ [b]) := by
    rw [hparts]
    rfl
  exact (Message.get_of_payloads hpart).2

/-! ## the loop -/

section
variable [VectorGrowth] {host : Order} {schedule : List Attempt}
  {schedules : List (List Attempt)} {s : Inbox} {m : Message} {run : RecvRun}

/-- what a receive takes from a queue that begins with a message -/
theorem receive_takes (h : receive false schedule s m = some run) (ht : run.outcome = .ok true)
    {fs q : List InFrame} (hfs : IsMessage fs) (hq : s.queue = fs ++ q) :
    run.message.payloads = partsOf fs ∧ run.inbox.queue = q := by
  obtain ⟨front, last, heq, hfront, hlast, hpay⟩ := receive_of_true h ht
  obtain ⟨front', last', rfl, hfront', hlast'⟩ := hfs
  rw [hq, List.append_assoc, List.singleton_append] at heq
  obtain ⟨rfl, rfl, rfl⟩ := first_message_unique heq hfront' hlast' hfront hlast
  exact ⟨hpay, rfl⟩

/-- and the message that it has taken, whatever the queue was -/
theorem receive_took (h : receive false schedule s m = some run) (ht : run.outcome = .ok true) :
    ∃ fs, s.queue = fs ++ run.inbox.queue ∧ IsMessage fs ∧ run.message.payloads = partsOf fs := by
  obtain ⟨front, last, heq, hfront, hlast, hpay⟩ := receive_of_true h ht
  refine ⟨front ++ [last], ?_, ⟨front, last, rfl, hfront, hlast⟩, hpay⟩
  rw [heq, List.append_assoc]
  rfl

theorem waitLoop_again (h : receive false schedule s m = some run) (hf : run.outcome = .ok false)
    (reads : List (ℕ × ℕ)) :
    waitLoop host (schedule :: schedules) s m reads
      = waitLoop host schedules run.inbox run.message reads := by
  rw [waitLoop, h]
  dsimp only
  rw [hf]

theorem waitLoop_skip (h : receive false schedule s m = some run) (ht : run.outcome = .ok true)
    (hno : ∀ v, ¬ SpellsSignal run.message.payloads v) (reads : List (ℕ × ℕ)) :
    waitLoop host (schedule :: schedules) s m reads
      = waitLoop host schedules run.inbox {} (reads ++ isSignalReads run.message) := by
  have hnone : signalOf run.message.payloads = none := by
    apply Option.eq_none_iff_forall_ne_some.mpr
    intro v hv
    exact hno v (signalOf_eq_some.mp hv)
  rw [waitLoop, h]
  dsimp only
  rw [ht]
  dsimp only
  rw [Message.isSignal_eq, hnone]
  rfl

theorem waitLoop_signal (h : receive false schedule s m = some run) (ht : run.outcome = .ok true)
    {sig : Int64} (hsig : SpellsSignal run.message.payloads sig) (reads : List (ℕ × ℕ)) :
    waitLoop host (schedule :: schedules) s m reads
      = ⟨some (.ok sig), run.inbox,
          reads ++ isSignalReads run.message ++ getReads run.message⟩ := by
  have hsome := signalOf_eq_some.mpr hsig
  rw [waitLoop, h]
  dsimp only
  rw [ht]
  dsimp only
  rw [Message.isSignal_eq, hsome, Message.getSignal_of_signalOf host hsome]
  rfl

/-- **What a wait has done**, whether it has ended or not. -/
theorem waitLoop_ok {reads : List (ℕ × ℕ)} (hreads : WithinFrames reads) :
    WithinFrames (waitLoop host schedules s m reads).reads ∧
      ∀ sig, (waitLoop host schedules s m reads).outcome = some (.ok sig) →
        FirstSignal s.queue sig (waitLoop host schedules s m reads).inbox.queue := by
  induction schedules generalizing s m reads with
  | nil => exact ⟨hreads, nofun⟩
  | cons schedule schedules ih =>
    cases hr : receive false schedule s m with
    | none =>
      rw [waitLoop, hr]
      exact ⟨hreads, nofun⟩
    | some run =>
      cases hout : run.outcome with
      | error f =>
        rw [waitLoop, hr]
        dsimp only
        rw [hout]
        exact ⟨hreads, nofun⟩
      | ok b =>
        cases b with
        | false =>
          rw [waitLoop_again hr hout, ← (receive_of_false hr hout).1]
          exact ih hreads
        | true =>
          obtain ⟨fs, hq, hfs, hparts⟩ := receive_took hr hout
          have hreads' := hreads.append (isSignalReads_within run.message)
          by_cases hsig : ∃ sig, SpellsSignal run.message.payloads sig
          · obtain ⟨sig, hsig⟩ := hsig
            rw [waitLoop_signal hr hout hsig]
            refine ⟨hreads'.append (getReads_within (size_of_signal hsig)), ?_⟩
            intro sig' heq
            cases heq
            rw [hparts] at hsig
            exact ⟨[], fs, hq, nofun, hfs, hsig⟩
          · have hno : ∀ v, ¬ SpellsSignal run.message.payloads v := not_exists.mp hsig
            rw [waitLoop_skip hr hout hno]
            obtain ⟨hwithin, hfirst⟩ := ih (s := run.inbox) (m := {}) hreads'
            refine ⟨hwithin, fun sig heq => ?_⟩
            rw [hparts] at hno
            rw [hq]
            exact (hfirst sig heq).skip hfs hno

/-- a receive from a queue that begins with a message returns true -/
theorem receive_first {n : ℕ} (m : Message) (honly : OnlyInterrupts schedule)
    (hstart : schedule.head? = some .runs) (hruns : n ≤ schedule.count .runs)
    {fs q : List InFrame} (hfs : IsMessage fs) (hlen : fs.length ≤ n)
    (hq : s.queue = fs ++ q) :
    ∃ run, receive false schedule s m = some run ∧ run.outcome = .ok true := by
  obtain ⟨front, last, rfl, hfront, hlast⟩ := hfs
  rw [List.length_append, List.length_singleton] at hlen
  rw [List.append_assoc, List.singleton_append] at hq
  exact receive_returns false m hq hfront hlast honly hstart (by omega)

/-- **With interrupts only the wait returns** the first signal of the queue. -/
theorem waitLoop_returns {n : ℕ} {before : List (List InFrame)} {msg rest : List InFrame}
    {sig : Int64} {reads : List (ℕ × ℕ)} (hq : s.queue = before.flatten ++ msg ++ rest)
    (hbefore : ∀ fs ∈ before, IsMessage fs ∧ ∀ v, ¬ SpellsSignal (partsOf fs) v)
    (hmsg : IsMessage msg) (hsig : SpellsSignal (partsOf msg) sig)
    (hlen : ∀ fs ∈ msg :: before, fs.length ≤ n)
    (hsched : LetsThrough n (before.length + 1) schedules) :
    (waitLoop host schedules s m reads).outcome = some (.ok sig) ∧
      (waitLoop host schedules s m reads).inbox.queue = rest := by
  induction schedules generalizing s m before reads with
  | nil =>
    have henough := hsched.enough
    cases henough
  | cons schedule schedules ih =>
    rcases hsched.first schedule List.mem_cons_self with heintr | ⟨hruns, hcount⟩
    · -- interrupted before its first frame
      obtain ⟨tail, rfl⟩ : ∃ tail, schedule = .fails .eintr :: tail := by
        cases schedule with
        | nil => cases heintr
        | cons a tail => exact ⟨tail, congrArg (· :: tail) (Option.some.inj heintr)⟩
      obtain ⟨run, hr, hout⟩ := receive_interrupted false tail s m
      have hsame := (receive_of_false hr hout).1
      rw [waitLoop_again hr hout]
      rw [← hsame] at hq
      exact ih hq hbefore hlen (hsched.tail (by simp))
    · have honly := hsched.only schedule List.mem_cons_self
      cases before with
      | nil =>
        have hq' : s.queue = msg ++ rest := hq
        obtain ⟨run, hr, hout⟩ :=
          receive_first m honly hruns hcount hmsg (hlen msg List.mem_cons_self) hq'
        obtain ⟨hparts, hrest⟩ := receive_takes hr hout hmsg hq'
        rw [← hparts] at hsig
        rw [waitLoop_signal hr hout hsig]
        exact ⟨rfl, hrest⟩
      | cons fs before =>
        obtain ⟨hfs, hno⟩ := hbefore fs List.mem_cons_self
        have hq' : s.queue = fs ++ (before.flatten ++ msg ++ rest) := by
          rw [hq, List.flatten_cons]
          simp only [List.append_assoc]
        obtain ⟨run, hr, hout⟩ := receive_first m honly hruns hcount hfs
          (hlen fs (List.mem_cons_of_mem msg List.mem_cons_self)) hq'
        obtain ⟨hparts, hrest⟩ := receive_takes hr hout hfs hq'
        rw [← hparts] at hno
        rw [waitLoop_skip hr hout hno]
        refine ih hrest (fun gs hgs => hbefore gs (List.mem_cons_of_mem fs hgs)) ?_ hsched.next
        intro gs hgs
        rcases List.mem_cons.mp hgs with rfl | hgs
        · exact hlen gs List.mem_cons_self
        · exact hlen gs (List.mem_cons_of_mem msg (List.mem_cons_of_mem fs hgs))

/-! ## signals that are sent -/

/-- a signal that has been sent arrives as one part of eight bytes -/
theorem sendSignal_arrives {b : UInt8} {dont_block : Bool} {script : ℕ → SendResult}
    (h : (sendSignal host (Signal.ofByte b) dont_block script).outcome = .returned true) :
    arrived (sendSignal host (Signal.ofByte b) dont_block script).wire
      = [⟨⟨signalHeader ++ [b], none⟩, false⟩] := by
  have helems : (Message.streamOut host {} (.signal (Signal.ofByte b))).1.parts.elems
      = [Frame.copyOf (signalHeader ++ [b])] := by
    rw [Message.streamOut_eq, Message.addRaw_elems]
    show [Frame.copyOf (Value.signal (Signal.ofByte b)).wireFormat] = _
    rw [← wordOf_signalHeader, wireFormat_wordOf rfl]
  generalize hm : (Message.streamOut host {} (.signal (Signal.ofByte b))).1 = m at helems
  have hcount : m.count = 1 := congrArg List.length helems
  have hsent : m.isSent 0 = false := by
    unfold Message.isSent
    rw [helems]
    rfl
  have hdata : data m 0 = signalHeader ++ [b] := by
    unfold data
    rw [helems]
    rfl
  unfold sendSignal at h ⊢
  rw [hm] at h ⊢
  unfold send at h ⊢
  rw [if_neg (by rw [hcount]; decide), hcount] at h ⊢
  cases hs : script 0 with
  | accepted =>
    simp only [sendLoop, hs, hsent, hdata, Bool.false_eq_true, ↓reduceIte]
    show [(⟨⟨signalHeader ++ [b], none⟩, flagFor dont_block 0 1 &&& sendMore != 0⟩ : InFrame)] = _
    rw [flagFor_sendMore]
    rfl
  | failed e =>
    cases e <;> simp [sendLoop, hs] at h

end

/-- **A wait returns the first signal of its queue**: it has consumed the messages up to that one and
reads no frame beyond its end; if interrupts alone disturb it, it does return; and each signal that
is sent arrives as such a message. -/
theorem wait_first_signal [VectorGrowth] (host : Order) :
    (∀ (schedules : List (List Attempt)) (s : Inbox), WithinFrames (wait host schedules s).reads ∧
      ∀ sig, (wait host schedules s).outcome = some (.ok sig) →
        FirstSignal s.queue sig (wait host schedules s).inbox.queue) ∧
    (∀ (n : ℕ) (before : List (List InFrame)) (msg rest : List InFrame) (sig : Int64) (s : Inbox)
        (schedules : List (List Attempt)), s.queue = before.flatten ++ msg ++ rest →
      (∀ fs ∈ before, IsMessage fs ∧ ∀ v, ¬ SpellsSignal (partsOf fs) v) → IsMessage msg →
      SpellsSignal (partsOf msg) sig → (∀ fs ∈ msg :: before, fs.length ≤ n) →
      LetsThrough n (before.length + 1) schedules →
      (wait host schedules s).outcome = some (.ok sig) ∧
        (wait host schedules s).inbox.queue = rest) ∧
    (∀ (sender : Order) (b : UInt8) (dont_block : Bool) (script : ℕ → SendResult),
      (sendSignal sender (Signal.ofByte b) dont_block script).outcome = .returned true →
      SpellsSignal
        (partsOf (arrived (sendSignal sender (Signal.ofByte b) dont_block script).wire))
        (Signal.ofByte b) ∧
      ∀ (rest : List InFrame) (s : Inbox) (schedules : List (List Attempt)),
        s.queue = arrived (sendSignal sender (Signal.ofByte b) dont_block script).wire ++ rest →
        LetsThrough 1 1 schedules →
        (wait host schedules s).outcome = some (.ok (Signal.ofByte b)) ∧
          (wait host schedules s).inbox.queue = rest) := by
  refine ⟨?_, ?_, ?_⟩
  · intro schedules s
    exact waitLoop_ok nofun
  · intro n before msg rest sig s schedules hq hbefore hmsg hsig hlen hsched
    exact waitLoop_returns hq hbefore hmsg hsig hlen hsched
  · intro sender b dont_block script hsent
    have harrived := sendSignal_arrives hsent
    rw [harrived]
    have hspells : SpellsSignal (partsOf [⟨⟨signalHeader ++ [b], none⟩, false⟩])
        (Signal.ofByte b) := ⟨b, rfl, rfl⟩
    refine ⟨hspells, fun rest s schedules hq hsched => ?_⟩
    have hmsg : IsMessage [⟨⟨signalHeader ++ [b], none⟩, false⟩] := ⟨[], _, rfl, nofun, rfl⟩
    have hq' : s.queue = ([] : List (List InFrame)).flatten
        ++ [⟨⟨signalHeader ++ [b], none⟩, false⟩] ++ rest := hq
    refine waitLoop_returns (n := 1) hq' nofun hmsg hspells ?_ hsched
    intro fs hfs
    rw [List.mem_singleton.mp hfs]
    exact Nat.le_refl 1

/-- a message of two parts, and the signal `stop` -/
def messageAndSignal : Inbox :=
  { queue := [⟨⟨ascii "a", none⟩, true⟩, ⟨⟨ascii "b", none⟩, false⟩,
      ⟨⟨signalHeader ++ [2], none⟩, false⟩] }

/-- interrupts before the first frame of the first receive, and between the frames of the second -/
def interrupted : List (List Attempt) :=
  [[.fails .eintr], [.runs, .fails .eintr, .runs], [.runs, .runs]]

theorem wait_first_signal_stop :
    (@wait byOne .littleEndian interrupted messageAndSignal).outcome
        = some (.ok Signal.stop.value) ∧
      (@wait byOne .littleEndian interrupted messageAndSignal).inbox.queue = [] ∧
      WithinFrames (@wait byOne .littleEndian interrupted messageAndSignal).reads := by
  obtain ⟨hended, hreturns, -⟩ := @wait_first_signal byOne .littleEndian
  have hno : ∀ v, ¬ SpellsSignal [ascii "a", ascii "b"] v := by
    rintro v ⟨b, hb, -⟩
    cases hb
  obtain ⟨hout, hrest⟩ := hreturns 2
    [[⟨⟨ascii "a", none⟩, true⟩, ⟨⟨ascii "b", none⟩, false⟩]]
    [⟨⟨signalHeader ++ [2], none⟩, false⟩] [] Signal.stop.value messageAndSignal interrupted rfl
    (by
      intro fs hfs
      rw [List.mem_singleton.mp hfs]
      exact ⟨⟨[_], _, rfl, by simp, rfl⟩, hno⟩)
    ⟨[], _, rfl, nofun, rfl⟩ ⟨2, rfl, by decide⟩ (by decide)
    ⟨by simp [OnlyInterrupts, interrupted], by decide, by decide⟩
  exact ⟨hout, hrest, (hended _ _).1⟩

end Socket
end Zmqpp
