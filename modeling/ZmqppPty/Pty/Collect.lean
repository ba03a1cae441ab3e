import ZmqppPty.Lib.Machine
import ZmqppPty.Poller.Refine
import ZmqppPty.Socket.Reuse

/-!
# The receive loop of the PTY client (`poll_messages` in zmq_pty_client.cpp)

The thread polls the socket and a second descriptor, receives into one message object and stores the
texts under a mutex.  Of a run the environment chooses, for each iteration, the messages that have
arrived, what `zmq_poll` reports and how the `zmq_msg_recv` calls end.

* `lengthToNull`       how much of a text is before its first NUL;
* `withLock`           a scope with a `lock_guard`;
* `iterate`, `machine` one iteration of the loop;
* `Collects`           what is to hold whenever the loop is at its head;
* `Collects.store_iff` what storing a text does to it;
* `Sound.step`         one iteration;
* `collects_iff`       the runs in which it does hold.
-/

namespace Zmqpp
namespace Pty

open Socket (Inbox InFrame Attempt)

/-! ## the loop -/

/-- `length_to_null` -/
def lengthToNull : Bytes → ℕ
  | [] => 0
  | c :: s => if c ≠ 0 then lengthToNull s + 1 else 0

inductive Pc where
  /-- at the head of the loop -/
  | polling
  /-- an exception has left `poll_messages`, or an `assert` has failed -/
  | threw
  /-- the thread waits for a mutex that it holds itself -/
  | deadlocked
deriving DecidableEq, Repr

structure State where
  stdin : Bool
  /-- the pointer that the socket object holds -/
  socket : Handle
  poller : Poller
  inbox : Inbox := {}
  msgZmq : Message := {}
  buff : List Bytes := []
  /-- `atomic<int> new_msg` -/
  newMsg : Int32 := 0
  /-- `mtx_poll_messages` is locked -/
  locked : Bool := false
  pc : Pc := .polling

/-- what the environment does in one iteration -/
structure Iteration where
  /-- the messages, of one part each, that arrive until `zmq_poll` returns -/
  arrived : List Bytes := []
  zmqPoll : ZmqPoll
  /-- the `zmq_msg_recv` calls -/
  schedule : List Attempt := []

inductive Event where
  | received (text : Bytes)
deriving DecidableEq

def Event.text : Event → Bytes
  | .received text => text

def start (stdin : Bool) (socket : Handle) : State :=
  let poller := ({} : Poller).addSocket (some socket) pollIn
  { stdin := stdin, socket := socket,
    poller := if stdin then poller.addFd 1 pollIn else poller }

namespace State

/-- the two `check_for` -/
def checkFor (s : State) : Except Exn Poller :=
  match s.poller.checkForSocket (some s.socket) (if s.stdin then pollIn else pollNone) with
  | (_, .error e) => .error e
  | (p, .ok ()) =>
    if s.stdin then
      match p.checkForFd 1 pollIn with
      | (_, .error e) => .error e
      | (p, .ok ()) => .ok p
    else .ok p

/-- a scope that a `lock_guard` opens -/
def withLock (scope : State → State) (s : State) : State :=
  if s.locked then { s with pc := .deadlocked }
  else
    let s := scope { s with locked := true }
    if s.pc = .polling then { s with locked := false } else s

/-- the texts that are not empty up to their first NUL; there are two `lock_guard` in one scope -/
def store (s : State) (msgStr : Bytes) : State :=
  if 0 < lengthToNull msgStr then
    s.withLock fun s =>
      { s with buff := s.buff ++ [msgStr], newMsg := s.newMsg + 1 }.withLock id
  else s

/-- the messages that have arrived -/
def deliver (s : State) (texts : List Bytes) : State :=
  { s with inbox := { s.inbox with
      queue := s.inbox.queue ++ texts.map fun text => ⟨⟨text, none⟩, false⟩ } }

section
variable [VectorGrowth] (host : Order)

/-- what follows a `poll` that has returned true; `none` as long as `receive` does not return -/
def collect (s : State) (schedule : List Attempt) : Option (State × List Event) :=
  match Socket.receive true schedule s.inbox s.msgZmq with
  | none => none
  | some run =>
    let s := { s with inbox := run.inbox, msgZmq := run.message }
    match run.outcome with
    | .error _ => some ({ s with pc := .threw }, [])
    | .ok _ =>
      match s.msgZmq.streamIn host .string with
      | (m, .ok (.string msgStr)) => some ({ s with msgZmq := m }.store msgStr, [.received msgStr])
      | (m, _) => some ({ s with msgZmq := m, pc := .threw }, [])

def iterate (s : State) (env : Iteration) : Option (State × List Event) :=
  match s.checkFor with
  | .error _ => some ({ s with pc := .threw }, [])
  | .ok p =>
    let s := { s with poller := (p.poll env.zmqPoll).1 }.deliver env.arrived
    match (p.poll env.zmqPoll).2 with
    | .error _ => some ({ s with pc := .threw }, [])
    | .ok false => some (s, [])
    | .ok true => s.collect host env.schedule

end

end State

section
variable [VectorGrowth] (host : Order)

def step (s : State) (env : Iteration) : Option (State × List Event) :=
  if s.pc = .polling then s.iterate host env else none

def machine : Lib.Machine State Iteration Event := ⟨step host⟩

end

/-! ## what is claimed of it -/

namespace Iteration

/-- `zmq_poll` is interrupted -/
def Interrupted (env : Iteration) : Prop := env.zmqPoll.result < 0 ∧ env.zmqPoll.errno = .eintr

/-- the socket or the other descriptor is readable, and `zmq_msg_recv` is not interrupted -/
def Ready (env : Iteration) : Prop := 0 < env.zmqPoll.result ∧ env.schedule = [.runs]

/-- a wake-up -/
def WakesUp (env : Iteration) : Prop := env.Interrupted ∨ env.Ready

end Iteration

/-- a text that starts with a NUL character -/
def StartsWithNul (text : Bytes) : Prop := text.head? = some 0

instance (text : Bytes) : Decidable (StartsWithNul text) := inferInstanceAs (Decidable (_ = _))

/-- The loop is at its head, the mutex is free, and `buff` holds the received texts that do not
start with a NUL, as many as `new_msg` says. -/
structure Collects (s : State) (tr : List Event) : Prop where
  polling : s.pc = .polling
  free : s.locked = false
  count : s.newMsg.toInt = s.buff.length
  texts : s.buff = (tr.map Event.text).filter fun text => ¬ StartsWithNul text

/-- nothing is received, or a text that starts with a NUL -/
def Spared (s : State) (env : Iteration) : Prop :=
  env.Interrupted ∨
    ∃ text, (s.inbox.queue.map InFrame.payload ++ env.arrived).head? = some text ∧
      StartsWithNul text

/-! ## one iteration -/

theorem lengthToNull_pos {text : Bytes} :
    0 < lengthToNull text ↔ text ≠ [] ∧ ¬ StartsWithNul text := by
  cases text with
  | nil => exact iff_of_false (Nat.lt_irrefl 0) fun h => h.1 rfl
  | cons c s =>
    show 0 < (if c ≠ 0 then _ else _) ↔ _ ≠ _ ∧ ¬ some c = some 0
    by_cases hc : c = 0
    · simp [hc]
    · simp [hc]

/-- both are in the poller, messages have one part, and the next text is read from the start -/
structure Sound (s : State) : Prop where
  stdin : s.stdin = true
  wired : ∃ m, Poller.Represents s.poller m ∧ m (.sock s.socket) ≠ none ∧ m (.fd 1) ≠ none
  single : ∀ f ∈ s.inbox.queue, f.more = false
  cursor : 0 < s.msgZmq.count ∨ s.msgZmq.readCursor = 0

theorem start_sound (socket : Handle) : Sound (start true socket) := by
  have hne : Key.fd 1 ≠ Key.sock socket := nofun
  have hsock := Poller.Represents.init.add (k := .sock socket) pollIn rfl
  have hfd := hsock.add (k := .fd 1) pollIn (by rw [Function.update_of_ne hne])
  have hwired : ∃ m, Poller.Represents (start true socket).poller m ∧ m (.sock socket) ≠ none ∧
      m (.fd 1) ≠ none := by
    refine ⟨_, hfd, ?_, ?_⟩
    · rw [Function.update_of_ne hne.symm, Function.update_self]
      exact Option.some_ne_none _
    · rw [Function.update_self]
      exact Option.some_ne_none _
  exact ⟨rfl, hwired, nofun, Or.inr rfl⟩

/-- neither `check_for` throws -/
theorem Sound.checkFor {s : State} (h : Sound s) :
    ∃ p m, s.checkFor = .ok p ∧ Poller.Represents p m ∧ m (.sock s.socket) ≠ none ∧
      m (.fd 1) ≠ none := by
  obtain ⟨m, hrep, hsock, hfd⟩ := h.wired
  obtain ⟨e, he⟩ := Option.ne_none_iff_exists'.mp hsock
  obtain ⟨e', he'⟩ := Option.ne_none_iff_exists'.mp hfd
  have hne : Key.fd 1 ≠ Key.sock s.socket := nofun
  obtain ⟨p, hp, hrep1⟩ := hrep.checkForKey_ok he pollIn
  have he1 : Function.update m (.sock s.socket) (some { e with events := pollIn }) (.fd 1)
      = some e' := by
    rw [Function.update_of_ne hne, he']
  obtain ⟨p', hp', hrep2⟩ := hrep1.checkForKey_ok he1 pollIn
  have hsocket : s.poller.checkForSocket (some s.socket) pollIn = (p, .ok ()) := hp
  have hfdcheck : p.checkForFd 1 pollIn = (p', .ok ()) := hp'
  refine ⟨p', _, ?_, hrep2, ?_, ?_⟩
  · unfold State.checkFor
    rw [h.stdin, if_pos rfl, hsocket]
    dsimp only
    rw [if_pos rfl, hfdcheck]
  · rw [Function.update_of_ne hne.symm, Function.update_self]
    exact Option.some_ne_none _
  · rw [Function.update_self]
    exact Option.some_ne_none _

/-- the state when `poll` has returned -/
def State.polled (s : State) (p : Poller) (env : Iteration) : State :=
  { s with poller := (p.poll env.zmqPoll).1 }.deliver env.arrived

theorem queue_polled (s : State) (p : Poller) (env : Iteration) :
    (s.polled p env).inbox.queue.map InFrame.payload
      = s.inbox.queue.map InFrame.payload ++ env.arrived := by
  show (s.inbox.queue ++ _).map _ = _
  rw [List.map_append, List.map_map]
  congr 1
  exact List.map_id _

theorem Sound.polled {s : State} (h : Sound s) (env : Iteration) :
    ∃ p, s.checkFor = .ok p ∧ Sound (s.polled p env) := by
  obtain ⟨p, m, hcheck, hrep, hsock, hfd⟩ := h.checkFor
  refine ⟨p, hcheck, h.stdin, ⟨_, hrep.poll env.zmqPoll, ?_, ?_⟩, ?_, h.cursor⟩
  · intro hnone
    exact hsock (Option.map_eq_none_iff.mp hnone)
  · intro hnone
    exact hfd (Option.map_eq_none_iff.mp hnone)
  · intro f hf
    rcases List.mem_append.mp hf with hf | hf
    · exact h.single f hf
    · obtain ⟨text, -, rfl⟩ := List.mem_map.mp hf
      rfl

theorem Collects.polled {s : State} {tr : List Event} (h : Collects s tr) (p : Poller)
    (env : Iteration) : Collects (s.polled p env) tr := ⟨h.polling, h.free, h.count, h.texts⟩

/-- a text that starts with a NUL is at the head of the queue -/
theorem Iteration.Ready.spared_iff {env : Iteration} (h : env.Ready) (s : State) (p : Poller) :
    Spared s env ↔ ∃ f, (s.polled p env).inbox.queue.head? = some f ∧ StartsWithNul f.payload := by
  have hint : ¬ env.Interrupted := fun hint => absurd hint.1 (not_lt.mpr h.1.le)
  unfold Spared
  rw [← queue_polled s p env, List.head?_map]
  constructor
  · rintro (h | ⟨text, hhead, hnul⟩)
    · exact absurd h hint
    · obtain ⟨f, hf, rfl⟩ := Option.map_eq_some_iff.mp hhead
      exact ⟨f, hf, hnul⟩
  · rintro ⟨f, hf, hnul⟩
    exact Or.inr ⟨f.payload, Option.map_eq_some_iff.mpr ⟨f, hf, rfl⟩, hnul⟩

/-! ## storing a text -/

theorem store_of_nul {text : Bytes} (h : StartsWithNul text) (s : State) : s.store text = s :=
  if_neg fun hpos => (lengthToNull_pos.mp hpos).2 h

/-- a text that is not empty up to its first NUL is stored, and the second `lock_guard` waits -/
theorem store_deadlocks {s : State} (hfree : s.locked = false) {text : Bytes}
    (h : 0 < lengthToNull text) : (s.store text).pc = .deadlocked := by
  unfold State.store State.withLock
  rw [if_pos h, hfree, if_neg Bool.false_ne_true]
  rfl

theorem filter_received (tr : List Event) (text : Bytes) :
    ((tr ++ [Event.received text]).map Event.text).filter (fun text => ¬ StartsWithNul text)
      = (tr.map Event.text).filter (fun text => ¬ StartsWithNul text)
        ++ if StartsWithNul text then [] else [text] := by
  rw [List.map_append, List.filter_append]
  by_cases hnul : StartsWithNul text <;> simp [Event.text, hnul]

/-- **Only a text that starts with a NUL does no harm**: an empty one is not stored. -/
theorem Collects.store_iff {s : State} {tr : List Event} (h : Collects s tr) (text : Bytes) :
    Collects (s.store text) (tr ++ [.received text]) ↔ StartsWithNul text := by
  have htexts := filter_received tr text
  rw [← h.texts] at htexts
  constructor
  · intro hc
    by_contra hnul
    by_cases hpos : 0 < lengthToNull text
    · have hdead := store_deadlocks h.free hpos
      rw [hc.polling] at hdead
      cases hdead
    · have hstore : s.store text = s := if_neg hpos
      have hstored := hc.texts
      rw [hstore, htexts, if_neg hnul] at hstored
      exact absurd (List.append_right_eq_self.mp hstored.symm) (List.cons_ne_nil _ _)
  · intro hnul
    rw [store_of_nul hnul]
    refine ⟨h.polling, h.free, h.count, ?_⟩
    rw [htexts, if_pos hnul, List.append_nil]

section
variable [VectorGrowth] (host : Order)

/-- **Nothing has arrived**: the message has no part that could be read. -/
theorem collect_nothing {s : State} (hq : s.inbox.queue = []) :
    ∃ t, s.collect host [.runs] = some (t, []) ∧ t.pc = .threw := by
  obtain ⟨run, hrun, hout⟩ := Socket.receive_nothing hq s.msgZmq []
  obtain ⟨-, hpay⟩ := Socket.receive_of_false hrun hout
  have hcount := (Message.payloads_eq_nil run.message).mp hpay
  have hread : run.message.getValue host .string run.message.readCursor
      = .error (.threw Message.outsideRange) :=
    Message.getValue_error .string (by rw [hcount]; exact Nat.zero_le _)
  unfold State.collect
  rw [hrun]
  dsimp only
  rw [hout]
  dsimp only [Message.streamIn]
  rw [hread]
  exact ⟨_, rfl, rfl⟩

/-- **A message has arrived**: its text is read. -/
theorem Sound.collect_text {s : State} (h : Sound s) {f : InFrame} {q : List InFrame}
    (hq : s.inbox.queue = f :: q) :
    ∃ t, s.collect host [.runs] = some (t.store f.payload, [.received f.payload]) ∧ Sound t ∧
      t.pc = s.pc ∧ t.locked = s.locked ∧ t.newMsg = s.newMsg ∧ t.buff = s.buff := by
  have hlast : f.more = false := h.single f (hq ▸ List.mem_cons_self)
  have hrest : ∀ f' ∈ q, f'.more = false := fun f' hf' =>
    h.single f' (hq ▸ List.mem_cons_of_mem f hf')
  have honly : Socket.OnlyInterrupts [.runs] := fun a ha => Or.inl (List.mem_singleton.mp ha)
  obtain ⟨run, hrun, hout⟩ := Socket.receive_returns true s.msgZmq
    (hq.trans (List.nil_append _).symm) nofun hlast honly rfl Nat.one_pos
  obtain ⟨front, last, hqueue, hfront, -, hpay⟩ := Socket.receive_of_true hrun hout
  have hcursor := Socket.receive_readCursor hrun
  have hzero : run.message.readCursor = 0 := by
    rw [hcursor]
    split
    · rfl
    · rename_i hcount
      exact h.cursor.resolve_left hcount
  -- the first frame is the whole message
  obtain rfl : front = [] := by
    cases front with
    | nil => rfl
    | cons f' front =>
      rw [hq] at hqueue
      obtain ⟨rfl, -⟩ := List.cons.inj hqueue
      rw [hfront f List.mem_cons_self] at hlast
      cases hlast
  rw [hq] at hqueue
  obtain ⟨rfl, rfl⟩ := List.cons.inj hqueue
  have hfirst : run.message.payloads[0]? = some f.payload := by
    rw [hpay]
    rfl
  have hread : run.message.getValue host .string 0 = .ok (.string f.payload) := by
    unfold Message.getValue
    rw [(Message.get_of_payloads hfirst).1]
    rfl
  unfold State.collect
  rw [hrun]
  dsimp only
  rw [hout]
  dsimp only [Message.streamIn]
  rw [hzero, hread]
  refine ⟨_, rfl, ⟨h.stdin, h.wired, hrest, Or.inl ?_⟩, rfl, rfl, rfl, rfl⟩
  show 0 < run.message.count
  rw [← Message.payloads_length, hpay]
  exact Nat.one_pos

theorem step_interrupted {s : State} (hpc : s.pc = .polling) {p : Poller}
    (hcheck : s.checkFor = .ok p) {env : Iteration} (h : env.Interrupted) :
    (machine host).step s env = some (s.polled p env, []) := by
  have hpoll : (p.poll env.zmqPoll).2 = .ok false := by
    unfold Poller.poll
    rw [if_pos h.1, h.2]
  show (if s.pc = .polling then s.iterate host env else none) = _
  unfold State.iterate
  rw [if_pos hpc, hcheck]
  dsimp only
  rw [hpoll]
  rfl

theorem step_ready {s : State} (hpc : s.pc = .polling) {p : Poller} (hcheck : s.checkFor = .ok p)
    {env : Iteration} (h : env.Ready) :
    (machine host).step s env = (s.polled p env).collect host [.runs] := by
  have hpoll : (p.poll env.zmqPoll).2 = .ok true := by
    unfold Poller.poll
    rw [if_neg (not_lt.mpr h.1.le)]
    exact congrArg Except.ok (decide_eq_true h.1)
  show (if s.pc = .polling then s.iterate host env else none) = _
  unfold State.iterate
  rw [if_pos hpc, hcheck]
  dsimp only
  rw [hpoll, h.2]
  rfl

/-- **One iteration from the head of the loop.** -/
theorem Sound.step {s : State} (h : Sound s) {tr : List Event} (hc : Collects s tr)
    {env : Iteration} (hwakes : env.WakesUp) :
    ∃ t e, (machine host).step s env = some (t, e) ∧ (Collects t (tr ++ e) ↔ Spared s env) ∧
      (Spared s env → Sound t) := by
  obtain ⟨p, hcheck, hsound⟩ := h.polled env
  have hpolled := hc.polled p env
  rcases hwakes with hint | hready
  · -- nothing is received
    refine ⟨_, [], step_interrupted host hc.polling hcheck hint, iff_of_true ?_ (Or.inl hint),
      fun _ => hsound⟩
    rw [List.append_nil]
    exact hpolled
  · rw [step_ready host hc.polling hcheck hready, hready.spared_iff s p]
    cases hq : (s.polled p env).inbox.queue with
    | nil =>
      obtain ⟨t, hcollect, hthrew⟩ := collect_nothing host hq
      refine ⟨t, [], hcollect, iff_of_false ?_ nofun, nofun⟩
      intro hc
      rw [hc.polling] at hthrew
      cases hthrew
    | cons f q =>
      obtain ⟨t, hcollect, ht, htpc, htfree, htcount, htbuff⟩ := hsound.collect_text host hq
      have hct : Collects t tr := by
        refine ⟨htpc.trans hpolled.polling, htfree.trans hpolled.free, ?_, ?_⟩
        · rw [htcount, htbuff]
          exact hpolled.count
        · rw [htbuff]
          exact hpolled.texts
      have hhead : (∃ g, (f :: q).head? = some g ∧ StartsWithNul g.payload)
          ↔ StartsWithNul f.payload := by
        constructor
        · rintro ⟨g, hg, hnul⟩
          exact Option.some.inj hg ▸ hnul
        · exact fun hnul => ⟨f, rfl, hnul⟩
      rw [hhead]
      refine ⟨t.store f.payload, _, hcollect, hct.store_iff f.payload, fun hnul => ?_⟩
      rw [store_of_nul hnul]
      exact ht

/-- **The messages are collected iff every wake-up that is not an interrupted poll delivers a text
that starts with a NUL.**  Any other text is lost or locks the mutex twice, and a wake-up without a
message throws. -/
theorem collects_iff (socket : Handle) (wakeUps : List Iteration)
    (h : ∀ env ∈ wakeUps, env.WakesUp) :
    (machine host).Throughout Collects (start true socket) wakeUps
      ↔ (machine host).Along Spared (start true socket) wakeUps := by
  have hstart : Collects (start true socket) [] := ⟨rfl, rfl, rfl, rfl⟩
  have hiff := @Lib.Machine.throughout_iff_along_enabled _ _ _ (machine host)
    (fun _ env => env.WakesUp) Spared (fun s _ => Sound s) Collects
    (fun s tr env hs hc hw => hs.step host hc hw) (start true socket) [] wakeUps
    (start_sound socket) hstart (Lib.Machine.along_of_mem _ h)
  exact hiff

end

/-- `zmq_poll` returns 1 -/
def woken (arrived : List Bytes) : Iteration :=
  { arrived := arrived, zmqPoll := ⟨fun _ => none, 1, .eagain⟩, schedule := [.runs] }

theorem collects_nul :
    (@machine Socket.byOne .littleEndian).Throughout Collects (start true 1)
      [woken [0 :: ascii "a"]] := by
  have hwakes : ∀ env ∈ [woken [0 :: ascii "a"]], env.WakesUp := by
    intro env henv
    rw [List.mem_singleton.mp henv]
    exact Or.inr ⟨by decide, rfl⟩
  refine (@collects_iff Socket.byOne .littleEndian 1 _ hwakes).mpr ⟨?_, fun _ _ _ => trivial⟩
  exact Or.inr ⟨0 :: ascii "a", rfl, rfl⟩

/-- **The first text locks the mutex twice**, and a wake-up for the other descriptor throws. -/
theorem first_text_deadlocks :
    (∃ t, (@machine Socket.byOne .littleEndian).exec (start true 1) [woken [ascii "a"]]
        = some (t, [.received (ascii "a")]) ∧ t.pc = .deadlocked ∧ t.locked = true) ∧
      (∃ t, (@machine Socket.byOne .littleEndian).exec (start true 1) [woken []] = some (t, []) ∧
        t.pc = .threw) ∧
      ¬ (@machine Socket.byOne .littleEndian).Throughout Collects (start true 1)
        [woken [ascii "a"]] := by
  refine ⟨⟨_, rfl, rfl, rfl⟩, ⟨_, rfl, rfl⟩, ?_⟩
  intro h
  have hlast := (h [woken [ascii "a"]] [] _ _ rfl rfl).polling
  cases hlast

end Pty
end Zmqpp
