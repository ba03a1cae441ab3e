import ZmqppPty.Lib.Machine
import ZmqppPty.Dispatch.Loop

/-!
# The runs of a loop (loop::start in loop.cpp)

`start` is cut where user code or the environment decides: the calls a handler makes and how it
ends, what the clock and `zmq_poll` say.  Between two `start` calls, and while a handler runs, the
functions of the loop but `start` may be called, and socket objects may be closed, opened or moved.

The iterator of the timer pass is the number of the timer it points at (`none` is `end()`); the
range-for over `items_` is an index and the length at its start, also where an `add` by a handler
moves the vector under it.

* `iterate`, `testTimer`, `retTimer`, `testItem`, `finish`   the pieces of `start`;
* `step`, `machine`     the steps;
* `Step`, `step_cases`  all a step can do, case by case;
* `Numbered`            the numbers of the handlers: no two registrations or timers share one;
* `step_numbered`       every step keeps that.
-/

namespace Zmqpp
namespace Run

inductive Pc where
  /-- no `start` is running -/
  | outside
  /-- at the head of the `while (1)` -/
  | head
  /-- in `start_handle_timers`, at the iterator -/
  | timers (now : ℤ) (it : Option ℕ) (rc : Bool)
  /-- the callable of this timer runs -/
  | timer (now : ℤ) (it : ℕ) (rc : Bool)
  /-- in `start_handle_poller`, at index `i` of `n` -/
  | items (i n : ℕ)
  /-- the callable of item `i` runs -/
  | item (i n : ℕ)

/-- user code runs -/
def Pc.user : Pc → Bool
  | .outside | .timer _ _ _ | .item _ _ => true
  | _ => false

structure State where
  loop : Loop := {}
  sockets : Sockets := fun _ => none
  pc : Pc := .outside
  clock : ℤ := 0
  /-- the number of the next handler -/
  next : ℕ := 0

/-- a call of the loop's functions, with what the clock and the allocator say -/
inductive Api where
  | add (x : Target) (event : Short)
  | remove (x : Target)
  | addTimer (delay : ℤ) (times : ℕ) (id : TimerId) (now : ℤ)
  | reset (id : TimerId) (now : ℤ)
  | removeTimer (id : TimerId)

/-- a call of `zmq_poll` that times out -/
def nothingReady : ZmqPoll := ⟨fun _ => none, 0, .eintr⟩

inductive Label where
  | call (c : Api)
  /-- the socket object holds another pointer from now on -/
  | moved (s : SocketRef) (h : Option Handle)
  | start
  /-- from the head of the loop to the first timer; `now` and `now'` are read by `tickless` -/
  | iterate (now now' passNow : ℤ) (zmqPoll : ZmqPoll)
  /-- the next test of the timer pass or of the range-for -/
  | test
  /-- the handler that runs returns -/
  | ret (b : Bool)
  | throw

inductive Event where
  | created (callable : ℕ) (delay : ℤ) (times : ℕ) (now : ℤ)
  | reset (callable : ℕ) (now : ℤ)
  /-- a timer's callable is invoked in a pass whose time is `now` -/
  | fired (callable : ℕ) (now : ℤ)
  | handled (callable : ℕ)
  /-- the deadlines, the second reading of the clock, and the result -/
  | tickless (whens : List ℤ) (now timeout : ℤ)
deriving DecidableEq, Repr

end Run

namespace Loop

/-- the timers after the one numbered `c` -/
def timersAfter (c : ℕ) : List Timer → List Timer
  | [] => []
  | t :: ts => if t.callable = c then ts else timersAfter c ts

/-- the iterator one further than the timer numbered `c` -/
def nextTimer (c : ℕ) (ts : List Timer) : Option ℕ := (timersAfter c ts).head?.map Timer.callable

/-- what `start_handle_timers` does to a timer after its callable has returned -/
def timerReturned (l : Loop) (t : Timer) : Loop :=
  if t.times ≠ 0 ∧ t.times - 1 = 0 then
    { l with timers := l.timers.filter fun u => u.callable ≠ t.callable }
  else
    { l with timers := l.timers.map fun u =>
        if u.callable = t.callable then { u with times := u.times - 1 }.update else u }

def sort (l : Loop) : Loop := { l with timers := sortTimers l.timers }

end Loop

namespace Run

/-- `break`: the dispatch is over, and `start` ends with a flush -/
def finish (s : State) : State :=
  { s with loop := (Loop.flushRemoveLater s.sockets (s.loop.setDispatching false)).1,
           pc := .outside }

def iterate (s : State) (now now' passNow : ℤ) (zmqPoll : ZmqPoll) : State × List Event :=
  match Loop.flushRemoveLater s.sockets { s.loop with rebuildPoller := false } with
  | (l, .error _) => ({ s with loop := l, pc := .outside }, [])
  | (l, .ok ()) =>
    let tickless := Event.tickless (l.timers.map Timer.when) now' (l.tickless now now')
    match l.poller.poll zmqPoll with
    | (p, .error _) =>
      ({ s with loop := { l with poller := p }, pc := .outside, clock := passNow }, [tickless])
    | (p, .ok rc) =>
      ({ s with loop := { l with poller := p }.setDispatching true, clock := passNow,
                pc := .timers passNow (l.timers.head?.map Timer.callable) rc }, [tickless])

/-- the end of a complete timer pass, up to the range-for -/
def timersDone (s : State) (rc : Bool) : State :=
  let l := s.loop.sort.setDispatching false
  if l.rebuildPoller then { s with loop := l, pc := .head }
  else if rc then { s with loop := l.setDispatching true, pc := .items 0 l.items.length }
  else { s with loop := l, pc := .head }

def testTimer (s : State) (now : ℤ) (it : Option ℕ) (rc : Bool) : Option (State × List Event) :=
  match it with
  | none => some (timersDone s rc, [])
  | some c =>
    match s.loop.timers.find? fun t => t.callable = c with
    | none => none
    | some t =>
      if t.when < now then some ({ s with pc := .timer now c rc }, [.fired c now])
      else some (timersDone s rc, [])

def retTimer (s : State) (now : ℤ) (c : ℕ) (rc b : Bool) : Option (State × List Event) :=
  match s.loop.timers.find? fun t => t.callable = c with
  | none => none
  | some t =>
    let s' := { s with loop := s.loop.timerReturned t,
                       pc := .timers now (Loop.nextTimer c s.loop.timers) rc }
    -- `return false` leaves the pass without the sort at its end
    some (if b then s' else finish s', [])

def testItem (s : State) (i n : ℕ) : Option (State × List Event) :=
  if i < n then
    match s.loop.items[i]? with
    | none => none
    | some (item, c) =>
      match s.loop.ready item with
      | .error _ => some ({ s with pc := .outside }, [])
      | .ok true => some ({ s with pc := .item i n }, [.handled c])
      | .ok false => some ({ s with pc := .items (i + 1) n }, [])
  else some ({ s with loop := s.loop.setDispatching false, pc := .head }, [])

def api (s : State) : Api → Option (State × List Event)
  | .add x event =>
    some ({ s with loop := s.loop.add s.sockets x s.next event, next := s.next + 1 }, [])
  | .remove x => some ({ s with loop := (Loop.remove s.sockets s.loop x).1 }, [])
  | .addTimer delay times id now =>
    if s.clock ≤ now ∧ id ∉ s.loop.timers.map Timer.id then
      some ({ s with loop := s.loop.addTimer now id delay times s.next, next := s.next + 1,
                     clock := now }, [.created s.next delay times now])
    else none
  | .reset id now =>
    if s.clock ≤ now then
      some ({ s with loop := s.loop.reset now id, clock := now },
        ((s.loop.timers.find? fun t => t.id = id).map fun t => Event.reset t.callable now).toList)
    else none
  | .removeTimer id => some ({ s with loop := s.loop.removeTimer id }, [])

def step (s : State) (l : Label) : Option (State × List Event) :=
  match l with
  | .call c => if s.pc.user then api s c else none
  | .moved r h =>
    if s.pc.user then some ({ s with sockets := Function.update s.sockets r h }, []) else none
  | .start =>
    match s.pc with
    | .outside => some ({ s with pc := .head }, [])
    | _ => none
  | .iterate now now' passNow zmqPoll =>
    match s.pc with
    | .head =>
      if s.clock ≤ now ∧ now ≤ now' ∧ now' ≤ passNow then
        some (iterate s now now' passNow zmqPoll)
      else none
    | _ => none
  | .test =>
    match s.pc with
    | .timers now it rc => testTimer s now it rc
    | .items i n => testItem s i n
    | _ => none
  | .ret b =>
    match s.pc with
    | .timer now c rc => retTimer s now c rc b
    | .item i n => some (if b then { s with pc := .items (i + 1) n } else finish s, [])
    | _ => none
  | .throw =>
    match s.pc with
    | .timer _ _ _ | .item _ _ => some ({ s with pc := .outside }, [])
    | _ => none

def machine : Lib.Machine State Label Event := ⟨step⟩

/-! ## all a step can do -/

/-- the event of a reset, if the timer is found -/
def resetEvent (l : Loop) (id : TimerId) (now : ℤ) : List Event :=
  ((l.timers.find? fun t => t.id = id).map fun t => Event.reset t.callable now).toList

/-- the loop after the flush at the head -/
def flushed (s : State) : Loop :=
  (Loop.flushRemoveLater s.sockets { s.loop with rebuildPoller := false }).1

def ticklessEvent (l : Loop) (now now' : ℤ) : Event :=
  .tickless (l.timers.map Timer.when) now' (l.tickless now now')

inductive Step (s : State) : Label → State → List Event → Prop
  | add (x : Target) (event : Short) (hu : s.pc.user = true) :
      Step s (.call (.add x event))
        { s with loop := s.loop.add s.sockets x s.next event, next := s.next + 1 } []
  | remove (x : Target) (hu : s.pc.user = true) :
      Step s (.call (.remove x)) { s with loop := (Loop.remove s.sockets s.loop x).1 } []
  | addTimer (delay : ℤ) (times : ℕ) (id : TimerId) (now : ℤ) (hu : s.pc.user = true)
      (hclock : s.clock ≤ now) (hid : id ∉ s.loop.timers.map Timer.id) :
      Step s (.call (.addTimer delay times id now))
        { s with loop := s.loop.addTimer now id delay times s.next, next := s.next + 1,
                 clock := now } [.created s.next delay times now]
  | reset (id : TimerId) (now : ℤ) (hu : s.pc.user = true) (hclock : s.clock ≤ now) :
      Step s (.call (.reset id now)) { s with loop := s.loop.reset now id, clock := now }
        (resetEvent s.loop id now)
  | removeTimer (id : TimerId) (hu : s.pc.user = true) :
      Step s (.call (.removeTimer id)) { s with loop := s.loop.removeTimer id } []
  | moved (r : SocketRef) (h : Option Handle) (hu : s.pc.user = true) :
      Step s (.moved r h) { s with sockets := Function.update s.sockets r h } []
  | start (hpc : s.pc = .outside) : Step s .start { s with pc := .head } []
  | flushThrows (now now' passNow : ℤ) (zmqPoll : ZmqPoll) (hpc : s.pc = .head)
      (hf : (Loop.flushRemoveLater s.sockets { s.loop with rebuildPoller := false }).2 ≠ .ok ()) :
      Step s (.iterate now now' passNow zmqPoll) { s with loop := flushed s, pc := .outside } []
  | pollThrows (now now' passNow : ℤ) (zmqPoll : ZmqPoll) (p : Poller) (hpc : s.pc = .head)
      (hclock : s.clock ≤ now ∧ now ≤ now' ∧ now' ≤ passNow)
      (hf : (Loop.flushRemoveLater s.sockets { s.loop with rebuildPoller := false }).2 = .ok ()) :
      Step s (.iterate now now' passNow zmqPoll)
        { s with loop := { flushed s with poller := p }, pc := .outside, clock := passNow }
        [ticklessEvent (flushed s) now now']
  | iterate (now now' passNow : ℤ) (zmqPoll : ZmqPoll) (p : Poller) (rc : Bool)
      (hpc : s.pc = .head) (hclock : s.clock ≤ now ∧ now ≤ now' ∧ now' ≤ passNow)
      (hf : (Loop.flushRemoveLater s.sockets { s.loop with rebuildPoller := false }).2 = .ok ()) :
      Step s (.iterate now now' passNow zmqPoll)
        { s with loop := { flushed s with poller := p }.setDispatching true, clock := passNow,
                 pc := .timers passNow ((flushed s).timers.head?.map Timer.callable) rc }
        [ticklessEvent (flushed s) now now']
  | fire (now : ℤ) (c : ℕ) (rc : Bool) (t : Timer) (hpc : s.pc = .timers now (some c) rc)
      (ht : t ∈ s.loop.timers) (hc : t.callable = c) (hdue : t.when < now) :
      Step s .test { s with pc := .timer now c rc } [.fired c now]
  | timersDone (now : ℤ) (it : Option ℕ) (rc : Bool) (hpc : s.pc = .timers now it rc) :
      Step s .test (timersDone s rc) []
  | handle (i n : ℕ) (item : PollItem) (c : ℕ) (hpc : s.pc = .items i n) (hi : i < n)
      (hit : s.loop.items[i]? = some (item, c)) (hready : s.loop.ready item = .ok true) :
      Step s .test { s with pc := .item i n } [.handled c]
  | skip (i n : ℕ) (item : PollItem) (c : ℕ) (hpc : s.pc = .items i n) (hi : i < n)
      (hit : s.loop.items[i]? = some (item, c)) (hready : s.loop.ready item = .ok false) :
      Step s .test { s with pc := .items (i + 1) n } []
  | testThrows (i n : ℕ) (item : PollItem) (c : ℕ) (e : Exn) (hpc : s.pc = .items i n)
      (hi : i < n) (hit : s.loop.items[i]? = some (item, c))
      (hready : s.loop.ready item = .error e) : Step s .test { s with pc := .outside } []
  | itemsDone (i n : ℕ) (hpc : s.pc = .items i n) :
      Step s .test { s with loop := s.loop.setDispatching false, pc := .head } []
  | timerTrue (now : ℤ) (c : ℕ) (rc : Bool) (t : Timer) (hpc : s.pc = .timer now c rc)
      (ht : t ∈ s.loop.timers) (hc : t.callable = c) :
      Step s (.ret true) { s with loop := s.loop.timerReturned t,
                                  pc := .timers now (Loop.nextTimer c s.loop.timers) rc } []
  | timerFalse (now : ℤ) (c : ℕ) (rc : Bool) (t : Timer) (hpc : s.pc = .timer now c rc)
      (ht : t ∈ s.loop.timers) (hc : t.callable = c) :
      Step s (.ret false) (finish { s with loop := s.loop.timerReturned t }) []
  | itemTrue (i n : ℕ) (hpc : s.pc = .item i n) :
      Step s (.ret true) { s with pc := .items (i + 1) n } []
  | itemFalse (i n : ℕ) (hpc : s.pc = .item i n) : Step s (.ret false) (finish s) []
  | throw (hu : s.pc.user = true) (hpc : s.pc ≠ .outside) :
      Step s .throw { s with pc := .outside } []

theorem mem_of_find {ts : List Timer} {c : ℕ} {t : Timer}
    (h : (ts.find? fun t => t.callable = c) = some t) : t ∈ ts ∧ t.callable = c :=
  ⟨List.mem_of_find?_eq_some h, by simpa using List.find?_some h⟩

theorem step_iterate {s t : State} {e : List Event} {now now' passNow : ℤ} {zmqPoll : ZmqPoll}
    (hpc : s.pc = .head) (hclock : s.clock ≤ now ∧ now ≤ now' ∧ now' ≤ passNow)
    (h : iterate s now now' passNow zmqPoll = (t, e)) :
    Step s (.iterate now now' passNow zmqPoll) t e := by
  unfold iterate at h
  cases hf : Loop.flushRemoveLater s.sockets { s.loop with rebuildPoller := false } with
  | mk l res =>
    have hl : l = flushed s := by
      unfold flushed
      rw [hf]
    rw [hf] at h
    cases res with
    | error x =>
      cases h
      rw [hl]
      exact Step.flushThrows _ _ _ _ hpc (by rw [hf]; nofun)
    | ok u =>
      have hok : (Loop.flushRemoveLater s.sockets { s.loop with rebuildPoller := false }).2
          = .ok () := by rw [hf]
      dsimp only at h
      cases hp : l.poller.poll zmqPoll with
      | mk p pres =>
        rw [hp] at h
        cases pres with
        | error x =>
          cases h
          rw [hl]
          exact Step.pollThrows _ _ _ _ p hpc hclock hok
        | ok rc =>
          cases h
          rw [hl]
          exact Step.iterate _ _ _ _ p rc hpc hclock hok

theorem step_api {s t : State} {c : Api} {e : List Event} (hu : s.pc.user = true)
    (h : api s c = some (t, e)) : Step s (.call c) t e := by
  unfold api at h
  cases c with
  | add x event => cases h; exact Step.add x event hu
  | remove x => cases h; exact Step.remove x hu
  | addTimer delay times id now =>
    dsimp only at h
    split at h
    · rename_i hg
      cases h
      exact Step.addTimer delay times id now hu hg.1 hg.2
    · cases h
  | reset id now =>
    dsimp only at h
    split at h
    · rename_i hg
      cases h
      exact Step.reset id now hu hg
    · cases h
  | removeTimer id => cases h; exact Step.removeTimer id hu

theorem step_testTimer {s t : State} {e : List Event} {now : ℤ} {it : Option ℕ} {rc : Bool}
    (hpc : s.pc = .timers now it rc) (h : testTimer s now it rc = some (t, e)) :
    Step s .test t e := by
  unfold testTimer at h
  cases it with
  | none => cases h; exact Step.timersDone now none rc hpc
  | some c =>
    dsimp only at h
    split at h
    · cases h
    · rename_i tm hfind
      split at h
      · rename_i hdue
        cases h
        exact Step.fire now c rc tm hpc (mem_of_find hfind).1 (mem_of_find hfind).2 hdue
      · cases h
        exact Step.timersDone now (some c) rc hpc

theorem step_testItem {s t : State} {e : List Event} {i n : ℕ} (hpc : s.pc = .items i n)
    (h : testItem s i n = some (t, e)) : Step s .test t e := by
  unfold testItem at h
  split at h
  · rename_i hi
    split at h
    · cases h
    · rename_i item c hit
      split at h
      · rename_i x hready
        cases h
        exact Step.testThrows i n item c x hpc hi hit hready
      · rename_i hready
        cases h
        exact Step.handle i n item c hpc hi hit hready
      · rename_i hready
        cases h
        exact Step.skip i n item c hpc hi hit hready
  · cases h
    exact Step.itemsDone i n hpc

theorem step_retTimer {s t : State} {e : List Event} {now : ℤ} {c : ℕ} {rc b : Bool}
    (hpc : s.pc = .timer now c rc) (h : retTimer s now c rc b = some (t, e)) :
    Step s (.ret b) t e := by
  unfold retTimer at h
  split at h
  · cases h
  · rename_i tm hfind
    obtain ⟨hmem, hc⟩ := mem_of_find hfind
    cases b with
    | true => cases h; exact Step.timerTrue now c rc tm hpc hmem hc
    | false => cases h; exact Step.timerFalse now c rc tm hpc hmem hc

/-- a call is made by user code -/
theorem api_of_step {s t : State} {c : Api} {e : List Event} (h : step s (.call c) = some (t, e)) :
    s.pc.user = true ∧ api s c = some (t, e) := by
  unfold step at h
  dsimp only at h
  split at h
  · rename_i hu
    exact ⟨hu, h⟩
  · cases h

/-- the clock does not go back on the way to the timers -/
theorem iterate_of_step {s t : State} {now now' passNow : ℤ} {zmqPoll : ZmqPoll} {e : List Event}
    (h : step s (.iterate now now' passNow zmqPoll) = some (t, e)) :
    s.pc = .head ∧ (s.clock ≤ now ∧ now ≤ now' ∧ now' ≤ passNow) ∧
      iterate s now now' passNow zmqPoll = (t, e) := by
  unfold step at h
  dsimp only at h
  split at h
  · rename_i hpc
    split at h
    · rename_i hclock
      exact ⟨hpc, hclock, Option.some.inj h⟩
    · cases h
  · cases h

theorem step_cases {s t : State} {l : Label} {e : List Event} (h : step s l = some (t, e)) :
    Step s l t e := by
  cases l with
  | call c =>
    obtain ⟨hu, hcall⟩ := api_of_step h
    exact step_api hu hcall
  | moved r p =>
    unfold step at h
    dsimp only at h
    split at h
    · rename_i hu
      cases h
      exact Step.moved r p hu
    · cases h
  | start =>
    unfold step at h
    dsimp only at h
    split at h
    · rename_i hpc
      cases h
      exact Step.start hpc
    · cases h
  | iterate now now' passNow zmqPoll =>
    obtain ⟨hpc, hclock, hnext⟩ := iterate_of_step h
    exact step_iterate hpc hclock hnext
  | test =>
    unfold step at h
    dsimp only at h
    split at h
    · rename_i now it rc hpc
      exact step_testTimer hpc h
    · rename_i i n hpc
      exact step_testItem hpc h
    · cases h
  | ret b =>
    unfold step at h
    dsimp only at h
    split at h
    · rename_i now c rc hpc
      exact step_retTimer hpc h
    · rename_i i n hpc
      cases b with
      | true => cases h; exact Step.itemTrue i n hpc
      | false => cases h; exact Step.itemFalse i n hpc
    · cases h
  | throw =>
    unfold step at h
    dsimp only at h
    split at h
    · rename_i hpc
      cases h
      exact Step.throw (by rw [hpc]; rfl) (by rw [hpc]; nofun)
    · rename_i hpc
      cases h
      exact Step.throw (by rw [hpc]; rfl) (by rw [hpc]; nofun)
    · cases h

/-! ## what some steps emit, and what they leave of the timers -/

/-- no step emits two events -/
theorem step_events {s t : State} {l : Label} {e : List Event} (h : Step s l t e) :
    e.length ≤ 1 := by
  cases h with
  | reset id now hu hclock =>
    unfold resetEvent
    cases s.loop.timers.find? fun t => t.id = id with
    | none => exact Nat.zero_le _
    | some t => exact Nat.le_refl _
  | _ => simp

theorem step_fired {s t : State} {l : Label} {e : List Event} {c : ℕ} {now : ℤ}
    (h : Step s l t e) (he : .fired c now ∈ e) :
    ∃ rc tm, s.pc = .timers now (some c) rc ∧ tm ∈ s.loop.timers ∧ tm.callable = c ∧
      tm.when < now := by
  cases h with
  | fire now' c' rc tm hpc ht hc hdue =>
    cases List.mem_singleton.mp he
    exact ⟨rc, tm, hpc, ht, hc, hdue⟩
  | reset id now hu hclock =>
    obtain ⟨tm, _, h⟩ := Option.map_eq_some_iff.mp (Option.mem_toList.mp he)
    cases h
  | addTimer delay times id now hu hclock hid => cases List.mem_singleton.mp he
  | pollThrows now now' passNow zmqPoll p hpc hclock hf => cases List.mem_singleton.mp he
  | iterate now now' passNow zmqPoll p rc hpc hclock hf => cases List.mem_singleton.mp he
  | handle i n item c hpc hi hit hready => cases List.mem_singleton.mp he
  | _ => cases he

theorem flushed_timers_sublist (s : State) : (flushed s).timers.Sublist s.loop.timers :=
  (Loop.flushRemoveLater_timers s.sockets _).1

theorem finish_timers_sublist (s : State) : (finish s).loop.timers.Sublist s.loop.timers :=
  (Loop.flushRemoveLater_timers s.sockets _).1

theorem timersDone_rest (s : State) (rc : Bool) :
    (timersDone s rc).loop.timers = sortTimers s.loop.timers ∧
      (timersDone s rc).loop.items = s.loop.items ∧ (timersDone s rc).next = s.next ∧
      (timersDone s rc).clock = s.clock := by
  unfold timersDone
  dsimp only
  split
  · exact ⟨rfl, rfl, rfl, rfl⟩
  · split <;> exact ⟨rfl, rfl, rfl, rfl⟩

theorem timersDone_pc (s : State) (rc : Bool) :
    (timersDone s rc).pc = .head ∨ (timersDone s rc).pc = .items 0 s.loop.items.length := by
  unfold timersDone
  dsimp only
  split
  · exact Or.inl rfl
  · split
    · exact Or.inr rfl
    · exact Or.inl rfl

/-! ## the numbers of the handlers -/

/-- the numbers of all registrations and timers -/
def numbers (l : Loop) : List ℕ := l.items.map Prod.snd ++ l.timers.map Timer.callable

/-- every number is used once at most, and only numbers below `next` are used -/
def Numbered (l : Loop) (next : ℕ) : Prop :=
  ∀ n, (numbers l).count n ≤ if n < next then 1 else 0

/-- no number is used more often than before -/
def Fewer (l' l : Loop) : Prop := ∀ n, (numbers l').count n ≤ (numbers l).count n

theorem Fewer.of_lists {l' l : Loop} (hi : l'.items.Sublist l.items)
    (ht : ∀ n, (l'.timers.map Timer.callable).count n ≤ (l.timers.map Timer.callable).count n) :
    Fewer l' l := by
  intro n
  unfold numbers
  rw [List.count_append, List.count_append]
  exact Nat.add_le_add ((hi.map Prod.snd).count_le n) (ht n)

theorem Fewer.of_sublists {l' l : Loop} (hi : l'.items.Sublist l.items)
    (ht : l'.timers.Sublist l.timers) : Fewer l' l :=
  Fewer.of_lists hi fun n => (ht.map Timer.callable).count_le n

theorem Numbered.fewer {l l' : Loop} {next : ℕ} (h : Numbered l next) (hf : Fewer l' l) :
    Numbered l' next := fun n => (hf n).trans (h n)

theorem fewer_remove (sockets : Sockets) (l : Loop) (x : Target) :
    Fewer (Loop.remove sockets l x).1 l :=
  Fewer.of_sublists (Registry.remove_sublist sockets l.toRegistry x) (List.Sublist.refl _)

theorem fewer_reset (l : Loop) (now : ℤ) (id : TimerId) : Fewer (l.reset now id) l := by
  unfold Loop.reset
  split
  · refine Fewer.of_lists (List.Sublist.refl _) ?_
    intro n
    show ((sortTimers _).map Timer.callable).count n ≤ _
    rw [((Loop.sortTimers_perm _).map Timer.callable).count_eq,
      Loop.resetFirst_map Timer.callable fun _ _ => rfl]
  · exact fun n => Nat.le_refl _

theorem fewer_removeTimer (l : Loop) (id : TimerId) : Fewer (l.removeTimer id) l :=
  Fewer.of_sublists (by unfold Loop.removeTimer; split <;> exact List.Sublist.refl _)
    (Loop.removeTimers_sublist [id] l)

theorem fewer_flush (sockets : Sockets) (l : Loop) :
    Fewer (Loop.flushRemoveLater sockets l).1 l := by
  refine Fewer.of_sublists ?_ (Loop.flushRemoveLater_timers sockets l).1
  rw [(Loop.flushRemoveLater_toRegistry sockets l).1]
  exact Registry.flushRemoveLater_sublist sockets l.toRegistry

theorem fewer_timerReturned (l : Loop) (t : Timer) : Fewer (l.timerReturned t) l := by
  unfold Loop.timerReturned
  split
  · exact Fewer.of_sublists (List.Sublist.refl _) List.filter_sublist
  · refine Fewer.of_lists (List.Sublist.refl _) ?_
    intro n
    show ((l.timers.map _).map Timer.callable).count n ≤ _
    have hsame : (Timer.callable ∘ fun u : Timer =>
        if u.callable = t.callable then { u with times := u.times - 1 }.update else u)
        = Timer.callable := by
      funext u
      show (if u.callable = t.callable then _ else u).callable = u.callable
      split <;> rfl
    rw [List.map_map, hsame]

theorem fewer_sort (l : Loop) : Fewer l.sort l := by
  refine Fewer.of_lists (List.Sublist.refl _) ?_
  intro n
  exact Nat.le_of_eq (((Loop.sortTimers_perm l.timers).map Timer.callable).count_eq n)

theorem fewer_timersDone (s : State) (rc : Bool) : Fewer (timersDone s rc).loop s.loop := by
  obtain ⟨htimers, hitems, _⟩ := timersDone_rest s rc
  intro n
  unfold numbers
  rw [htimers, hitems]
  exact fewer_sort s.loop n

theorem fewer_finish (s : State) : Fewer (finish s).loop s.loop :=
  fewer_flush s.sockets (s.loop.setDispatching false)

theorem numbered_new {l l' : Loop} {next : ℕ} (h : Numbered l next)
    (hl : ∀ n, (numbers l').count n = (numbers l).count n + if n = next then 1 else 0) :
    Numbered l' (next + 1) := by
  intro n
  rw [hl]
  have := h n
  by_cases e : n = next
  · subst e
    simp only [Nat.lt_irrefl, ↓reduceIte] at this
    simp only [↓reduceIte, Nat.lt_succ_self]
    omega
  · by_cases hlt : n < next
    · rw [if_pos hlt] at this
      rw [if_neg e, if_pos (by omega)]
      exact this
    · rw [if_neg hlt] at this
      rw [if_neg e, if_neg (by omega)]
      exact this

theorem count_singleton_eq (c n : ℕ) : [c].count n = if n = c then 1 else 0 := by
  by_cases e : n = c
  · simp [e]
  · simp [e, Ne.symm e]

theorem numbers_add (l : Loop) (sockets : Sockets) (x : Target) (c : ℕ) (event : Short) (n : ℕ) :
    (numbers (l.add sockets x c event)).count n
      = (numbers l).count n + if n = c then 1 else 0 := by
  show (List.map Prod.snd (l.items ++ [_]) ++ l.timers.map Timer.callable).count n = _
  unfold numbers
  rw [List.map_append, List.count_append, List.count_append, List.count_append]
  rw [List.map_singleton, count_singleton_eq]
  dsimp only
  omega

theorem numbers_addTimer (l : Loop) (now : ℤ) (id : TimerId) (delay : ℤ) (times c n : ℕ) :
    (numbers (l.addTimer now id delay times c)).count n
      = (numbers l).count n + if n = c then 1 else 0 := by
  show (l.items.map Prod.snd ++ (sortTimers _).map Timer.callable).count n = _
  unfold numbers
  rw [List.count_append, List.count_append,
    ((Loop.sortTimers_perm _).map Timer.callable).count_eq, List.map_append, List.count_append]
  rw [List.map_singleton, count_singleton_eq]
  dsimp only
  omega

theorem step_numbered {s t : State} {l : Label} {e : List Event} (h : Step s l t e)
    (hn : Numbered s.loop s.next) : Numbered t.loop t.next := by
  cases h with
  | add x event hu => exact numbered_new hn (numbers_add _ _ _ _ _)
  | remove x hu => exact hn.fewer (fewer_remove _ _ x)
  | addTimer delay times id now hu hclock hid => exact numbered_new hn (numbers_addTimer _ _ _ _ _ _)
  | reset id now hu hclock => exact hn.fewer (fewer_reset _ now id)
  | removeTimer id hu => exact hn.fewer (fewer_removeTimer _ id)
  | moved r p hu => exact hn
  | start hpc => exact hn
  | flushThrows now now' passNow zmqPoll hpc hf => exact hn.fewer (fewer_flush s.sockets _)
  | pollThrows now now' passNow zmqPoll p hpc hclock hf => exact hn.fewer (fewer_flush s.sockets _)
  | iterate now now' passNow zmqPoll p rc hpc hclock hf =>
    exact hn.fewer (fewer_flush s.sockets _)
  | fire now c rc t hpc ht hc hdue => exact hn
  | timersDone now it rc hpc =>
    rw [(timersDone_rest s rc).2.2.1]
    exact hn.fewer (fewer_timersDone s rc)
  | handle i n item c hpc hi hit hready => exact hn
  | skip i n item c hpc hi hit hready => exact hn
  | testThrows i n item c x hpc hi hit hready => exact hn
  | itemsDone i n hpc => exact hn
  | timerTrue now c rc t hpc ht hc => exact hn.fewer (fewer_timerReturned _ t)
  | timerFalse now c rc t hpc ht hc =>
    have h1 := hn.fewer (fewer_timerReturned _ t)
    exact h1.fewer (fewer_finish { s with loop := s.loop.timerReturned t })
  | itemTrue i n hpc => exact hn
  | itemFalse i n hpc => exact hn.fewer (fewer_finish s)
  | throw hu hpc => exact hn

theorem step_next {s t : State} {l : Label} {e : List Event} (h : Step s l t e) :
    s.next ≤ t.next := by
  cases h with
  | add x event hu => exact Nat.le_succ _
  | addTimer delay times id now hu hclock hid => exact Nat.le_succ _
  | timersDone now it rc hpc => exact Nat.le_of_eq (timersDone_rest s rc).2.2.1.symm
  | _ => exact Nat.le_refl _

/-! ## what being numbered says -/

theorem Numbered.nodup {l : Loop} {next : ℕ} (h : Numbered l next) : (numbers l).Nodup := by
  rw [List.nodup_iff_count_le_one]
  intro n
  have := h n
  split at this <;> omega

theorem Numbered.timers_nodup {l : Loop} {next : ℕ} (h : Numbered l next) :
    (l.timers.map Timer.callable).Nodup := (List.nodup_append.mp h.nodup).2.1

theorem Numbered.lt {l : Loop} {next n : ℕ} (h : Numbered l next) (hn : n ∈ numbers l) :
    n < next := by
  by_contra hlt
  have := h n
  rw [if_neg hlt] at this
  have hpos := List.count_pos_iff.mpr hn
  omega

theorem Numbered.timer_unique {l : Loop} {next : ℕ} (h : Numbered l next) {t u : Timer}
    (ht : t ∈ l.timers) (hu : u ∈ l.timers) (he : t.callable = u.callable) : t = u :=
  List.inj_on_of_nodup_map h.timers_nodup ht hu he

theorem Numbered.item_unique {l : Loop} {next : ℕ} (h : Numbered l next) {a b : PollItem × ℕ}
    (ha : a ∈ l.items) (hb : b ∈ l.items) (he : a.2 = b.2) : a = b :=
  List.inj_on_of_nodup_map (List.nodup_append.mp h.nodup).1 ha hb he

theorem Numbered.timer_lt {l : Loop} {next : ℕ} (h : Numbered l next) {t : Timer}
    (ht : t ∈ l.timers) : t.callable < next :=
  h.lt (List.mem_append_right _ (List.mem_map_of_mem ht))

theorem Numbered.item_lt {l : Loop} {next : ℕ} (h : Numbered l next) {a : PollItem × ℕ}
    (ha : a ∈ l.items) : a.2 < next :=
  h.lt (List.mem_append_left _ (List.mem_map_of_mem ha))

/-- no number is both a registration's and a timer's -/
theorem Numbered.item_ne_timer {l : Loop} {next : ℕ} (h : Numbered l next) {a : PollItem × ℕ}
    (ha : a ∈ l.items) {t : Timer} (ht : t ∈ l.timers) : a.2 ≠ t.callable :=
  (List.nodup_append.mp h.nodup).2.2 a.2 (List.mem_map_of_mem ha) t.callable
    (List.mem_map_of_mem ht)

theorem numbered_init (next : ℕ) : Numbered {} next := by
  intro n
  exact Nat.zero_le _

end Run
end Zmqpp
