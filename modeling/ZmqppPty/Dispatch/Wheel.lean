import ZmqppPty.Dispatch.Pass
import ZmqppPty.Dispatch.Tickless

/-!
# The timers of a loop as a timer wheel (loop::start in loop.cpp)

What the loop's timers are for, without iterators, flags and queues of the loop: a pass takes the
removed timers out and invokes each timer that is due, once and in the order of the deadlines.  The
loop does that as long as the callables of timers add and reset no timers, which moves the others
under the iterator; they may remove timers, and the handlers of sockets may do all of it.

* `Wheel`, `Wheel.step`, `Wheel.run`   the timer wheel;
* `Label.ops`, `wheelOps`              what the labels of a run say to it;
* `Quiet`                              who may add and reset timers;
* `Passing`, `Follows`                 where the loop is behind the wheel, and by what;
* `Follows.step`                       a step, phase by phase;
* `timers_as_wheel`                    a run.
-/

namespace Zmqpp

namespace Timer

/-- after an invocation, none if it was the last one -/
def invoked (t : Timer) : Option Timer :=
  if t.times ≠ 0 ∧ t.times - 1 = 0 then none else some { t with times := t.times - 1 }.update

/-- after a pass at the time `now` -/
def passed (now : ℤ) (t : Timer) : Option Timer := if t.when < now then t.invoked else some t

end Timer

/-- timers in the order of their deadlines, and those to be taken out before the next pass -/
structure Wheel where
  timers : List Timer
  leaving : List TimerId := []
deriving DecidableEq, Repr

namespace Wheel
open Run (Event)

inductive Op where
  | add (callable : ℕ) (id : TimerId) (delay : ℤ) (times : ℕ) (now : ℤ)
  | reset (id : TimerId) (now : ℤ)
  | remove (id : TimerId)
  | pass (now : ℤ)

/-- the invocations of a pass -/
def firings (now : ℤ) (ts : List Timer) : List Event :=
  (ts.filter fun t => t.when < now).map fun t => .fired t.callable now

def staying (w : Wheel) : List Timer := w.timers.filter fun t => t.id ∉ w.leaving

def step (w : Wheel) : Op → Wheel × List Event
  | .add callable id delay times now =>
    ({ w with timers :=
        sortTimers (w.timers ++ [⟨id, times, delay, afterDelay now delay, callable⟩]) },
      [.created callable delay times now])
  | .reset id now =>
    (if id ∈ w.timers.map Timer.id then
        { w with timers := sortTimers (Loop.resetFirst now id w.timers) }
      else w,
      ((w.timers.find? fun t => t.id = id).map fun t => Event.reset t.callable now).toList)
  | .remove id => ({ w with leaving := w.leaving ++ [id] }, [])
  | .pass now =>
    ({ timers := sortTimers (w.staying.filterMap (Timer.passed now)) }, firings now w.staying)

def run (w : Wheel) : List Op → Wheel × List Event
  | [] => (w, [])
  | op :: ops => (((w.step op).1.run ops).1, (w.step op).2 ++ ((w.step op).1.run ops).2)

@[simp]
theorem run_nil (w : Wheel) : w.run [] = (w, []) := rfl

theorem run_cons (w : Wheel) (op : Op) (ops : List Op) :
    w.run (op :: ops)
      = (((w.step op).1.run ops).1, (w.step op).2 ++ ((w.step op).1.run ops).2) := rfl

@[simp]
theorem run_single (w : Wheel) (op : Op) : w.run [op] = w.step op := by
  rw [run_cons, run_nil, List.append_nil]

theorem run_append (w : Wheel) (a b : List Op) :
    w.run (a ++ b) = (((w.run a).1.run b).1, (w.run a).2 ++ ((w.run a).1.run b).2) := by
  induction a generalizing w with
  | nil => rfl
  | cons op ops ih => rw [List.cons_append, run_cons, run_cons, ih, List.append_assoc]

/-! ## a pass -/

theorem firings_cons_due {now : ℤ} {t : Timer} (h : t.when < now) (ts : List Timer) :
    firings now (t :: ts) = .fired t.callable now :: firings now ts := by
  unfold firings
  rw [List.filter_cons_of_pos (by simpa using h), List.map_cons]

/-- behind a timer that is not due none is -/
theorem not_due_of_sorted {now : ℤ} {t : Timer} {ts : List Timer}
    (hs : (t :: ts).Pairwise Timer.NotAfter) (h : ¬ t.when < now) :
    ∀ u ∈ t :: ts, ¬ u.when < now := by
  intro u hu
  rcases List.mem_cons.mp hu with rfl | hu
  · exact h
  · have htu : t.when ≤ u.when := List.rel_of_pairwise_cons hs hu
    omega

theorem firings_of_not_due {now : ℤ} {ts : List Timer} (h : ∀ t ∈ ts, ¬ t.when < now) :
    firings now ts = [] := by
  unfold firings
  rw [List.filter_eq_nil_iff.mpr (by simpa using h), List.map_nil]

theorem passed_of_not_due {now : ℤ} {ts : List Timer} (h : ∀ t ∈ ts, ¬ t.when < now) :
    ts.filterMap (Timer.passed now) = ts := by
  have hkept : ∀ t ∈ ts, Timer.passed now t = some t := fun t ht => if_neg (h t ht)
  rw [List.filterMap_congr hkept, List.filterMap_some]

end Wheel

namespace Run

/-! ## what a run says to the wheel -/

/-- the handler of a socket or a descriptor runs -/
def Pc.handling : Pc → Bool
  | .item _ _ => true
  | _ => false

/-- what a label says to the wheel; `next` is the number of the next handler -/
def Label.ops (next : ℕ) : Label → List Wheel.Op
  | .call (.addTimer delay times id now) => [.add next id delay times now]
  | .call (.reset id now) => [.reset id now]
  | .call (.removeTimer id) => [.remove id]
  | .iterate _ _ passNow _ => [.pass passNow]
  | _ => []

/-- the handlers that a label brings in -/
def Label.handlers : Label → ℕ
  | .call (.add _ _) | .call (.addTimer _ _ _ _) => 1
  | _ => 0

def wheelOps : ℕ → List Label → List Wheel.Op
  | _, [] => []
  | next, l :: ls => l.ops next ++ wheelOps (next + l.handlers) ls

/-- no callable of a timer adds or resets a timer, and `start` is not called again -/
def Quiet (s : State) : Label → Prop
  | .call (.addTimer _ _ _ _) | .call (.reset _ _) => s.pc.handling = true
  | .start => False
  | _ => True

instance (s : State) : DecidablePred (Quiet s)
  | .call (.addTimer _ _ _ _) | .call (.reset _ _) =>
    inferInstanceAs (Decidable (s.pc.handling = true))
  | .start => isFalse id
  | .call (.add _ _) | .call (.remove _) | .call (.removeTimer _) | .moved _ _
  | .iterate _ _ _ _ | .test | .ret _ | .throw => isTrue trivial

def Event.ofTimer : Event → Bool
  | .created _ _ _ _ | .reset _ _ | .fired _ _ => true
  | .handled _ | .tickless _ _ _ => false

def timerEvents (es : List Event) : List Event := es.filter Event.ofTimer

theorem timerEvents_append (es es' : List Event) :
    timerEvents (es ++ es') = timerEvents es ++ timerEvents es' := List.filter_append ..

/-- a label numbers as many handlers as it brings in -/
theorem step_handlers {s t : State} {l : Label} {e : List Event} (h : Step s l t e) :
    t.next = s.next + l.handlers := by
  cases h with
  | timersDone now it rc hpc => exact (timersDone_rest s rc).2.2.1
  | _ => rfl

/-! ## how the loop follows the wheel -/

def wheelOf (s : State) : Wheel := ⟨s.loop.timers, s.loop.timerRemoveLater⟩

/-- The wheel has passed.  The loop has served some timers, is at the callable of `current` if there
is one, and the rest is to come. -/
structure Passing (w : Wheel) (now : ℤ) (served : List Timer) (current : Option Timer)
    (rest : List Timer) (s : State) : Prop where
  timers : s.loop.timers = served ++ (current.toList ++ rest)
  after : w.timers = sortTimers (served ++
    ((current.bind Timer.invoked).toList ++ rest.filterMap (Timer.passed now)))
  leaving : w.leaving = s.loop.timerRemoveLater
  sorted : rest.Pairwise Timer.NotAfter

/-- the loop at `s` has still to emit some events of the wheel; once it is left, whichever -/
inductive Follows (w : Wheel) (s : State) : List Event → Prop
  | head (hpc : s.pc = .head) (hd : s.loop.dispatching = false) (hs : s.loop.Sorted)
      (hw : wheelOf s = w) : Follows w s []
  | ranging (hpc : s.pc.ranging = true) (hs : s.loop.Sorted) (hw : wheelOf s = w) : Follows w s []
  | pass (now : ℤ) (rc : Bool) (served rest : List Timer)
      (hpc : s.pc = .timers now (rest.head?.map Timer.callable) rc)
      (hp : Passing w now served none rest s) : Follows w s (Wheel.firings now rest)
  | callable (now : ℤ) (rc : Bool) (served : List Timer) (current : Timer) (rest : List Timer)
      (hpc : s.pc = .timer now current.callable rc)
      (hp : Passing w now served (some current) rest s) : Follows w s (Wheel.firings now rest)
  | left (pending : List Event) (hpc : s.pc = .outside) : Follows w s pending

variable {w : Wheel} {s t : State} {pending : List Event}

theorem Follows.at_head (h : Follows w s pending) (hpc : s.pc = .head) :
    pending = [] ∧ s.loop.dispatching = false ∧ s.loop.Sorted ∧ wheelOf s = w := by
  cases h with
  | head _ hd hs hw => exact ⟨rfl, hd, hs, hw⟩
  | ranging hpc' hs hw => rw [hpc] at hpc'; cases hpc'
  | pass now rc served rest hpc' hp => rw [hpc] at hpc'; cases hpc'
  | callable now rc served current rest hpc' hp => rw [hpc] at hpc'; cases hpc'
  | left _ hpc' => rw [hpc] at hpc'; cases hpc'

theorem Follows.at_ranging (h : Follows w s pending) (hpc : s.pc.ranging = true) :
    pending = [] ∧ s.loop.Sorted ∧ wheelOf s = w := by
  cases h with
  | head hpc' hd hs hw => rw [hpc'] at hpc; cases hpc
  | ranging _ hs hw => exact ⟨rfl, hs, hw⟩
  | pass now rc served rest hpc' hp => rw [hpc'] at hpc; cases hpc
  | callable now rc served current rest hpc' hp => rw [hpc'] at hpc; cases hpc
  | left _ hpc' => rw [hpc'] at hpc; cases hpc

theorem Follows.at_timers (h : Follows w s pending) {now : ℤ} {it : Option ℕ} {rc : Bool}
    (hpc : s.pc = .timers now it rc) :
    ∃ served rest, pending = Wheel.firings now rest ∧ it = rest.head?.map Timer.callable ∧
      Passing w now served none rest s := by
  cases h with
  | head hpc' hd hs hw => rw [hpc] at hpc'; cases hpc'
  | ranging hpc' hs hw => rw [hpc] at hpc'; cases hpc'
  | pass now' rc' served rest hpc' hp =>
    rw [hpc] at hpc'
    cases hpc'
    exact ⟨served, rest, rfl, rfl, hp⟩
  | callable now rc served current rest hpc' hp => rw [hpc] at hpc'; cases hpc'
  | left _ hpc' => rw [hpc] at hpc'; cases hpc'

theorem Follows.at_timer (h : Follows w s pending) {now : ℤ} {c : ℕ} {rc : Bool}
    (hpc : s.pc = .timer now c rc) :
    ∃ served current rest, pending = Wheel.firings now rest ∧ c = current.callable ∧
      Passing w now served (some current) rest s := by
  cases h with
  | head hpc' hd hs hw => rw [hpc] at hpc'; cases hpc'
  | ranging hpc' hs hw => rw [hpc] at hpc'; cases hpc'
  | pass now rc served rest hpc' hp => rw [hpc] at hpc'; cases hpc'
  | callable now' rc' served current rest hpc' hp =>
    rw [hpc] at hpc'
    cases hpc'
    exact ⟨served, current, rest, rfl, rfl, hp⟩
  | left _ hpc' => rw [hpc] at hpc'; cases hpc'

/-- a call that leaves the timers, and may queue some for removal -/
theorem Follows.call (h : Follows w s pending) (hu : s.pc.user = true) (hpc : t.pc = s.pc)
    (ids : List TimerId)
    (ht : s.pc ≠ .outside → t.loop.timers = s.loop.timers ∧
      t.loop.timerRemoveLater = s.loop.timerRemoveLater ++ ids) :
    Follows { w with leaving := w.leaving ++ ids } t pending := by
  cases h with
  | head hpc' hd hs hw => rw [hpc'] at hu; cases hu
  | ranging hpc' hs hw =>
    obtain ⟨htimers, hleaving⟩ := ht (by intro e; rw [e] at hpc'; cases hpc')
    refine .ranging (by rw [hpc]; exact hpc') ?_ ?_
    · unfold Loop.Sorted
      rw [htimers]
      exact hs
    · subst hw
      unfold wheelOf
      rw [htimers, hleaving]
  | pass now rc served rest hpc' hp => rw [hpc'] at hu; cases hu
  | callable now rc served current rest hpc' hp =>
    obtain ⟨htimers, hleaving⟩ := ht (by intro e; rw [e] at hpc'; cases hpc')
    refine .callable now rc served current rest (hpc.trans hpc') ⟨?_, hp.after, ?_, hp.sorted⟩
    · rw [htimers, hp.timers]
    · rw [hleaving, ← hp.leaving]
  | left _ hpc' => exact .left _ (hpc.trans hpc')

theorem Follows.call_quiet (h : Follows w s pending) (hu : s.pc.user = true) (hpc : t.pc = s.pc)
    (ht : t.loop.timers = s.loop.timers)
    (hleaving : t.loop.timerRemoveLater = s.loop.timerRemoveLater) : Follows w t pending := by
  have hcall := h.call hu hpc [] fun _ => ⟨ht, by rw [hleaving, List.append_nil]⟩
  rwa [List.append_nil] at hcall

/-! ## a pass of the loop -/

theorem timersAfter_split {served rest : List Timer} {current : Timer}
    (hne : ∀ t ∈ served, t.callable ≠ current.callable) :
    Loop.timersAfter current.callable (served ++ current :: rest) = rest := by
  induction served with
  | nil => exact if_pos rfl
  | cons t served ih =>
    have htail : ∀ u ∈ served, u.callable ≠ current.callable :=
      fun u hu => hne u (List.mem_cons_of_mem t hu)
    show (if t.callable = current.callable then _ else _) = rest
    rw [if_neg (hne t List.mem_cons_self)]
    exact ih htail

theorem timerReturned_split (l : Loop) {served rest : List Timer} {current : Timer}
    (hl : l.timers = served ++ current :: rest)
    (hserved : ∀ t ∈ served, t.callable ≠ current.callable)
    (hrest : ∀ t ∈ rest, t.callable ≠ current.callable) :
    (l.timerReturned current).timers = served ++ (current.invoked.toList ++ rest) := by
  unfold Loop.timerReturned Timer.invoked
  by_cases hlast : current.times ≠ 0 ∧ current.times - 1 = 0
  · have hother {ts : List Timer} (h : ∀ t ∈ ts, t.callable ≠ current.callable) :
        ts.filter (fun t => t.callable ≠ current.callable) = ts :=
      List.filter_eq_self.mpr fun t ht => decide_eq_true (h t ht)
    rw [if_pos hlast, if_pos hlast]
    dsimp only
    rw [hl, List.filter_append, List.filter_cons_of_neg (by simp), hother hserved, hother hrest]
    rfl
  · have hother {ts : List Timer} (h : ∀ t ∈ ts, t.callable ≠ current.callable) :
        ts.map (fun t => if t.callable = current.callable then
          { t with times := t.times - 1 }.update else t) = ts := by
      rw [List.map_congr_left fun t ht => if_neg (h t ht), List.map_id']
    rw [if_neg hlast, if_neg hlast]
    dsimp only
    rw [hl, List.map_append, List.map_cons, hother hserved, hother hrest, if_pos rfl]
    rfl

/-- no timer has the number of another one -/
theorem Numbered.others {l : Loop} {next : ℕ} (h : Numbered l next) {served rest : List Timer}
    {current : Timer} (hl : l.timers = served ++ current :: rest) :
    (∀ t ∈ served, t.callable ≠ current.callable) ∧ ∀ t ∈ rest, t.callable ≠ current.callable := by
  have hnodup := h.timers_nodup
  rw [hl, List.map_append, List.map_cons, List.nodup_append, List.nodup_cons] at hnodup
  obtain ⟨-, ⟨hrest, -⟩, hserved⟩ := hnodup
  constructor
  · exact fun t ht => hserved _ (List.mem_map_of_mem ht) _ List.mem_cons_self
  · intro t ht heq
    exact hrest (heq ▸ List.mem_map_of_mem ht)

theorem Numbered.find {l : Loop} {next : ℕ} (h : Numbered l next) {u : Timer} (hu : u ∈ l.timers) :
    (l.timers.find? fun t => t.callable = u.callable) = some u := by
  cases hf : l.timers.find? fun t => t.callable = u.callable with
  | none => exact absurd (decide_eq_true rfl) (List.find?_eq_none.mp hf u hu)
  | some v =>
    obtain ⟨hv, hc⟩ := mem_of_find hf
    rw [h.timer_unique hv hu hc]

theorem timersDone_follows (rc : Bool) (hw : w.timers = sortTimers s.loop.timers)
    (hleaving : w.leaving = s.loop.timerRemoveLater) : Follows w (timersDone s rc) [] := by
  have hsorted := timersDone_sorted s rc
  have hwheel : wheelOf (timersDone s rc) = w := by
    unfold wheelOf
    rw [(timersDone_rest s rc).1, ← hw]
    unfold timersDone
    dsimp only
    split
    · exact congrArg (Wheel.mk w.timers) hleaving.symm
    · split <;> exact congrArg (Wheel.mk w.timers) hleaving.symm
  revert hsorted hwheel
  unfold timersDone
  dsimp only
  split
  · exact fun hsorted hwheel => .head rfl rfl hsorted hwheel
  · split
    · exact fun hsorted hwheel => .ranging rfl hsorted hwheel
    · exact fun hsorted hwheel => .head rfl rfl hsorted hwheel

/-- the next test of a pass finds the next timer due, or the pass is over -/
theorem Follows.testTimer (h : Follows w s pending) (hn : Numbered s.loop s.next) {now : ℤ}
    {it : Option ℕ} {rc : Bool} {e : List Event} (hpc : s.pc = .timers now it rc)
    (hs : testTimer s now it rc = some (t, e)) :
    ∃ pending', timerEvents e ++ pending' = pending ∧ Follows w t pending' := by
  obtain ⟨served, rest, rfl, rfl, hp⟩ := h.at_timers hpc
  cases rest with
  | nil =>
    cases hs
    refine ⟨[], rfl, timersDone_follows rc ?_ hp.leaving⟩
    rw [hp.after, hp.timers]
    rfl
  | cons u rest =>
    have hmem : u ∈ s.loop.timers := by
      rw [hp.timers]
      simp
    unfold Run.testTimer at hs
    dsimp only [List.head?_cons, Option.map_some] at hs
    rw [hn.find hmem] at hs
    dsimp only at hs
    split at hs
    · rename_i hdue
      cases hs
      rw [Wheel.firings_cons_due hdue]
      refine ⟨_, rfl, .callable now rc served u rest rfl ⟨hp.timers, ?_, hp.leaving, ?_⟩⟩
      · have hpassed : Timer.passed now u = u.invoked := if_pos hdue
        rw [hp.after]
        cases hu : u.invoked with
        | none => simp [hpassed, hu]
        | some v => simp [hpassed, hu]
      · exact hp.sorted.tail
    · rename_i hdue
      cases hs
      -- the list is sorted, so no timer behind this one is due
      have hnone := Wheel.not_due_of_sorted hp.sorted hdue
      rw [Wheel.firings_of_not_due hnone]
      refine ⟨[], rfl, timersDone_follows rc ?_ hp.leaving⟩
      rw [hp.after, hp.timers, Wheel.passed_of_not_due hnone]
      rfl

theorem Follows.timerTrue (h : Follows w s pending) (hn : Numbered s.loop s.next) {now : ℤ} {c : ℕ}
    {rc : Bool} {u : Timer} (hpc : s.pc = .timer now c rc) (hu : u ∈ s.loop.timers)
    (hc : u.callable = c) :
    Follows w { s with loop := s.loop.timerReturned u,
                       pc := .timers now (Loop.nextTimer c s.loop.timers) rc } pending := by
  obtain ⟨served, current, rest, rfl, rfl, hp⟩ := h.at_timer hpc
  have htimers : s.loop.timers = served ++ current :: rest := hp.timers
  obtain rfl : u = current := hn.timer_unique hu (by rw [htimers]; simp) hc
  obtain ⟨hserved, hrest⟩ := hn.others htimers
  refine .pass now rc (served ++ u.invoked.toList) rest ?_ ⟨?_, ?_, ?_, hp.sorted⟩
  · unfold Loop.nextTimer
    rw [htimers, timersAfter_split hserved]
  · show (s.loop.timerReturned u).timers = _
    rw [timerReturned_split s.loop htimers hserved hrest, List.append_assoc]
    rfl
  · rw [hp.after, List.append_assoc]
    rfl
  · rw [hp.leaving]
    show s.loop.timerRemoveLater = (s.loop.timerReturned u).timerRemoveLater
    unfold Loop.timerReturned
    split <;> rfl

/-! ## runs -/

theorem timerEvents_reset (l : Loop) (id : TimerId) (now : ℤ) :
    timerEvents (resetEvent l id now) = resetEvent l id now := by
  unfold resetEvent
  cases l.timers.find? fun t => t.id = id with
  | none => rfl
  | some t => rfl

theorem ranging_of_handling {pc : Pc} (h : pc.handling = true) : pc.ranging = true := by
  cases pc with
  | item i n => rfl
  | _ => cases h

/-- in a handler or a callable the loop dispatches -/
theorem dispatching_of_user (h : (view s).Marked) (hu : s.pc.user = true) (hpc : s.pc ≠ .outside) :
    s.loop.dispatching = true := by
  apply h
  show s.pc.dispatches = true
  cases hs : s.pc with
  | outside => exact absurd hs hpc
  | head => rw [hs] at hu; cases hu
  | timers now it rc => rfl
  | timer now c rc => rfl
  | items i n => rfl
  | item i n => rfl

theorem Follows.addTimer (h : Follows w s pending) (hq : s.pc.handling = true) (delay : ℤ)
    (times : ℕ) (id : TimerId) (now : ℤ) :
    pending = [] ∧ Follows (w.step (.add s.next id delay times now)).1
      { s with loop := s.loop.addTimer now id delay times s.next, next := s.next + 1, clock := now }
      [] := by
  have hpc := ranging_of_handling hq
  obtain ⟨rfl, -, rfl⟩ := h.at_ranging hpc
  exact ⟨rfl, .ranging hpc (Loop.sorted_addTimer s.loop now id delay times s.next) rfl⟩

theorem Follows.reset (h : Follows w s pending) (hq : s.pc.handling = true) (id : TimerId)
    (now : ℤ) :
    pending = [] ∧ (w.step (.reset id now)).2 = resetEvent s.loop id now ∧
      Follows (w.step (.reset id now)).1
        { s with loop := s.loop.reset now id, clock := now } [] := by
  have hpc := ranging_of_handling hq
  obtain ⟨rfl, hsorted, rfl⟩ := h.at_ranging hpc
  refine ⟨rfl, rfl, .ranging hpc (hsorted.reset now id) ?_⟩
  unfold wheelOf Loop.reset Wheel.step
  dsimp only
  split <;> rfl

/-- a pass begins: the wheel has passed at once -/
theorem Follows.iterate (h : Follows w s pending) (hpc : s.pc = .head) (u : State) (now : ℤ)
    (rc : Bool)
    (hf : (Loop.flushRemoveLater s.sockets { s.loop with rebuildPoller := false }).2 = .ok ())
    (ht : u.loop.timers = (flushed s).timers)
    (hleaving : u.loop.timerRemoveLater = (flushed s).timerRemoveLater)
    (hu : u.pc = .timers now ((flushed s).timers.head?.map Timer.callable) rc) :
    pending = [] ∧ Follows (w.step (.pass now)).1 u (w.step (.pass now)).2 := by
  obtain ⟨rfl, hd, hsorted, rfl⟩ := h.at_head hpc
  obtain ⟨hqueue, htimers⟩ :=
    (Loop.flushRemoveLater_timers s.sockets { s.loop with rebuildPoller := false }).2.2.2 hf
  have hstaying : (flushed s).timers = (wheelOf s).staying := htimers hd
  rw [hstaying] at ht hu
  have hrest : (wheelOf s).staying.Pairwise Timer.NotAfter :=
    List.Pairwise.sublist List.filter_sublist hsorted
  refine ⟨rfl, .pass now rc [] _ hu ⟨ht, rfl, ?_, hrest⟩⟩
  rw [hleaving]
  exact hqueue.symm

theorem Follows.test (h : Follows w s pending) (hn : Numbered s.loop s.next) {now : ℤ}
    {it : Option ℕ} {rc : Bool} {e : List Event} (hpc : s.pc = .timers now it rc)
    (hs : Run.step s .test = some (t, e)) :
    ∃ pending', timerEvents e ++ pending' = pending ++ [] ∧ Follows w t pending' := by
  unfold Run.step at hs
  dsimp only at hs
  rw [hpc] at hs
  rw [List.append_nil]
  exact h.testTimer hn hpc hs

/-- what the wheel has emitted is what the loop has emitted and has still to emit -/
theorem Follows.step (h : Follows w s pending) (hn : Numbered s.loop s.next) (hm : (view s).Marked)
    {l : Label} {e : List Event} (hq : Quiet s l) (hs : Run.step s l = some (t, e)) :
    ∃ pending', timerEvents e ++ pending' = pending ++ (w.run (l.ops s.next)).2 ∧
      Follows (w.run (l.ops s.next)).1 t pending' := by
  have hsilent : ∀ {v : Wheel} {u : State}, Follows v u pending →
      ∃ pending', timerEvents [] ++ pending' = pending ++ [] ∧ Follows v u pending' :=
    fun hv => ⟨pending, (List.append_nil pending).symm, hv⟩
  cases step_cases hs with
  | add x event hu => exact hsilent (h.call_quiet hu rfl rfl rfl)
  | remove x hu => exact hsilent (h.call_quiet hu rfl rfl rfl)
  | addTimer delay times id now hu hclock hid =>
    obtain ⟨rfl, hnext⟩ := h.addTimer hq delay times id now
    exact ⟨[], rfl, hnext⟩
  | reset id now hu hclock =>
    obtain ⟨rfl, hevent, hnext⟩ := h.reset hq id now
    rw [show Label.ops s.next (.call (.reset id now)) = [.reset id now] from rfl, Wheel.run_single,
      hevent]
    exact ⟨[], by rw [timerEvents_reset, List.append_nil, List.nil_append], hnext⟩
  | removeTimer id hu =>
    have hcall : Follows (w.step (.remove id)).1 { s with loop := s.loop.removeTimer id }
        pending := by
      refine h.call (t := { s with loop := s.loop.removeTimer id }) hu rfl [id] fun hpc => ?_
      dsimp only
      unfold Loop.removeTimer
      rw [if_pos (dispatching_of_user hm hu hpc)]
      exact ⟨rfl, rfl⟩
    exact hsilent hcall
  | moved r p hu => exact hsilent (h.call_quiet hu rfl rfl rfl)
  | start hpc => exact hq.elim
  | flushThrows now now' passNow zmqPoll hpc hf => exact ⟨_, rfl, .left _ rfl⟩
  | pollThrows now now' passNow zmqPoll p hpc hclock hf => exact ⟨_, rfl, .left _ rfl⟩
  | iterate now now' passNow zmqPoll p rc hpc hclock hf =>
    obtain ⟨rfl, hnext⟩ := h.iterate hpc
      { s with loop := { flushed s with poller := p }.setDispatching true, clock := passNow,
               pc := .timers passNow ((flushed s).timers.head?.map Timer.callable) rc }
      passNow rc hf rfl rfl rfl
    exact ⟨_, (List.append_nil _).symm, hnext⟩
  | fire now c rc tm hpc ht hc hdue => exact h.test hn hpc hs
  | timersDone now it rc hpc => exact h.test hn hpc hs
  | handle i n item c hpc hi hit hready =>
    obtain ⟨rfl, hsorted, hw⟩ := h.at_ranging (by rw [hpc]; rfl)
    exact hsilent (.ranging rfl hsorted hw)
  | skip i n item c hpc hi hit hready =>
    obtain ⟨rfl, hsorted, hw⟩ := h.at_ranging (by rw [hpc]; rfl)
    exact hsilent (.ranging rfl hsorted hw)
  | testThrows i n item c x hpc hi hit hready => exact hsilent (.left _ rfl)
  | itemsDone i n hpc =>
    obtain ⟨rfl, hsorted, hw⟩ := h.at_ranging (by rw [hpc]; rfl)
    exact hsilent (.head rfl rfl hsorted hw)
  | timerTrue now c rc u hpc hu hc => exact hsilent (h.timerTrue hn hpc hu hc)
  | timerFalse now c rc u hpc hu hc => exact hsilent (.left _ rfl)
  | itemTrue i n hpc =>
    obtain ⟨rfl, hsorted, hw⟩ := h.at_ranging (by rw [hpc]; rfl)
    exact hsilent (.ranging rfl hsorted hw)
  | itemFalse i n hpc => exact hsilent (.left _ rfl)
  | throw hu hpc => exact hsilent (.left _ rfl)

theorem Follows.run {ls : List Label} {tr : List Event} (h : Follows w s pending)
    (hn : Numbered s.loop s.next) (hm : (view s).Marked) (hq : machine.Along Quiet s ls)
    (hr : machine.exec s ls = some (t, tr)) :
    ∃ pending', timerEvents tr ++ pending' = pending ++ (w.run (wheelOps s.next ls)).2 ∧
      Follows (w.run (wheelOps s.next ls)).1 t pending' := by
  induction ls generalizing s w pending tr with
  | nil =>
    rw [Lib.Machine.exec_nil] at hr
    cases hr
    exact ⟨pending, (List.append_nil pending).symm, h⟩
  | cons l ls ih =>
    obtain ⟨u, e, es, hs, hrest, rfl⟩ := Lib.Machine.exec_cons hr
    have hstep : Step s l u e := step_cases hs
    obtain ⟨p, hp, hu⟩ := h.step hn hm hq.1 hs
    obtain ⟨p', hp', ht⟩ :=
      ih hu (step_numbered hstep hn) (dispatcher.step_marked hs hm) (hq.2 u e hs) hrest
    rw [step_handlers hstep] at hp' ht
    have hops : wheelOps s.next (l :: ls)
        = l.ops s.next ++ wheelOps (s.next + l.handlers) ls := rfl
    rw [hops, Wheel.run_append]
    refine ⟨p', ?_, ht⟩
    rw [timerEvents_append, List.append_assoc, hp', ← List.append_assoc, hp, List.append_assoc]

theorem started {sockets : Sockets} {clock : ℤ} {ls : List Label} {tr : List Event}
    (hr : machine.exec { sockets := sockets, clock := clock } ls = some (s, tr)) :
    Numbered s.loop s.next ∧ (view s).Marked :=
  ⟨machine.exec_always (fun s _ => Numbered s.loop s.next)
      (fun _ _ _ _ _ h hs => step_numbered (step_cases hs) h) [] (numbered_init 0) hr,
    dispatcher.marked_of_exec rfl hr⟩

/-- **The loop serves its timers as a timer wheel does.**  Once `start` has found the timers sorted
and no dispatch left open, it creates, resets and invokes in every run what the wheel does, and at
the head of its loop all of that, with the same timers left. -/
theorem timers_as_wheel {sockets : Sockets} {clock : ℤ} {before ls : List Label} {s t : State}
    {tr0 tr : List Event}
    (h0 : machine.exec { sockets := sockets, clock := clock } before = some (s, tr0))
    (hpc : s.pc = .head) (hd : s.loop.dispatching = false) (hs : s.loop.Sorted)
    (hq : machine.Along Quiet s ls) (hr : machine.exec s ls = some (t, tr)) :
    timerEvents tr <+: ((wheelOf s).run (wheelOps s.next ls)).2 ∧
      (t.pc = .head →
        timerEvents tr = ((wheelOf s).run (wheelOps s.next ls)).2 ∧
          wheelOf t = ((wheelOf s).run (wheelOps s.next ls)).1) := by
  obtain ⟨hn, hm⟩ := started h0
  have hhead : Follows (wheelOf s) s [] := .head hpc hd hs rfl
  obtain ⟨pending, hevents, ht⟩ := hhead.run hn hm hq hr
  rw [List.nil_append] at hevents
  refine ⟨⟨pending, hevents⟩, fun hpc' => ?_⟩
  obtain ⟨rfl, -, -, hw⟩ := ht.at_head hpc'
  rw [List.append_nil] at hevents
  exact ⟨hevents, hw⟩

/-- a timer of 10 ms, and one of 15 ms that is invoked twice -/
def beforeStart : List Label :=
  [.call (.addTimer 10 0 0 0), .call (.addTimer 15 2 1 0), .start]

/-- two passes; the second timer removes the first one -/
def twoPasses : List Label :=
  [.iterate 0 0 16000000 nothingReady, .test, .ret true, .test, .call (.removeTimer 0), .ret true,
    .test, .iterate 17000000 17000000 31000000 nothingReady, .test, .ret true, .test]

theorem twoPasses_quiet (s : State) : machine.Along Quiet s twoPasses := by
  have hlabels : ∀ l ∈ twoPasses, ∀ u, Quiet u l := by
    intro l hl u
    simp only [twoPasses, List.mem_cons, List.not_mem_nil, or_false] at hl
    rcases hl with rfl | rfl | rfl | rfl | rfl | rfl | rfl | rfl | rfl | rfl | rfl <;> trivial
  exact (Lib.Machine.along_of_mem s hlabels).mono fun u _ h => h u

theorem timers_as_wheel_twice :
    ∃ s t tr, (machine.exec {} beforeStart).map Prod.fst = some s ∧
      machine.exec s twoPasses = some (t, tr) ∧
      timerEvents tr = [.fired 0 16000000, .fired 1 16000000, .fired 1 31000000] ∧
      timerEvents tr = ((wheelOf s).run (wheelOps s.next twoPasses)).2 := by
  have hrun : (machine.exec {} beforeStart).map (fun r =>
      (decide (r.1.pc = .head ∧ r.1.loop.dispatching = false ∧ r.1.loop.Sorted),
        (machine.exec r.1 twoPasses).map fun q => (decide (q.1.pc = .head), timerEvents q.2)))
      = some (true, some (true,
        [.fired 0 16000000, .fired 1 16000000, .fired 1 31000000])) := by decide +kernel
  obtain ⟨⟨s, tr0⟩, h0, hs⟩ := Option.map_eq_some_iff.mp hrun
  obtain ⟨hbegun, hpasses⟩ := Prod.mk.inj hs
  obtain ⟨hpc, hd, hsorted⟩ := of_decide_eq_true hbegun
  obtain ⟨⟨t, tr⟩, hr, ht⟩ := Option.map_eq_some_iff.mp hpasses
  obtain ⟨hend, hfired⟩ := Prod.mk.inj ht
  have hwheel := timers_as_wheel h0 hpc hd hsorted (twoPasses_quiet s) hr
  exact ⟨s, t, tr, by rw [h0]; rfl, hr, hfired, (hwheel.2 (of_decide_eq_true hend)).1⟩

end Run
end Zmqpp
