import ZmqppPty.Dispatch.Registry

/-!
# The loop (loop.cpp)

A loop has the registrations of a reactor, a list of timers ordered by their deadlines, and its own
queue of timers to remove.  Time points and durations are in the nanoseconds of `steady_clock`, 64
bits of them; what is read from the clock is an argument.  A timer is identified by the address of
its `timer_t`, which the allocator may hand out again once the timer is gone.

* `int64`, `afterDelay`                      the arithmetic of time points, which wraps;
* `addTimer`, `reset`, `removeTimer`    the operations on timers;
* `add`, `remove`                       those on sockets and descriptors;
* `flushRemoveLater`, `tickless`        the helpers of `start`;
* `removeTimers_timers`, `resetFirst_map`, `mem_sortTimers`   what they do to the list of timers.
-/

namespace Zmqpp

/-- the address of a `timer_t` -/
abbrev TimerId := ℕ

/-- a millisecond in the unit of `steady_clock` -/
def msec : ℤ := 1000000

/-- what two's complement makes of an integer in 64 bits -/
def int64 (n : ℤ) : ℤ := n.bmod (2 ^ 64)

/-- the integers that fit in 64 bits -/
def IsInt64 (n : ℤ) : Prop := -2 ^ 63 ≤ n ∧ n < 2 ^ 63

instance : DecidablePred IsInt64 := fun n =>
  inferInstanceAs (Decidable (-2 ^ 63 ≤ n ∧ n < 2 ^ 63))

theorem int64_eq {n : ℤ} (h : IsInt64 n) : int64 n = n := by
  obtain ⟨hlo, hhi⟩ := h
  exact Int.bmod_eq_of_le_mul_two (by push_cast; omega) (by push_cast; omega)

theorem int64_eq_iff {n : ℤ} : int64 n = n ↔ IsInt64 n := by
  refine ⟨fun h => ?_, int64_eq⟩
  have hlo : -(((2 ^ 64 : ℕ) : ℤ) / 2) ≤ int64 n := Int.le_bmod (by norm_num)
  have hhi : int64 n < (((2 ^ 64 : ℕ) : ℤ) + 1) / 2 := Int.bmod_lt (by norm_num)
  rw [h] at hlo hhi
  exact ⟨by omega, by omega⟩

/-- `time + delay`, with the delay in milliseconds -/
def afterDelay (time delay : ℤ) : ℤ := int64 (time + delay * msec)

theorem afterDelay_eq {time delay : ℤ} (h : IsInt64 (time + delay * msec)) :
    afterDelay time delay = time + delay * msec := int64_eq h

/-- a node of `timers_`; `delay` is in milliseconds -/
structure Timer where
  id : TimerId
  times : ℕ
  delay : ℤ
  when : ℤ
  callable : ℕ
deriving DecidableEq, Repr

namespace Timer

def reset (t : Timer) (now : ℤ) : Timer := { t with when := afterDelay now t.delay }
def update (t : Timer) : Timer := { t with when := afterDelay t.when t.delay }

/-- `TimerItemCallablePairComp`, as the order `std::list::sort` keeps equal elements in -/
def NotAfter (a b : Timer) : Prop := a.when ≤ b.when

instance : DecidableRel NotAfter := fun a b => inferInstanceAs (Decidable (a.when ≤ b.when))

end Timer

/-- `timers_.sort`, which is stable -/
def sortTimers (ts : List Timer) : List Timer := ts.insertionSort Timer.NotAfter

structure Loop extends Registry where
  timers : List Timer := []
  timerRemoveLater : List TimerId := []
  rebuildPoller : Bool := false

namespace Loop

def add (l : Loop) (sockets : Sockets) (x : Target) (callable : ℕ) (event : Short) : Loop :=
  { l with toRegistry := l.toRegistry.add sockets x callable event, rebuildPoller := true }

def remove (sockets : Sockets) (l : Loop) (x : Target) : Loop × Except Exn Unit :=
  ({ l with toRegistry := (l.toRegistry.remove sockets x).1,
            rebuildPoller := if l.dispatching then true else l.rebuildPoller },
    (l.toRegistry.remove sockets x).2)

/-- `add(delay, times, callable)` at the time `now`; the new `timer_t` is at `id` -/
def addTimer (l : Loop) (now : ℤ) (id : TimerId) (delay : ℤ) (times callable : ℕ) : Loop :=
  { l with timers := sortTimers (l.timers ++ [⟨id, times, delay, afterDelay now delay, callable⟩]) }

/-- the first timer of that identifier is reset -/
def resetFirst (now : ℤ) (id : TimerId) : List Timer → List Timer
  | [] => []
  | t :: ts => if t.id = id then t.reset now :: ts else t :: resetFirst now id ts

def reset (l : Loop) (now : ℤ) (id : TimerId) : Loop :=
  if id ∈ l.timers.map Timer.id then { l with timers := sortTimers (resetFirst now id l.timers) }
  else l

def removeTimer (l : Loop) (id : TimerId) : Loop :=
  if l.dispatching then { l with timerRemoveLater := l.timerRemoveLater ++ [id] }
  else { l with timers := l.timers.filter fun t => t.id ≠ id }

def setDispatching (l : Loop) (b : Bool) : Loop :=
  { l with toRegistry := l.toRegistry.setDispatching b }

/-- The range-fors keep the end they begin with.  If an exception has left `dispatching_` set, the
removals queue themselves again behind it (in vectors with room for them; C++ leaves it undefined
where one grows under its loop), and are cleared with the rest. -/
def flushRemoveLater (sockets : Sockets) (l : Loop) : Loop × Except Exn Unit :=
  match Lib.each (remove sockets) (l.fdRemoveLater.map Target.fd) l with
  | (l, .error e) => (l, .error e)
  | (l, .ok ()) =>
    match Lib.each (remove sockets) (l.sockRemoveLater.map Target.socket) l with
    | (l, .error e) => (l, .error e)
    | (l, .ok ()) =>
      let l := l.timerRemoveLater.foldl removeTimer l
      ({ l with fdRemoveLater := [], sockRemoveLater := [], timerRemoveLater := [] }, .ok ())

/-- the timeout in milliseconds; `now` and `now'` are the two readings of the clock -/
def tickless (l : Loop) (now now' : ℤ) : ℤ :=
  let tick := afterDelay now 3600000
  let tick :=
    match l.timers.head? with
    | some t => if t.when < tick then t.when else tick
    | none => tick
  let timeout := (int64 (tick - now')).tdiv msec
  if timeout < 0 then 0 else timeout

/-! ## the list of timers -/

instance : Std.Total Timer.NotAfter := ⟨fun a b => le_total a.when b.when⟩

instance : IsTrans Timer Timer.NotAfter := ⟨fun _ _ _ hab hbc => Int.le_trans hab hbc⟩

theorem sortTimers_perm (ts : List Timer) : (sortTimers ts).Perm ts :=
  List.perm_insertionSort Timer.NotAfter ts

theorem sortTimers_sorted (ts : List Timer) : (sortTimers ts).Pairwise Timer.NotAfter :=
  List.pairwise_insertionSort Timer.NotAfter ts

theorem mem_sortTimers {ts : List Timer} {t : Timer} : t ∈ sortTimers ts ↔ t ∈ ts :=
  (sortTimers_perm ts).mem_iff

/-- a reset changes deadlines only -/
theorem resetFirst_map {β : Type} (f : Timer → β) (hf : ∀ t now, f (t.reset now) = f t) (now : ℤ)
    (id : TimerId) (ts : List Timer) : (resetFirst now id ts).map f = ts.map f := by
  induction ts with
  | nil => rfl
  | cons t ts ih =>
    unfold resetFirst
    split
    · rw [List.map_cons, List.map_cons, hf]
    · rw [List.map_cons, List.map_cons, ih]

theorem removeTimers_rest (ids : List TimerId) (l : Loop) :
    (ids.foldl removeTimer l).toRegistry = l.toRegistry ∧
      (ids.foldl removeTimer l).rebuildPoller = l.rebuildPoller := by
  induction ids generalizing l with
  | nil => exact ⟨rfl, rfl⟩
  | cons id ids ih =>
    rw [List.foldl_cons, (ih _).1, (ih _).2]
    unfold removeTimer
    split <;> exact ⟨rfl, rfl⟩

/-- outside a dispatch the queued timers are removed -/
theorem removeTimers_timers (ids : List TimerId) {l : Loop} (hd : l.dispatching = false) :
    (ids.foldl removeTimer l).timers = l.timers.filter fun t => t.id ∉ ids := by
  induction ids generalizing l with
  | nil => simp
  | cons id ids ih =>
    have hstep : l.removeTimer id = { l with timers := l.timers.filter fun t => t.id ≠ id } := by
      unfold removeTimer
      rw [hd]
      rfl
    have hd' : (l.removeTimer id).dispatching = false := by
      rw [hstep]
      exact hd
    rw [List.foldl_cons, ih hd', hstep]
    dsimp only
    rw [List.filter_filter]
    apply List.filter_congr
    intro t _
    simp only [List.mem_cons, not_or, ne_eq, decide_not, Bool.decide_and]
    exact Bool.and_comm _ _

theorem removeTimers_sublist (ids : List TimerId) (l : Loop) :
    (ids.foldl removeTimer l).timers.Sublist l.timers := by
  induction ids generalizing l with
  | nil => exact List.Sublist.refl _
  | cons id ids ih =>
    rw [List.foldl_cons]
    refine (ih _).trans ?_
    unfold removeTimer
    split
    · exact List.Sublist.refl _
    · exact List.filter_sublist

/-! ## the flush -/

/-- what a flush does to the registrations it does in a reactor -/
theorem flushRemoveLater_toRegistry (sockets : Sockets) (l : Loop) :
    (flushRemoveLater sockets l).1.toRegistry
        = (Registry.flushRemoveLater sockets l.toRegistry).1 ∧
      (flushRemoveLater sockets l).2 = (Registry.flushRemoveLater sockets l.toRegistry).2 := by
  have hloop (xs : List Target) (l : Loop) := Lib.each_proj Loop.toRegistry
    (f := remove sockets) (g := Registry.remove sockets) (fun _ _ => ⟨rfl, rfl⟩) xs l
  obtain ⟨hfd, hfd'⟩ := hloop (l.fdRemoveLater.map Target.fd) l
  unfold flushRemoveLater Registry.flushRemoveLater
  rw [show Lib.each (Registry.remove sockets) (l.fdRemoveLater.map Target.fd) l.toRegistry = (_, _)
    from Prod.ext hfd.symm hfd'.symm]
  cases Lib.each (remove sockets) (l.fdRemoveLater.map Target.fd) l with
  | mk l1 res =>
    cases res with
    | error e => exact ⟨rfl, rfl⟩
    | ok u =>
      obtain ⟨hsock, hsock'⟩ := hloop (l1.sockRemoveLater.map Target.socket) l1
      dsimp only
      rw [show Lib.each (Registry.remove sockets) (l1.sockRemoveLater.map Target.socket)
        l1.toRegistry = (_, _) from Prod.ext hsock.symm hsock'.symm]
      cases Lib.each (remove sockets) (l1.sockRemoveLater.map Target.socket) l1 with
      | mk l2 res' =>
        cases res' with
        | error e => exact ⟨rfl, rfl⟩
        | ok u =>
          refine ⟨?_, rfl⟩
          dsimp only
          rw [(removeTimers_rest l2.timerRemoveLater l2).1]

/-- what the removals of sockets and descriptors leave alone -/
def Apart (l l' : Loop) : Prop :=
  l'.timers = l.timers ∧ l'.timerRemoveLater = l.timerRemoveLater ∧
    (l.dispatching = false → l'.dispatching = false ∧ l'.rebuildPoller = l.rebuildPoller)

theorem apart_each (sockets : Sockets) (xs : List Target) {l l' : Loop} (h : l.Apart l') :
    l.Apart (Lib.each (remove sockets) xs l').1 := by
  refine Lib.each_state l.Apart ?_ h
  intro t x _ ht
  refine ⟨ht.1, ht.2.1, fun hd => ?_⟩
  obtain ⟨hidle, hrebuild⟩ := ht.2.2 hd
  refine ⟨?_, ?_⟩
  · show (Registry.remove sockets t.toRegistry x).1.dispatching = false
    unfold Registry.remove
    rw [hidle]
    cases x.key sockets with
    | none => exact hidle
    | some k => exact hidle
  · show (if t.dispatching = true then true else t.rebuildPoller) = _
    rw [hidle]
    exact hrebuild

/-- the flush up to the timers, and theirs -/
theorem flushRemoveLater_apart (sockets : Sockets) (l : Loop) : ∃ l', l.Apart l' ∧
    (((flushRemoveLater sockets l).2 ≠ .ok () ∧ (flushRemoveLater sockets l).1 = l') ∨
      ((flushRemoveLater sockets l).2 = .ok () ∧ (flushRemoveLater sockets l).1
        = { l.timerRemoveLater.foldl removeTimer l' with
              fdRemoveLater := [], sockRemoveLater := [], timerRemoveLater := [] })) := by
  have hself : l.Apart l := ⟨rfl, rfl, fun h => ⟨h, rfl⟩⟩
  have hfd := apart_each sockets (l.fdRemoveLater.map Target.fd) hself
  unfold flushRemoveLater
  cases h : Lib.each (remove sockets) (l.fdRemoveLater.map Target.fd) l with
  | mk l1 res =>
    rw [h] at hfd
    cases res with
    | error e => exact ⟨l1, hfd, Or.inl ⟨nofun, rfl⟩⟩
    | ok u =>
      have hsock := apart_each sockets (l1.sockRemoveLater.map Target.socket) hfd
      dsimp only
      cases h' : Lib.each (remove sockets) (l1.sockRemoveLater.map Target.socket) l1 with
      | mk l2 res' =>
        rw [h'] at hsock
        cases res' with
        | error e => exact ⟨l2, hsock, Or.inl ⟨nofun, rfl⟩⟩
        | ok u =>
          refine ⟨l2, hsock, Or.inr ⟨rfl, ?_⟩⟩
          dsimp only
          rw [hsock.2.1]

/-- what a flush does to the timers: if it throws, nothing -/
theorem flushRemoveLater_timers (sockets : Sockets) (l : Loop) :
    (flushRemoveLater sockets l).1.timers.Sublist l.timers ∧
    (l.dispatching = false → (flushRemoveLater sockets l).1.rebuildPoller = l.rebuildPoller) ∧
    ((flushRemoveLater sockets l).2 ≠ .ok () →
      (flushRemoveLater sockets l).1.timers = l.timers ∧
        (flushRemoveLater sockets l).1.timerRemoveLater = l.timerRemoveLater) ∧
    ((flushRemoveLater sockets l).2 = .ok () →
      (flushRemoveLater sockets l).1.timerRemoveLater = [] ∧
        (l.dispatching = false →
          (flushRemoveLater sockets l).1.timers
            = l.timers.filter fun t => t.id ∉ l.timerRemoveLater)) := by
  obtain ⟨l', ⟨htimers, hqueue, hidle⟩, ⟨hres, hl⟩ | ⟨hres, hl⟩⟩ := flushRemoveLater_apart sockets l
  · rw [hl]
    exact ⟨htimers ▸ List.Sublist.refl _, fun hd => (hidle hd).2, fun _ => ⟨htimers, hqueue⟩,
      fun h => absurd h hres⟩
  · rw [hl, ← htimers]
    exact ⟨removeTimers_sublist l.timerRemoveLater l',
      fun hd => (removeTimers_rest l.timerRemoveLater l').2.trans (hidle hd).2,
      fun h => absurd hres h,
      fun _ => ⟨rfl, fun hd => removeTimers_timers l.timerRemoveLater (hidle hd).1⟩⟩

end Loop
end Zmqpp
