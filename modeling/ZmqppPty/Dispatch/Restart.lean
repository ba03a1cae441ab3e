import ZmqppPty.Dispatch.Schedule

/-!
# What a reset does to the deadline

A reset sets the deadline to one delay from now, if a time point can say that.  The pass adds a
delay to the deadline of the timer whose callable has returned; if that callable has reset its own
timer, the delay counts twice.

* `Restarted`        one delay after its last reset, or after its creation, a timer is due;
* `DueFits`          time points can say so;
* `NotByItself`      no callable resets its own timer, unless that changes nothing;
* `OneDelay`         the node of a timer that has not been invoked since;
* `Restarting`, `step_restarting`     the invariant, and that every step keeps it;
* `reset_restarts`   the deadlines in all runs;
* `own_reset_counts_twice`   a callable that resets its own timer.
-/

namespace Zmqpp
namespace Run

def Pc.inCallable : Pc → Bool
  | .timer _ _ _ | .item _ _ => true
  | _ => false

/-- while no callable runs: a timer not invoked since its last reset is due one delay after it -/
def Restarted (s : State) (tr : List Event) : Prop :=
  s.pc.inCallable = false → ∀ t ∈ s.loop.timers, ∃ h, history t.callable tr = some h ∧
    (h.since = 0 → t.when = h.base + t.delay * msec)

/-- one delay after the last reset of a timer that has not been invoked since is a time point -/
def DueFits (s : State) (tr : List Event) : Prop :=
  ∀ t ∈ s.loop.timers, ∀ h ∈ history t.callable tr, h.since = 0 →
    IsInt64 (h.base + t.delay * msec)

instance (s : State) (tr : List Event) : Decidable (DueFits s tr) :=
  inferInstanceAs (Decidable (∀ t ∈ s.loop.timers, ∀ h ∈ history t.callable tr, h.since = 0 →
    IsInt64 (h.base + t.delay * msec)))

/-- a timer is not reset by its own callable, unless it has no delay or this is its last
invocation -/
def NotByItself (s : State) : Label → Prop
  | .call (.reset id _) => ∀ t ∈ s.loop.timers, t.id = id → s.pc.running = some t.callable →
      t.delay = 0 ∨ t.times = 1
  | _ => True

instance (s : State) : DecidablePred (NotByItself s)
  | .call (.reset id _) => inferInstanceAs (Decidable (∀ t ∈ s.loop.timers, t.id = id →
      s.pc.running = some t.callable → t.delay = 0 ∨ t.times = 1))
  | .call (.add _ _) | .call (.remove _) | .call (.addTimer _ _ _ _) | .call (.removeTimer _)
  | .moved _ _ | .start | .iterate _ _ _ _ | .test | .ret _ | .throw => isTrue trivial

/-! ## the invariant -/

/-- the node `t` while the callable of the timer numbered `r` runs -/
def OneDelay (r : Option ℕ) (h : History) (t : Timer) : Prop :=
  h.since = 0 → t.when = afterDelay h.base t.delay ∧
    (r = some t.callable → t.delay = 0 ∨ t.times = 1)

structure Restarting (s : State) (tr : List Event) : Prop where
  numbered : Numbered s.loop s.next
  running : ∀ c, s.pc.running = some c → c < s.next
  timers : ∀ t ∈ s.loop.timers, ∃ h, history t.callable tr = some h ∧ OneDelay s.pc.running h t

theorem restarting_init (sockets : Sockets) (clock : ℤ) :
    Restarting { sockets := sockets, clock := clock } [] := ⟨numbered_init 0, nofun, nofun⟩

theorem OneDelay.mono {r r' : Option ℕ} {h : History} {t : Timer} (ht : OneDelay r h t)
    (hr : ∀ c, r' = some c → r = some c) : OneDelay r' h t := by
  intro hs
  obtain ⟨hwhen, hown⟩ := ht hs
  exact ⟨hwhen, fun hc => hown (hr _ hc)⟩

theorem Restarting.restarted_iff {s : State} {tr : List Event} (h : Restarting s tr) :
    Restarted s tr ↔ (s.pc.inCallable = false → DueFits s tr) := by
  constructor
  · intro hdue hpc t ht hh hhist hs
    obtain ⟨h₁, hhist₁, hwhen⟩ := hdue hpc t ht
    obtain ⟨h₂, hhist₂, hone⟩ := h.timers t ht
    rw [Option.mem_def.mp hhist] at hhist₁ hhist₂
    cases hhist₁
    cases hhist₂
    exact int64_eq_iff.mp ((hone hs).1.symm.trans (hwhen hs))
  · intro hfits hpc t ht
    obtain ⟨hh, hhist, hone⟩ := h.timers t ht
    exact ⟨hh, hhist, fun hs => (hone hs).1.trans (afterDelay_eq (hfits hpc t ht hh hhist hs))⟩

/-- a step on which no timer is created, reset or invoked, and no callable of one returns -/
theorem Restarting.quiet {s t : State} {tr e : List Event} (h : Restarting s tr)
    (hn : Numbered t.loop t.next) (hnext : s.next ≤ t.next)
    (hpc : ∀ c, t.pc.running = some c → s.pc.running = some c)
    (ht : t.loop.timers ⊆ s.loop.timers) (he : ∀ c, history c (tr ++ e) = history c tr) :
    Restarting t (tr ++ e) := by
  refine ⟨hn, fun c hc => Nat.lt_of_lt_of_le (h.running c (hpc c hc)) hnext, ?_⟩
  intro u hu
  rw [he]
  obtain ⟨hh, hhist, hone⟩ := h.timers u (ht hu)
  exact ⟨hh, hhist, hone.mono hpc⟩

theorem Restarting.addTimer {s : State} {tr : List Event} (h : Restarting s tr) (delay : ℤ)
    (times : ℕ) (id : TimerId) (now : ℤ) :
    Restarting { s with loop := s.loop.addTimer now id delay times s.next, next := s.next + 1,
                        clock := now } (tr ++ [.created s.next delay times now]) := by
  refine ⟨numbered_new h.numbered (numbers_addTimer _ _ _ _ _ _),
    fun c hc => Nat.lt_succ_of_lt (h.running c hc), ?_⟩
  intro u hu
  change u ∈ sortTimers _ at hu
  rw [history_created]
  rcases List.mem_append.mp (Loop.mem_sortTimers.mp hu) with hu | hu
  · rw [if_neg (Nat.ne_of_gt (h.numbered.timer_lt hu))]
    exact h.timers u hu
  · rw [List.mem_singleton.mp hu, if_pos rfl]
    refine ⟨_, rfl, fun _ => ⟨rfl, ?_⟩⟩
    intro hrun
    exact absurd (h.running _ hrun) (Nat.lt_irrefl _)

theorem Restarting.reset {s : State} {tr : List Event} (h : Restarting s tr) {id : TimerId}
    {now : ℤ} (ho : NotByItself s (.call (.reset id now))) :
    Restarting { s with loop := s.loop.reset now id, clock := now }
      (tr ++ resetEvent s.loop id now) := by
  have hnum := h.numbered.fewer (fewer_reset s.loop now id)
  unfold resetEvent
  cases hf : s.loop.timers.find? fun t => t.id = id with
  | none =>
    rw [reset_none hf]
    exact h.quiet h.numbered (Nat.le_refl _) (fun c hc => hc) (List.Subset.refl _)
      fun c => history_nil c tr
  | some t =>
    show Restarting _ (tr ++ [.reset t.callable now])
    refine ⟨hnum, h.running, ?_⟩
    intro u hu
    dsimp only at hu
    rw [reset_timers h.numbered hf, Loop.mem_sortTimers] at hu
    obtain ⟨v, hv, rfl⟩ := List.mem_map.mp hu
    obtain ⟨hh, hhv, hone⟩ := h.timers v hv
    by_cases e : v.callable = t.callable
    · rw [if_pos e]
      show ∃ h', history v.callable _ = some h' ∧ OneDelay s.pc.running h' (v.reset now)
      rw [history_reset, if_pos e.symm, hhv]
      refine ⟨hh.reset now, rfl, fun _ => ⟨rfl, ?_⟩⟩
      have hid : v.id = id := by
        rw [h.numbered.timer_unique hv (List.mem_of_find?_eq_some hf) e]
        simpa using List.find?_some hf
      exact ho v hv hid
    · rw [if_neg e, history_reset, if_neg (Ne.symm e)]
      exact ⟨hh, hhv, hone⟩

theorem Restarting.fire {s : State} {tr : List Event} (h : Restarting s tr) {now : ℤ} {rc : Bool}
    {t : Timer} (ht : t ∈ s.loop.timers) :
    Restarting { s with pc := .timer now t.callable rc } (tr ++ [.fired t.callable now]) := by
  refine ⟨h.numbered, fun c hc => ?_, fun u hu => ?_⟩
  · cases hc
    exact h.numbered.timer_lt ht
  · obtain ⟨hh, hhu, hone⟩ := h.timers u hu
    rw [history_fired]
    by_cases e : t.callable = u.callable
    · rw [if_pos e, hhu]
      exact ⟨hh.fire, rfl, nofun⟩
    · rw [if_neg e]
      refine ⟨hh, hhu, fun hs => ⟨(hone hs).1, ?_⟩⟩
      intro hrun
      exact absurd (Option.some.inj hrun) e

/-- a second delay, after the first has been wrapped -/
theorem afterDelay_twice (time delay : ℤ) :
    afterDelay (afterDelay time delay) delay = int64 (time + 2 * (delay * msec)) := by
  unfold afterDelay int64
  rw [Int.bmod_add_bmod]
  congr 1
  omega

theorem afterDelay_zero (time delay : ℤ) : afterDelay (afterDelay time delay) 0
    = afterDelay time delay := by
  unfold afterDelay int64
  rw [Int.zero_mul, Int.add_zero, Int.bmod_bmod]

/-- the update after the callable has returned adds nothing, or the timer is gone -/
theorem Restarting.returned {s t : State} {tr : List Event} (h : Restarting s tr) {u : Timer}
    (hu : u ∈ s.loop.timers) (hrun : s.pc.running = some u.callable)
    (hpc : t.pc.running = none) (hn : Numbered t.loop t.next)
    (ht : t.loop.timers ⊆ (s.loop.timerReturned u).timers) : Restarting t (tr ++ []) := by
  rw [List.append_nil]
  have hidle (c : ℕ) (hc : t.pc.running = some c) : s.pc.running = some c := by
    rw [hpc] at hc
    cases hc
  refine ⟨hn, fun c hc => ?_, fun v hv => ?_⟩
  · rw [hpc] at hc
    cases hc
  · have hv' := ht hv
    unfold Loop.timerReturned at hv'
    split at hv'
    · obtain ⟨hh, hhist, hone⟩ := h.timers v (List.mem_filter.mp hv').1
      exact ⟨hh, hhist, hone.mono hidle⟩
    · rename_i hlast
      obtain ⟨w, hw, rfl⟩ := List.mem_map.mp hv'
      obtain ⟨hh, hhist, hone⟩ := h.timers w hw
      by_cases e : w.callable = u.callable
      · rw [if_pos e]
        refine ⟨hh, hhist, fun hs => ?_⟩
        obtain ⟨hwhen, hown⟩ := hone hs
        rw [h.numbered.timer_unique hw hu e] at hwhen hown
        have hzero : u.delay = 0 := (hown hrun).resolve_right fun h1 => hlast (by omega)
        refine ⟨?_, fun hc => ?_⟩
        · rw [h.numbered.timer_unique hw hu e]
          show afterDelay u.when u.delay = afterDelay hh.base u.delay
          rw [hwhen, hzero, afterDelay_zero]
        · rw [hpc] at hc
          cases hc
      · rw [if_neg e]
        exact ⟨hh, hhist, hone.mono hidle⟩

theorem step_restarting {s t : State} {l : Label} {e tr : List Event} (hs : Step s l t e)
    (ho : NotByItself s l) (h : Restarting s tr) : Restarting t (tr ++ e) := by
  have hn := step_numbered hs h.numbered
  have hnext := step_next hs
  cases hs with
  | addTimer delay times id now hu hclock hid => exact h.addTimer delay times id now
  | reset id now hu hclock => exact h.reset ho
  | fire now c rc tm hpc ht htm hdue =>
    subst htm
    exact h.fire ht
  | timerTrue now c rc tm hpc ht htm =>
    subst htm
    exact h.returned ht (by rw [hpc]; rfl) rfl hn (List.Subset.refl _)
  | timerFalse now c rc tm hpc ht htm =>
    subst htm
    exact h.returned ht (by rw [hpc]; rfl) rfl hn
      (finish_timers_sublist { s with loop := s.loop.timerReturned tm }).subset
  | timersDone now it rc hpc =>
    refine h.quiet hn hnext (fun c hc => ?_) (fun u hu => ?_) fun c => history_nil c tr
    · rw [(timersDone_idle s rc).1] at hc
      cases hc
    · rw [(timersDone_rest s rc).1] at hu
      exact Loop.mem_sortTimers.mp hu
  | removeTimer id hu =>
    exact h.quiet hn hnext (fun c hc => hc) (Loop.removeTimers_sublist [id] s.loop).subset
      fun c => history_nil c tr
  | flushThrows now now' passNow zmqPoll hpc hf =>
    exact h.quiet hn hnext nofun (flushed_timers_sublist s).subset fun c => history_nil c tr
  | pollThrows now now' passNow zmqPoll p hpc hclock hf =>
    exact h.quiet hn hnext nofun (flushed_timers_sublist s).subset
      fun c => history_tickless c tr _ _ _
  | iterate now now' passNow zmqPoll p rc hpc hclock hf =>
    exact h.quiet hn hnext nofun (flushed_timers_sublist s).subset
      fun c => history_tickless c tr _ _ _
  | handle i n item c hpc hi hit hready =>
    exact h.quiet hn hnext nofun (List.Subset.refl _) fun c' => history_handled c' c tr
  | itemFalse i n hpc =>
    exact h.quiet hn hnext nofun (finish_timers_sublist s).subset fun c => history_nil c tr
  | add x event hu =>
    exact h.quiet hn hnext (fun c hc => hc) (List.Subset.refl _) fun c => history_nil c tr
  | remove x hu =>
    exact h.quiet hn hnext (fun c hc => hc) (List.Subset.refl _) fun c => history_nil c tr
  | moved r p hu =>
    exact h.quiet hn hnext (fun c hc => hc) (List.Subset.refl _) fun c => history_nil c tr
  | _ => exact h.quiet hn hnext nofun (List.Subset.refl _) fun c => history_nil c tr

/-! ## the runs -/

/-- **A reset restarts the delay**, if no callable resets its own timer before a further
invocation and the deadline is a time point. -/
theorem reset_restarts {sockets : Sockets} {clock : ℤ} {ls : List Label} {s : State}
    {tr : List Event} (hok : machine.Along NotByItself { sockets := sockets, clock := clock } ls)
    (hr : machine.exec { sockets := sockets, clock := clock } ls = some (s, tr)) :
    Restarted s tr ↔ (s.pc.inCallable = false → DueFits s tr) := by
  have hinv : Restarting s ([] ++ tr) := Lib.Machine.exec_inv Restarting
    (fun s tr l t e h ho hs => step_restarting (step_cases hs) ho h)
    [] (restarting_init sockets clock) hok hr
  exact hinv.restarted_iff

/-- the callable of one timer resets another, which is not due -/
def resetsOther : List Label :=
  [.call (.addTimer 10 1 0 0), .call (.addTimer 20 0 1 0), .start,
    .iterate 0 0 12000000 nothingReady, .test, .call (.reset 1 13000000), .ret true, .test]

theorem reset_restarts_other :
    ∃ s tr, machine.exec {} resetsOther = some (s, tr) ∧
      s.loop.timers.map Timer.when = [33000000] ∧ Restarted s tr := by
  have hrun : (machine.exec {} resetsOther).map (fun r =>
      (r.1.loop.timers.map Timer.when, decide (DueFits r.1 r.2))) = some ([33000000], true) := by
    decide +kernel
  obtain ⟨⟨s, tr⟩, hr, hs⟩ := Option.map_eq_some_iff.mp hrun
  obtain ⟨hwhen, hfits⟩ := Prod.mk.inj hs
  have hok : machine.Along NotByItself {} resetsOther := by decide +kernel
  exact ⟨s, tr, hr, hwhen, (reset_restarts hok hr).mpr fun _ => of_decide_eq_true hfits⟩

/-! ## a callable that resets its own timer -/

/-- **A callable that resets its own timer delays it twice**, unless this was the last
invocation. -/
theorem own_reset_counts_twice {s s' t : State} {id : TimerId} {now : ℤ} {e e' : List Event}
    {tm : Timer} (hn : Numbered s.loop s.next) (hs : Step s (.call (.reset id now)) s' e)
    (hs' : Step s' (.ret true) t e') (hf : (s.loop.timers.find? fun t => t.id = id) = some tm)
    (hrun : s.pc.running = some tm.callable) (htimes : tm.times ≠ 1) :
    ∃ u ∈ t.loop.timers, u.callable = tm.callable ∧
      u.when = int64 (now + 2 * (tm.delay * msec)) := by
  cases hs with
  | reset _ _ hu hclock =>
    have hn' := step_numbered (Step.reset id now hu hclock) hn
    have hmem : tm.reset now ∈ (s.loop.reset now id).timers := by
      rw [reset_timers hn hf, Loop.mem_sortTimers]
      exact List.mem_map.mpr ⟨tm, List.mem_of_find?_eq_some hf, if_pos rfl⟩
    cases hs' with
    | timerTrue pass c rc v hpc hv hc =>
      have hcall : c = tm.callable := by
        change s.pc = _ at hpc
        rw [hpc] at hrun
        exact Option.some.inj hrun
      obtain rfl : v = tm.reset now := hn'.timer_unique hv hmem (hc.trans hcall)
      refine ⟨{ tm.reset now with times := tm.times - 1 }.update, ?_, rfl, ?_⟩
      · dsimp only
        unfold Loop.timerReturned
        have hlast : ¬ ((tm.reset now).times ≠ 0 ∧ (tm.reset now).times - 1 = 0) := by
          show ¬ (tm.times ≠ 0 ∧ tm.times - 1 = 0)
          omega
        rw [if_neg hlast]
        exact List.mem_map.mpr ⟨tm.reset now, hmem, if_pos rfl⟩
      · exact afterDelay_twice now tm.delay
    | itemTrue i n hpc =>
      change s.pc = _ at hpc
      rw [hpc] at hrun
      cases hrun

/-- **A reset by the own callable does not restart the delay.** -/
theorem own_reset_not_restarted :
    ∃ s tr, machine.exec {} [.call (.addTimer 10 0 0 0), .start,
        .iterate 0 0 12000000 nothingReady, .test, .call (.reset 0 13000000), .ret true, .test]
        = some (s, tr) ∧ ¬ Restarted s tr := by
  have hrun : (machine.exec {} [.call (.addTimer 10 0 0 0), .start,
        .iterate 0 0 12000000 nothingReady, .test, .call (.reset 0 13000000), .ret true,
        .test]).map (fun r => (r.1.pc.inCallable, r.1.loop.timers, r.2))
      = some (false, [⟨0, 0, 10, 33000000, 0⟩], [.created 0 10 0 0, .tickless [10000000] 0 10,
          .fired 0 12000000, .reset 0 13000000]) := by decide +kernel
  obtain ⟨⟨s, tr⟩, hr, hs⟩ := Option.map_eq_some_iff.mp hrun
  simp only [Prod.mk.injEq] at hs
  obtain ⟨hpc, htimers, htr⟩ := hs
  refine ⟨s, tr, hr, ?_⟩
  intro hall
  obtain ⟨h, hh, hwhen⟩ := hall hpc ⟨0, 0, 10, 33000000, 0⟩
    (by rw [htimers]; exact List.mem_singleton_self _)
  rw [htr] at hh
  have hbase : some h = some ⟨10, 0, 0, 13000000, 0, 1⟩ := hh.symm.trans rfl
  cases hbase
  exact absurd (hwhen rfl) (by decide)

end Run
end Zmqpp
