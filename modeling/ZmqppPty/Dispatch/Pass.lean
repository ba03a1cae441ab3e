import ZmqppPty.Dispatch.Backlog
import ZmqppPty.Dispatch.Stable

/-!
# A timer pass comes to its end (loop::start_handle_timers in loop.cpp)

The callables are arbitrary: each may make calls that depend on all that has happened, as long as
it returns.  Added and reset timers are not due in the pass under way, unless their deadlines wrap,
and removals wait for its end, so every invocation leaves less to do.

* `handleTimers`        the pass with the callables filled in;
* `Returning`           each callable makes finitely many calls and returns;
* `FitsFor`             no deadline that the pass computes is too late for a time point;
* `TimerPass`           what holds of the loop in a pass;
* `Invoked`, `step_invoked`   while a callable runs, and that its calls keep it;
* `handleTimers_returns`      the induction over what is left;
* `timer_pass_returns`  the pass returns;
* `overflow_never_returns`   a callable whose timers wrap, and keep it going for ever.
-/

namespace Zmqpp
namespace Run

/-- `start_handle_timers` from the iterator on, and the flush if it returns false.  The callables
are told what has happened, and say which calls they make and what they return; `none` if `fuel` is
too small or one of the calls is impossible. -/
def handleTimers (callables : List Event → State → List Label × Bool) :
    ℕ → List Event → State → Option (State × List Event)
  | 0, _, _ => none
  | fuel + 1, tr, s =>
    match step s .test with
    | none => none
    | some (t, e) =>
      if t.pc.running = none then some (t, tr ++ e)
      else
        let c := callables (tr ++ e) t
        match machine.exec t (c.1 ++ [.ret c.2]) with
        | none => none
        | some (u, e') =>
          if c.2 then handleTimers callables fuel (tr ++ e ++ e') u
          else some (u, tr ++ e ++ e')

/-- what a callable may do: calls of the loop's functions, where no timer gets a negative delay -/
def Label.InCallable : Label → Prop
  | .call (.addTimer delay _ _ _) => 0 ≤ delay
  | .call _ | .moved _ _ => True
  | _ => False

/-- wherever a callable is invoked, it makes finitely many calls, which are possible, and returns -/
def Returning (callables : List Event → State → List Label × Bool) : Prop :=
  ∀ tr s, s.pc.running ≠ none → (∀ l ∈ (callables tr s).1, l.InCallable) ∧
    ∃ t e, machine.exec s (callables tr s).1 = some (t, e)

/-- in the first `fuel` invocations, up to the returns, no deadline that is computed leaves the 64
bits of a time point -/
def FitsFor (callables : List Event → State → List Label × Bool) :
    ℕ → List Event → State → Prop
  | 0, _, _ => True
  | fuel + 1, tr, s =>
    match step s .test with
    | none => True
    | some (t, e) =>
      if t.pc.running = none then True
      else
        let c := callables (tr ++ e) t
        machine.Along Fits t (c.1 ++ [.ret c.2]) ∧
          match machine.exec t (c.1 ++ [.ret c.2]) with
          | none => True
          | some (u, e') => if c.2 then FitsFor callables fuel (tr ++ e ++ e') u else True

instance decidableFitsFor (callables : List Event → State → List Label × Bool) :
    ∀ fuel tr s, Decidable (FitsFor callables fuel tr s)
  | 0, _, _ => isTrue trivial
  | fuel + 1, tr, s =>
    match h : step s .test with
    | none => isTrue (by rw [FitsFor, h]; trivial)
    | some (t, e) =>
      if hrun : t.pc.running = none then
        isTrue (by rw [FitsFor, h]; exact (if_pos hrun).mpr trivial)
      else
        let c := callables (tr ++ e) t
        match h' : machine.exec t (c.1 ++ [.ret c.2]) with
        | none => decidable_of_iff (machine.Along Fits t (c.1 ++ [.ret c.2])) (by
            rw [FitsFor, h]
            dsimp only
            rw [if_neg hrun, h']
            exact (and_iff_left trivial).symm)
        | some (u, e') =>
          haveI := decidableFitsFor callables fuel (tr ++ e ++ e') u
          decidable_of_iff (machine.Along Fits t (c.1 ++ [.ret c.2]) ∧
              if c.2 then FitsFor callables fuel (tr ++ e ++ e') u else True) (by
            rw [FitsFor, h]
            dsimp only
            rw [if_neg hrun, h'])

/-- no timer has a negative delay -/
def NonnegDelays (l : Loop) : Prop := ∀ t ∈ l.timers, 0 ≤ t.delay

/-- in a pass at the time `now` -/
structure TimerPass (now : ℤ) (s : State) : Prop where
  numbered : Numbered s.loop s.next
  dispatching : s.loop.dispatching = true
  nonneg : NonnegDelays s.loop
  clock : now ≤ s.clock

theorem NonnegDelays.subset {l l' : Loop} (h : NonnegDelays l) (hs : l'.timers ⊆ l.timers) :
    NonnegDelays l' := fun t ht => h t (hs ht)

theorem NonnegDelays.sort {l : Loop} (ts : List Timer) (h : ∀ t ∈ ts, 0 ≤ t.delay)
    (hs : l.timers = sortTimers ts) : NonnegDelays l := by
  intro t ht
  rw [hs, Loop.mem_sortTimers] at ht
  exact h t ht

theorem NonnegDelays.reset {l : Loop} (h : NonnegDelays l) (now : ℤ) (id : TimerId) :
    NonnegDelays (l.reset now id) := by
  unfold Loop.reset
  split
  · refine NonnegDelays.sort (Loop.resetFirst now id l.timers) ?_ rfl
    intro t ht
    have hmem : t.delay ∈ (Loop.resetFirst now id l.timers).map Timer.delay :=
      List.mem_map_of_mem ht
    rw [Loop.resetFirst_map Timer.delay fun _ _ => rfl] at hmem
    obtain ⟨v, hv, hdelay⟩ := List.mem_map.mp hmem
    rw [← hdelay]
    exact h v hv
  · exact h

theorem NonnegDelays.returned {l : Loop} (h : NonnegDelays l) (u : Timer) :
    NonnegDelays (l.timerReturned u) := by
  intro t ht
  rcases timerReturned_timers l u with heq | ⟨-, heq⟩
  · rw [heq] at ht
    exact h t (List.mem_filter.mp ht).1
  · rw [heq] at ht
    obtain ⟨v, hv, rfl⟩ := List.mem_map.mp ht
    have hnonneg := h v hv
    unfold afterReturn
    split <;> exact hnonneg

/-! ## while a callable runs -/

structure Invoked (now : ℤ) (c : ℕ) (rc : Bool) (u b z : ℕ) (s : State) : Prop where
  pc : s.pc = .timer now c rc
  pass : TimerPass now s
  timer : c ∈ s.loop.timers.map Timer.callable
  below : Below now u b z c s.loop.timers

theorem mem_map_of_sort {ts : List Timer} {c : ℕ} :
    c ∈ (sortTimers ts).map Timer.callable ↔ c ∈ ts.map Timer.callable :=
  ((Loop.sortTimers_perm ts).map Timer.callable).mem_iff

theorem Invoked.addTimer {now : ℤ} {c : ℕ} {rc : Bool} {u b z : ℕ} {s : State}
    (h : Invoked now c rc u b z s) {delay : ℤ} (hd : 0 ≤ delay) (times : ℕ) (id : TimerId) {r : ℤ}
    (hr : s.clock ≤ r) (hfit : IsInt64 (r + delay * msec)) :
    Invoked now c rc u b z { s with loop := s.loop.addTimer r id delay times s.next,
                                    next := s.next + 1, clock := r } := by
  have hn : Numbered (s.loop.addTimer r id delay times s.next) (s.next + 1) :=
    numbered_new h.pass.numbered (numbers_addTimer _ _ _ _ _ _)
  have hclock := h.pass.clock
  have hstep : 0 ≤ delay * msec := Int.mul_nonneg hd (by decide)
  refine ⟨h.pc, ⟨hn, h.pass.dispatching, ?_, Int.le_trans hclock hr⟩, ?_, ?_⟩
  · intro t ht
    change t ∈ sortTimers _ at ht
    rcases List.mem_append.mp (Loop.mem_sortTimers.mp ht) with ht | ht
    · exact h.pass.nonneg t ht
    · rw [List.mem_singleton.mp ht]
      exact hd
  · show c ∈ (sortTimers _).map Timer.callable
    rw [mem_map_of_sort, List.map_append, List.mem_append]
    exact Or.inl h.timer
  · apply h.below.addTimer hd
    · show now ≤ afterDelay r delay
      rw [afterDelay_eq hfit]
      omega
    · exact ((Loop.sortTimers_perm _).map Timer.callable).nodup_iff.mp hn.timers_nodup

theorem Invoked.reset {now : ℤ} {c : ℕ} {rc : Bool} {u b z : ℕ} {s : State}
    (h : Invoked now c rc u b z s) {id : TimerId} {r : ℤ} (hr : s.clock ≤ r)
    (hfit : ∀ t ∈ s.loop.timers, t.id = id → IsInt64 (r + t.delay * msec)) :
    Invoked now c rc u b z { s with loop := s.loop.reset r id, clock := r } := by
  have hn := h.pass.numbered.fewer (fewer_reset s.loop r id)
  have hclock := Int.le_trans h.pass.clock hr
  have hd : (s.loop.reset r id).dispatching = true :=
    (congrArg Registry.dispatching (reset_toRegistry s.loop r id)).trans h.pass.dispatching
  cases hf : s.loop.timers.find? fun t => t.id = id with
  | none =>
    rw [reset_none hf]
    exact ⟨h.pc, ⟨h.pass.numbered, h.pass.dispatching, h.pass.nonneg, hclock⟩, h.timer, h.below⟩
  | some t =>
    have htimers := reset_timers h.pass.numbered hf r
    refine ⟨h.pc, ⟨hn, hd, ?_, hclock⟩, ?_, ?_⟩
    · intro v hv
      dsimp only at hv
      rw [htimers, Loop.mem_sortTimers] at hv
      obtain ⟨w, hw, rfl⟩ := List.mem_map.mp hv
      have hnonneg := h.pass.nonneg w hw
      split <;> exact hnonneg
    · dsimp only
      rw [htimers, mem_map_of_sort, callables_reset]
      exact h.timer
    · dsimp only
      rw [htimers]
      have hmem := List.mem_of_find?_eq_some hf
      exact h.below.reset h.pass.numbered.timers_nodup h.pass.nonneg hmem hclock
        (hfit t hmem (by simpa using List.find?_some hf))

/-- **A call of a callable leaves no more to do than before.** -/
theorem step_invoked {now : ℤ} {c : ℕ} {rc : Bool} {u b z : ℕ} {s t : State} {l : Label}
    {e : List Event} (hs : Step s l t e) (hl : l.InCallable) (hfits : Fits s l)
    (h : Invoked now c rc u b z s) : Invoked now c rc u b z t := by
  have hn := step_numbered hs h.pass.numbered
  cases hs with
  | add x event hu =>
    exact ⟨h.pc, ⟨hn, h.pass.dispatching, h.pass.nonneg, h.pass.clock⟩, h.timer, h.below⟩
  | remove x hu =>
    refine ⟨h.pc, ⟨hn, ?_, h.pass.nonneg, h.pass.clock⟩, h.timer, h.below⟩
    show (Registry.remove s.sockets s.loop.toRegistry x).1.dispatching = true
    rw [Registry.remove_dispatching h.pass.dispatching, (Registry.removeLater_fixed _ x).2]
    exact h.pass.dispatching
  | addTimer delay times id r hu hclock hid => exact h.addTimer hl times id hclock hfits
  | reset id r hu hclock => exact h.reset hclock hfits
  | removeTimer id hu =>
    have hqueued : s.loop.removeTimer id
        = { s.loop with timerRemoveLater := s.loop.timerRemoveLater ++ [id] } := by
      unfold Loop.removeTimer
      exact if_pos h.pass.dispatching
    rw [hqueued] at hn ⊢
    exact ⟨h.pc, ⟨hn, h.pass.dispatching, h.pass.nonneg, h.pass.clock⟩, h.timer, h.below⟩
  | moved r p hu => exact ⟨h.pc, ⟨hn, h.pass.dispatching, h.pass.nonneg, h.pass.clock⟩, h.timer,
      h.below⟩
  | _ => exact hl.elim

theorem exec_invoked {now : ℤ} {c : ℕ} {rc : Bool} {u b z : ℕ} {s t : State} {ls : List Label}
    {e : List Event} (hl : ∀ l ∈ ls, l.InCallable) (hfits : machine.Along Fits s ls)
    (hr : machine.exec s ls = some (t, e)) (h : Invoked now c rc u b z s) :
    Invoked now c rc u b z t := by
  have halong : machine.Along (fun _ l => l.InCallable) s ls :=
    (Lib.Machine.along_labels hr).mpr hl
  exact Lib.Machine.exec_state (Invoked now c rc u b z)
    (fun s l t e h hl hs => step_invoked (step_cases hs) hl.1 hl.2 h) h (halong.and hfits) hr

/-! ## between two invocations -/

/-- the iterator points at a timer, or is at the end -/
def ValidAt (s : State) (it : Option ℕ) : Prop :=
  ∀ c, it = some c → c ∈ s.loop.timers.map Timer.callable

theorem find_of_mem {ts : List Timer} {c : ℕ} (h : c ∈ ts.map Timer.callable) :
    ∃ t, (ts.find? fun t => t.callable = c) = some t ∧ t ∈ ts ∧ t.callable = c := by
  cases hf : ts.find? fun t => t.callable = c with
  | none =>
    obtain ⟨t, ht, hc⟩ := List.mem_map.mp h
    exact absurd (decide_eq_true hc) (List.find?_eq_none.mp hf t ht)
  | some t => exact ⟨t, rfl, mem_of_find hf⟩

/-- the test at the iterator ends the pass, or invokes a callable -/
theorem step_test {now : ℤ} {it : Option ℕ} {rc : Bool} {s : State}
    (hpc : s.pc = .timers now it rc) (hit : ValidAt s it) :
    step s .test = some (timersDone s rc, []) ∨
      ∃ t ∈ s.loop.timers, it = some t.callable ∧ t.when < now ∧
        step s .test
          = some ({ s with pc := .timer now t.callable rc }, [.fired t.callable now]) := by
  unfold step
  simp only [hpc]
  unfold testTimer
  cases it with
  | none => exact Or.inl rfl
  | some c =>
    obtain ⟨t, hf, ht, rfl⟩ := find_of_mem (hit c rfl)
    simp only [hf]
    by_cases hdue : t.when < now
    · rw [if_pos hdue]
      exact Or.inr ⟨t, ht, rfl, hdue, rfl⟩
    · rw [if_neg hdue]
      exact Or.inl rfl

theorem step_ret {now : ℤ} {c : ℕ} {rc : Bool} {s : State} (hpc : s.pc = .timer now c rc)
    (hc : c ∈ s.loop.timers.map Timer.callable) :
    ∃ t ∈ s.loop.timers, t.callable = c ∧
      machine.step s (.ret true) = some ({ s with
        loop := s.loop.timerReturned t,
        pc := .timers now (Loop.nextTimer c s.loop.timers) rc }, []) ∧
      machine.step s (.ret false)
        = some (finish { s with loop := s.loop.timerReturned t }, []) := by
  obtain ⟨t, hf, ht, hcall⟩ := find_of_mem hc
  have hret (b : Bool) : machine.step s (.ret b) = retTimer s now c rc b := by
    show step s (.ret b) = _
    unfold step
    simp only [hpc]
  refine ⟨t, ht, hcall, ?_, ?_⟩
  · rw [hret]
    unfold retTimer
    simp only [hf]
    rfl
  · rw [hret]
    unfold retTimer
    simp only [hf]
    rfl

theorem validAt_next {s : State} (hn : Numbered s.loop s.next) (u : Timer) (pc : Pc) :
    ValidAt { s with loop := s.loop.timerReturned u, pc := pc }
      (Loop.nextTimer u.callable s.loop.timers) := by
  intro c hc
  obtain ⟨v, hv, rfl⟩ := Option.map_eq_some_iff.mp hc
  have hmem : v ∈ Loop.timersAfter u.callable s.loop.timers := List.mem_of_head? hv
  have hne : v.callable ≠ u.callable := Loop.timersAfter_ne hn.timers_nodup hmem
  have hv' := Loop.mem_timersAfter hmem
  apply List.mem_map_of_mem
  dsimp only
  rcases timerReturned_timers s.loop u with h | ⟨-, h⟩
  · rw [h]
    exact List.mem_filter.mpr ⟨hv', decide_eq_true hne⟩
  · rw [h]
    exact List.mem_map.mpr ⟨v, hv', afterReturn_of_ne hne⟩

theorem TimerPass.returned {now : ℤ} {s : State} (h : TimerPass now s) (u : Timer) (pc : Pc) :
    TimerPass now { s with loop := s.loop.timerReturned u, pc := pc } := by
  refine ⟨h.numbered.fewer (fewer_timerReturned s.loop u), ?_, ?_, h.clock⟩
  · show (s.loop.timerReturned u).toRegistry.dispatching = true
    rw [timerReturned_toRegistry]
    exact h.dispatching
  · exact NonnegDelays.returned h.nonneg u

/-! ## the whole pass -/

section
variable {callables : List Event → State → List Label × Bool} {now : ℤ} {rc : Bool}

theorem handleTimers_invoke (fuel : ℕ) {tr e e' : List Event} {s t w : State}
    (htest : step s .test = some (t, e)) (hrun : t.pc.running ≠ none)
    (hexec : machine.exec t ((callables (tr ++ e) t).1 ++ [.ret (callables (tr ++ e) t).2])
      = some (w, e')) :
    handleTimers callables (fuel + 1) tr s
      = if (callables (tr ++ e) t).2 then handleTimers callables fuel (tr ++ e ++ e') w
        else some (w, tr ++ e ++ e') := by
  rw [handleTimers, htest]
  dsimp only
  rw [if_neg hrun, hexec]

/-- what fits fits in an invocation, and in the rest of the pass -/
theorem fitsFor_invoke {fuel : ℕ} {tr e : List Event} {s t : State}
    (htest : step s .test = some (t, e)) (hrun : t.pc.running ≠ none)
    (h : FitsFor callables (fuel + 1) tr s) :
    machine.Along Fits t ((callables (tr ++ e) t).1 ++ [.ret (callables (tr ++ e) t).2]) ∧
      ∀ w e', machine.exec t ((callables (tr ++ e) t).1 ++ [.ret (callables (tr ++ e) t).2])
          = some (w, e') → (callables (tr ++ e) t).2 = true →
        FitsFor callables fuel (tr ++ e ++ e') w := by
  rw [FitsFor, htest] at h
  dsimp only at h
  rw [if_neg hrun] at h
  refine ⟨h.1, fun w e' hexec htrue => ?_⟩
  have hrest := h.2
  rw [hexec] at hrest
  dsimp only at hrest
  rw [if_pos htrue] at hrest
  exact hrest

/-- nothing is left to fit once the pass is over -/
theorem fitsFor_of_returned {fuel : ℕ} {tr : List Event} {s : State}
    (h : (handleTimers callables fuel tr s).isSome = true) (hfits : FitsFor callables fuel tr s)
    (n : ℕ) : FitsFor callables n tr s := by
  induction fuel generalizing tr s n with
  | zero => cases h
  | succ fuel ih =>
    cases n with
    | zero => trivial
    | succ n =>
      rw [handleTimers] at h
      rw [FitsFor] at hfits ⊢
      cases htest : step s .test with
      | none => trivial
      | some te =>
        obtain ⟨t, e⟩ := te
        rw [htest] at h hfits
        dsimp only at h hfits ⊢
        by_cases hrun : t.pc.running = none
        · rw [if_pos hrun]
          trivial
        · rw [if_neg hrun] at h hfits ⊢
          refine ⟨hfits.1, ?_⟩
          have hrest := hfits.2
          cases hexec : machine.exec t ((callables (tr ++ e) t).1 ++
              [.ret (callables (tr ++ e) t).2]) with
          | none => trivial
          | some ue =>
            obtain ⟨u, e'⟩ := ue
            rw [hexec] at h hrest
            dsimp only at h hrest ⊢
            by_cases hb : (callables (tr ++ e) t).2 = true
            · rw [if_pos hb] at h hrest ⊢
              exact ih h hrest n
            · rw [if_neg hb]
              trivial

/-- **An invocation**, up to the return of the callable: the pass is over, or has less to do. -/
theorem exec_callable (hcall : Returning callables) {c u b z : ℕ} {s : State} (tr : List Event)
    (hfits : machine.Along Fits s ((callables tr s).1 ++ [.ret (callables tr s).2]))
    (h : Invoked now c rc u b z s) :
    ∃ w e, machine.exec s ((callables tr s).1 ++ [.ret (callables tr s).2]) = some (w, e) ∧
      ((callables tr s).2 = false → w.pc.passTime = none) ∧
      ((callables tr s).2 = true → ∃ it, w.pc = .timers now it rc ∧ TimerPass now w ∧
        ValidAt w it ∧ LessThan now u b z it w.loop.timers) := by
  have hrun : s.pc.running ≠ none := by
    rw [h.pc]
    exact nofun
  obtain ⟨hlabels, t, e, hr⟩ := hcall tr s hrun
  obtain ⟨hfits, hret, -⟩ := Lib.Machine.along_append hfits hr
  have ht : Invoked now c rc u b z t := exec_invoked hlabels hfits hr h
  obtain ⟨r, hmem, rfl, htrue, hfalse⟩ := step_ret ht.pc ht.timer
  have hupdate : UpdateFits t.loop r := by
    intro htimes v hv heq
    rw [ht.pass.numbered.timer_unique hv hmem heq]
    exact hret r hmem (by rw [ht.pc]; rfl) htimes
  cases hb : (callables tr s).2 with
  | false =>
    refine ⟨_, _, Lib.Machine.exec_append hr (Lib.Machine.exec_cons_of hfalse
      (Lib.Machine.exec_nil _)), fun _ => rfl, nofun⟩
  | true =>
    refine ⟨_, _, Lib.Machine.exec_append hr (Lib.Machine.exec_cons_of htrue
      (Lib.Machine.exec_nil _)), nofun, fun _ => ⟨_, rfl, ht.pass.returned r _, ?_, ?_⟩⟩
    · exact validAt_next ht.pass.numbered r _
    · exact ht.below.returned ht.pass.numbered.timers_nodup hupdate

/-- **The induction over what is left to do**: first whether the endless timers are unsorted, then
how far all timers are behind, then how many endless ones are ahead of the iterator. -/
theorem handleTimers_returns (hcall : Returning callables) (u b z : ℕ) (s : State) (it : Option ℕ)
    (tr : List Event) (hpc : s.pc = .timers now it rc) (hpass : TimerPass now s)
    (hfits : ∀ fuel, FitsFor callables fuel tr s) (hit : ValidAt s it)
    (hat : AtMost now u b z it s.loop.timers) :
    ∃ fuel t tr', handleTimers callables fuel tr s = some (t, tr') ∧ t.pc.passTime = none := by
  induction u using Nat.strong_induction_on generalizing b z s it tr with
  | _ u ihu =>
  induction b using Nat.strong_induction_on generalizing z s it tr with
  | _ b ihb =>
  induction z using Nat.strong_induction_on generalizing s it tr with
  | _ z ihz =>
  rcases step_test hpc hit with htest | ⟨t, ht, rfl, hdue, htest⟩
  · -- the pass is over
    refine ⟨1, timersDone s rc, tr ++ [], ?_, (timersDone_idle s rc).2⟩
    rw [handleTimers, htest]
    dsimp only
    rw [if_pos (timersDone_idle s rc).1]
  · have hbelow := (below_fire hpass.nonneg ht hdue).mono hat.1 hat.2.1 (hat.2.2 t ht rfl)
    have hinvoked : Invoked now t.callable rc u b z { s with pc := .timer now t.callable rc } :=
      ⟨rfl, ⟨hpass.numbered, hpass.dispatching, hpass.nonneg, hpass.clock⟩,
        List.mem_map_of_mem ht, hbelow⟩
    have hfits' (fuel : ℕ) := fitsFor_invoke htest nofun (hfits (fuel + 1))
    obtain ⟨w, e, hexec, hfalse, htrue⟩ :=
      exec_callable hcall (tr ++ [.fired t.callable now]) (hfits' 0).1 hinvoked
    have hinvoke (fuel : ℕ) := handleTimers_invoke fuel htest nofun hexec
    cases hb : (callables (tr ++ [.fired t.callable now])
        { s with pc := .timer now t.callable rc }).2 with
    | false =>
      refine ⟨1, w, tr ++ [.fired t.callable now] ++ e, ?_, hfalse hb⟩
      rw [hinvoke, hb, if_neg nofun]
    | true =>
      obtain ⟨it, hpc', hpass', hit', hless⟩ := htrue hb
      have hrest : ∃ fuel t' tr', handleTimers callables fuel
          (tr ++ [.fired t.callable now] ++ e) w = some (t', tr') ∧ t'.pc.passTime = none := by
        have hw (fuel : ℕ) := (hfits' fuel).2 w e hexec hb
        rcases hless with ⟨u', hu, b', z', hat'⟩ | ⟨b', hb', z', hat'⟩ | ⟨z', hz, hat'⟩
        · exact ihu u' hu b' z' w it _ hpc' hpass' hw hit' hat'
        · exact ihb b' hb' z' w it _ hpc' hpass' hw hit' hat'
        · exact ihz z' hz w it _ hpc' hpass' hw hit' hat'
      obtain ⟨fuel, t', tr', hrec, hdone⟩ := hrest
      refine ⟨fuel + 1, t', tr', ?_, hdone⟩
      rw [hinvoke, hb, if_pos rfl, hrec]

/-- there is something finite to do -/
theorem exists_atMost {s : State} (hn : Numbered s.loop s.next) {it : Option ℕ}
    (hit : ValidAt s it) : ∃ z, AtMost now (disorder now s.loop.timers)
      (backlog now none s.loop.timers) z it s.loop.timers := by
  cases it with
  | none =>
    refine ⟨0, Nat.le_refl _, Nat.le_refl _, ?_⟩
    intro t ht hnone
    cases hnone
  | some c =>
    obtain ⟨t, ht, rfl⟩ := List.mem_map.mp (hit c rfl)
    refine ⟨ahead now t.callable s.loop.timers + (if t.endless now then 1 else 0),
      Nat.le_refl _, Nat.le_refl _, ?_⟩
    intro v hv heq
    rw [hn.timer_unique hv ht (Option.some.inj heq).symm]

/-- **A timer pass in which all deadlines fit in a time point returns**, after finitely many
invocations, whatever the callables do in the meantime. -/
theorem timer_pass_returns (callables : List Event → State → List Label × Bool)
    (hcall : Returning callables) (s : State) (now : ℤ) (rc : Bool)
    (hpc : s.pc = .timers now (s.loop.timers.head?.map Timer.callable) rc)
    (hpass : TimerPass now s) (hfits : ∀ fuel, FitsFor callables fuel [] s) :
    ∃ fuel t tr, handleTimers callables fuel [] s = some (t, tr) ∧ t.pc.passTime = none := by
  have hit : ValidAt s (s.loop.timers.head?.map Timer.callable) := by
    intro c hc
    obtain ⟨t, ht, rfl⟩ := Option.map_eq_some_iff.mp hc
    exact List.mem_map_of_mem (List.mem_of_head? ht)
  obtain ⟨z, hat⟩ := exists_atMost hpass.numbered hit
  exact handleTimers_returns hcall _ _ z s _ [] hpc hpass hfits hit hat

end

theorem step_nonneg {s t : State} {l : Label} {e : List Event} (hs : Step s l t e)
    (ho : Normal s l) (h : NonnegDelays s.loop) : NonnegDelays t.loop := by
  cases hs with
  | addTimer delay times id now hu hclock hid =>
    refine NonnegDelays.sort (s.loop.timers ++ [_]) ?_ rfl
    intro t ht
    rcases List.mem_append.mp ht with ht | ht
    · exact h t ht
    · rw [List.mem_singleton.mp ht]
      exact ho
  | reset id now hu hclock => exact h.reset now id
  | removeTimer id hu => exact h.subset (Loop.removeTimers_sublist [id] s.loop).subset
  | flushThrows now now' passNow zmqPoll hpc hf => exact h.subset (flushed_timers_sublist s).subset
  | pollThrows now now' passNow zmqPoll p hpc hclock hf =>
    exact h.subset (flushed_timers_sublist s).subset
  | iterate now now' passNow zmqPoll p rc hpc hclock hf =>
    exact h.subset (flushed_timers_sublist s).subset
  | timersDone now it rc hpc => exact NonnegDelays.sort _ h (timersDone_rest s rc).1
  | timerTrue now c rc tm hpc ht hc => exact h.returned tm
  | timerFalse now c rc tm hpc ht hc =>
    exact (h.returned tm).subset
      (finish_timers_sublist { s with loop := s.loop.timerReturned tm }).subset
  | itemFalse i n hpc => exact h.subset (finish_timers_sublist s).subset
  | _ => exact h

/-- in the runs of a loop the passes are such -/
theorem timerPass_of_run {sockets : Sockets} {clock : ℤ} {ls : List Label} {s : State}
    {tr : List Event} (hok : machine.Along Normal { sockets := sockets, clock := clock } ls)
    (hr : machine.exec { sockets := sockets, clock := clock } ls = some (s, tr)) {now : ℤ}
    (hnow : s.pc.passTime = some now) : TimerPass now s := by
  have hinit : NonnegDelays { : Loop } := fun t ht => nomatch ht
  have hin0 : InTime { sockets := sockets, clock := clock } := fun now' h => by cases h
  obtain ⟨⟨hn, hin⟩, hd, hnonneg⟩ := Lib.Machine.exec_state
    (fun s => (Numbered s.loop s.next ∧ InTime s) ∧ (view s).Marked ∧ NonnegDelays s.loop)
    (fun s l t e h ho hs =>
      ⟨⟨step_numbered (step_cases hs) h.1.1, step_inTime (step_cases hs) h.1.2⟩,
        dispatcher.step_marked hs h.2.1, step_nonneg (step_cases hs) ho h.2.2⟩)
    ⟨⟨numbered_init 0, hin0⟩, dispatcher.marked_of_exec rfl (Lib.Machine.exec_nil _), hinit⟩ hok hr
  have hdispatch : s.pc.dispatches = true := by
    cases hpc : s.pc with
    | timers now it rc => rfl
    | timer now c rc => rfl
    | outside => rw [hpc] at hnow; cases hnow
    | head => rw [hpc] at hnow; cases hnow
    | items i n => rw [hpc] at hnow; cases hnow
    | item i n => rw [hpc] at hnow; cases hnow
  exact ⟨hn, hd hdispatch, hnonneg, hin now hnow⟩

/-! ## callables that keep adding and resetting timers -/

theorem step_addTimer {s : State} (hu : s.pc.user = true) {delay : ℤ} {times : ℕ} {id : TimerId}
    {now : ℤ} (hclock : s.clock ≤ now) (hid : id ∉ s.loop.timers.map Timer.id) :
    machine.step s (.call (.addTimer delay times id now))
      = some ({ s with loop := s.loop.addTimer now id delay times s.next, next := s.next + 1,
                       clock := now }, [.created s.next delay times now]) := by
  show step s (.call (.addTimer delay times id now)) = _
  unfold step
  dsimp only
  rw [if_pos hu]
  unfold api
  exact if_pos ⟨hclock, hid⟩

theorem step_reset {s : State} (hu : s.pc.user = true) {id : TimerId} {now : ℤ}
    (hclock : s.clock ≤ now) :
    machine.step s (.call (.reset id now))
      = some ({ s with loop := s.loop.reset now id, clock := now }, resetEvent s.loop id now) := by
  show step s (.call (.reset id now)) = _
  unfold step
  dsimp only
  rw [if_pos hu]
  unfold api
  exact if_pos hclock

/-- no place for a callable but in the pass and in the range-for -/
theorem user_of_running {s : State} (h : s.pc.running ≠ none) : s.pc.user = true := by
  cases hpc : s.pc with
  | timer now c rc => rfl
  | outside => rfl
  | item i n => rfl
  | head => rw [hpc] at h; exact absurd rfl h
  | timers now it rc => rw [hpc] at h; exact absurd rfl h
  | items i n => rw [hpc] at h; exact absurd rfl h

/-- an address that no timer has -/
def freshId (s : State) : TimerId := (s.loop.timers.map Timer.id).sum + 1

theorem freshId_notMem (s : State) : freshId s ∉ s.loop.timers.map Timer.id :=
  fun h => Nat.not_succ_le_self _ (List.le_sum_of_mem h)

/-- each callable creates another timer without a delay, and resets the one at 1 -/
def busy (_ : List Event) (s : State) : List Label × Bool :=
  ([.call (.addTimer 0 0 (freshId s) s.clock), .call (.reset 1 s.clock)], true)

theorem busy_returning : Returning busy := by
  intro tr s hrun
  have hu := user_of_running hrun
  constructor
  · intro l hl
    rcases List.mem_cons.mp hl with rfl | hl
    · exact Int.le_refl 0
    · rw [List.mem_singleton.mp hl]
      trivial
  · refine ⟨_, _, Lib.Machine.exec_cons_of (step_addTimer hu (Int.le_refl _) (freshId_notMem s))
      (Lib.Machine.exec_cons_of (step_reset ?_ ?_) (Lib.Machine.exec_nil _))⟩
    · exact hu
    · exact Int.le_refl _

/-- a timer without a delay, and one of 10 ms; both are due, and neither has a last invocation -/
def bothDue : List Label :=
  [.call (.addTimer 0 0 0 0), .call (.addTimer 10 0 1 0), .start,
    .iterate 0 0 12000000 nothingReady]

deriving instance DecidableEq for Pc

theorem timer_pass_returns_busy :
    ∃ s fuel t tr, (machine.exec {} bothDue).map Prod.fst = some s ∧
      handleTimers busy fuel [] s = some (t, tr) ∧ t.pc.passTime = none := by
  have hrun : (machine.exec {} bothDue).map (fun r => (r.1.pc, r.1.loop.timers.map Timer.callable))
      = some (.timers 12000000 (some 0) false, [0, 1]) := by decide +kernel
  obtain ⟨⟨s, tr⟩, hr, hs⟩ := Option.map_eq_some_iff.mp hrun
  obtain ⟨hpc, htimers⟩ := Prod.mk.inj hs
  dsimp only at hpc htimers
  have hok : machine.Along Normal {} bothDue := by decide +kernel
  have hpass : TimerPass 12000000 s := timerPass_of_run hok hr (by rw [hpc]; rfl)
  have hhead : s.loop.timers.head?.map Timer.callable = some 0 := by
    rw [← List.head?_map, htimers]
    rfl
  -- the callable of the first timer resets the other one, which ends the pass
  have hfits : ((machine.exec {} bothDue).map fun r => decide (FitsFor busy 2 [] r.1) &&
      (handleTimers busy 2 [] r.1).isSome) = some true := by decide +kernel
  rw [hr, Option.map_some, Option.some.injEq, Bool.and_eq_true, decide_eq_true_iff] at hfits
  obtain ⟨fuel, t, tr', hret, hdone⟩ := timer_pass_returns busy busy_returning s 12000000 false
    (by rw [hhead]; exact hpc) hpass (fitsFor_of_returned hfits.2 hfits.1)
  exact ⟨s, fuel, t, tr', by rw [hr]; rfl, hret, hdone⟩

/-! ## deadlines that wrap -/

/-- each callable creates a timer of 292 years for one invocation -/
def tooLong (_ : List Event) (s : State) : List Label × Bool :=
  ([.call (.addTimer 9223372036855 1 (freshId s) s.clock)], true)

theorem tooLong_returning : Returning tooLong := by
  intro tr s hrun
  constructor
  · intro l hl
    rw [List.mem_singleton.mp hl]
    show (0 : ℤ) ≤ 9223372036855
    decide
  · exact ⟨_, _, Lib.Machine.exec_cons_of (step_addTimer (user_of_running hrun) (Int.le_refl _)
      (freshId_notMem s)) (Lib.Machine.exec_nil _)⟩

/-- the iterator is at the only timer, whose deadline has wrapped, and before the one that its
callable will create -/
structure Wrapped (now : ℤ) (rc : Bool) (s : State) (t : Timer) : Prop where
  pc : s.pc = .timers now (some t.callable) rc
  timers : s.loop.timers = [t]
  last : t.times = 1
  numbered : t.callable < s.next
  due : afterDelay s.clock 9223372036855 < now
  first : t.when ≤ afterDelay s.clock 9223372036855

/-- the timer that the callable creates goes behind its own -/
theorem Wrapped.invoke {now : ℤ} {rc : Bool} {s : State} {t : Timer} (h : Wrapped now rc s t)
    (tr : List Event) : ∃ u v e e' t', step s .test = some (u, e) ∧ u.pc.running ≠ none ∧
      machine.exec u ((tooLong (tr ++ e) u).1 ++ [.ret (tooLong (tr ++ e) u).2]) = some (v, e') ∧
      Wrapped now rc v t' := by
  have htest : step s .test
      = some ({ s with pc := .timer now t.callable rc }, [.fired t.callable now]) := by
    unfold step
    simp only [h.pc]
    unfold testTimer
    simp only [h.timers, List.find?_cons, decide_true]
    exact if_pos (Int.lt_of_le_of_lt h.first h.due)
  let u : State := { s with pc := .timer now t.callable rc }
  let new : Timer :=
    ⟨freshId u, 1, 9223372036855, afterDelay s.clock 9223372036855, s.next⟩
  let added : State :=
    { u with loop := s.loop.addTimer s.clock (freshId u) 9223372036855 1 s.next,
             next := s.next + 1, clock := s.clock }
  have htimers : added.loop.timers = [t, new] := by
    show sortTimers (s.loop.timers ++ [new]) = _
    rw [h.timers]
    apply List.Pairwise.insertionSort_eq
    exact List.pairwise_pair.mpr h.first
  have hadd : machine.step u (.call (.addTimer 9223372036855 1 (freshId u) u.clock))
      = some (added, [.created s.next 9223372036855 1 s.clock]) :=
    step_addTimer rfl (Int.le_refl _) (freshId_notMem u)
  have hne : s.next ≠ t.callable := Nat.ne_of_gt h.numbered
  have hret : machine.step added (.ret true)
      = some ({ added with loop := { added.loop with timers := [new] },
                           pc := .timers now (some s.next) rc }, []) := by
    show retTimer added now t.callable rc true = _
    unfold retTimer
    simp only [htimers, List.find?_cons, decide_true]
    unfold Loop.timerReturned
    rw [h.last, if_pos (by decide)]
    simp only [htimers]
    rw [List.filter_cons_of_neg (by simp), List.filter_cons_of_pos (by simpa using hne)]
    unfold Loop.nextTimer
    rw [timersAfter_self]
    rfl
  refine ⟨u, _, _, _, new, htest, nofun,
    Lib.Machine.exec_cons_of hadd (Lib.Machine.exec_cons_of hret (Lib.Machine.exec_nil _)),
    ⟨rfl, rfl, rfl, Nat.lt_succ_self s.next, h.due, Int.le_refl _⟩⟩

theorem Wrapped.never_returns {now : ℤ} {rc : Bool} {s : State} {t : Timer}
    (h : Wrapped now rc s t) (fuel : ℕ) (tr : List Event) :
    handleTimers tooLong fuel tr s = none := by
  induction fuel generalizing tr s t with
  | zero => rfl
  | succ fuel ih =>
    obtain ⟨u, v, e, e', t', htest, hrun, hexec, hnext⟩ := h.invoke tr
    rw [handleTimers_invoke fuel htest hrun hexec]
    exact ih hnext (tr ++ e ++ e')

/-- **A pass may never end**: a timer of 292 years, whose callable creates another one. -/
theorem overflow_never_returns :
    Returning tooLong ∧ ∃ s, (machine.exec {} [.call (.addTimer 9223372036855 1 0 0), .start,
        .iterate 0 0 1 nothingReady]).map Prod.fst = some s ∧ TimerPass 1 s ∧
      s.pc = .timers 1 (s.loop.timers.head?.map Timer.callable) false ∧
      ∀ fuel, handleTimers tooLong fuel [] s = none := by
  refine ⟨tooLong_returning, ?_⟩
  have hrun : (machine.exec {} [.call (.addTimer 9223372036855 1 0 0), .start,
      .iterate 0 0 1 nothingReady]).map (fun r => (r.1.pc, r.1.loop.timers, r.1.next, r.1.clock))
      = some (.timers 1 (some 0) false,
          [⟨0, 1, 9223372036855, -9223372036854551616, 0⟩], 1, 1) := by decide +kernel
  obtain ⟨⟨s, tr⟩, hr, hs⟩ := Option.map_eq_some_iff.mp hrun
  simp only [Prod.mk.injEq] at hs
  obtain ⟨hpc, htimers, hnext, hclock⟩ := hs
  have hok : machine.Along Normal {} [.call (.addTimer 9223372036855 1 0 0), .start,
      .iterate 0 0 1 nothingReady] := by decide +kernel
  have hwrapped : Wrapped 1 false s ⟨0, 1, 9223372036855, -9223372036854551616, 0⟩ := by
    refine ⟨hpc, htimers, rfl, ?_, ?_, ?_⟩
    · rw [hnext]
      exact Nat.one_pos
    · rw [hclock]
      decide +kernel
    · rw [hclock]
      decide +kernel
  refine ⟨s, by rw [hr]; rfl, timerPass_of_run hok hr (by rw [hpc]; rfl), ?_, fun fuel =>
    hwrapped.never_returns fuel []⟩
  rw [htimers]
  exact hpc

end Run
end Zmqpp
