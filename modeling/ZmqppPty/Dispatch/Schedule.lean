import ZmqppPty.Dispatch.Run

/-!
# When a timer fires, and how often

`History` is what the trace says about a timer: its creation, its last reset, and its invocations.
`OnTimer` compares that with the node in `timers_`.  While the callable runs, `times` and `when`
are one invocation behind.

* `History`, `history`     the reading of the trace;
* `OnSchedule`             an invocation that is neither early nor too often;
* `OnTimer`, `Scheduled`   the invariant;
* `step_scheduled`         every step keeps it;
* `Fits`                   no deadline is too late for a time point;
* `timers_on_schedule`     then all invocations of a run are on schedule.
-/

namespace Zmqpp
namespace Run

/-- a timer since its creation: `since` counts the invocations from `base` on, the time of the last
reset, and `total` all of them -/
structure History where
  delay : ℤ
  times : ℕ
  creation : ℤ
  base : ℤ
  since : ℕ
  total : ℕ

namespace History

def reset (h : History) (now : ℤ) : History := { h with base := now, since := 0 }
def fire (h : History) : History := { h with since := h.since + 1, total := h.total + 1 }

/-- the history of the timer numbered `c` after one more event -/
def after (c : ℕ) (h : Option History) : Event → Option History
  | .created c' delay times now => if c' = c then some ⟨delay, times, now, now, 0, 0⟩ else h
  | .reset c' now => if c' = c then h.map fun h => h.reset now else h
  | .fired c' _ => if c' = c then h.map fire else h
  | .handled _ | .tickless _ _ _ => h

end History

def history (c : ℕ) (tr : List Event) : Option History := tr.foldl (History.after c) none

theorem history_concat (c : ℕ) (tr : List Event) (e : Event) :
    history c (tr ++ [e]) = History.after c (history c tr) e := by
  unfold history
  rw [List.foldl_append]
  rfl

/-- the time of the pass is later than all the delays since the last reset and since the creation,
and `times` allows the invocation -/
def OnSchedule (before : List Event) : Event → Prop
  | .fired c now =>
    ∃ h, history c before = some h ∧
      h.base + (h.since + 1) * (h.delay * msec) < now ∧
      h.creation + (h.total + 1) * (h.delay * msec) < now ∧
      (0 < h.times → h.total < h.times)
  | _ => True

/-! ## the node of a timer and its history -/

def Pc.running : Pc → Option ℕ
  | .timer _ c _ => some c
  | _ => none

/-- the time of the pass that is under way -/
def Pc.passTime : Pc → Option ℤ
  | .timers now _ _ | .timer now _ _ => some now
  | _ => none

/-- the node `t` of a timer with the history `h` at the time `clock`; `r` is 1 while its callable
runs, and else 0 -/
structure OnTimer (clock : ℤ) (r : ℕ) (h : History) (t : Timer) : Prop where
  delay : h.delay = t.delay
  nonneg : 0 ≤ t.delay * msec
  sinceReset : h.base + (h.since + 1) * (t.delay * msec) ≤ t.when + r * (t.delay * msec)
  sinceCreation : h.creation + (h.total + 1) * (t.delay * msec) ≤ t.when + r * (t.delay * msec)
  elapsed : h.creation + h.total * (t.delay * msec) ≤ clock
  times : (h.times = 0 ∧ t.times = 0) ∨ (0 < t.times ∧ t.times + h.total = h.times + r)

namespace OnTimer
variable {clock : ℤ} {h : History} {t : Timer}

theorem later {r : ℕ} (ht : OnTimer clock r h t) {now : ℤ} (hnow : clock ≤ now) :
    OnTimer now r h t := { ht with elapsed := Int.le_trans ht.elapsed hnow }

theorem created {delay : ℤ} (hd : 0 ≤ delay) (times : ℕ) {now : ℤ}
    (hfit : IsInt64 (now + delay * msec)) (id : TimerId) (c : ℕ) :
    OnTimer now 0 ⟨delay, times, now, now, 0, 0⟩ ⟨id, times, delay, afterDelay now delay, c⟩ := by
  rw [afterDelay_eq hfit]
  refine ⟨rfl, Int.mul_nonneg hd (by decide), ?_, ?_, ?_, ?_⟩
  · simp
  · simp
  · simp
  · dsimp only
    omega

/-- The clock is past all the delays so far, so a reset does not bring the deadline forward. -/
theorem reset {r : ℕ} (ht : OnTimer clock r h t) {now : ℤ} (hnow : clock ≤ now)
    (hfit : IsInt64 (now + t.delay * msec)) : OnTimer now r (h.reset now) (t.reset now) := by
  unfold Timer.reset
  rw [afterDelay_eq hfit]
  have hr : 0 ≤ (r : ℤ) * (t.delay * msec) := Int.mul_nonneg (Int.natCast_nonneg r) ht.nonneg
  have helapsed := Int.le_trans ht.elapsed hnow
  refine ⟨ht.delay, ht.nonneg, ?_, ?_, helapsed, ht.times⟩
  · show now + ((0 : ℕ) + 1 : ℤ) * (t.delay * msec) ≤ now + t.delay * msec + r * (t.delay * msec)
    rw [Int.natCast_zero, Int.zero_add, Int.one_mul]
    omega
  · show h.creation + (h.total + 1) * (t.delay * msec) ≤ now + t.delay * msec + r * (t.delay * msec)
    rw [Int.add_mul, Int.one_mul]
    omega

theorem fire (ht : OnTimer clock 0 h t) {now : ℤ} (hdue : t.when < now) (hnow : now ≤ clock) :
    OnTimer clock 1 h.fire t := by
  have hreset := ht.sinceReset
  have hcreation := ht.sinceCreation
  refine ⟨ht.delay, ht.nonneg, ?_, ?_, ?_, ?_⟩
  · show h.base + ((h.since + 1 : ℕ) + 1 : ℤ) * (t.delay * msec)
      ≤ t.when + (1 : ℕ) * (t.delay * msec)
    push_cast at hreset ⊢
    linarith
  · show h.creation + ((h.total + 1 : ℕ) + 1 : ℤ) * (t.delay * msec)
      ≤ t.when + (1 : ℕ) * (t.delay * msec)
    push_cast at hcreation ⊢
    linarith
  · show h.creation + (h.total + 1 : ℕ) * (t.delay * msec) ≤ clock
    push_cast at hcreation ⊢
    linarith
  · have := ht.times
    show (h.times = 0 ∧ t.times = 0) ∨ (0 < t.times ∧ t.times + (h.total + 1) = h.times + 1)
    omega

/-- after the callable has returned, unless that was the last invocation -/
theorem returned (ht : OnTimer clock 1 h t) (hlast : ¬ (t.times ≠ 0 ∧ t.times - 1 = 0))
    (hfit : IsInt64 (t.when + t.delay * msec)) :
    OnTimer clock 0 h { t with times := t.times - 1 }.update := by
  unfold Timer.update
  dsimp only
  rw [afterDelay_eq hfit]
  have hreset := ht.sinceReset
  have hcreation := ht.sinceCreation
  refine ⟨ht.delay, ht.nonneg, ?_, ?_, ht.elapsed, ?_⟩
  · show h.base + (h.since + 1) * (t.delay * msec)
      ≤ t.when + t.delay * msec + (0 : ℕ) * (t.delay * msec)
    push_cast at hreset ⊢
    linarith
  · show h.creation + (h.total + 1) * (t.delay * msec)
      ≤ t.when + t.delay * msec + (0 : ℕ) * (t.delay * msec)
    push_cast at hcreation ⊢
    linarith
  · have := ht.times
    show (h.times = 0 ∧ t.times - 1 = 0) ∨ (0 < t.times - 1 ∧ t.times - 1 + h.total = h.times + 0)
    omega

theorem total_lt (ht : OnTimer clock 0 h t) (hpos : 0 < h.times) : h.total < h.times := by
  have := ht.times
  omega

end OnTimer

/-! ## the invariant -/

/-- 1 while the callable of the timer numbered `c` runs -/
def inCall (s : State) (c : ℕ) : ℕ := if s.pc.running = some c then 1 else 0

/-- the clock has not gone back behind the pass that is under way -/
def InTime (s : State) : Prop := ∀ now, s.pc.passTime = some now → now ≤ s.clock

structure Scheduled (s : State) (tr : List Event) : Prop where
  numbered : Numbered s.loop s.next
  inTime : InTime s
  running : ∀ c, s.pc.running = some c → c < s.next
  fresh : ∀ c h, history c tr = some h → c < s.next
  timers : ∀ t ∈ s.loop.timers, ∃ h, history t.callable tr = some h ∧
    OnTimer s.clock (inCall s t.callable) h t
  bounded : ∀ c h, history c tr = some h → 0 < h.times → h.total ≤ h.times

theorem scheduled_init (sockets : Sockets) (clock : ℤ) :
    Scheduled { sockets := sockets, clock := clock } [] :=
  ⟨numbered_init 0, nofun, nofun, nofun, nofun, nofun⟩

/-- a step on which no timer is created, reset or invoked, and no callable of one returns -/
theorem Scheduled.quiet {s t : State} {tr e : List Event} (h : Scheduled s tr)
    (hn : Numbered t.loop t.next) (hin : InTime t) (hclock : s.clock ≤ t.clock)
    (hnext : s.next ≤ t.next) (hpc : t.pc.running = s.pc.running)
    (ht : t.loop.timers ⊆ s.loop.timers) (he : ∀ c, history c (tr ++ e) = history c tr) :
    Scheduled t (tr ++ e) := by
  refine ⟨hn, hin, fun c hc => ?_, fun c hh hc => ?_, fun u hu => ?_, fun c hh hc => ?_⟩
  · exact Nat.lt_of_lt_of_le (h.running c (hpc ▸ hc)) hnext
  · exact Nat.lt_of_lt_of_le (h.fresh c hh (he c ▸ hc)) hnext
  · unfold inCall
    rw [he, hpc]
    obtain ⟨hh, hhist, hon⟩ := h.timers u (ht hu)
    exact ⟨hh, hhist, hon.later hclock⟩
  · exact h.bounded c hh (he c ▸ hc)

theorem history_nil (c : ℕ) (tr : List Event) : history c (tr ++ []) = history c tr := by
  rw [List.append_nil]

theorem history_tickless (c : ℕ) (tr : List Event) (l : Loop) (now now' : ℤ) :
    history c (tr ++ [ticklessEvent l now now']) = history c tr := history_concat c tr _

theorem history_handled (c c' : ℕ) (tr : List Event) :
    history c (tr ++ [.handled c']) = history c tr := history_concat c tr _

theorem history_reset (c c' : ℕ) (tr : List Event) (now : ℤ) :
    history c (tr ++ [.reset c' now])
      = if c' = c then (history c tr).map fun h => h.reset now else history c tr :=
  history_concat c tr _

theorem history_fired (c c' : ℕ) (tr : List Event) (now : ℤ) :
    history c (tr ++ [.fired c' now])
      = if c' = c then (history c tr).map History.fire else history c tr :=
  history_concat c tr _

theorem history_created (c c' : ℕ) (tr : List Event) (delay : ℤ) (times : ℕ) (now : ℤ) :
    history c (tr ++ [.created c' delay times now])
      = if c' = c then some ⟨delay, times, now, now, 0, 0⟩ else history c tr :=
  history_concat c tr _

/-- the history of a timer that an event may have changed -/
theorem history_changed {f : History → History} {x c : ℕ} {tr : List Event} {hh : History}
    (hc : (if x = c then (history c tr).map f else history c tr) = some hh) :
    ∃ h, history c tr = some h ∧ (hh = f h ∨ hh = h) := by
  split at hc
  · obtain ⟨h, hh', rfl⟩ := Option.map_eq_some_iff.mp hc
    exact ⟨h, hh', Or.inl rfl⟩
  · exact ⟨hh, hc, Or.inr rfl⟩

/-! ## the steps that concern a timer -/

theorem Scheduled.addTimer {s : State} {tr : List Event} (h : Scheduled s tr) {delay : ℤ}
    (hd : 0 ≤ delay) (times : ℕ) (id : TimerId) {now : ℤ} (hnow : s.clock ≤ now)
    (hfit : IsInt64 (now + delay * msec)) :
    Scheduled { s with loop := s.loop.addTimer now id delay times s.next, next := s.next + 1,
                       clock := now } (tr ++ [.created s.next delay times now]) := by
  have hhist (c : ℕ) := history_created c s.next tr delay times now
  have hold (c : ℕ) (hc : c < s.next) :
      history c (tr ++ [.created s.next delay times now]) = history c tr := by
    rw [hhist]
    exact if_neg (Nat.ne_of_gt hc)
  refine ⟨numbered_new h.numbered (numbers_addTimer _ _ _ _ _ _),
    fun now' hp => Int.le_trans (h.inTime now' hp) hnow, fun c hc => ?_, fun c hh hc => ?_,
    fun u hu => ?_, fun c hh hc hpos => ?_⟩
  · exact Nat.lt_succ_of_lt (h.running c hc)
  · rw [hhist] at hc
    split at hc
    · rename_i e
      show c < s.next + 1
      omega
    · exact Nat.lt_succ_of_lt (h.fresh c hh hc)
  · change u ∈ sortTimers _ at hu
    rw [Loop.mem_sortTimers] at hu
    rcases List.mem_append.mp hu with hu | hu
    · rw [hold _ (h.numbered.timer_lt hu)]
      obtain ⟨hh, hhist, hon⟩ := h.timers u hu
      exact ⟨hh, hhist, hon.later hnow⟩
    · rw [List.mem_singleton.mp hu]
      have hidle : inCall s s.next = 0 :=
        if_neg fun hr => absurd (h.running _ hr) (Nat.lt_irrefl _)
      refine ⟨⟨delay, times, now, now, 0, 0⟩, (hhist s.next).trans (if_pos rfl), ?_⟩
      show OnTimer now (inCall s s.next) _ _
      rw [hidle]
      exact OnTimer.created hd times hfit id s.next
  · rw [hhist] at hc
    split at hc
    · cases hc
      exact Nat.zero_le _
    · exact h.bounded c hh hc hpos

theorem resetFirst_eq_map {ts : List Timer} (hnd : (ts.map Timer.callable).Nodup) {id : TimerId}
    {t : Timer} (hf : (ts.find? fun t => t.id = id) = some t) (now : ℤ) :
    Loop.resetFirst now id ts
      = ts.map fun u => if u.callable = t.callable then u.reset now else u := by
  induction ts with
  | nil => cases hf
  | cons u us ih =>
    rw [List.map_cons, List.nodup_cons] at hnd
    rw [List.find?_cons] at hf
    unfold Loop.resetFirst
    by_cases hid : u.id = id
    · rw [if_pos hid]
      simp only [hid, decide_true, Option.some.injEq] at hf
      rw [← hf, List.map_cons, if_pos rfl]
      -- no other timer has its number
      have hrest : ∀ v ∈ us, (if v.callable = u.callable then v.reset now else v) = v := by
        intro v hv
        exact if_neg fun e : v.callable = u.callable => hnd.1 (e ▸ List.mem_map_of_mem hv)
      rw [List.map_congr_left hrest, List.map_id']
    · rw [if_neg hid]
      simp only [hid, decide_false] at hf
      have hne : u.callable ≠ t.callable := by
        intro e
        exact hnd.1 (e ▸ List.mem_map_of_mem (List.mem_of_find?_eq_some hf))
      rw [List.map_cons, if_neg hne, ih hnd.2 hf]

theorem find_none_iff {ts : List Timer} {id : TimerId} :
    (ts.find? fun t => t.id = id) = none ↔ id ∉ ts.map Timer.id := by
  rw [List.find?_eq_none, List.mem_map]
  constructor
  · intro h hmem
    obtain ⟨t, ht, rfl⟩ := hmem
    exact h t ht (decide_eq_true rfl)
  · intro h t ht hid
    exact h ⟨t, ht, of_decide_eq_true hid⟩

theorem reset_timers {l : Loop} {next : ℕ} (hn : Numbered l next) {id : TimerId} {t : Timer}
    (hf : (l.timers.find? fun t => t.id = id) = some t) (now : ℤ) :
    (l.reset now id).timers
      = sortTimers (l.timers.map fun u => if u.callable = t.callable then u.reset now else u) := by
  have hid : id ∈ l.timers.map Timer.id := by
    by_contra hno
    rw [find_none_iff.mpr hno] at hf
    cases hf
  unfold Loop.reset
  rw [if_pos hid]
  show sortTimers _ = _
  rw [resetFirst_eq_map hn.timers_nodup hf]

theorem reset_none {l : Loop} {id : TimerId} (hf : (l.timers.find? fun t => t.id = id) = none)
    (now : ℤ) : l.reset now id = l := if_neg (find_none_iff.mp hf)

theorem Scheduled.reset {s : State} {tr : List Event} (h : Scheduled s tr) {id : TimerId}
    {now : ℤ} (hnow : s.clock ≤ now)
    (hfit : ∀ t ∈ s.loop.timers, t.id = id → IsInt64 (now + t.delay * msec)) :
    Scheduled { s with loop := s.loop.reset now id, clock := now }
      (tr ++ resetEvent s.loop id now) := by
  have hnum := h.numbered.fewer (fewer_reset s.loop now id)
  have hin (now' : ℤ) (hp : s.pc.passTime = some now') : now' ≤ now :=
    Int.le_trans (h.inTime now' hp) hnow
  unfold resetEvent
  cases hf : s.loop.timers.find? fun t => t.id = id with
  | none =>
    rw [reset_none hf]
    exact h.quiet h.numbered hin hnow (Nat.le_refl _) rfl (List.Subset.refl _)
      fun c => history_nil c tr
  | some t =>
    show Scheduled _ (tr ++ [.reset t.callable now])
    refine ⟨hnum, hin, h.running, fun c hh hc => ?_, fun u hu => ?_, fun c hh hc hpos => ?_⟩
    · rw [history_reset] at hc
      obtain ⟨h', hh', -⟩ := history_changed hc
      exact h.fresh c h' hh'
    · dsimp only at hu
      rw [reset_timers h.numbered hf, Loop.mem_sortTimers] at hu
      obtain ⟨v, hv, rfl⟩ := List.mem_map.mp hu
      obtain ⟨hh, hhv, hon⟩ := h.timers v hv
      by_cases e : v.callable = t.callable
      · rw [if_pos e]
        show ∃ h', history v.callable _ = some h' ∧
          OnTimer now (inCall s v.callable) h' (v.reset now)
        rw [history_reset, if_pos e.symm, hhv]
        have hid : v.id = id := by
          rw [h.numbered.timer_unique hv (List.mem_of_find?_eq_some hf) e]
          simpa using List.find?_some hf
        exact ⟨hh.reset now, rfl, hon.reset hnow (hfit v hv hid)⟩
      · rw [if_neg e, history_reset, if_neg (Ne.symm e)]
        exact ⟨hh, hhv, hon.later hnow⟩
    · rw [history_reset] at hc
      obtain ⟨h', hh', rfl | rfl⟩ := history_changed hc
      · exact h.bounded c h' hh' hpos
      · exact h.bounded c hh hh' hpos

/-- in a timer pass, between two invocations -/
theorem inCall_timers {s : State} {now : ℤ} {it : Option ℕ} {rc : Bool}
    (hpc : s.pc = .timers now it rc) (c : ℕ) : inCall s c = 0 := by
  unfold inCall
  rw [hpc]
  exact if_neg nofun

theorem Scheduled.fire {s : State} {tr : List Event} (h : Scheduled s tr) {now : ℤ} {rc : Bool}
    {t : Timer} (hpc : s.pc = .timers now (some t.callable) rc) (ht : t ∈ s.loop.timers)
    (hdue : t.when < now) :
    Scheduled { s with pc := .timer now t.callable rc } (tr ++ [.fired t.callable now]) := by
  have hhist (c : ℕ) := history_fired c t.callable tr now
  have hnow : now ≤ s.clock := h.inTime now (by rw [hpc]; rfl)
  refine ⟨h.numbered, fun now' hp => ?_, fun c hc => ?_, fun c hh hc => ?_, fun u hu => ?_,
    fun c hh hc hpos => ?_⟩
  · cases hp
    exact hnow
  · cases hc
    exact h.numbered.timer_lt ht
  · rw [hhist] at hc
    obtain ⟨h', hh', -⟩ := history_changed hc
    exact h.fresh c h' hh'
  · obtain ⟨hh, hhu, hon⟩ := h.timers u hu
    rw [inCall_timers hpc] at hon
    show ∃ h', history u.callable _ = some h' ∧
      OnTimer s.clock (if some t.callable = some u.callable then 1 else 0) h' u
    rw [hhist]
    by_cases e : u.callable = t.callable
    · rw [if_pos e.symm, if_pos (congrArg some e.symm), hhu]
      rw [h.numbered.timer_unique hu ht e] at hon ⊢
      exact ⟨hh.fire, rfl, hon.fire hdue hnow⟩
    · rw [if_neg (Ne.symm e), if_neg fun he => e (Option.some.inj he).symm]
      exact ⟨hh, hhu, hon⟩
  · rw [hhist] at hc
    split at hc
    · rename_i e
      obtain ⟨h', hh', rfl⟩ := Option.map_eq_some_iff.mp hc
      obtain ⟨h'', hh'', hon⟩ := h.timers t ht
      rw [e, hh'] at hh''
      cases hh''
      rw [inCall_timers hpc] at hon
      exact hon.total_lt hpos
    · exact h.bounded c hh hc hpos

/-- the due test lets no invocation happen early -/
theorem Scheduled.onSchedule {s : State} {tr : List Event} (h : Scheduled s tr) {now : ℤ}
    {rc : Bool} {t : Timer} (hpc : s.pc = .timers now (some t.callable) rc)
    (ht : t ∈ s.loop.timers) (hdue : t.when < now) : OnSchedule tr (.fired t.callable now) := by
  obtain ⟨hh, hhist, hon⟩ := h.timers t ht
  rw [inCall_timers hpc] at hon
  have hreset := hon.sinceReset
  have hcreation := hon.sinceCreation
  simp only [Nat.cast_zero, Int.zero_mul, Int.add_zero] at hreset hcreation
  refine ⟨hh, hhist, ?_, ?_, hon.total_lt⟩
  · rw [hon.delay]
    exact Int.lt_of_le_of_lt hreset hdue
  · rw [hon.delay]
    exact Int.lt_of_le_of_lt hcreation hdue

theorem Scheduled.returned {s t : State} {tr : List Event} (h : Scheduled s tr) {u : Timer}
    (hu : u ∈ s.loop.timers) (hrun : s.pc.running = some u.callable)
    (hpc : t.pc.running = none) (hn : Numbered t.loop t.next) (hin : InTime t)
    (hclock : t.clock = s.clock) (hnext : t.next = s.next)
    (ht : t.loop.timers ⊆ (s.loop.timerReturned u).timers)
    (hfit : u.times ≠ 1 → IsInt64 (u.when + u.delay * msec)) : Scheduled t (tr ++ []) := by
  rw [List.append_nil]
  have hcall (c : ℕ) : inCall t c = 0 := by
    unfold inCall
    rw [hpc]
    exact if_neg nofun
  refine ⟨hn, hin, fun c hc => ?_, hnext ▸ h.fresh, fun v hv => ?_, h.bounded⟩
  · rw [hpc] at hc
    cases hc
  · rw [hcall, hclock]
    have hother (w : Timer) (hw : w ∈ s.loop.timers) (hne : w.callable ≠ u.callable) :
        ∃ hh, history w.callable tr = some hh ∧ OnTimer s.clock 0 hh w := by
      have hz : inCall s w.callable = 0 := by
        unfold inCall
        rw [hrun]
        exact if_neg fun e => hne (Option.some.inj e).symm
      have hw' := h.timers w hw
      rw [hz] at hw'
      exact hw'
    have hv' := ht hv
    unfold Loop.timerReturned at hv'
    split at hv'
    · obtain ⟨hmem, hne⟩ := List.mem_filter.mp hv'
      exact hother v hmem (of_decide_eq_true hne)
    · rename_i hlast
      obtain ⟨w, hw, rfl⟩ := List.mem_map.mp hv'
      by_cases e : w.callable = u.callable
      · rw [if_pos e]
        rw [h.numbered.timer_unique hw hu e]
        obtain ⟨hh, hhist, hon⟩ := h.timers u hu
        have hone : inCall s u.callable = 1 := if_pos hrun
        rw [hone] at hon
        exact ⟨hh, hhist, hon.returned hlast (hfit fun h1 => hlast (by omega))⟩
      · rw [if_neg e]
        exact hother w hw e

/-! ## the runs -/

/-- no callable throws, and no timer has a negative delay -/
def Normal (_ : State) : Label → Prop
  | .call (.addTimer delay _ _ _) => 0 ≤ delay
  | .throw => False
  | _ => True

instance (s : State) : DecidablePred (Normal s)
  | .call (.addTimer delay _ _ _) => inferInstanceAs (Decidable (0 ≤ delay))
  | .throw => isFalse id
  | .call (.add _ _) | .call (.remove _) | .call (.reset _ _) | .call (.removeTimer _)
  | .moved _ _ | .start | .iterate _ _ _ _ | .test | .ret _ => isTrue trivial

/-- no deadline that the step computes leaves the 64 bits of a time point -/
def Fits (s : State) : Label → Prop
  | .call (.addTimer delay _ _ now) => IsInt64 (now + delay * msec)
  | .call (.reset id now) => ∀ t ∈ s.loop.timers, t.id = id → IsInt64 (now + t.delay * msec)
  -- the update, if this was not the last invocation
  | .ret _ => ∀ t ∈ s.loop.timers, s.pc.running = some t.callable → t.times ≠ 1 →
      IsInt64 (t.when + t.delay * msec)
  | _ => True

instance (s : State) : DecidablePred (Fits s)
  | .call (.addTimer delay _ _ now) => inferInstanceAs (Decidable (IsInt64 (now + delay * msec)))
  | .call (.reset id now) => inferInstanceAs (Decidable (∀ t ∈ s.loop.timers, t.id = id →
      IsInt64 (now + t.delay * msec)))
  | .ret _ => inferInstanceAs (Decidable (∀ t ∈ s.loop.timers, s.pc.running = some t.callable →
      t.times ≠ 1 → IsInt64 (t.when + t.delay * msec)))
  | .call (.add _ _) | .call (.remove _) | .call (.removeTimer _) | .moved _ _ | .start
  | .iterate _ _ _ _ | .test | .throw => isTrue trivial

theorem timersDone_idle (s : State) (rc : Bool) :
    (timersDone s rc).pc.running = none ∧ (timersDone s rc).pc.passTime = none := by
  rcases timersDone_pc s rc with h | h
  · rw [h]
    exact ⟨rfl, rfl⟩
  · rw [h]
    exact ⟨rfl, rfl⟩

theorem step_clock {s t : State} {l : Label} {e : List Event} (h : Step s l t e) :
    s.clock ≤ t.clock := by
  cases h with
  | addTimer delay times id now hu hclock hid => exact hclock
  | reset id now hu hclock => exact hclock
  | pollThrows now now' passNow zmqPoll p hpc hclock hf =>
    show s.clock ≤ passNow
    omega
  | iterate now now' passNow zmqPoll p rc hpc hclock hf =>
    show s.clock ≤ passNow
    omega
  | timersDone now it rc hpc => exact Int.le_of_eq (timersDone_rest s rc).2.2.2.symm
  | _ => exact Int.le_refl _

theorem step_inTime {s t : State} {l : Label} {e : List Event} (h : Step s l t e)
    (hin : InTime s) : InTime t := by
  have hclock := step_clock h
  have hsame (hp : ∀ now, t.pc.passTime = some now → s.pc.passTime = some now) : InTime t :=
    fun now hnow => Int.le_trans (hin now (hp now hnow)) hclock
  cases h with
  | iterate now now' passNow zmqPoll p rc hpc hc hf =>
    intro pass hp
    cases hp
    exact Int.le_refl _
  | fire now c rc tm hpc ht hc hdue => exact hsame fun pass hp => by rw [hpc]; exact hp
  | timerTrue now c rc tm hpc ht hc => exact hsame fun pass hp => by rw [hpc]; exact hp
  | timersDone now it rc hpc =>
    intro pass hp
    rw [(timersDone_idle s rc).2] at hp
    cases hp
  | add x event hu => exact hsame fun pass hp => hp
  | remove x hu => exact hsame fun pass hp => hp
  | addTimer delay times id now hu hc hid => exact hsame fun pass hp => hp
  | reset id now hu hc => exact hsame fun pass hp => hp
  | removeTimer id hu => exact hsame fun pass hp => hp
  | moved r p hu => exact hsame fun pass hp => hp
  | _ => exact hsame nofun

theorem step_onSchedule {s t : State} {l : Label} {e tr : List Event} (hs : Step s l t e)
    (h : Scheduled s tr) (ev : Event) (hev : ev ∈ e) : OnSchedule tr ev := by
  cases ev with
  | created c delay times now => trivial
  | reset c now => trivial
  | handled c => trivial
  | tickless whens now timeout => trivial
  | fired c now =>
    obtain ⟨rc, tm, hpc, ht, hc, hdue⟩ := step_fired hs hev
    subst hc
    exact h.onSchedule hpc ht hdue

theorem step_scheduled {s t : State} {l : Label} {e tr : List Event} (hs : Step s l t e)
    (ho : Normal s l ∧ Fits s l) (h : Scheduled s tr) : Scheduled t (tr ++ e) := by
  obtain ⟨ho, hfits⟩ := ho
  have hn := step_numbered hs h.numbered
  have hc := step_clock hs
  have hin := step_inTime hs h.inTime
  cases hs with
  | add x event hu =>
    exact h.quiet hn hin hc (Nat.le_succ _) rfl (List.Subset.refl _) fun c => history_nil c tr
  | remove x hu =>
    exact h.quiet hn hin hc (Nat.le_refl _) rfl (List.Subset.refl _) fun c => history_nil c tr
  | addTimer delay times id now hu hclock hid => exact h.addTimer ho times id hclock hfits
  | reset id now hu hclock => exact h.reset hclock hfits
  | removeTimer id hu =>
    exact h.quiet hn hin hc (Nat.le_refl _) rfl (Loop.removeTimers_sublist [id] s.loop).subset
      fun c => history_nil c tr
  | moved r p hu =>
    exact h.quiet hn hin hc (Nat.le_refl _) rfl (List.Subset.refl _) fun c => history_nil c tr
  | start hpc =>
    exact h.quiet hn hin hc (Nat.le_refl _) (by rw [hpc]; rfl) (List.Subset.refl _)
      fun c => history_nil c tr
  | flushThrows now now' passNow zmqPoll hpc hf =>
    exact h.quiet hn hin hc (Nat.le_refl _) (by rw [hpc]; rfl) (flushed_timers_sublist s).subset
      fun c => history_nil c tr
  | pollThrows now now' passNow zmqPoll p hpc hclock hf =>
    exact h.quiet hn hin hc (Nat.le_refl _) (by rw [hpc]; rfl) (flushed_timers_sublist s).subset
      fun c => history_tickless c tr _ _ _
  | iterate now now' passNow zmqPoll p rc hpc hclock hf =>
    exact h.quiet hn hin hc (Nat.le_refl _) (by rw [hpc]; rfl) (flushed_timers_sublist s).subset
      fun c => history_tickless c tr _ _ _
  | fire now c rc tm hpc ht htm hdue =>
    subst htm
    exact h.fire hpc ht hdue
  | timersDone now it rc hpc =>
    obtain ⟨htimers, _, hnext, _⟩ := timersDone_rest s rc
    refine h.quiet hn hin hc (Nat.le_of_eq hnext.symm) ?_ ?_ fun c => history_nil c tr
    · rw [(timersDone_idle s rc).1, hpc]
      rfl
    · rw [htimers]
      exact fun u hu => Loop.mem_sortTimers.mp hu
  | handle i n item c hpc hi hit hready =>
    exact h.quiet hn hin hc (Nat.le_refl _) (by rw [hpc]; rfl) (List.Subset.refl _)
      fun c' => history_handled c' c tr
  | skip i n item c hpc hi hit hready =>
    exact h.quiet hn hin hc (Nat.le_refl _) (by rw [hpc]; rfl) (List.Subset.refl _)
      fun c => history_nil c tr
  | testThrows i n item c x hpc hi hit hready =>
    exact h.quiet hn hin hc (Nat.le_refl _) (by rw [hpc]; rfl) (List.Subset.refl _)
      fun c => history_nil c tr
  | itemsDone i n hpc =>
    exact h.quiet hn hin hc (Nat.le_refl _) (by rw [hpc]; rfl) (List.Subset.refl _)
      fun c => history_nil c tr
  | timerTrue now c rc tm hpc ht htm =>
    subst htm
    exact h.returned ht (by rw [hpc]; rfl) rfl hn hin rfl rfl (List.Subset.refl _)
      (hfits tm ht (by rw [hpc]; rfl))
  | timerFalse now c rc tm hpc ht htm =>
    subst htm
    exact h.returned ht (by rw [hpc]; rfl) rfl hn hin rfl rfl
      (finish_timers_sublist { s with loop := s.loop.timerReturned tm }).subset
      (hfits tm ht (by rw [hpc]; rfl))
  | itemTrue i n hpc =>
    exact h.quiet hn hin hc (Nat.le_refl _) (by rw [hpc]; rfl) (List.Subset.refl _)
      fun c => history_nil c tr
  | itemFalse i n hpc =>
    exact h.quiet hn hin hc (Nat.le_refl _) (by rw [hpc]; rfl) (finish_timers_sublist s).subset
      fun c => history_nil c tr
  | throw hu hpc => exact absurd ho id

/-- **Timers never fire early and never too often**, in every run without exceptions in which all
deadlines fit in a time point. -/
theorem timers_on_schedule {sockets : Sockets} {clock : ℤ} {ls : List Label} {s : State}
    {tr : List Event} (hok : machine.Along Normal { sockets := sockets, clock := clock } ls)
    (hfits : machine.Along Fits { sockets := sockets, clock := clock } ls)
    (hr : machine.exec { sockets := sockets, clock := clock } ls = some (s, tr)) :
    Lib.EachAfter OnSchedule tr ∧
      ∀ c h, history c tr = some h → 0 < h.times →
        h.total ≤ h.times ∧
          (h.total = h.times → s.pc.running ≠ some c → ∀ t ∈ s.loop.timers, t.callable ≠ c) := by
  have hinv := Lib.Machine.exec_inv (fun s tr => Scheduled s tr ∧ Lib.EachAfter OnSchedule tr)
    (fun s tr l t e hp ho hs => by
      have hs : Step s l t e := step_cases hs
      refine ⟨step_scheduled hs ho hp.1, ?_⟩
      exact Lib.eachAfter_append hp.2 (step_events hs) fun ev => step_onSchedule hs hp.1 ev)
    [] ⟨scheduled_init sockets clock, Lib.eachAfter_nil⟩ (hok.and hfits) hr
  obtain ⟨hsched, hafter⟩ := hinv
  refine ⟨hafter, fun c h hc hpos => ⟨hsched.bounded c h hc hpos, ?_⟩⟩
  -- the node of a timer at its last invocation would have `times = 0`, which is unlimited
  intro htotal hrun t ht hcall
  subst hcall
  obtain ⟨h', hc', hon⟩ := hsched.timers t ht
  have hzero : inCall s t.callable = 0 := if_neg hrun
  rw [hzero] at hon
  rw [List.nil_append, hc, Option.some.injEq] at hc'
  subst hc'
  exact absurd (hon.total_lt hpos) (by omega)

/-- a timer of 10 ms for two invocations, which resets itself in the first one -/
def twice : List Label :=
  [.call (.addTimer 10 2 0 0), .start, .iterate 0 0 12000000 nothingReady, .test,
    .call (.reset 0 13000000), .ret true, .test, .iterate 14000000 14000000 34000000 nothingReady,
    .test, .ret true]

theorem timers_on_schedule_twice :
    ∃ s tr, machine.exec {} twice = some (s, tr) ∧ .fired 0 34000000 ∈ tr ∧
      Lib.EachAfter OnSchedule tr ∧ ∀ t ∈ s.loop.timers, t.callable ≠ 0 := by
  have hrun : (machine.exec {} twice).map (fun r => (r.2, r.1.pc.running)) =
      some ([.created 0 10 2 0, .tickless [10000000] 0 10, .fired 0 12000000, .reset 0 13000000,
        .tickless [33000000] 14000000 19, .fired 0 34000000], none) := by decide +kernel
  obtain ⟨⟨s, tr⟩, hr, hs⟩ := Option.map_eq_some_iff.mp hrun
  obtain ⟨htr, hpc⟩ := Prod.mk.inj hs
  have hok : machine.Along Normal {} twice := by decide +kernel
  have hfits : machine.Along Fits {} twice := by decide +kernel
  obtain ⟨hafter, hcount⟩ := timers_on_schedule hok hfits hr
  dsimp only at htr hpc
  have hhist : history 0 tr = some ⟨10, 2, 0, 13000000, 1, 2⟩ := by
    rw [htr]
    rfl
  refine ⟨s, tr, hr, ?_, hafter, ?_⟩
  · rw [htr]
    simp
  · exact (hcount 0 _ hhist (by decide)).2 rfl (by rw [hpc]; nofun)

/-- a delay of 292 years, and a pass one nanosecond later -/
def overflows : List Label :=
  [.call (.addTimer 9223372036855 0 0 0), .start, .iterate 0 0 1 nothingReady, .test]

/-- **A delay too long for a time point fires at once**: the deadline wraps to before the epoch. -/
theorem overflow_fires_early :
    machine.Along Normal {} overflows ∧ ∃ s tr, machine.exec {} overflows = some (s, tr) ∧
      .fired 0 1 ∈ tr ∧ ¬ Lib.EachAfter OnSchedule tr := by
  refine ⟨by decide +kernel, ?_⟩
  have hrun : (machine.exec {} overflows).map Prod.snd = some [.created 0 9223372036855 0 0,
      .tickless [-9223372036854551616] 0 0, .fired 0 1] := by decide +kernel
  obtain ⟨⟨s, tr⟩, hr, htr⟩ := Option.map_eq_some_iff.mp hrun
  dsimp only at htr
  subst htr
  refine ⟨s, _, hr, by simp, ?_⟩
  intro h
  obtain ⟨hh, hhist, hearly, -⟩ := h [.created 0 9223372036855 0 0,
    .tickless [-9223372036854551616] 0 0] (.fired 0 1) [] rfl
  have hfirst : some hh = some ⟨9223372036855, 0, 0, 0, 0, 0⟩ := hhist.symm.trans rfl
  cases hfirst
  exact absurd hearly (by decide)

end Run
end Zmqpp
