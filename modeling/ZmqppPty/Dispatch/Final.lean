import ZmqppPty.Dispatch.Run
import ZmqppPty.Dispatch.Reactor

/-!
# Removal is final

A removal during a dispatch waits in a queue for the next flush.  Up to that flush only one thing
keeps a removed handler from being invoked: a timer's callable that removes a socket or a
descriptor has the pass over `items_` skipped (`rebuild_poller_`).  A timer that is due, and a
registration that is ready, are invoked in the rest of the pass all the same.

* `Loop.Retired`               every registration and timer of the handler is queued for removal;
* `Timely`                     no removal comes too late for the pass it is made in;
* `Harmless`                   what is queued where `start` is;
* `step_harmless`, `step_retired`   the invariant, and what it gives;
* `removal_is_final`           in a loop and in a reactor.
-/

namespace Zmqpp
namespace Loop
variable {l : Loop} {sockets : Sockets} {c : ℕ}

def Retired (l : Loop) (sockets : Sockets) (c : ℕ) : Prop :=
  l.toRegistry.Retired sockets c ∧
    ∀ t ∈ l.timers, t.callable = c → t.id ∈ l.timerRemoveLater

/-- no removal is queued -/
def NoneQueued (l : Loop) : Prop := l.toRegistry.Unqueued ∧ l.timerRemoveLater = []

instance : Decidable l.NoneQueued := inferInstanceAs (Decidable (_ ∧ _))

theorem flush_retired (hd : l.dispatching = false ∨ l.NoneQueued) (h : l.Retired sockets c) :
    (flushRemoveLater sockets l).1.Retired sockets c := by
  refine ⟨?_, fun t ht hc => ?_⟩
  · rw [(flushRemoveLater_toRegistry sockets l).1]
    exact (Registry.flush_retired (hd.imp_right And.left) h.1).1
  · obtain ⟨hsub, _, herror, hok⟩ := flushRemoveLater_timers sockets l
    have hid := h.2 t (hsub.subset ht) hc
    by_cases hres : (flushRemoveLater sockets l).2 = .ok ()
    · rcases hd with hd | hq
      · rw [(hok hres).2 hd] at ht
        exact absurd hid (of_decide_eq_true (List.mem_filter.mp ht).2)
      · rw [hq.2] at hid
        cases hid
    · rw [(herror hres).2]
      exact hid

/-! ## the timers still to come -/

theorem mem_timersAfter {ts : List Timer} {t : Timer} (h : t ∈ timersAfter c ts) : t ∈ ts := by
  induction ts with
  | nil => cases h
  | cons u us ih =>
    unfold timersAfter at h
    split at h
    · exact List.mem_cons_of_mem u h
    · exact List.mem_cons_of_mem u (ih h)

theorem timersAfter_ne {ts : List Timer} (hnd : (ts.map Timer.callable).Nodup) {t : Timer}
    (h : t ∈ timersAfter c ts) : t.callable ≠ c := by
  induction ts with
  | nil => cases h
  | cons u us ih =>
    rw [List.map_cons, List.nodup_cons] at hnd
    unfold timersAfter at h
    split at h
    · rename_i hu
      intro e
      exact hnd.1 (hu.trans e.symm ▸ List.mem_map_of_mem h)
    · exact ih hnd.2 h

theorem mem_resetFirst {now : ℤ} {id : TimerId} {ts : List Timer} {t : Timer}
    (h : t ∈ resetFirst now id ts) : ∃ u ∈ ts, u.id = t.id ∧ u.callable = t.callable := by
  induction ts with
  | nil => cases h
  | cons u us ih =>
    unfold resetFirst at h
    split at h
    · rcases List.mem_cons.mp h with rfl | h
      · exact ⟨u, List.mem_cons_self, rfl, rfl⟩
      · exact ⟨t, List.mem_cons_of_mem u h, rfl, rfl⟩
    · rcases List.mem_cons.mp h with rfl | h
      · exact ⟨t, List.mem_cons_self, rfl, rfl⟩
      · obtain ⟨v, hv, hvt⟩ := ih h
        exact ⟨v, List.mem_cons_of_mem u hv, hvt⟩

theorem mem_timerReturned {u t : Timer} (h : t ∈ (l.timerReturned u).timers) :
    ∃ v ∈ l.timers, v.id = t.id ∧ v.callable = t.callable ∧
      (t.callable ≠ u.callable → v = t) := by
  unfold timerReturned at h
  split at h
  · exact ⟨t, (List.mem_filter.mp h).1, rfl, rfl, fun _ => rfl⟩
  · obtain ⟨v, hv, rfl⟩ := List.mem_map.mp h
    by_cases e : v.callable = u.callable
    · rw [if_pos e]
      exact ⟨v, hv, rfl, rfl, fun hne => absurd e hne⟩
    · rw [if_neg e]
      exact ⟨v, hv, rfl, rfl, fun _ => rfl⟩

theorem timerReturned_rest (l : Loop) (u : Timer) :
    (l.timerReturned u).toRegistry = l.toRegistry ∧
      (l.timerReturned u).timerRemoveLater = l.timerRemoveLater ∧
      (l.timerReturned u).rebuildPoller = l.rebuildPoller := by
  unfold timerReturned
  split <;> exact ⟨rfl, rfl, rfl⟩

/-! ## what keeps a handler retired -/

theorem Retired.add (h : l.Retired sockets c) (x : Target) {callable : ℕ} (hne : callable ≠ c)
    (event : Short) : (l.add sockets x callable event).Retired sockets c :=
  ⟨h.1.add x hne event, h.2⟩

theorem Retired.remove (h : l.Retired sockets c) (x : Target) :
    (l.remove sockets x).1.Retired sockets c := ⟨h.1.remove x, h.2⟩

theorem Retired.addTimer (h : l.Retired sockets c) (now : ℤ) (id : TimerId) (delay : ℤ)
    (times : ℕ) {callable : ℕ} (hne : callable ≠ c) :
    (l.addTimer now id delay times callable).Retired sockets c := by
  refine ⟨h.1, ?_⟩
  intro t ht hc
  change t ∈ sortTimers _ at ht
  rcases List.mem_append.mp (mem_sortTimers.mp ht) with ht | ht
  · exact h.2 t ht hc
  · rw [List.mem_singleton.mp ht] at hc
    exact absurd hc hne

theorem Retired.reset (h : l.Retired sockets c) (now : ℤ) (id : TimerId) :
    (l.reset now id).Retired sockets c := by
  unfold Loop.reset
  split
  · refine ⟨h.1, ?_⟩
    intro t ht hc
    change t ∈ sortTimers _ at ht
    obtain ⟨u, hu, hid, hcall⟩ := mem_resetFirst (mem_sortTimers.mp ht)
    rw [← hid]
    exact h.2 u hu (hcall.trans hc)
  · exact h

/-- a removal adds the timer to the queue, or takes it out of the list -/
theorem removeTimer_retires (id : TimerId) (hr : l.toRegistry.Retired sockets c)
    (h : ∀ t ∈ l.timers, t.callable = c → t.id ∈ l.timerRemoveLater ∨ t.id = id) :
    (l.removeTimer id).Retired sockets c := by
  unfold removeTimer
  split
  · refine ⟨hr, ?_⟩
    intro t ht hc
    show t.id ∈ l.timerRemoveLater ++ [id]
    rw [List.mem_append, List.mem_singleton]
    exact h t ht hc
  · refine ⟨hr, ?_⟩
    intro t ht hc
    obtain ⟨hmem, hne⟩ := List.mem_filter.mp ht
    exact (h t hmem hc).resolve_right (of_decide_eq_true hne)

theorem Retired.timerReturned (h : l.Retired sockets c) (u : Timer) :
    (l.timerReturned u).Retired sockets c := by
  obtain ⟨hreg, hqueue, _⟩ := timerReturned_rest l u
  refine ⟨hreg ▸ h.1, ?_⟩
  intro t ht hc
  obtain ⟨v, hv, hid, hcall, _⟩ := mem_timerReturned ht
  rw [hqueue, ← hid]
  exact h.2 v hv (hcall.trans hc)

end Loop

namespace Run

/-! ## removals in time -/

/-- A callable may remove what the pass has left behind, what is not due and what is not ready, and
a socket object keeps its pointer while its removal is queued.  `start` may not be called while an
exception has left `dispatching_` true and removals in a queue: the flush would lose them. -/
def Timely (s : State) : Label → Prop
  | .ret true =>
    match s.pc with
    | .timer now c _ =>
      ∀ t ∈ Loop.timersAfter c s.loop.timers, t.id ∈ s.loop.timerRemoveLater → ¬ t.when < now
    | .item i n => s.loop.NoneReady s.sockets (i + 1) n
    | _ => True
  | .moved r h => r ∈ s.loop.sockRemoveLater → h = s.sockets r
  | .start => s.loop.dispatching = false ∨ s.loop.NoneQueued
  | _ => True

instance (s : State) : DecidablePred (Timely s)
  | .ret true =>
    match h : s.pc with
    | .timer now c _ => decidable_of_iff (∀ t ∈ Loop.timersAfter c s.loop.timers,
        t.id ∈ s.loop.timerRemoveLater → ¬ t.when < now) (by unfold Timely; rw [h])
    | .item i n => decidable_of_iff (s.loop.NoneReady s.sockets (i + 1) n)
        (by unfold Timely; rw [h])
    | .outside | .head | .timers _ _ _ | .items _ _ =>
      isTrue (by unfold Timely; rw [h]; trivial)
  | .moved r p => inferInstanceAs (Decidable (r ∈ s.loop.sockRemoveLater → p = s.sockets r))
  | .start => inferInstanceAs (Decidable (s.loop.dispatching = false ∨ s.loop.NoneQueued))
  | .ret false | .call _ | .iterate _ _ _ _ | .test | .throw => isTrue trivial

/-- what is queued where `start` is -/
def Harmless (s : State) : Prop :=
  match s.pc with
  | .head => s.loop.dispatching = false ∨ s.loop.NoneQueued
  | .timers now it _ =>
    (s.loop.rebuildPoller = false → s.loop.toRegistry.Unqueued) ∧
      ∀ t ∈ s.loop.timers, some t.callable = it → t.id ∈ s.loop.timerRemoveLater → ¬ t.when < now
  | .timer _ _ _ => s.loop.rebuildPoller = false → s.loop.toRegistry.Unqueued
  | .items i n => s.loop.NoneReady s.sockets i n
  | .outside | .item _ _ => True

section
variable {s : State}

theorem Harmless.head (h : Harmless s) (hpc : s.pc = .head) :
    s.loop.dispatching = false ∨ s.loop.NoneQueued := by
  unfold Harmless at h
  rw [hpc] at h
  exact h

theorem Harmless.timers (h : Harmless s) {now : ℤ} {it : Option ℕ} {rc : Bool}
    (hpc : s.pc = .timers now it rc) :
    (s.loop.rebuildPoller = false → s.loop.toRegistry.Unqueued) ∧
      ∀ t ∈ s.loop.timers, some t.callable = it → t.id ∈ s.loop.timerRemoveLater →
        ¬ t.when < now := by
  unfold Harmless at h
  rw [hpc] at h
  exact h

theorem Harmless.timer (h : Harmless s) {now : ℤ} {c : ℕ} {rc : Bool}
    (hpc : s.pc = .timer now c rc) :
    s.loop.rebuildPoller = false → s.loop.toRegistry.Unqueued := by
  unfold Harmless at h
  rw [hpc] at h
  exact h

theorem Harmless.items (h : Harmless s) {i n : ℕ} (hpc : s.pc = .items i n) :
    s.loop.NoneReady s.sockets i n := by
  unfold Harmless at h
  rw [hpc] at h
  exact h

end

/-- a call of a handler keeps the link between the queues and `rebuild_poller_` -/
theorem Harmless.call {s t : State} (h : Harmless s) (hu : s.pc.user = true) (hpc : t.pc = s.pc)
    (hl : (s.loop.rebuildPoller = false → s.loop.toRegistry.Unqueued) →
      t.loop.rebuildPoller = false → t.loop.toRegistry.Unqueued) : Harmless t := by
  unfold Harmless at *
  rw [hpc]
  cases hs : s.pc with
  | outside => trivial
  | timer now c rc =>
    rw [hs] at h
    exact hl h
  | item i n => trivial
  | head => rw [hs] at hu; cases hu
  | timers now it rc => rw [hs] at hu; cases hu
  | items i n => rw [hs] at hu; cases hu

/-- only a removal during a dispatch fills the queues, and it asks for a rebuild -/
theorem remove_rebuild {l : Loop} {sockets : Sockets} {x : Target}
    (h : l.rebuildPoller = false → l.toRegistry.Unqueued)
    (hr : (l.remove sockets x).1.rebuildPoller = false) :
    (l.remove sockets x).1.toRegistry.Unqueued := by
  change (if l.dispatching then true else l.rebuildPoller) = false at hr
  show (l.toRegistry.remove sockets x).1.Unqueued
  unfold Registry.remove
  cases hd : l.dispatching with
  | true =>
    rw [hd] at hr
    cases hr
  | false =>
    rw [hd] at hr
    cases x.key sockets with
    | none => exact h hr
    | some k => exact h hr

theorem nextTimer_notDue {l : Loop} {next : ℕ} (hn : Numbered l next) {now : ℤ} {u t : Timer}
    (h : ∀ v ∈ Loop.timersAfter u.callable l.timers, v.id ∈ l.timerRemoveLater → ¬ v.when < now)
    (ht : t ∈ (l.timerReturned u).timers)
    (hit : some t.callable = Loop.nextTimer u.callable l.timers)
    (hq : t.id ∈ l.timerRemoveLater) : ¬ t.when < now := by
  obtain ⟨v, hv, hcall⟩ := Option.map_eq_some_iff.mp hit.symm
  have hafter : v ∈ Loop.timersAfter u.callable l.timers := List.mem_of_head? hv
  have hne : v.callable ≠ u.callable :=
    Loop.timersAfter_ne hn.timers_nodup hafter
  -- the next timer is not the one that has returned, so it is as it was
  obtain ⟨w, hw, hid, hwcall, hsame⟩ := Loop.mem_timerReturned ht
  obtain rfl := hsame fun e => hne (hcall.trans e)
  obtain rfl := hn.timer_unique hw (Loop.mem_timersAfter hafter) hcall.symm
  exact h w hafter hq

theorem step_harmless {s t : State} {l : Label} {e : List Event} (h : Step s l t e)
    (ho : Timely s l) (hn : Numbered s.loop s.next) (hs : Harmless s) : Harmless t := by
  cases h with
  | add x event hu => exact hs.call hu rfl nofun
  | remove x hu => exact hs.call hu rfl fun h hr => remove_rebuild h hr
  | addTimer delay times id now hu hclock hid => exact hs.call hu rfl fun h => h
  | reset id now hu hclock =>
    refine hs.call hu rfl ?_
    dsimp only
    unfold Loop.reset
    split <;> exact fun h => h
  | removeTimer id hu =>
    refine hs.call hu rfl ?_
    dsimp only
    unfold Loop.removeTimer
    split <;> exact fun h => h
  | moved r p hu => exact hs.call hu rfl fun h => h
  | start hpc => exact ho
  | flushThrows now now' passNow zmqPoll hpc hf => trivial
  | pollThrows now now' passNow zmqPoll p hpc hclock hf => trivial
  | iterate now now' passNow zmqPoll p rc hpc hclock hf =>
    have hq := (Loop.flushRemoveLater_timers s.sockets { s.loop with rebuildPoller := false }).2.2.2 hf
    obtain ⟨heq, hres⟩ := Loop.flushRemoveLater_toRegistry s.sockets
      { s.loop with rebuildPoller := false }
    refine ⟨fun _ => ?_, fun tm htm hit hid => ?_⟩
    · obtain ⟨hfd, hsock⟩ := Registry.flushRemoveLater_queues (hres ▸ hf)
      show (flushed s).toRegistry.Unqueued
      unfold flushed
      rw [heq]
      exact ⟨hsock, hfd⟩
    · change tm.id ∈ (flushed s).timerRemoveLater at hid
      unfold flushed at hid
      rw [hq.1] at hid
      cases hid
  | fire now c rc tm hpc ht hc hdue => exact (hs.timers hpc).1
  | timersDone now it rc hpc =>
    unfold timersDone
    dsimp only
    split
    · exact Or.inl rfl
    · rename_i hrebuild
      split
      · have hq := (hs.timers hpc).1 (Bool.eq_false_iff.mpr hrebuild)
        exact Registry.Unqueued.noneReady hq 0 _
      · exact Or.inl rfl
  | handle i n item c hpc hi hit hready => trivial
  | skip i n item c hpc hi hit hready => exact Registry.NoneReady.succ (hs.items hpc)
  | testThrows i n item c x hpc hi hit hready => trivial
  | itemsDone i n hpc => exact Or.inl rfl
  | timerTrue now c rc tm hpc ht hc =>
    subst hc
    unfold Timely at ho
    rw [hpc] at ho
    obtain ⟨hreg, hqueue, hrebuild⟩ := Loop.timerReturned_rest s.loop tm
    constructor
    · dsimp only
      rw [hreg, hrebuild]
      exact hs.timer hpc
    · intro u hu hit hid
      dsimp only at hid
      rw [hqueue] at hid
      exact nextTimer_notDue hn ho hu hit hid
  | timerFalse now c rc tm hpc ht hc => trivial
  | itemTrue i n hpc =>
    unfold Timely at ho
    rw [hpc] at ho
    exact ho
  | itemFalse i n hpc => trivial
  | throw hu hpc => trivial

/-! ## a removed handler -/

def Invokes (c : ℕ) : Event → Prop
  | .fired c' _ => c' = c
  | .handled c' => c' = c
  | _ => False

theorem finish_retired {s : State} {c : ℕ} (h : s.loop.Retired s.sockets c) :
    (finish s).loop.Retired s.sockets c :=
  Loop.flush_retired (Or.inl rfl) h

theorem flushed_retired {s : State} {c : ℕ} (h : s.loop.Retired s.sockets c)
    (hpc : s.pc = .head) (hs : Harmless s) : (flushed s).Retired s.sockets c :=
  Loop.flush_retired (hs.head hpc) h

theorem timersDone_retired {s : State} {c : ℕ} (h : s.loop.Retired s.sockets c) (rc : Bool) :
    (timersDone s rc).loop.Retired (timersDone s rc).sockets c := by
  have hsort : s.loop.sort.Retired s.sockets c :=
    ⟨h.1, fun t ht hc => h.2 t (Loop.mem_sortTimers.mp ht) hc⟩
  unfold timersDone
  dsimp only
  split
  · exact hsort
  · split <;> exact hsort

/-- a retired handler stays retired and is not invoked -/
theorem step_retired {s t : State} {l : Label} {e : List Event} {c : ℕ} (h : Step s l t e)
    (ho : Timely s l) (hs : Harmless s) (hc : c < s.next) (hr : s.loop.Retired s.sockets c) :
    t.loop.Retired t.sockets c ∧ ∀ ev ∈ e, ¬ Invokes c ev := by
  cases h with
  | add x event hu => exact ⟨hr.add x (Nat.ne_of_gt hc) event, nofun⟩
  | remove x hu => exact ⟨hr.remove x, nofun⟩
  | addTimer delay times id now hu hclock hid =>
    refine ⟨hr.addTimer now id delay times (Nat.ne_of_gt hc), ?_⟩
    intro ev hev
    rw [List.mem_singleton.mp hev]
    exact fun h => h
  | reset id now hu hclock =>
    refine ⟨hr.reset now id, ?_⟩
    intro ev hev
    obtain ⟨tm, _, rfl⟩ := Option.map_eq_some_iff.mp (Option.mem_toList.mp hev)
    exact fun h => h
  | removeTimer id hu =>
    exact ⟨Loop.removeTimer_retires id hr.1 fun tm ht hc => Or.inl (hr.2 tm ht hc), nofun⟩
  | moved r p hu => exact ⟨⟨hr.1.moved ho, hr.2⟩, nofun⟩
  | flushThrows now now' passNow zmqPoll hpc hf => exact ⟨flushed_retired hr hpc hs, nofun⟩
  | pollThrows now now' passNow zmqPoll p hpc hclock hf =>
    refine ⟨flushed_retired hr hpc hs, ?_⟩
    intro ev hev
    rw [List.mem_singleton.mp hev]
    exact fun h => h
  | iterate now now' passNow zmqPoll p rc hpc hclock hf =>
    refine ⟨flushed_retired hr hpc hs, ?_⟩
    intro ev hev
    rw [List.mem_singleton.mp hev]
    exact fun h => h
  | fire now c' rc tm hpc ht hcall hdue =>
    refine ⟨hr, ?_⟩
    intro ev hev
    rw [List.mem_singleton.mp hev]
    intro hsame
    subst hsame
    exact (hs.timers hpc).2 tm ht (congrArg some hcall) (hr.2 tm ht hcall) hdue
  | timersDone now it rc hpc => exact ⟨timersDone_retired hr rc, nofun⟩
  | handle i n item c' hpc hi hit hready =>
    refine ⟨hr, ?_⟩
    intro ev hev
    rw [List.mem_singleton.mp hev]
    intro hsame
    subst hsame
    have hkey := hr.1 (item, c') (List.mem_of_getElem? hit) rfl
    exact hs.items hpc (item, c') (Registry.mem_ahead hi hit) hkey hready
  | timerTrue now c' rc tm hpc ht hcall => exact ⟨hr.timerReturned tm, nofun⟩
  | timerFalse now c' rc tm hpc ht hcall =>
    have hret : (s.loop.timerReturned tm).Retired s.sockets c := hr.timerReturned tm
    exact ⟨finish_retired (s := { s with loop := s.loop.timerReturned tm }) hret, nofun⟩
  | itemFalse i n hpc => exact ⟨finish_retired hr, nofun⟩
  | _ => exact ⟨hr, nofun⟩

/-! ## the runs -/

/-- the call removes the socket, the descriptor or the timer that the handler numbered `c` is
registered for -/
def RegisteredFor (s : State) (c : ℕ) : Api → Prop
  | .remove x => ∃ it ∈ s.loop.items, it.2 = c ∧ x.key s.sockets = some it.1.key
  | .removeTimer id => ∃ t ∈ s.loop.timers, t.callable = c ∧ t.id = id
  | _ => False

theorem retired_of_call {s t : State} {c : ℕ} {call : Api} {e : List Event}
    (hs : Step s (.call call) t e) (h : RegisteredFor s c call)
    (hn : Numbered s.loop s.next) :
    (c < t.next ∧ t.loop.Retired t.sockets c) ∧ ∀ ev ∈ e, ¬ Invokes c ev := by
  cases hs with
  | add x event hu => exact absurd h id
  | addTimer delay times id now hu hclock hid => exact absurd h fun h => h
  | reset id now hu hclock => exact absurd h fun h => h
  | remove x hu =>
    obtain ⟨it, hit, rfl, hkey⟩ := h
    refine ⟨⟨hn.item_lt hit, Registry.remove_retires x ?_, ?_⟩, nofun⟩
    · intro it' hit' he
      apply Or.inr
      rw [hn.item_unique hit' hit he]
      exact hkey
    · intro tm ht he
      exact absurd he.symm (hn.item_ne_timer hit ht)
  | removeTimer id hu =>
    obtain ⟨tm, ht, rfl, rfl⟩ := h
    refine ⟨⟨hn.timer_lt ht, Loop.removeTimer_retires tm.id ?_ ?_⟩, nofun⟩
    · intro it hit he
      exact absurd he (hn.item_ne_timer hit ht)
    · intro tm' ht' he
      apply Or.inr
      rw [hn.timer_unique ht' ht he]

/-- **In a loop removal is final**, if every removal comes in time. -/
theorem loop_removal_is_final {sockets : Sockets} {clock : ℤ} {ls ls' : List Label} {call : Api}
    {c : ℕ} {s u : State} {tr tr' : List Event}
    (hr : machine.exec { sockets := sockets, clock := clock } ls = some (s, tr))
    (hreg : RegisteredFor s c call) (hr' : machine.exec s (.call call :: ls') = some (u, tr'))
    (hok : machine.Along Timely { sockets := sockets, clock := clock } (ls ++ .call call :: ls')) :
    ∀ ev ∈ tr', ¬ Invokes c ev := by
  have hinit : Numbered {} 0 ∧ Harmless { sockets := sockets, clock := clock } :=
    ⟨numbered_init 0, trivial⟩
  exact Lib.Machine.exec_since (fun s => Numbered s.loop s.next ∧ Harmless s)
    (fun s => c < s.next ∧ s.loop.Retired s.sockets c) (fun ev => ¬ Invokes c ev)
    (fun s l t e hi ho hs => ⟨step_numbered (step_cases hs) hi.1,
      step_harmless (step_cases hs) ho hi.1 hi.2⟩)
    (fun s l t e hi hp ho hs => by
      have hs : Step s l t e := step_cases hs
      obtain ⟨hret, hno⟩ := step_retired hs ho hi.2 hp.1 hp.2
      exact ⟨⟨Nat.lt_of_lt_of_le hp.1 (step_next hs), hret⟩, hno⟩)
    hinit (fun t e hi hs => retired_of_call (step_cases hs) hreg hi.1) hok hr hr'

end Run

/-- **Removal is final**, in the loop and in the reactor: when every step is timely, the handler
that was registered for what a call removes is not invoked after the call. -/
theorem removal_is_final (sockets : Sockets) (c : ℕ) :
    (∀ {clock : ℤ} {ls ls' : List Run.Label} {call : Run.Api} {s u : Run.State}
      {tr tr' : List Run.Event},
      Run.machine.exec { sockets := sockets, clock := clock } ls = some (s, tr) →
      Run.RegisteredFor s c call → Run.machine.exec s (.call call :: ls') = some (u, tr') →
      Run.machine.Along Run.Timely { sockets := sockets, clock := clock }
        (ls ++ .call call :: ls') →
      ∀ ev ∈ tr', ¬ Run.Invokes c ev) ∧
    (∀ {ls ls' : List Reactor.Label} {call : Reactor.Api} {s u : Reactor.State}
      {tr tr' : List ℕ},
      Reactor.machine.exec { sockets := sockets } ls = some (s, tr) →
      Reactor.RegisteredFor s c call → Reactor.machine.exec s (.call call :: ls') = some (u, tr') →
      Reactor.machine.Along Reactor.Timely { sockets := sockets } (ls ++ .call call :: ls') →
      c ∉ tr') :=
  ⟨Run.loop_removal_is_final, Reactor.reactor_removal_is_final⟩

/-- a timer's callable removes a descriptor that is ready -/
def removedByTimer : List Run.Label × List Run.Label :=
  ([.call (.add (.fd 3) 1), .call (.addTimer 10 0 0 0), .start,
    .iterate 0 0 12000000 ⟨fun i => if i = 0 then some 1 else none, 1, .eintr⟩, .test],
   [.ret true, .test, .iterate 13000000 13000000 14000000 Run.nothingReady, .test])

/-- a handler removes its own descriptor, another one is ready behind it -/
def removedByItself : List Reactor.Label × List Reactor.Label :=
  ([.call (.add (.fd 3) 1), .call (.add (.fd 4) 1), .poll ⟨fun _ => some 1, 2, .eintr⟩, .test],
   [.ret, .test, .ret, .test, .poll ⟨fun _ => some 1, 1, .eintr⟩, .test])

theorem removal_is_final_in_time :
    (∃ s u tr tr', Run.machine.exec {} removedByTimer.1 = some (s, tr) ∧
      Run.machine.exec s (.call (.remove (.fd 3)) :: removedByTimer.2) = some (u, tr') ∧
      ∀ ev ∈ tr', ¬ Run.Invokes 0 ev) ∧
    (∃ s u tr tr', Reactor.machine.exec {} removedByItself.1 = some (s, tr) ∧
      Reactor.machine.exec s (.call (.remove (.fd 3)) :: removedByItself.2) = some (u, tr') ∧
      0 ∉ tr') := by
  obtain ⟨hloop, hreactor⟩ := removal_is_final (fun _ => none) 0
  constructor
  · have hrun : (Run.machine.exec {} removedByTimer.1).map (fun r =>
        (r.1.loop.items.map (fun it => (it.2, it.1.key)),
          (Run.machine.exec r.1 (.call (.remove (.fd 3)) :: removedByTimer.2)).isSome))
        = some ([(0, .fd 3)], true) := by decide +kernel
    obtain ⟨⟨s, tr⟩, hr, h⟩ := Option.map_eq_some_iff.mp hrun
    obtain ⟨hitems, hsome⟩ := Prod.mk.inj h
    obtain ⟨⟨u, tr'⟩, hr'⟩ := Option.isSome_iff_exists.mp hsome
    have hok : Run.machine.Along Run.Timely {}
        (removedByTimer.1 ++ .call (.remove (.fd 3)) :: removedByTimer.2) := by decide +kernel
    have hmem : (0, Key.fd 3) ∈ s.loop.items.map fun it => (it.2, it.1.key) := by
      rw [hitems]
      exact List.mem_cons_self
    obtain ⟨it, hit, he⟩ := List.mem_map.mp hmem
    obtain ⟨hc, hk⟩ := Prod.mk.inj he
    have hreg : Run.RegisteredFor s 0 (.remove (.fd 3)) := ⟨it, hit, hc, congrArg some hk.symm⟩
    exact ⟨s, u, tr, tr', hr, hr', hloop hr hreg hr' hok⟩
  · have hrun : (Reactor.machine.exec {} removedByItself.1).map (fun r =>
        (r.1.registry.items.map (fun it => (it.2, it.1.key)),
          (Reactor.machine.exec r.1 (.call (.remove (.fd 3)) :: removedByItself.2)).isSome))
        = some ([(0, .fd 3), (1, .fd 4)], true) := by decide +kernel
    obtain ⟨⟨s, tr⟩, hr, h⟩ := Option.map_eq_some_iff.mp hrun
    obtain ⟨hitems, hsome⟩ := Prod.mk.inj h
    obtain ⟨⟨u, tr'⟩, hr'⟩ := Option.isSome_iff_exists.mp hsome
    have hok : Reactor.machine.Along Reactor.Timely {}
        (removedByItself.1 ++ .call (.remove (.fd 3)) :: removedByItself.2) := by decide +kernel
    have hmem : (0, Key.fd 3) ∈ s.registry.items.map fun it => (it.2, it.1.key) := by
      rw [hitems]
      exact List.mem_cons_self
    obtain ⟨it, hit, he⟩ := List.mem_map.mp hmem
    obtain ⟨hc, hk⟩ := Prod.mk.inj he
    have hreg : Reactor.RegisteredFor s 0 (.remove (.fd 3)) :=
      ⟨it, hit, hc, congrArg some hk.symm⟩
    exact ⟨s, u, tr, tr', hr, hr', hreactor hr hreg hr' hok⟩

/-- **A due timer that is removed still fires**: of two timers due in one pass, the callable of the
first removes the second. -/
theorem removed_due_timer_fires :
    ∃ s u tr tr', Run.machine.exec {} [.call (.addTimer 10 0 0 0), .call (.addTimer 10 0 1 0),
        .start, .iterate 0 0 12000000 Run.nothingReady, .test] = some (s, tr) ∧
      Run.RegisteredFor s 1 (.removeTimer 1) ∧
      Run.machine.exec s [.call (.removeTimer 1), .ret true, .test] = some (u, tr') ∧
      ¬ ∀ ev ∈ tr', ¬ Run.Invokes 1 ev := by
  have hrun : (Run.machine.exec {} [.call (.addTimer 10 0 0 0), .call (.addTimer 10 0 1 0),
      .start, .iterate 0 0 12000000 Run.nothingReady, .test]).map (fun r =>
        (r.1.loop.timers.map (fun t => (t.callable, t.id)),
          (Run.machine.exec r.1 [.call (.removeTimer 1), .ret true, .test]).map Prod.snd))
      = some ([(0, 0), (1, 1)], some [.fired 1 12000000]) := by decide +kernel
  obtain ⟨⟨s, tr⟩, hr, h⟩ := Option.map_eq_some_iff.mp hrun
  obtain ⟨htimers, hexec⟩ := Prod.mk.inj h
  obtain ⟨⟨u, tr'⟩, hr', htr⟩ := Option.map_eq_some_iff.mp hexec
  have hmem : (1, 1) ∈ s.loop.timers.map fun t => (t.callable, t.id) := by
    rw [htimers]
    exact List.mem_cons_of_mem _ List.mem_cons_self
  obtain ⟨t, ht, he⟩ := List.mem_map.mp hmem
  refine ⟨s, u, tr, tr', hr, ⟨t, ht, Prod.mk.inj he⟩, hr', ?_⟩
  intro hno
  dsimp only at htr
  apply hno (.fired 1 12000000)
  · rw [htr]
    exact List.mem_cons_self
  · exact rfl

end Zmqpp
