import ZmqppPty.Dispatch.Final

/-!
# Queued removals and reused addresses

A removal of a timer during a dispatch queues the address of its `timer_t`, and the next flush
deletes what is at that address by then.  The pass frees a timer itself after its last invocation,
so its address may be handed out again while it is in the queue.

* `Named`               a removal of the run was called on that timer while it was in `timers_`;
* `flushes`             the loop a step flushes;
* `FlushesOnlyNamed`    no flush of the run deletes another timer;
* `FreshAddress`        no timer is created at an address that is in the queue;
* `NamedQueue`          the timers at the queued addresses are named;
* `step_namedQueue`     every step keeps that;
* `flush_spares_others`     what a flush deletes has been named.
-/

namespace Zmqpp
namespace Loop

theorem removeTimers_keep {l : Loop} {t : Timer} {ids : List TimerId} (ht : t ∈ l.timers)
    (hid : t.id ∉ ids) : t ∈ (ids.foldl removeTimer l).timers := by
  induction ids generalizing l with
  | nil => exact ht
  | cons id ids ih =>
    rw [List.mem_cons, not_or] at hid
    rw [List.foldl_cons]
    apply ih _ hid.2
    unfold removeTimer
    split
    · exact ht
    · exact List.mem_filter.mpr ⟨ht, decide_eq_true hid.1⟩

/-- a flush deletes only the timers at the queued addresses -/
theorem flush_keeps {sockets : Sockets} {l : Loop} {t : Timer} (ht : t ∈ l.timers)
    (hid : t.id ∉ l.timerRemoveLater) : t ∈ (flushRemoveLater sockets l).1.timers := by
  obtain ⟨l', ⟨htimers, -⟩, ⟨-, hl⟩ | ⟨-, hl⟩⟩ := flushRemoveLater_apart sockets l
  · rw [hl, htimers]
    exact ht
  · rw [hl]
    exact removeTimers_keep (htimers ▸ ht) hid

/-- a timer at a queued address after a flush has been at one before -/
theorem flush_queued {sockets : Sockets} {l : Loop} {t : Timer}
    (ht : t ∈ (flushRemoveLater sockets l).1.timers)
    (hid : t.id ∈ (flushRemoveLater sockets l).1.timerRemoveLater) :
    t ∈ l.timers ∧ t.id ∈ l.timerRemoveLater := by
  obtain ⟨hsub, _, herror, hok⟩ := flushRemoveLater_timers sockets l
  refine ⟨hsub.subset ht, ?_⟩
  by_cases hres : (flushRemoveLater sockets l).2 = .ok ()
  · rw [(hok hres).1] at hid
    cases hid
  · rw [(herror hres).2] at hid
    exact hid

end Loop

namespace Run

/-! ## what a run removes, and what it flushes -/

/-- one of the calls was a removal of the timer numbered `c`, which was in `timers_` then -/
def Named (init : State) (ls : List Label) (c : ℕ) : Prop :=
  ∃ before id after s tr, ls = before ++ .call (.removeTimer id) :: after ∧
    machine.exec init before = some (s, tr) ∧ RegisteredFor s c (.removeTimer id)

/-- the loop that `flush_remove_later` is called on in the step -/
def flushes (s : State) : Label → Option Loop
  | .iterate _ _ _ _ => some { s.loop with rebuildPoller := false }
  | .ret false =>
    match s.pc with
    | .timer _ c _ =>
      (s.loop.timers.find? fun t => t.callable = c).map fun t =>
        (s.loop.timerReturned t).setDispatching false
    | .item _ _ => some (s.loop.setDispatching false)
    | _ => none
  | _ => none

/-- every timer that a flush of the run deletes has been named in a removal before -/
def FlushesOnlyNamed (init : State) (ls : List Label) : Prop :=
  ∀ pre l post s t tr e L, ls = pre ++ l :: post → machine.exec init pre = some (s, tr) →
    step s l = some (t, e) → flushes s l = some L →
      ∀ u ∈ L.timers, u ∉ t.loop.timers → Named init pre u.callable

/-- the new timer is not at an address that waits for the flush -/
def FreshAddress (s : State) : Label → Prop
  | .call (.addTimer _ _ id _) => id ∉ s.loop.timerRemoveLater
  | _ => True

instance (s : State) : DecidablePred (FreshAddress s)
  | .call (.addTimer _ _ id _) => inferInstanceAs (Decidable (id ∉ s.loop.timerRemoveLater))
  | .call (.add _ _) | .call (.remove _) | .call (.reset _ _) | .call (.removeTimer _)
  | .moved _ _ | .start | .iterate _ _ _ _ | .test | .ret _ | .throw => isTrue trivial

theorem Named.more {init : State} {ls : List Label} {c : ℕ} (h : Named init ls c)
    (ls' : List Label) : Named init (ls ++ ls') c := by
  obtain ⟨before, id, after, s, tr, rfl, hr, hreg⟩ := h
  exact ⟨before, id, after ++ ls', s, tr, by rw [List.append_assoc, List.cons_append], hr, hreg⟩

theorem named_call {init s : State} {ls : List Label} {tr : List Event} {id : TimerId}
    (hr : machine.exec init ls = some (s, tr)) {t : Timer} (ht : t ∈ s.loop.timers)
    (hid : t.id = id) : Named init (ls ++ [.call (.removeTimer id)]) t.callable :=
  ⟨ls, id, [], s, tr, rfl, hr, t, ht, rfl, hid⟩

/-- after a step that flushes, the timers are those that the flush leaves -/
theorem step_flushes {s t : State} {l : Label} {e : List Event} {L : Loop} (h : Step s l t e)
    (hn : Numbered s.loop s.next) (hL : flushes s l = some L) :
    t.loop.timers = (Loop.flushRemoveLater s.sockets L).1.timers := by
  cases h with
  | flushThrows now now' passNow zmqPoll hpc hf => cases hL; rfl
  | pollThrows now now' passNow zmqPoll p hpc hclock hf => cases hL; rfl
  | iterate now now' passNow zmqPoll p rc hpc hclock hf => cases hL; rfl
  | timerFalse now c rc tm hpc ht hc =>
    unfold flushes at hL
    simp only [hpc] at hL
    obtain ⟨u, hfind, rfl⟩ := Option.map_eq_some_iff.mp hL
    obtain ⟨hu, huc⟩ := mem_of_find hfind
    rw [hn.timer_unique hu ht (huc.trans hc.symm)]
    rfl
  | itemFalse i n hpc =>
    unfold flushes at hL
    simp only [hpc] at hL
    cases hL
    rfl
  | timersDone now it rc hpc => cases hL
  | _ => cases hL

/-! ## the invariant -/

/-- the timers at the queued addresses have been named in removals -/
def NamedQueue (init : State) (ls : List Label) (s : State) : Prop :=
  ∀ t ∈ s.loop.timers, t.id ∈ s.loop.timerRemoveLater → Named init ls t.callable

theorem NamedQueue.kept {init s t : State} {ls : List Label} (h : NamedQueue init ls s) (l : Label)
    (ht : ∀ u ∈ t.loop.timers, u.id ∈ t.loop.timerRemoveLater →
      ∃ v ∈ s.loop.timers, v.id ∈ s.loop.timerRemoveLater ∧ v.callable = u.callable) :
    NamedQueue init (ls ++ [l]) t := by
  intro u hu hid
  obtain ⟨v, hv, hvid, hcall⟩ := ht u hu hid
  rw [← hcall]
  exact (h v hv hvid).more [l]

theorem queued_timerReturned {l : Loop} {u t : Timer} (ht : t ∈ (l.timerReturned u).timers)
    (hid : t.id ∈ (l.timerReturned u).timerRemoveLater) :
    ∃ v ∈ l.timers, v.id ∈ l.timerRemoveLater ∧ v.callable = t.callable := by
  obtain ⟨v, hv, hvid, hcall, -⟩ := Loop.mem_timerReturned ht
  rw [(Loop.timerReturned_rest l u).2.1, ← hvid] at hid
  exact ⟨v, hv, hid, hcall⟩

theorem timersDone_queue (s : State) (rc : Bool) :
    (timersDone s rc).loop.timerRemoveLater = s.loop.timerRemoveLater := by
  unfold timersDone
  dsimp only
  split
  · rfl
  · split <;> rfl

theorem step_namedQueue {init s t : State} {ls : List Label} {l : Label} {tr e : List Event}
    (hr : machine.exec init ls = some (s, tr)) (h : Step s l t e) (ho : FreshAddress s l)
    (hq : NamedQueue init ls s) : NamedQueue init (ls ++ [l]) t := by
  cases h with
  | addTimer delay times id now hu hclock hid =>
    intro u hm hqueue
    change u ∈ sortTimers _ at hm
    rcases List.mem_append.mp (Loop.mem_sortTimers.mp hm) with hm | hm
    · exact (hq u hm hqueue).more _
    · rw [List.mem_singleton.mp hm] at hqueue
      exact absurd hqueue ho
  | reset id now hu hclock =>
    refine hq.kept _ ?_
    dsimp only
    unfold Loop.reset
    split
    · intro u hm hqueue
      change u ∈ sortTimers _ at hm
      obtain ⟨v, hv, hid, hcall⟩ := Loop.mem_resetFirst (Loop.mem_sortTimers.mp hm)
      exact ⟨v, hv, hid ▸ hqueue, hcall⟩
    · exact fun u hm hqueue => ⟨u, hm, hqueue, rfl⟩
  | removeTimer id hu =>
    intro u hm hqueue
    dsimp only at hm hqueue
    unfold Loop.removeTimer at hm hqueue
    split at hm
    · rename_i hd
      rw [if_pos hd] at hqueue
      rcases List.mem_append.mp hqueue with hqueue | hqueue
      · exact (hq u hm hqueue).more _
      · exact named_call hr hm (List.mem_singleton.mp hqueue)
    · rename_i hd
      rw [if_neg hd] at hqueue
      exact (hq u (List.mem_filter.mp hm).1 hqueue).more _
  | flushThrows now now' passNow zmqPoll hpc hf =>
    refine hq.kept _ fun u hm hqueue => ?_
    obtain ⟨hm', hqueue'⟩ := Loop.flush_queued hm hqueue
    exact ⟨u, hm', hqueue', rfl⟩
  | pollThrows now now' passNow zmqPoll p hpc hclock hf =>
    refine hq.kept _ fun u hm hqueue => ?_
    obtain ⟨hm', hqueue'⟩ := Loop.flush_queued hm hqueue
    exact ⟨u, hm', hqueue', rfl⟩
  | iterate now now' passNow zmqPoll p rc hpc hclock hf =>
    refine hq.kept _ fun u hm hqueue => ?_
    obtain ⟨hm', hqueue'⟩ := Loop.flush_queued hm hqueue
    exact ⟨u, hm', hqueue', rfl⟩
  | timersDone now it rc hpc =>
    refine hq.kept _ fun u hm hqueue => ?_
    rw [(timersDone_rest s rc).1, Loop.mem_sortTimers] at hm
    rw [timersDone_queue] at hqueue
    exact ⟨u, hm, hqueue, rfl⟩
  | timerTrue now c rc tm hpc ht hc =>
    exact hq.kept _ fun u hm hqueue => queued_timerReturned hm hqueue
  | timerFalse now c rc tm hpc ht hc =>
    refine hq.kept _ fun u hm hqueue => ?_
    obtain ⟨hm', hqueue'⟩ := Loop.flush_queued hm hqueue
    exact queued_timerReturned hm' hqueue'
  | itemFalse i n hpc =>
    refine hq.kept _ fun u hm hqueue => ?_
    obtain ⟨hm', hqueue'⟩ := Loop.flush_queued hm hqueue
    exact ⟨u, hm', hqueue', rfl⟩
  | _ => exact hq.kept _ fun u hm hqueue => ⟨u, hm, hqueue, rfl⟩

/-- the loop a step flushes has the queue of the state before the step -/
theorem flushes_queued {init s : State} {ls : List Label} {l : Label} {L : Loop}
    (hq : NamedQueue init ls s) (hL : flushes s l = some L) {u : Timer} (hu : u ∈ L.timers)
    (hid : u.id ∈ L.timerRemoveLater) : Named init ls u.callable := by
  unfold flushes at hL
  split at hL
  · cases hL
    exact hq u hu hid
  · split at hL
    · obtain ⟨t, -, rfl⟩ := Option.map_eq_some_iff.mp hL
      obtain ⟨v, hv, hvid, hcall⟩ := queued_timerReturned hu hid
      rw [← hcall]
      exact hq v hv hvid
    · cases hL
      exact hq u hu hid
    · cases hL
  · cases hL

/-! ## the runs -/

/-- **A removal deletes no other timer**, if no timer is created at the address of one whose removal
is still queued. -/
theorem flush_spares_others {sockets : Sockets} {clock : ℤ} {ls : List Label}
    (hok : machine.Along FreshAddress { sockets := sockets, clock := clock } ls) :
    FlushesOnlyNamed { sockets := sockets, clock := clock } ls := by
  intro pre l post v t tr' e L heq hpre hs hL u hu hgone
  rw [heq] at hok
  obtain ⟨hok, -⟩ := Lib.Machine.along_append hok hpre
  have hinv := Lib.Machine.exec_labels (fun ls s => Numbered s.loop s.next ∧
      NamedQueue { sockets := sockets, clock := clock } ls s)
    (fun ls u l v tr e hr hp ho hs =>
      ⟨step_numbered (step_cases hs) hp.1, step_namedQueue hr (step_cases hs) ho hp.2⟩)
    ⟨numbered_init 0, nofun⟩ hok hpre
  apply flushes_queued hinv.2 hL hu
  by_contra hid
  rw [step_flushes (step_cases hs) hinv.1 hL] at hgone
  exact hgone (Loop.flush_keeps hu hid)

/-- of two timers for one invocation, the callable of the first removes the second, which is not
due, and creates a third -/
def removesOther : List Label :=
  [.call (.addTimer 10 1 0 0), .call (.addTimer 20 1 1 0), .start,
    .iterate 0 0 12000000 nothingReady, .test, .call (.removeTimer 1),
    .call (.addTimer 30 1 2 13000000), .ret true, .test,
    .iterate 14000000 14000000 15000000 nothingReady]

theorem flush_spares_others_third :
    ∃ s tr, machine.exec {} removesOther = some (s, tr) ∧
      s.loop.timers.map Timer.callable = [2] ∧ FlushesOnlyNamed {} removesOther := by
  have hrun : (machine.exec {} removesOther).map (fun r => r.1.loop.timers.map Timer.callable)
      = some [2] := by decide +kernel
  obtain ⟨⟨s, tr⟩, hr, hs⟩ := Option.map_eq_some_iff.mp hrun
  have hok : machine.Along FreshAddress {} removesOther := by decide +kernel
  exact ⟨s, tr, hr, hs, flush_spares_others hok⟩

/-! ## a reused address -/

/-- Of two timers for one invocation, due in one pass, the callable of the first removes itself;
the pass frees it, and the callable of the second creates a timer at the same address. -/
def reusedAddress : List Label :=
  [.call (.addTimer 10 1 0 0), .call (.addTimer 10 1 1 0), .start,
    .iterate 0 0 12000000 nothingReady, .test, .call (.removeTimer 0), .ret true, .test,
    .call (.addTimer 30 0 0 13000000), .ret true, .test]

def Label.removesTimer : Label → Bool
  | .call (.removeTimer _) => true
  | _ => false

/-- **A removal can delete another timer**: the flush takes the third one away, although it was
created after the only removal. -/
theorem removal_deletes_later_timer :
    ∃ s tr l, machine.exec {} (reusedAddress ++ [l]) = some (s, tr) ∧
      ¬ FlushesOnlyNamed {} (reusedAddress ++ [l]) := by
  have hrun : (machine.exec {} reusedAddress).bind (fun r =>
      (step r.1 (.iterate 14000000 14000000 15000000 nothingReady)).map fun r' =>
        (r.1.loop.timers, r'.1.loop.timers))
      = some ([⟨0, 0, 30, 43000000, 2⟩], []) := by decide +kernel
  obtain ⟨⟨s, tr⟩, hr, h⟩ := Option.bind_eq_some_iff.mp hrun
  obtain ⟨⟨t, e⟩, hs, htimers⟩ := Option.map_eq_some_iff.mp h
  obtain ⟨hbefore, hafter⟩ := Prod.mk.inj htimers
  dsimp only at hbefore hafter
  refine ⟨t, tr ++ (e ++ []), .iterate 14000000 14000000 15000000 nothingReady,
    Lib.Machine.exec_append hr (Lib.Machine.exec_cons_of hs rfl), ?_⟩
  intro hall
  obtain ⟨before, id, after, v, tr', heq, hv, tm, htm, hcall, -⟩ :=
    hall reusedAddress _ [] s t tr e _ rfl hr hs rfl ⟨0, 0, 30, 43000000, 2⟩
      (by rw [hbefore]; exact List.mem_singleton_self _) (by rw [hafter]; exact List.not_mem_nil)
  -- wherever a timer is removed, the third one has not been created
  have hnone : ∀ n < reusedAddress.length, (reusedAddress[n]?.any Label.removesTimer) = true →
      (machine.exec {} (reusedAddress.take n)).all
        (fun r => r.1.loop.timers.all fun t => t.callable ≠ 2) = true := by decide +kernel
  have hn := hnone before.length (by rw [heq]; simp) (by rw [heq]; simp [Label.removesTimer])
  rw [heq, List.take_left, hv] at hn
  exact absurd hcall (of_decide_eq_true (List.all_eq_true.mp hn tm htm))

end Run
end Zmqpp
