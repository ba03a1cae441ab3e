import ZmqppPty.Dispatch.Schedule
import ZmqppPty.Dispatch.Stable

/-!
# The timeout of the poll (loop::tickless)

`tickless` looks at the first timer of the list only, so it relies on the list being sorted by the
deadlines.  `add` and `reset` sort it, and so does a timer pass that comes to its end; a pass that
a callable leaves with `return false`, or with an exception, does not.

* `Sorted`                  the list is in the order of the deadlines;
* `tickless_bounds`         the timeout of a sorted list;
* `NeverLate`               what a call of `tickless` should find and return;
* `LeavesPass`, `LeftSince`   a pass left so, and no sort since;
* `disordered_iff`          this alone leaves the list unsorted when `tickless` is called;
* `never_sleeps_past`       every call is `NeverLate` iff none comes after such a pass.
-/

namespace Zmqpp
namespace Loop

/-- the timers are in the order of their deadlines -/
def Sorted (l : Loop) : Prop := l.timers.Pairwise Timer.NotAfter

instance : DecidablePred Sorted := fun l =>
  inferInstanceAs (Decidable (l.timers.Pairwise Timer.NotAfter))

theorem Sorted.sublist {l l' : Loop} (h : l.Sorted) (hs : l'.timers.Sublist l.timers) :
    l'.Sorted := List.Pairwise.sublist hs h

theorem sorted_addTimer (l : Loop) (now : ℤ) (id : TimerId) (delay : ℤ) (times c : ℕ) :
    (l.addTimer now id delay times c).Sorted := sortTimers_sorted _

theorem Sorted.reset {l : Loop} (h : l.Sorted) (now : ℤ) (id : TimerId) :
    (l.reset now id).Sorted := by
  unfold Loop.reset
  split
  · exact sortTimers_sorted _
  · exact h

/-! ## the timeout -/

/-- the time left to a deadline, in milliseconds rounded down; none if it has passed -/
def wait (when now : ℤ) : ℤ := max 0 (when - now) / msec

theorem wait_mono {a b : ℤ} (h : a ≤ b) (now : ℤ) : wait a now ≤ wait b now :=
  Int.ediv_le_ediv (by decide) (max_le_max (Int.le_refl 0) (Int.sub_le_sub_right h now))

theorem wait_nonneg (when now : ℤ) : 0 ≤ wait when now :=
  Int.ediv_nonneg (Int.le_max_left 0 _) (by decide)

/-- the hour that `tickless` adds and the time left that it takes fit in 64 bits -/
def TicklessFits (l : Loop) (now now' : ℤ) : Prop :=
  IsInt64 (now + 3600000 * msec) ∧ IsInt64 (now + 3600000 * msec - now') ∧
    ∀ t ∈ l.timers.head?, IsInt64 (t.when - now')

instance (l : Loop) (now now' : ℤ) : Decidable (l.TicklessFits now now') :=
  inferInstanceAs (Decidable (_ ∧ _ ∧ ∀ t ∈ l.timers.head?, IsInt64 (t.when - now')))

/-- `duration_cast` rounds toward zero, and a negative count becomes zero -/
theorem clamped_eq (when now : ℤ) :
    (if (when - now).tdiv msec < 0 then 0 else (when - now).tdiv msec) = wait when now := by
  unfold wait
  rcases Int.le_total 0 (when - now) with h | h
  · rw [Int.max_eq_right h, Int.tdiv_eq_ediv_of_nonneg h]
    apply if_neg
    exact Int.not_lt.mpr (Int.ediv_nonneg h (by decide))
  · rw [Int.max_eq_left h]
    have hneg : (when - now).tdiv msec = -((now - when).tdiv msec) := by
      rw [← Int.neg_tdiv, Int.neg_sub]
    have hpos : 0 ≤ (now - when).tdiv msec := Int.tdiv_nonneg (by omega) (by decide)
    rw [hneg, Int.zero_ediv]
    split
    · rfl
    · omega

/-- the deadline that `tickless` takes, an hour at most -/
def tick (l : Loop) (now : ℤ) : ℤ :=
  match l.timers.head? with
  | some t => if t.when < now + 3600000 * msec then t.when else now + 3600000 * msec
  | none => now + 3600000 * msec

theorem tick_le (l : Loop) (now : ℤ) : l.tick now ≤ now + 3600000 * msec := by
  unfold tick
  cases l.timers.head? with
  | none => exact Int.le_refl _
  | some t =>
    dsimp only
    split <;> omega

theorem tickless_eq {l : Loop} {now now' : ℤ} (h : l.TicklessFits now now') :
    l.tickless now now' = wait (l.tick now) now' := by
  obtain ⟨hhour, hleft, hfirst⟩ := h
  have hfits : IsInt64 (l.tick now - now') := by
    unfold tick
    cases hh : l.timers.head? with
    | none => exact hleft
    | some t =>
      dsimp only
      split
      · exact hfirst t (by rw [hh]; rfl)
      · exact hleft
  rw [← clamped_eq, ← int64_eq hfits]
  unfold tickless
  rw [afterDelay_eq hhour]
  rfl

/-- the first deadline of a sorted list is the earliest -/
theorem tickless_bounds {l : Loop} (h : l.Sorted) {now now' : ℤ} (hn : now ≤ now')
    (hfits : l.TicklessFits now now') :
    0 ≤ l.tickless now now' ∧ l.tickless now now' ≤ 3600000 ∧
      ∀ t ∈ l.timers, l.tickless now now' ≤ wait t.when now' := by
  rw [tickless_eq hfits]
  have hhour : ∀ tick, tick ≤ now + 3600000 * msec → wait tick now' ≤ 3600000 := by
    intro tick htick
    have h1 : wait tick now' ≤ wait (now' + 3600000 * msec) now' := wait_mono (by omega) now'
    have h2 : wait (now' + 3600000 * msec) now' = 3600000 := by
      unfold wait
      rw [add_sub_cancel_left]
      decide
    rw [h2] at h1
    exact h1
  refine ⟨wait_nonneg _ _, hhour _ (l.tick_le now), ?_⟩
  · intro t ht
    apply wait_mono
    unfold Loop.Sorted at h
    unfold tick
    cases hl : l.timers with
    | nil =>
      rw [hl] at ht
      cases ht
    | cons u us =>
      rw [hl] at h ht
      have hut : u.when ≤ t.when := by
        rcases List.mem_cons.mp ht with rfl | hmem
        · exact Int.le_refl _
        · exact List.rel_of_pairwise_cons h hmem
      dsimp only [List.head?_cons]
      split <;> omega

end Loop

namespace Run

/-- at a call of `tickless` the deadlines are sorted, and the timeout is within an hour and within
the time left to each of them -/
def NeverLate : Event → Prop
  | .tickless whens now timeout =>
    whens.Pairwise (· ≤ ·) ∧ 0 ≤ timeout ∧ timeout ≤ 3600000 ∧
      ∀ w ∈ whens, timeout ≤ Loop.wait w now
  | _ => True

instance : DecidablePred NeverLate
  | .tickless whens now timeout => inferInstanceAs (Decidable (whens.Pairwise (· ≤ ·) ∧
      0 ≤ timeout ∧ timeout ≤ 3600000 ∧ ∀ w ∈ whens, timeout ≤ Loop.wait w now))
  | .created _ _ _ _ | .reset _ _ | .fired _ _ | .handled _ => isTrue trivial

theorem neverLate_ticklessEvent {l : Loop} {now now' : ℤ} (hn : now ≤ now')
    (hfits : l.TicklessFits now now') : NeverLate (ticklessEvent l now now') ↔ l.Sorted := by
  have hsorted : (l.timers.map Timer.when).Pairwise (· ≤ ·) ↔ l.Sorted := List.pairwise_map
  constructor
  · exact fun h => hsorted.mp h.1
  · intro h
    obtain ⟨h0, h1, h2⟩ := Loop.tickless_bounds h hn hfits
    refine ⟨hsorted.mpr h, h0, h1, ?_⟩
    intro w hw
    obtain ⟨t, ht, rfl⟩ := List.mem_map.mp hw
    exact h2 t ht

/-! ## which steps leave the timers unsorted -/

/-- a timer's callable ends the pass before its sort: it returns false, or throws -/
def LeavesPass (s : State) : Label → Prop
  | .ret b => b = false ∧ s.pc.running ≠ none
  | .throw => s.pc.running ≠ none
  | _ => False

/-- a step outside a pass that does not sort the timers -/
def Unsorting (s : State) : Label → Prop
  | .call (.addTimer _ _ _ _) => False
  | .call (.reset id _) => id ∉ s.loop.timers.map Timer.id
  | .test | .ret _ | .throw => False
  | _ => True

/-- since the last pass that a callable has left before its sort, in the state `v`, the timers have
not been sorted -/
structure LeftSince (s0 : State) (ls : List Label) (s v : State) : Prop where
  run : ∃ pre l post u tr e tr', ls = pre ++ l :: post ∧ machine.exec s0 pre = some (u, tr) ∧
    machine.step u l = some (v, e) ∧ LeavesPass u l ∧ machine.exec v post = some (s, tr') ∧
    machine.Along Unsorting v post
  sublist : s.loop.timers.Sublist v.loop.timers

/-- two timers that stand in the wrong order, the later one in front -/
def Overtaken (ts : List Timer) (a b : Timer) : Prop := [a, b].Sublist ts ∧ b.when < a.when

/-- When `start` calls `tickless`, after a pass that a callable has left with one timer moved past
another one, both are still there, and no timer has been added or reset, nor a pass completed. -/
def Disordered (s0 : State) (ls : List Label) (s : State) : Prop :=
  ∃ v a b, LeftSince s0 ls s v ∧ Overtaken v.loop.timers a b ∧
    a ∈ (flushed s).timers ∧ b ∈ (flushed s).timers

/-- the timers are sorted but in a timer pass, and after one that a callable has left -/
def SortedOrLeft (s0 : State) (ls : List Label) (s : State) : Prop :=
  match s.pc with
  | .timers _ _ _ | .timer _ _ _ => True
  | .items _ _ | .item _ _ => s.loop.Sorted
  | .outside | .head => s.loop.Sorted ∨ ∃ v, LeftSince s0 ls s v

section
variable {s0 s t v : State} {ls : List Label} {l : Label} {e tr : List Event}

theorem LeftSince.concat (h : LeftSince s0 ls s v) (hs : machine.step s l = some (t, e))
    (hun : Unsorting s l) (hsub : t.loop.timers.Sublist s.loop.timers) :
    LeftSince s0 (ls ++ [l]) t v := by
  obtain ⟨pre, l', post, u, tr, e', tr', rfl, hpre, hleaves, hl, hpost, halong⟩ := h.run
  refine ⟨⟨pre, l', post ++ [l], u, tr, e', _, ?_, hpre, hleaves, hl,
    Lib.Machine.exec_append hpost (Lib.Machine.exec_cons_of hs (Lib.Machine.exec_nil t)),
    halong.concat hpost hun⟩, hsub.trans h.sublist⟩
  rw [List.append_assoc]
  rfl

/-- the step that leaves the pass -/
theorem LeftSince.leave (hr : machine.exec s0 ls = some (s, tr))
    (hs : machine.step s l = some (t, e)) (hl : LeavesPass s l) : LeftSince s0 (ls ++ [l]) t t :=
  ⟨⟨ls, l, [], s, tr, e, [], rfl, hr, hs, hl, rfl, trivial⟩, List.Sublist.refl _⟩

namespace SortedOrLeft

theorem of_sorted (h : s.loop.Sorted) : SortedOrLeft s0 ls s := by
  unfold SortedOrLeft
  cases s.pc with
  | outside => exact Or.inl h
  | head => exact Or.inl h
  | timers now it rc => trivial
  | timer now c rc => trivial
  | items i n => exact h
  | item i n => exact h

theorem of_left (h : LeftSince s0 ls s v) (hpc : s.pc = .outside) : SortedOrLeft s0 ls s := by
  unfold SortedOrLeft
  rw [hpc]
  exact Or.inr ⟨v, h⟩

theorem idle (h : SortedOrLeft s0 ls s) (hpc : s.pc.dispatches = false) :
    s.loop.Sorted ∨ ∃ v, LeftSince s0 ls s v := by
  unfold SortedOrLeft at h
  cases hs : s.pc with
  | outside => rw [hs] at h; exact h
  | head => rw [hs] at h; exact h
  | _ => rw [hs] at hpc; cases hpc

theorem ranging (h : SortedOrLeft s0 ls s) (hpc : s.pc.ranging = true) : s.loop.Sorted := by
  unfold SortedOrLeft at h
  cases hs : s.pc with
  | items i n => rw [hs] at h; exact h
  | item i n => rw [hs] at h; exact h
  | _ => rw [hs] at hpc; cases hpc

/-- a step from outside the dispatches that stays there and takes timers away at most -/
theorem outside (h : SortedOrLeft s0 ls s) (hs : machine.step s l = some (t, e))
    (hun : Unsorting s l) (hsub : t.loop.timers.Sublist s.loop.timers)
    (hpc : s.pc.dispatches = false) (hpc' : t.pc.dispatches = false) :
    SortedOrLeft s0 (ls ++ [l]) t := by
  rcases h.idle hpc with hsorted | ⟨v, hleft⟩
  · exact of_sorted (hsorted.sublist hsub)
  · have hnext := hleft.concat hs hun hsub
    unfold SortedOrLeft
    cases ht : t.pc with
    | outside => exact Or.inr ⟨v, hnext⟩
    | head => exact Or.inr ⟨v, hnext⟩
    | _ => rw [ht] at hpc'; cases hpc'

/-- a call that takes timers away at most -/
theorem call (h : SortedOrLeft s0 ls s) (hs : machine.step s l = some (t, e))
    (hun : Unsorting s l) (hsub : t.loop.timers.Sublist s.loop.timers) (hpc : t.pc = s.pc) :
    SortedOrLeft s0 (ls ++ [l]) t := by
  cases hs' : s.pc with
  | outside =>
    exact h.outside hs hun hsub (by rw [hs']; rfl) (by rw [hpc, hs']; rfl)
  | head => exact h.outside hs hun hsub (by rw [hs']; rfl) (by rw [hpc, hs']; rfl)
  | timers now it rc =>
    unfold SortedOrLeft
    rw [hpc, hs']
    trivial
  | timer now c rc =>
    unfold SortedOrLeft
    rw [hpc, hs']
    trivial
  | items i n => exact of_sorted ((h.ranging (by rw [hs']; rfl)).sublist hsub)
  | item i n => exact of_sorted ((h.ranging (by rw [hs']; rfl)).sublist hsub)

end SortedOrLeft

theorem timersDone_sorted (s : State) (rc : Bool) : (timersDone s rc).loop.Sorted := by
  unfold Loop.Sorted
  rw [(timersDone_rest s rc).1]
  exact Loop.sortTimers_sorted _

theorem step_sortedOrLeft (hr : machine.exec s0 ls = some (s, tr)) (h : SortedOrLeft s0 ls s)
    (hs : machine.step s l = some (t, e)) : SortedOrLeft s0 (ls ++ [l]) t := by
  have hstep : Step s l t e := step_cases hs
  cases hstep with
  | add x event hu => exact h.call hs trivial (List.Sublist.refl _) rfl
  | remove x hu => exact h.call hs trivial (List.Sublist.refl _) rfl
  | addTimer delay times id now hu hclock hid =>
    exact SortedOrLeft.of_sorted (Loop.sorted_addTimer _ _ _ _ _ _)
  | reset id now hu hclock =>
    by_cases hid : id ∈ s.loop.timers.map Timer.id
    · apply SortedOrLeft.of_sorted
      show (s.loop.reset now id).Sorted
      unfold Loop.reset
      rw [if_pos hid]
      exact Loop.sortTimers_sorted _
    · refine h.call hs hid ?_ rfl
      show (s.loop.reset now id).timers.Sublist _
      unfold Loop.reset
      rw [if_neg hid]
  | removeTimer id hu =>
    exact h.call hs trivial (Loop.removeTimers_sublist [id] s.loop) rfl
  | moved r p hu => exact h.call hs trivial (List.Sublist.refl _) rfl
  | start hpc => exact h.outside hs trivial (List.Sublist.refl _) (by rw [hpc]; rfl) rfl
  | flushThrows now now' passNow zmqPoll hpc hf =>
    exact h.outside hs trivial (flushed_timers_sublist s) (by rw [hpc]; rfl) rfl
  | pollThrows now now' passNow zmqPoll p hpc hclock hf =>
    exact h.outside hs trivial (flushed_timers_sublist s) (by rw [hpc]; rfl) rfl
  | iterate now now' passNow zmqPoll p rc hpc hclock hf => trivial
  | fire now c rc tm hpc ht hc hdue => trivial
  | timersDone now it rc hpc => exact SortedOrLeft.of_sorted (timersDone_sorted s rc)
  | handle i n item c hpc hi hit hready => exact h.ranging (by rw [hpc]; rfl)
  | skip i n item c hpc hi hit hready => exact h.ranging (by rw [hpc]; rfl)
  | testThrows i n item c x hpc hi hit hready => exact Or.inl (h.ranging (by rw [hpc]; rfl))
  | itemsDone i n hpc => exact Or.inl (h.ranging (by rw [hpc]; rfl))
  | timerTrue now c rc tm hpc ht hc => trivial
  | timerFalse now c rc tm hpc ht hc =>
    exact SortedOrLeft.of_left (LeftSince.leave hr hs ⟨rfl, by rw [hpc]; nofun⟩) rfl
  | itemTrue i n hpc => exact h.ranging (by rw [hpc]; rfl)
  | itemFalse i n hpc =>
    have hsorted := h.ranging (by rw [hpc]; rfl)
    exact Or.inl (hsorted.sublist (finish_timers_sublist s))
  | throw hu hpc =>
    cases hs' : s.pc with
    | outside => exact absurd hs' hpc
    | timer now c rc =>
      exact SortedOrLeft.of_left (LeftSince.leave hr hs (by
        show s.pc.running ≠ none
        rw [hs']
        nofun)) rfl
    | item i n => exact Or.inl (h.ranging (by rw [hs']; rfl))
    | _ => rw [hs'] at hu; cases hu

theorem run_sortedOrLeft {sockets : Sockets} {clock : ℤ}
    (hr : machine.exec { sockets := sockets, clock := clock } ls = some (s, tr)) :
    SortedOrLeft { sockets := sockets, clock := clock } ls s :=
  Lib.Machine.exec_labels (SortedOrLeft { sockets := sockets, clock := clock })
    (fun _ _ _ _ _ _ hr h _ hs => step_sortedOrLeft hr h hs)
    (Or.inl List.Pairwise.nil)
    (Lib.Machine.along_of_forall (fun (_ : State) (_ : Label) => trivial) _ _) hr

theorem run_numbered {sockets : Sockets} {clock : ℤ}
    (hr : machine.exec { sockets := sockets, clock := clock } ls = some (s, tr)) :
    Numbered s.loop s.next :=
  Lib.Machine.exec_always (fun s _ => Numbered s.loop s.next)
    (fun _ _ _ _ _ hn h => step_numbered (step_cases h) hn) [] (numbered_init 0) hr

theorem LeftSince.nodup {sockets : Sockets} {clock : ℤ}
    (h : LeftSince { sockets := sockets, clock := clock } ls s v) : v.loop.timers.Nodup := by
  obtain ⟨pre, l, post, u, tr, e, -, -, hpre, hs, -⟩ := h.run
  have hv := Lib.Machine.exec_append hpre (Lib.Machine.exec_cons_of hs (Lib.Machine.exec_nil v))
  exact (run_numbered hv).timers_nodup.of_map

end

/-- what is left of a list without repetitions stands in the same order -/
theorem pair_sublist {α : Type} {l l' : List α} (hs : l'.Sublist l) (hnd : l.Nodup) {a b : α}
    (hab : [a, b].Sublist l) (ha : a ∈ l') (hb : b ∈ l') : [a, b].Sublist l' := by
  induction hs with
  | slnil => cases ha
  | @cons l1 l2 x hs ih =>
    obtain ⟨hx, hnd⟩ := List.nodup_cons.mp hnd
    cases hab with
    | cons _ hab => exact ih hnd hab ha hb
    | cons_cons _ hb' => exact absurd (hs.subset ha) hx
  | @cons_cons l1 l2 x hs ih =>
    obtain ⟨hx, hnd⟩ := List.nodup_cons.mp hnd
    cases hab with
    | cons _ hab =>
      have hin : ∀ c ∈ [a, b], c ∈ x :: l1 → c ∈ l1 := by
        intro c hc hmem
        rcases List.mem_cons.mp hmem with rfl | hmem
        · exact absurd (hab.subset hc) hx
        · exact hmem
      exact (ih hnd hab (hin a (by simp) ha) (hin b (by simp) hb)).cons x
    | cons_cons _ hb' =>
      have hmem : b ∈ l2 := hb'.subset List.mem_cons_self
      rcases List.mem_cons.mp hb with rfl | hb
      · exact absurd hmem hx
      · exact (List.singleton_sublist.mpr hb).cons_cons a

section
variable {sockets : Sockets} {clock : ℤ} {ls : List Label} {s : State} {tr : List Event}

/-- **The list is unsorted at a call of `tickless` iff a callable has left a pass so.** -/
theorem disordered_iff
    (hr : machine.exec { sockets := sockets, clock := clock } ls = some (s, tr))
    (hpc : s.pc = .head) :
    Disordered { sockets := sockets, clock := clock } ls s ↔ ¬ (flushed s).Sorted := by
  have hflushed := flushed_timers_sublist s
  constructor
  · rintro ⟨v, a, b, hleft, ⟨hab, hlate⟩, ha, hb⟩ hsorted
    have hpair := pair_sublist (hflushed.trans hleft.sublist) hleft.nodup hab ha hb
    have hnot : a.when ≤ b.when := List.pairwise_iff_forall_sublist.mp hsorted hpair
    omega
  · intro hno
    unfold Loop.Sorted at hno
    rw [List.pairwise_iff_forall_sublist] at hno
    push Not at hno
    obtain ⟨a, b, hab, hlate⟩ := hno
    have hmem : ∀ c ∈ [a, b], c ∈ (flushed s).timers := fun c hc => hab.subset hc
    rcases (run_sortedOrLeft hr).idle (by rw [hpc]; rfl) with hsorted | ⟨v, hleft⟩
    · have hle : a.when ≤ b.when :=
        List.pairwise_iff_forall_sublist.mp hsorted (hab.trans hflushed)
      exact absurd hle hlate
    · exact ⟨v, a, b, hleft, ⟨hab.trans (hflushed.trans hleft.sublist), not_le.mp hlate⟩,
        hmem a (by simp), hmem b (by simp)⟩

/-! ## the runs -/

/-- the arithmetic of a call of `tickless` stays within 64 bits -/
def TimeoutFits (s : State) : Label → Prop
  | .iterate now now' _ _ => (flushed s).TicklessFits now now'
  | _ => True

instance (s : State) : DecidablePred (TimeoutFits s)
  | .iterate now now' _ _ => inferInstanceAs (Decidable ((flushed s).TicklessFits now now'))
  | .call _ | .moved _ _ | .start | .test | .ret _ | .throw => isTrue trivial

/-- `start` calls `tickless`, at the head of its loop, only where no pass has been left so -/
def TicklessInOrder (s0 : State) (ls : List Label) : Prop :=
  ∀ pre now now' passNow zmqPoll post u tr,
    ls = pre ++ .iterate now now' passNow zmqPoll :: post → machine.exec s0 pre = some (u, tr) →
    (Loop.flushRemoveLater u.sockets { u.loop with rebuildPoller := false }).2 = .ok () →
    ¬ Disordered s0 pre u

/-- the step that calls `tickless` -/
theorem tickless_of_step {t : State} {l : Label} {e : List Event} {ev : Event}
    (hs : Step s l t e) (hev : ev ∈ e) : NeverLate ev ∨ ∃ now now' passNow zmqPoll,
      l = .iterate now now' passNow zmqPoll ∧ ev = ticklessEvent (flushed s) now now' ∧
      now ≤ now' ∧ s.pc = .head ∧
      (Loop.flushRemoveLater s.sockets { s.loop with rebuildPoller := false }).2 = .ok () := by
  cases hs with
  | pollThrows now now' passNow zmqPoll p hpc hclock hf =>
    exact Or.inr ⟨now, now', passNow, zmqPoll, rfl, List.mem_singleton.mp hev, hclock.2.1, hpc, hf⟩
  | iterate now now' passNow zmqPoll p rc hpc hclock hf =>
    exact Or.inr ⟨now, now', passNow, zmqPoll, rfl, List.mem_singleton.mp hev, hclock.2.1, hpc, hf⟩
  | reset id now hu hclock =>
    obtain ⟨tm, _, rfl⟩ := Option.map_eq_some_iff.mp (Option.mem_toList.mp hev)
    exact Or.inl trivial
  | addTimer delay times id now hu hclock hid =>
    rw [List.mem_singleton.mp hev]
    exact Or.inl trivial
  | fire now c rc tm hpc ht hc hdue =>
    rw [List.mem_singleton.mp hev]
    exact Or.inl trivial
  | handle i n item c hpc hi hit hready =>
    rw [List.mem_singleton.mp hev]
    exact Or.inl trivial
  | _ => cases hev

/-- **The loop never sleeps past a deadline iff it calls `tickless` after no pass that a callable
has left with a timer moved past another one.** -/
theorem never_sleeps_past
    (hfits : machine.Along TimeoutFits { sockets := sockets, clock := clock } ls)
    (hr : machine.exec { sockets := sockets, clock := clock } ls = some (s, tr)) :
    (∀ ev ∈ tr, NeverLate ev) ↔ TicklessInOrder { sockets := sockets, clock := clock } ls := by
  constructor
  · intro h pre now now' passNow zmqPoll post u tr' hls hpre hflush
    subst hls
    obtain ⟨u', tr1, v, e, es', hpre', hs, -, rfl⟩ := Lib.Machine.exec_at hr
    obtain ⟨rfl, rfl⟩ := Prod.mk.inj (Option.some.inj (hpre.symm.trans hpre'))
    have hu : (flushed u).TicklessFits now now' := (Lib.Machine.along_append hfits hpre).2.1
    have hcall (hn : now ≤ now') (hpc : u.pc = .head)
        (he : ticklessEvent (flushed u) now now' ∈ e) :
        ¬ Disordered { sockets := sockets, clock := clock } pre u := by
      have hlate := h _ (List.mem_append_right tr' (List.mem_append_left es' he))
      rw [neverLate_ticklessEvent hn hu] at hlate
      rw [disordered_iff hpre hpc, not_not]
      exact hlate
    have hstep : Step u (.iterate now now' passNow zmqPoll) v e := step_cases hs
    cases hstep with
    | flushThrows _ _ _ _ hpc hf => exact absurd hflush hf
    | pollThrows _ _ _ _ p hpc hclock hf =>
      exact hcall hclock.2.1 hpc (List.mem_singleton_self _)
    | iterate _ _ _ _ p rc hpc hclock hf =>
      exact hcall hclock.2.1 hpc (List.mem_singleton_self _)
  · intro h ev hev
    obtain ⟨pre, l, post, u, tr', v, e, rfl, hpre, hs, hev⟩ := Lib.Machine.exec_mem hr hev
    rcases tickless_of_step (step_cases hs) hev with hok | hcall
    · exact hok
    · obtain ⟨now, now', passNow, zmqPoll, rfl, rfl, hn, hpc, hflush⟩ := hcall
      have hu : (flushed u).TicklessFits now now' := (Lib.Machine.along_append hfits hpre).2.1
      have hno := h pre now now' passNow zmqPoll post u tr' rfl hpre hflush
      rw [disordered_iff hpre hpc, not_not] at hno
      exact (neverLate_ticklessEvent hn hu).mpr hno

end

/-- one timer of 10 ms, whose callable ends two `start`s -/
def restarts : List Label :=
  [.call (.addTimer 10 0 0 0), .start, .iterate 0 0 12000000 nothingReady, .test, .ret false,
    .start, .iterate 13000000 13000000 21000000 nothingReady, .test, .ret false]

theorem never_sleeps_past_restarts :
    ∃ s tr, machine.exec {} restarts = some (s, tr) ∧ (∀ ev ∈ tr, NeverLate ev) ∧
      TicklessInOrder {} restarts := by
  have hrun : (machine.exec {} restarts).map (fun r => decide (∀ ev ∈ r.2, NeverLate ev))
      = some true := by decide +kernel
  obtain ⟨⟨s, tr⟩, hr, hs⟩ := Option.map_eq_some_iff.mp hrun
  have hlate : ∀ ev ∈ tr, NeverLate ev := of_decide_eq_true hs
  have hfits : machine.Along TimeoutFits {} restarts := by decide +kernel
  exact ⟨s, tr, hr, hlate, (never_sleeps_past hfits hr).mp hlate⟩

/-- a timer of 10 ms, whose callable ends the first `start`, and one of 15 ms -/
def overtaken : List Label :=
  [.call (.addTimer 10 0 0 0), .call (.addTimer 15 1 1 0), .start,
    .iterate 0 0 12000000 nothingReady, .test, .ret false,
    .start, .iterate 13000000 13000000 13000000 nothingReady]

/-- **A callable that returns `false` can leave the timers unsorted**: the first timer moves on to
20 ms and stays in front of the one due at 15 ms, so `zmq_poll` is told to wait until 20 ms. -/
theorem overtaken_sleeps_past :
    ∃ s tr, machine.exec {} overtaken = some (s, tr) ∧
      .tickless [20000000, 15000000] 13000000 7 ∈ tr ∧ ¬ ∀ ev ∈ tr, NeverLate ev := by
  have hrun : (machine.exec {} overtaken).map Prod.snd = some [.created 0 10 0 0,
      .created 1 15 1 0, .tickless [10000000, 15000000] 0 10, .fired 0 12000000,
      .tickless [20000000, 15000000] 13000000 7] := by decide +kernel
  obtain ⟨⟨s, tr⟩, hr, hs⟩ := Option.map_eq_some_iff.mp hrun
  dsimp only at hs
  subst hs
  exact ⟨s, _, hr, by simp, by decide +kernel⟩

/-- **So can a delay too long for a time point**, a while after its timer was added: the time left
wraps, and `zmq_poll` is told to wait for 292 years. -/
theorem overflow_sleeps_past :
    ∃ s tr, machine.exec {} [.call (.addTimer 9223372036855 0 0 0), .start,
        .iterate 0 224193 224193 nothingReady] = some (s, tr) ∧
      .tickless [-9223372036854551616] 224193 9223372036854 ∈ tr ∧
      ¬ ∀ ev ∈ tr, NeverLate ev := by
  have hrun : (machine.exec {} [.call (.addTimer 9223372036855 0 0 0), .start,
      .iterate 0 224193 224193 nothingReady]).map Prod.snd = some [.created 0 9223372036855 0 0,
      .tickless [-9223372036854551616] 224193 9223372036854] := by decide +kernel
  obtain ⟨⟨s, tr⟩, hr, hs⟩ := Option.map_eq_some_iff.mp hrun
  dsimp only at hs
  subst hs
  exact ⟨s, _, hr, by simp, by decide +kernel⟩

end Run
end Zmqpp
