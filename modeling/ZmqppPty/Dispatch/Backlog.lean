import ZmqppPty.Dispatch.Final
import ZmqppPty.Dispatch.Schedule

/-!
# What a timer pass has still to do

A pass at the time `now` invokes the timers that are behind it.  An update brings a timer forward,
unless its delay is zero: such a timer is due for ever, and only the iterator gets past it.  The
sorts of `add` and `reset` move timers under the iterator, but are stable.

* `Timer.advance`                  an update that does not wrap;
* `Timer.endless`, `Timer.lag`     due for ever, and how far a timer is behind;
* `disorder`, `backlog`, `ahead`   whether the endless timers are unsorted, how far all timers are
                                   behind, and how many endless timers the iterator has before it;
* `sortTimers_filter`              a sort keeps the order of what is sorted already;
* `Below`                          less than that is left, while a callable runs;
* `below_fire`, `Below.resort`, `Below.returned`   an invocation begins, sorts and ends.
-/

namespace Zmqpp
namespace Timer
variable {now : ℤ} {t : Timer}

/-- `update`, with a deadline that may be too late for a time point -/
def advance (t : Timer) : Timer := { t with when := t.when + t.delay * msec }

theorem update_eq (h : IsInt64 (t.when + t.delay * msec)) : t.update = t.advance := by
  unfold update advance
  rw [afterDelay_eq h]

/-- due in the pass at `now`, also after an update -/
def endless (now : ℤ) (t : Timer) : Bool := decide (t.delay = 0) && decide (t.when < now)

/-- how far the timer is behind the pass at `now` -/
def lag (now : ℤ) (t : Timer) : ℕ :=
  if t.delay = 0 then (if t.when < now then 1 else 0) else (now - t.when).toNat

theorem endless_iff : t.endless now = true ↔ t.delay = 0 ∧ t.when < now := by
  unfold endless
  rw [Bool.and_eq_true, decide_eq_true_iff, decide_eq_true_iff]

theorem lag_of_notDue (h : now ≤ t.when) : t.lag now = 0 := by
  unfold lag
  split
  · exact if_neg (Int.not_lt.mpr h)
  · omega

theorem lag_of_endless (h : t.endless now = true) : t.lag now = 1 := by
  obtain ⟨hdelay, hdue⟩ := endless_iff.mp h
  unfold lag
  rw [if_pos hdelay, if_pos hdue]

theorem advance_of_endless (h : t.delay = 0) : t.advance = t := by
  have hwhen : t.when + t.delay * msec = t.when := by
    rw [h]
    omega
  unfold advance
  rw [hwhen]

theorem lag_advance_lt (hd : 0 ≤ t.delay) (hne : t.delay ≠ 0) (hdue : t.when < now) :
    t.advance.lag now < t.lag now := by
  have hstep : 0 < t.delay * msec := Int.mul_pos (by omega) (by decide)
  unfold lag advance
  dsimp only
  rw [if_neg hne, if_neg hne]
  omega

theorem lag_advance_le (hd : 0 ≤ t.delay) : t.advance.lag now ≤ t.lag now := by
  by_cases h0 : t.delay = 0
  · rw [advance_of_endless h0]
  · have hstep : 0 ≤ t.delay * msec := Int.mul_nonneg hd (by decide)
    unfold lag advance
    dsimp only
    rw [if_neg h0, if_neg h0]
    omega

end Timer

/-- what is sorted in the list already keeps its order -/
theorem sortTimers_filter {p : Timer → Bool} {ts : List Timer}
    (h : (ts.filter p).Pairwise Timer.NotAfter) : (sortTimers ts).filter p = ts.filter p := by
  have hsub : (ts.filter p).Sublist (sortTimers ts) :=
    List.sublist_insertionSort h List.filter_sublist
  have hkept := hsub.filter p
  rw [List.filter_filter] at hkept
  simp only [Bool.and_self] at hkept
  exact (hkept.eq_of_length ((Loop.sortTimers_perm ts).filter p).length_eq.symm).symm

namespace Run

/-! ## the measures -/

def endlessOf (now : ℤ) (ts : List Timer) : List Timer := ts.filter (Timer.endless now)

/-- 1 if the endless timers are not in the order of their deadlines -/
def disorder (now : ℤ) (ts : List Timer) : ℕ :=
  if (endlessOf now ts).Pairwise Timer.NotAfter then 0 else 1

/-- the timer whose callable runs is taken to be updated -/
def lagIn (now : ℤ) (r : Option ℕ) (t : Timer) : ℕ :=
  if r = some t.callable then t.advance.lag now else t.lag now

def backlog (now : ℤ) (r : Option ℕ) (ts : List Timer) : ℕ := (ts.map (lagIn now r)).sum

/-- the endless timers behind the one numbered `c` -/
def ahead (now : ℤ) (c : ℕ) (ts : List Timer) : ℕ := (endlessOf now (Loop.timersAfter c ts)).length

section
variable {now : ℤ} {c : ℕ} {ts ts' : List Timer}

theorem disorder_eq_zero :
    disorder now ts = 0 ↔ (endlessOf now ts).Pairwise Timer.NotAfter := by
  unfold disorder
  split
  · rename_i h
    exact ⟨fun _ => h, fun _ => rfl⟩
  · rename_i h
    exact ⟨nofun, fun hp => absurd hp h⟩

theorem disorder_sort : disorder now (sortTimers ts) = 0 :=
  disorder_eq_zero.mpr ((Loop.sortTimers_sorted ts).sublist List.filter_sublist)

theorem disorder_mono (h : (endlessOf now ts).Pairwise Timer.NotAfter →
    (endlessOf now ts').Pairwise Timer.NotAfter) : disorder now ts' ≤ disorder now ts := by
  unfold disorder
  split
  · exact Nat.zero_le _
  · rename_i hno
    rw [if_neg fun hp => hno (h hp)]

theorem backlog_sort (r : Option ℕ) (ts : List Timer) : backlog now r (sortTimers ts) = backlog now r ts :=
  ((Loop.sortTimers_perm ts).map _).sum_eq

theorem timersAfter_self (t : Timer) (ts : List Timer) :
    Loop.timersAfter t.callable (t :: ts) = ts := if_pos rfl

theorem timersAfter_cons_of_ne {t : Timer} (h : t.callable ≠ c) (ts : List Timer) :
    Loop.timersAfter c (t :: ts) = Loop.timersAfter c ts := if_neg h

theorem timersAfter_filter (p : Timer → Bool) (hnd : (ts.map Timer.callable).Nodup) {t : Timer}
    (ht : t ∈ ts) (hp : p t = true) :
    Loop.timersAfter t.callable (ts.filter p) = (Loop.timersAfter t.callable ts).filter p := by
  induction ts with
  | nil => cases ht
  | cons u us ih =>
    rw [List.map_cons, List.nodup_cons] at hnd
    rcases List.mem_cons.mp ht with rfl | ht
    · rw [List.filter_cons_of_pos hp, timersAfter_self, timersAfter_self]
    · have hne : u.callable ≠ t.callable := by
        intro e
        exact hnd.1 (e ▸ List.mem_map_of_mem ht)
      rw [timersAfter_cons_of_ne hne, ← ih hnd.2 ht]
      by_cases hu : p u = true
      · rw [List.filter_cons_of_pos hu, timersAfter_cons_of_ne hne]
      · rw [List.filter_cons_of_neg hu]

/-- for an endless timer only the endless ones count -/
theorem ahead_eq (hnd : (ts.map Timer.callable).Nodup) {t : Timer} (ht : t ∈ ts)
    (he : t.endless now = true) :
    ahead now t.callable ts = (Loop.timersAfter t.callable (endlessOf now ts)).length := by
  unfold ahead endlessOf
  rw [timersAfter_filter _ hnd ht he]

end

/-! ## an invocation -/

/-- Less is left than `u`, `b` and `z` say, in this order, while the callable of the timer numbered
`c` runs. -/
inductive Below (now : ℤ) (u b z c : ℕ) (ts : List Timer) : Prop
  | calmer (hu : disorder now ts < u)
  | caughtUp (hu : disorder now ts ≤ u) (hb : backlog now (some c) ts < b)
  | passed (hu : disorder now ts ≤ u) (hb : backlog now (some c) ts ≤ b) (t : Timer) (ht : t ∈ ts)
      (hc : t.callable = c) (he : t.endless now = true) (hz : ahead now c ts < z)

section
variable {now : ℤ} {u b z c : ℕ} {ts ts' : List Timer}

theorem lagIn_le {r : Option ℕ} {t : Timer} (hd : 0 ≤ t.delay) :
    lagIn now r t ≤ lagIn now none t := by
  unfold lagIn
  rw [if_neg (nofun : (none : Option ℕ) ≠ some t.callable)]
  split
  · exact Timer.lag_advance_le hd
  · exact Nat.le_refl _

/-- The invocation of a due timer. -/
theorem below_fire (hd : ∀ t ∈ ts, 0 ≤ t.delay) {t : Timer} (ht : t ∈ ts) (hdue : t.when < now) :
    Below now (disorder now ts) (backlog now none ts)
      (ahead now t.callable ts + if t.endless now then 1 else 0) t.callable ts := by
  have hle : ∀ v ∈ ts, lagIn now (some t.callable) v ≤ lagIn now none v :=
    fun v hv => lagIn_le (hd v hv)
  by_cases h0 : t.delay = 0
  · have he : t.endless now = true := Timer.endless_iff.mpr ⟨h0, hdue⟩
    rw [if_pos he]
    exact Below.passed (Nat.le_refl _) (List.sum_le_sum hle) t ht rfl he (Nat.lt_succ_self _)
  · refine Below.caughtUp (Nat.le_refl _) (List.sum_lt_sum _ _ hle ⟨t, ht, ?_⟩)
    unfold lagIn
    rw [if_pos rfl, if_neg (nofun : (none : Option ℕ) ≠ some t.callable)]
    exact Timer.lag_advance_lt (hd t ht) h0 hdue

/-- **A sort under the iterator.**  The list has been changed before: it is no further behind, and
its endless timers are the same, or it is less behind. -/
theorem Below.resort (h : Below now u b z c ts) (hnd : (ts.map Timer.callable).Nodup)
    (hnd' : (ts'.map Timer.callable).Nodup)
    (hlag : backlog now (some c) ts' ≤ backlog now (some c) ts)
    (hsame : endlessOf now ts' = endlessOf now ts ∨
      backlog now (some c) ts' < backlog now (some c) ts) :
    Below now u b z c (sortTimers ts') := by
  have hsorted : disorder now (sortTimers ts') = 0 := disorder_sort
  have hperm := Loop.sortTimers_perm ts'
  rw [← backlog_sort (some c) ts'] at hlag hsame
  cases h with
  | calmer hu => exact Below.calmer (by omega)
  | caughtUp hu hb => exact Below.caughtUp (by omega) (by omega)
  | passed hu hb t ht hc he hz =>
    rcases hsame with hsame | hless
    · by_cases hzero : disorder now ts = 0
      · -- the endless timers were sorted, so the sort leaves their order alone
        subst hc
        have hpair := disorder_eq_zero.mp hzero
        have hkept : endlessOf now (sortTimers ts') = endlessOf now ts := by
          rw [← hsame] at hpair ⊢
          exact sortTimers_filter hpair
        have hmem : t ∈ endlessOf now (sortTimers ts') := by
          rw [hkept]
          exact List.mem_filter.mpr ⟨ht, he⟩
        have ht' := (List.mem_filter.mp hmem).1
        refine Below.passed (by omega) (by omega) t ht' rfl he ?_
        rw [ahead_eq ((hperm.map _).nodup_iff.mpr hnd') ht' he, hkept, ← ahead_eq hnd ht he]
        exact hz
      · exact Below.calmer (by omega)
    · exact Below.caughtUp (by omega) (by omega)

theorem Below.mono {u' b' z' : ℕ} (h : Below now u b z c ts) (hu : u ≤ u') (hb : b ≤ b')
    (hz : z ≤ z') : Below now u' b' z' c ts := by
  cases h with
  | calmer h => exact Below.calmer (by omega)
  | caughtUp h h' => exact Below.caughtUp (by omega) (by omega)
  | passed h h' t ht hc he h'' => exact Below.passed (by omega) (by omega) t ht hc he (by omega)

theorem lagIn_of_notDue {r : Option ℕ} {t : Timer} (hd : 0 ≤ t.delay) (h : now ≤ t.when) :
    lagIn now r t = 0 := by
  have hle : lagIn now r t ≤ lagIn now none t := lagIn_le hd
  have hzero : lagIn now none t = 0 := Timer.lag_of_notDue h
  omega

theorem not_endless {t : Timer} (h : now ≤ t.when) : t.endless now = false := by
  rw [Bool.eq_false_iff]
  intro he
  exact absurd (Timer.endless_iff.mp he).2 (Int.not_lt.mpr h)

/-- the callable adds a timer, which is not due in this pass -/
theorem Below.addTimer (h : Below now u b z c ts) {t : Timer} (hd : 0 ≤ t.delay)
    (hlate : now ≤ t.when) (hnd : ((ts ++ [t]).map Timer.callable).Nodup) :
    Below now u b z c (sortTimers (ts ++ [t])) := by
  have hold : (ts.map Timer.callable).Nodup := by
    rw [List.map_append] at hnd
    exact (List.nodup_append.mp hnd).1
  have hlag : backlog now (some c) (ts ++ [t]) = backlog now (some c) ts := by
    unfold backlog
    rw [List.map_append, List.sum_append, List.map_singleton, List.sum_singleton,
      lagIn_of_notDue hd hlate, Nat.add_zero]
  have hsame : endlessOf now (ts ++ [t]) = endlessOf now ts := by
    unfold endlessOf
    rw [List.filter_append, List.filter_singleton, not_endless hlate]
    exact List.append_nil _
  exact h.resort hold hnd (Nat.le_of_eq hlag) (Or.inl hsame)

/-- a reset does not touch the numbers of the timers -/
theorem callables_reset (ts : List Timer) (c : ℕ) (r : ℤ) :
    (ts.map fun v => if v.callable = c then v.reset r else v).map Timer.callable
      = ts.map Timer.callable := by
  rw [List.map_map]
  apply List.map_congr_left
  intro v _
  show (if v.callable = c then v.reset r else v).callable = v.callable
  split <;> rfl

/-- the callable resets a timer, its own or another one, which then is not due in this pass -/
theorem Below.reset (h : Below now u b z c ts) (hnd : (ts.map Timer.callable).Nodup)
    (hd : ∀ t ∈ ts, 0 ≤ t.delay) {t : Timer} (ht : t ∈ ts) {r : ℤ} (hr : now ≤ r)
    (hfit : IsInt64 (r + t.delay * msec)) :
    Below now u b z c
      (sortTimers (ts.map fun v => if v.callable = t.callable then v.reset r else v)) := by
  have hlate : ∀ v ∈ ts, v.callable = t.callable → now ≤ (v.reset r).when := by
    intro v hv heq
    have hdelay : 0 ≤ t.delay * msec := Int.mul_nonneg (hd t ht) (by decide)
    rw [List.inj_on_of_nodup_map hnd hv ht heq]
    show now ≤ afterDelay r t.delay
    rw [afterDelay_eq hfit]
    omega
  have hnd' : ((ts.map fun v => if v.callable = t.callable then v.reset r else v).map
      Timer.callable).Nodup := by
    rw [callables_reset]
    exact hnd
  have hle : ∀ v ∈ ts, lagIn now (some c) (if v.callable = t.callable then v.reset r else v)
      ≤ lagIn now (some c) v := by
    intro v hv
    split
    · rename_i heq
      rw [lagIn_of_notDue (t := v.reset r) (hd v hv) (hlate v hv heq)]
      exact Nat.zero_le _
    · exact Nat.le_refl _
  have hlag : backlog now (some c)
      (ts.map fun v => if v.callable = t.callable then v.reset r else v)
        ≤ backlog now (some c) ts := by
    unfold backlog
    rw [List.map_map]
    exact List.sum_le_sum hle
  refine h.resort hnd hnd' hlag ?_
  by_cases he : t.endless now = true
  · -- it was due for ever
    apply Or.inr
    unfold backlog
    rw [List.map_map]
    refine List.sum_lt_sum _ _ hle ⟨t, ht, ?_⟩
    show lagIn now (some c) (if t.callable = t.callable then t.reset r else t) < _
    rw [if_pos rfl, lagIn_of_notDue (t := t.reset r) (hd t ht) (hlate t ht rfl)]
    unfold lagIn
    rw [Timer.advance_of_endless (Timer.endless_iff.mp he).1, ite_self, Timer.lag_of_endless he]
    exact Nat.one_pos
  · apply Or.inl
    have hother : ∀ v ∈ ts, v.endless now = true → v.callable ≠ t.callable := by
      intro v hv hev heq
      rw [List.inj_on_of_nodup_map hnd hv ht heq] at hev
      exact he hev
    unfold endlessOf
    rw [List.filter_map]
    have hfilter : ts.filter (Timer.endless now ∘ fun v =>
        if v.callable = t.callable then v.reset r else v) = ts.filter (Timer.endless now) := by
      apply List.filter_congr
      intro v hv
      show (if v.callable = t.callable then v.reset r else v).endless now = v.endless now
      split
      · rename_i heq
        rw [not_endless (hlate v hv heq), List.inj_on_of_nodup_map hnd hv ht heq]
        exact (Bool.eq_false_iff.mpr he).symm
      · rfl
    rw [hfilter]
    have hfixed : ∀ v ∈ ts.filter (Timer.endless now),
        (if v.callable = t.callable then v.reset r else v) = v := by
      intro v hv
      obtain ⟨hmem, hev⟩ := List.mem_filter.mp hv
      exact if_neg (hother v hmem hev)
    rw [List.map_congr_left hfixed, List.map_id']

end

/-! ## the return of a callable -/

/-- what is left at most, with the iterator at `it` -/
def AtMost (now : ℤ) (u b z : ℕ) (it : Option ℕ) (ts : List Timer) : Prop :=
  disorder now ts ≤ u ∧ backlog now none ts ≤ b ∧ ∀ t ∈ ts, it = some t.callable →
    ahead now t.callable ts + (if t.endless now then 1 else 0) ≤ z

/-- less than that is left, with the iterator at `it` -/
def LessThan (now : ℤ) (u b z : ℕ) (it : Option ℕ) (ts : List Timer) : Prop :=
  (∃ u' < u, ∃ b' z', AtMost now u' b' z' it ts) ∨ (∃ b' < b, ∃ z', AtMost now u b' z' it ts) ∨
    ∃ z' < z, AtMost now u b z' it ts

section
variable {now : ℤ} {c : ℕ} {ts : List Timer}

theorem timersAfter_map {f : Timer → Timer} (hf : ∀ t, (f t).callable = t.callable) :
    Loop.timersAfter c (ts.map f) = (Loop.timersAfter c ts).map f := by
  induction ts with
  | nil => rfl
  | cons t ts ih =>
    rw [List.map_cons]
    by_cases h : t.callable = c
    · rw [← h, timersAfter_self, ← hf t, timersAfter_self]
    · rw [timersAfter_cons_of_ne h, timersAfter_cons_of_ne (by rw [hf]; exact h), ih]

/-- the iterator moves on by one timer -/
theorem timersAfter_next (hnd : (ts.map Timer.callable).Nodup) {v : Timer} {rest : List Timer}
    (h : Loop.timersAfter c ts = v :: rest) : Loop.timersAfter v.callable ts = rest := by
  induction ts with
  | nil => cases h
  | cons t ts ih =>
    rw [List.map_cons, List.nodup_cons] at hnd
    have hne (hv : v ∈ ts) : t.callable ≠ v.callable := by
      intro e
      exact hnd.1 (e ▸ List.mem_map_of_mem hv)
    by_cases ht : t.callable = c
    · subst ht
      rw [timersAfter_self] at h
      subst h
      rw [timersAfter_cons_of_ne (hne List.mem_cons_self), timersAfter_self]
    · rw [timersAfter_cons_of_ne ht] at h
      have hv : v ∈ ts := Loop.mem_timersAfter (h ▸ List.mem_cons_self)
      rw [timersAfter_cons_of_ne (hne hv), ih hnd.2 h]

/-- what becomes of a timer when the callable of the one numbered `c` returns and it stays -/
def afterReturn (c : ℕ) (t : Timer) : Timer :=
  if t.callable = c then { t with times := t.times - 1 }.update else t

theorem afterReturn_callable (t : Timer) : (afterReturn c t).callable = t.callable := by
  unfold afterReturn
  split <;> rfl

theorem afterReturn_of_ne {t : Timer} (h : t.callable ≠ c) : afterReturn c t = t := if_neg h

/-- an endless timer keeps its deadline -/
theorem afterReturn_endless {t : Timer}
    (hfit : t.callable = c → IsInt64 (t.when + t.delay * msec)) :
    (afterReturn c t).endless now = t.endless now ∧
      (t.endless now = true → (afterReturn c t).when = t.when) := by
  unfold afterReturn
  split
  · rename_i heq
    by_cases h0 : t.delay = 0
    · have hwhen : afterDelay t.when t.delay = t.when := by
        rw [afterDelay_eq (hfit heq), h0]
        omega
      refine ⟨?_, fun _ => hwhen⟩
      show (decide (t.delay = 0) && decide (afterDelay t.when t.delay < now)) = t.endless now
      rw [hwhen]
      rfl
    · have hno : t.endless now = false := by
        unfold Timer.endless
        rw [decide_eq_false h0]
        rfl
      refine ⟨?_, fun he => nomatch he.symm.trans hno⟩
      rw [hno]
      show (decide (t.delay = 0) && _) = false
      rw [decide_eq_false h0]
      rfl
  · exact ⟨rfl, fun _ => rfl⟩

theorem timerReturned_timers (l : Loop) (u : Timer) :
    (l.timerReturned u).timers = l.timers.filter (fun t => t.callable ≠ u.callable) ∨
      (u.times ≠ 1 ∧ (l.timerReturned u).timers = l.timers.map (afterReturn u.callable)) := by
  unfold Loop.timerReturned
  split
  · exact Or.inl rfl
  · rename_i hlast
    exact Or.inr ⟨fun h1 => hlast (by omega), rfl⟩

variable {l : Loop} {u : Timer}

/-- the update after the callable of `u` has returned, if there is one, fits in a time point -/
def UpdateFits (l : Loop) (u : Timer) : Prop :=
  u.times ≠ 1 → ∀ t ∈ l.timers, t.callable = u.callable → IsInt64 (t.when + t.delay * msec)

theorem disorder_returned (hfit : UpdateFits l u) :
    disorder now (l.timerReturned u).timers ≤ disorder now l.timers := by
  apply disorder_mono
  intro hp
  rcases timerReturned_timers l u with h | ⟨htimes, h⟩
  · rw [h]
    exact hp.sublist (List.filter_sublist.filter _)
  · rw [h]
    have hkept : ∀ t ∈ l.timers, (afterReturn u.callable t).endless now = t.endless now ∧
        (t.endless now = true → (afterReturn u.callable t).when = t.when) :=
      fun t ht => afterReturn_endless (hfit htimes t ht)
    unfold endlessOf at hp ⊢
    have hsame : l.timers.filter (Timer.endless now ∘ afterReturn u.callable)
        = l.timers.filter (Timer.endless now) :=
      List.filter_congr fun t ht => (hkept t ht).1
    rw [List.filter_map, hsame, List.pairwise_map]
    refine List.Pairwise.imp_of_mem ?_ hp
    intro a b ha hb hab
    obtain ⟨ha, hea⟩ := List.mem_filter.mp ha
    obtain ⟨hb, heb⟩ := List.mem_filter.mp hb
    unfold Timer.NotAfter
    rw [(hkept a ha).2 hea, (hkept b hb).2 heb]
    exact hab

/-- the timer has been counted as updated -/
theorem backlog_returned (hfit : UpdateFits l u) :
    backlog now none (l.timerReturned u).timers ≤ backlog now (some u.callable) l.timers := by
  rcases timerReturned_timers l u with h | ⟨htimes, h⟩
  · rw [h]
    unfold backlog
    have hsame : ∀ t ∈ l.timers.filter (fun t => t.callable ≠ u.callable),
        lagIn now none t = lagIn now (some u.callable) t := by
      intro t ht
      have hne : t.callable ≠ u.callable := of_decide_eq_true (List.mem_filter.mp ht).2
      unfold lagIn
      rw [if_neg nofun, if_neg fun e => hne (Option.some.inj e).symm]
    rw [List.map_congr_left hsame]
    exact (List.filter_sublist.map _).sum_le_sum fun _ _ => Nat.zero_le _
  · rw [h]
    unfold backlog
    rw [List.map_map]
    apply Nat.le_of_eq
    congr 1
    apply List.map_congr_left
    intro t ht
    show lagIn now none (afterReturn u.callable t) = lagIn now (some u.callable) t
    unfold lagIn afterReturn
    rw [if_neg nofun]
    by_cases e : t.callable = u.callable
    · rw [if_pos e, if_pos (congrArg some e.symm), ← Timer.update_eq (hfit htimes t ht e)]
      rfl
    · rw [if_neg e, if_neg fun he => e (Option.some.inj he).symm]

theorem timersAfter_returned (hnd : (l.timers.map Timer.callable).Nodup) {v : Timer}
    {rest : List Timer} (h : Loop.timersAfter u.callable l.timers = v :: rest) :
    Loop.timersAfter v.callable (l.timerReturned u).timers = rest := by
  have hmem : v ∈ Loop.timersAfter u.callable l.timers := by
    rw [h]
    exact List.mem_cons_self
  have hne : v.callable ≠ u.callable := Loop.timersAfter_ne hnd hmem
  have hrest : ∀ t ∈ rest, t.callable ≠ u.callable := by
    intro t ht
    apply Loop.timersAfter_ne hnd
    rw [h]
    exact List.mem_cons_of_mem v ht
  rcases timerReturned_timers l u with ht | ⟨-, ht⟩
  · rw [ht, timersAfter_filter _ hnd (Loop.mem_timersAfter hmem) (decide_eq_true hne),
      timersAfter_next hnd h]
    exact List.filter_eq_self.mpr fun t ht => decide_eq_true (hrest t ht)
  · rw [ht, timersAfter_map afterReturn_callable, timersAfter_next hnd h]
    have hsame : ∀ t ∈ rest, afterReturn u.callable t = t :=
      fun t ht => afterReturn_of_ne (hrest t ht)
    rw [List.map_congr_left hsame, List.map_id']

theorem atMost_returned (hnd : (l.timers.map Timer.callable).Nodup) (hfit : UpdateFits l u) :
    AtMost now (disorder now l.timers) (backlog now (some u.callable) l.timers)
      (ahead now u.callable l.timers) (Loop.nextTimer u.callable l.timers)
      (l.timerReturned u).timers := by
  refine ⟨disorder_returned hfit, backlog_returned hfit, ?_⟩
  intro t ht hit
  obtain ⟨v, hv, hcall⟩ := Option.map_eq_some_iff.mp hit
  obtain ⟨rest, hafter⟩ := List.head?_eq_some_iff.mp hv
  have hmem : v ∈ Loop.timersAfter u.callable l.timers := List.mem_of_head? hv
  have hne : v.callable ≠ u.callable := Loop.timersAfter_ne hnd hmem
  -- the timer is the one after the iterator, and as it was
  obtain ⟨w, hw, -, hwcall, hsame⟩ := Loop.mem_timerReturned ht
  obtain rfl := hsame fun e => hne (hcall.trans e)
  obtain rfl := List.inj_on_of_nodup_map hnd hw (Loop.mem_timersAfter hmem) hcall.symm
  unfold ahead
  rw [timersAfter_returned hnd hafter, hafter]
  unfold endlessOf
  by_cases he : w.endless now = true
  · rw [if_pos he, List.filter_cons_of_pos he, List.length_cons]
  · rw [if_neg he, List.filter_cons_of_neg he, Nat.add_zero]

/-- **When a callable has returned, less is left than before its invocation.** -/
theorem Below.returned {a b z : ℕ} (h : Below now a b z u.callable l.timers)
    (hnd : (l.timers.map Timer.callable).Nodup) (hfit : UpdateFits l u) :
    LessThan now a b z (Loop.nextTimer u.callable l.timers) (l.timerReturned u).timers := by
  have hmost : AtMost now _ _ _ _ (l.timerReturned u).timers := atMost_returned hnd hfit
  obtain ⟨hdisorder, hbacklog, hahead⟩ := hmost
  cases h with
  | calmer hu => exact Or.inl ⟨_, hu, _, _, hdisorder, hbacklog, hahead⟩
  | caughtUp hu hb =>
    exact Or.inr (Or.inl ⟨_, hb, _, hdisorder.trans hu, hbacklog, hahead⟩)
  | passed hu hb t ht hc he hz =>
    exact Or.inr (Or.inr ⟨_, hz, hdisorder.trans hu, hbacklog.trans hb, hahead⟩)

end

end Run
end Zmqpp
