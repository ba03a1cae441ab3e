import ZmqppPty.Actor.Basic
import ZmqppPty.Lib.Machine

/-!
# Who stops the child of an actor (actor.cpp)

Constructions that succeed, moves and destructions of actor objects, in any order.  The children
are numbered; a pipe is its child.

* `destroy`          `~actor`: `stop(true)`, then `delete parent_pipe_`;
* `step`             one construction, move or destruction;
* `Inv`              no pipe has two owners, and nothing has happened to a child that has one;
* `Orphan`           no actor owns the child, and it was not reaped;
* `TakesCare`        a move assignment whose target has no child, a destruction that sends its
                     signal;
* `no_orphan_iff`    every child is stopped, awaited and its pipe deleted once, iff all move
                     assignments and destructions are such.
-/

namespace Zmqpp
namespace Actor
namespace Ownership

open Lib.Handles (Held Exclusive)

inductive Event where
  | started (child : ℕ)
  /-- `signal::stop` -/
  | stopSent (child : ℕ)
  /-- the wait for the final signal has returned -/
  | awaited (child : ℕ)
  /-- `delete parent_pipe_` -/
  | deleted (child : ℕ)
deriving DecidableEq

/-- `~actor`, when its wait returns `sig`; `sent`: whether `signal::stop`, sent with `dont_wait`, is
accepted -/
def destroy (a : Actor ℕ) (sent : Bool) (sig : Int64) : Except Failure (List Event) :=
  let (pipe, call) := a.stop true
  let stopped := if sent then pipe.toList.map Event.stopSent else []
  let deleted := a.parentPipe.toList.map Event.deleted
  match call with
  | .returns _ => .ok (stopped ++ deleted)
  | .waits =>
    match a.stopWith sig with
    | .error f => .error f
    | .ok _ => .ok (stopped ++ pipe.toList.map Event.awaited ++ deleted)

structure State where
  actors : Actors ℕ := fun _ => none
  /-- the number of the next child -/
  next : ℕ := 0

/-- `x`, `this` and `o` are addresses of actor objects -/
inductive Label where
  | construct (x : ℕ)
  | moveConstruct (this o : ℕ)
  | moveAssign (this o : ℕ)
  /-- the final signal of the child is `sig` -/
  | destroy (x : ℕ) (sent : Bool) (sig : Int64)

def step (s : State) : Label → Option (State × List Event)
  | .construct x =>
    match s.actors x with
    | some _ => none
    | none =>
      some ({ actors := Function.update s.actors x (some (construct s.next)), next := s.next + 1 },
        [.started s.next])
  | .moveConstruct this o =>
    match s.actors this, s.actors o with
    | none, some _ => some ({ s with actors := s.actors.moveConstruct this o }, [])
    | _, _ => none
  | .moveAssign this o =>
    match s.actors this, s.actors o with
    | some _, some _ => some ({ s with actors := s.actors.moveAssign this o }, [])
    | _, _ => none
  | .destroy x sent sig =>
    match s.actors x with
    | none => none
    | some a =>
      match destroy a sent sig with
      | .error _ => none
      | .ok es => some ({ s with actors := Function.update s.actors x none }, es)

def machine : Lib.Machine State Label Event := ⟨step⟩

/-! ## all a step can do -/

/-- what becomes of a child whose actor is destroyed -/
def reap (sent : Bool) (c : ℕ) : List Event :=
  (if sent then [.stopSent c] else []) ++ [.awaited c, .deleted c]

theorem destroy_eq {a : Actor ℕ} {sent : Bool} {sig : Int64} {es : List Event}
    (hrun : a.stopped = false) (h : destroy a sent sig = .ok es) :
    es = a.parentPipe.elim [] (reap sent) := by
  obtain ⟨pipe, stopped, retval⟩ := a
  subst hrun
  cases pipe with
  | none =>
    cases sent with
    | true => exact (Except.ok.inj h).symm
    | false => exact (Except.ok.inj h).symm
  | some c =>
    unfold destroy at h
    simp only [stop] at h
    cases hw : stopWith ⟨some c, false, retval⟩ sig with
    | error f =>
      rw [hw] at h
      cases h
    | ok r =>
      rw [hw] at h
      cases sent with
      | true => exact (Except.ok.inj h).symm
      | false => exact (Except.ok.inj h).symm

inductive Step (s : State) : Label → State → List Event → Prop
  | construct (x : ℕ) (hx : s.actors x = none) :
      Step s (.construct x)
        { actors := Function.update s.actors x (some (construct s.next)), next := s.next + 1 }
        [.started s.next]
  | moveConstruct (this o : ℕ) (ht : s.actors this = none) (ho : s.actors o ≠ none) :
      Step s (.moveConstruct this o) { s with actors := s.actors.moveAssign this o } []
  | moveAssign (this o : ℕ) (ho : s.actors o ≠ none) :
      Step s (.moveAssign this o) { s with actors := s.actors.moveAssign this o } []
  | destroy (x : ℕ) (sent : Bool) (sig : Int64) (a : Actor ℕ) (es : List Event)
      (hx : s.actors x = some a) (h : destroy a sent sig = .ok es) :
      Step s (.destroy x sent sig) { s with actors := Function.update s.actors x none } es

theorem step_cases {s t : State} {l : Label} {e : List Event} (h : step s l = some (t, e)) :
    Step s l t e := by
  unfold step at h
  cases l with
  | construct x =>
    dsimp only at h
    split at h
    · cases h
    · rename_i hx
      cases h
      exact Step.construct x hx
  | moveConstruct this o =>
    dsimp only at h
    split at h
    · rename_i a ht ho
      cases h
      exact Step.moveConstruct this o ht (by rw [ho]; exact Option.some_ne_none a)
    · cases h
  | moveAssign this o =>
    dsimp only at h
    split at h
    · rename_i a b ht ho
      cases h
      exact Step.moveAssign this o (by rw [ho]; exact Option.some_ne_none b)
    · cases h
  | destroy x sent sig =>
    dsimp only at h
    split at h
    · cases h
    · rename_i a hx
      split at h
      · cases h
      · rename_i es hes
        cases h
        exact Step.destroy x sent sig a _ hx hes

/-! ## owners -/

/-- the event concerns this child after its start -/
def Event.ends (c : ℕ) : Event → Prop
  | .started _ => False
  | .stopSent d | .awaited d | .deleted d => d = c

/-- In every run: a pipe has one owner at most, actors that exist have not been stopped, and
nothing has happened to a child that has an owner, or none as yet. -/
structure Inv (s : State) (tr : List Event) : Prop where
  exclusive : Exclusive s.actors.pipe
  old : ∀ c, Held s.actors.pipe c → c < s.next
  running : ∀ x a, s.actors x = some a → a.stopped = false
  started : ∀ c, .started c ∈ tr ↔ c < s.next
  quiet : ∀ c, (Held s.actors.pipe c ∨ s.next ≤ c) → ∀ ev ∈ tr, ¬ ev.ends c

theorem not_held_init {c : ℕ} : ¬ Held (State.actors {}).pipe c := by
  intro h
  obtain ⟨x, hx⟩ := h
  cases hx

theorem inv_init : Inv {} [] where
  exclusive := fun _ _ _ hx _ => nomatch hx
  old := fun _ h => absurd h not_held_init
  running := fun _ _ h => nomatch h
  started := fun c => ⟨fun h => (nomatch h), fun h => absurd h (Nat.not_lt_zero c)⟩
  quiet := fun _ _ _ hev => nomatch hev

theorem Inv.construct {s : State} {tr : List Event} (h : Inv s tr) {x : ℕ}
    (hx : s.actors x = none) :
    Inv { actors := Function.update s.actors x (some (Actor.construct s.next)),
          next := s.next + 1 } (tr ++ [.started s.next]) := by
  have hfresh : ¬ Held s.actors.pipe s.next := fun hn => Nat.lt_irrefl _ (h.old _ hn)
  have hnone : s.actors.pipe x = none := Actors.pipe_of_none hx
  have hpipe : Actors.pipe (Function.update s.actors x (some (Actor.construct s.next)))
      = Function.update s.actors.pipe x (some s.next) := Actors.pipe_update _ _ _
  refine ⟨?_, ?_, ?_, ?_, ?_⟩
  · dsimp only
    rw [hpipe]
    exact h.exclusive.acquire x hfresh
  · intro c hc
    dsimp only at hc
    rw [hpipe, Lib.Handles.held_acquire hnone] at hc
    rcases hc with hc | rfl
    · exact Nat.lt_succ_of_lt (h.old c hc)
    · exact Nat.lt_succ_self _
  · intro y a hy
    dsimp only at hy
    rw [Function.update_apply] at hy
    split at hy
    · obtain rfl := Option.some.inj hy
      rfl
    · exact h.running y a hy
  · intro c
    rw [List.mem_append, List.mem_singleton, h.started, Event.started.injEq]
    exact Nat.lt_succ_iff_lt_or_eq.symm
  · intro c hc ev hev
    dsimp only at hc
    rw [hpipe, Lib.Handles.held_acquire hnone] at hc
    rcases List.mem_append.mp hev with hev | hev
    · apply h.quiet c _ ev hev
      rcases hc with (hc | rfl) | hc
      · exact Or.inl hc
      · exact Or.inr (Nat.le_refl _)
      · exact Or.inr (Nat.le_of_succ_le hc)
    · rw [List.mem_singleton.mp hev]
      exact id

theorem Inv.move {s : State} {tr : List Event} (h : Inv s tr) {this o : ℕ}
    (ho : s.actors o ≠ none) :
    Inv { s with actors := s.actors.moveAssign this o } (tr ++ []) := by
  rw [List.append_nil]
  have hpipe := Actors.pipe_moveAssign ho this
  refine ⟨?_, ?_, ?_, h.started, ?_⟩
  · dsimp only
    rw [hpipe]
    exact h.exclusive.transfer this o
  · intro c hc
    dsimp only at hc
    rw [hpipe] at hc
    exact h.old c (Lib.Handles.held_of_transfer hc)
  · obtain ⟨source, hsource⟩ := Option.ne_none_iff_exists'.mp ho
    intro x a hx
    dsimp only at hx
    rw [Actors.moveAssign_eq hsource, Function.update_apply, Function.update_apply] at hx
    split at hx
    · obtain rfl := Option.some.inj hx
      exact h.running o source hsource
    · split at hx
      · obtain rfl := Option.some.inj hx
        exact h.running o source hsource
      · exact h.running x a hx
  · intro c hc
    dsimp only at hc
    rw [hpipe] at hc
    exact h.quiet c (hc.imp_left Lib.Handles.held_of_transfer)

/-- the pipe of the destroyed actor has no owner any more -/
theorem held_destroy {s : State} {tr : List Event} (h : Inv s tr) {x : ℕ} {a : Actor ℕ}
    (hx : s.actors x = some a) (c : ℕ) :
    Held (Actors.pipe (Function.update s.actors x none)) c ↔
      Held s.actors.pipe c ∧ a.parentPipe ≠ some c := by
  have hpipe : s.actors.pipe x = a.parentPipe := Actors.pipe_of_some hx
  rw [Actors.pipe_update, ← hpipe]
  exact Lib.Handles.held_release h.exclusive x c

theorem ends_of_mem_reap {pipe : Option ℕ} {sent : Bool} {ev : Event}
    (h : ev ∈ pipe.elim [] (reap sent)) :
    (∀ d, ev ≠ .started d) ∧ ∀ c, ev.ends c → pipe = some c := by
  cases pipe with
  | none => cases h
  | some d =>
    have hev : ev = .stopSent d ∨ ev = .awaited d ∨ ev = .deleted d := by
      change ev ∈ reap sent d at h
      cases sent <;> simp_all [reap]
    rcases hev with rfl | rfl | rfl <;>
      exact ⟨fun _ => Event.noConfusion, fun c hc => congrArg some hc⟩

theorem Inv.destroy {s : State} {tr : List Event} (h : Inv s tr) {x : ℕ} {a : Actor ℕ}
    (hx : s.actors x = some a) (sent : Bool) :
    Inv { s with actors := Function.update s.actors x none }
      (tr ++ a.parentPipe.elim [] (reap sent)) := by
  refine ⟨?_, ?_, ?_, ?_, ?_⟩
  · dsimp only
    rw [Actors.pipe_update]
    exact h.exclusive.release x
  · intro c hc
    exact h.old c ((held_destroy h hx c).mp hc).1
  · intro y b hy
    dsimp only at hy
    rw [Function.update_apply] at hy
    split at hy
    · cases hy
    · exact h.running y b hy
  · intro c
    rw [List.mem_append, h.started]
    exact or_iff_left fun hc => (ends_of_mem_reap hc).1 c rfl
  · intro c hc ev hev
    have hcase : (Held s.actors.pipe c ∨ s.next ≤ c) ∧ a.parentPipe ≠ some c := by
      rcases hc with hc | hc
      · have hheld := (held_destroy h hx c).mp hc
        exact ⟨Or.inl hheld.1, hheld.2⟩
      · refine ⟨Or.inr hc, ?_⟩
        intro hp
        have hheld : Held s.actors.pipe c := ⟨x, (Actors.pipe_of_some hx).trans hp⟩
        exact Nat.not_lt_of_le hc (h.old c hheld)
    rcases List.mem_append.mp hev with hev | hev
    · exact h.quiet c hcase.1 ev hev
    · intro hends
      exact hcase.2 ((ends_of_mem_reap hev).2 c hends)

/-- **One step keeps the invariant.** -/
theorem step_inv {s t : State} {tr : List Event} {l : Label} {e : List Event} (h : Inv s tr)
    (hs : Step s l t e) : Inv t (tr ++ e) := by
  cases hs with
  | construct x hx => exact h.construct hx
  | moveConstruct this o ht ho => exact h.move ho
  | moveAssign this o ho => exact h.move ho
  | destroy x sent sig a es hx hes =>
    rw [destroy_eq (h.running x a hx) hes]
    exact h.destroy hx sent

/-! ## runs -/

/-- a move assignment is to an actor without a child, and the `signal::stop` of a destruction is
accepted -/
def TakesCare (s : State) : Label → Prop
  | .moveAssign this _ => s.actors.pipe this = none
  | .destroy x sent _ => s.actors.pipe x ≠ none → sent = true
  | _ => True

instance (s : State) : DecidablePred (TakesCare s)
  | .moveAssign this _ => inferInstanceAs (Decidable (s.actors.pipe this = none))
  | .destroy x sent _ => inferInstanceAs (Decidable (s.actors.pipe x ≠ none → sent = true))
  | .construct _ | .moveConstruct _ _ => isTrue trivial

/-- the child was sent `signal::stop`, its final signal awaited and its pipe deleted, each once -/
def Reaped (tr : List Event) (c : ℕ) : Prop :=
  tr.count (.stopSent c) = 1 ∧ tr.count (.awaited c) = 1 ∧ tr.count (.deleted c) = 1

/-- a child that has no owner any more was reaped -/
def AllReaped (s : State) (tr : List Event) : Prop :=
  ∀ c < s.next, ¬ Held s.actors.pipe c → Reaped tr c

theorem count_of_quiet {tr : List Event} {c : ℕ} (h : ∀ ev ∈ tr, ¬ ev.ends c) {ev : Event}
    (hev : ev.ends c) : tr.count ev = 0 :=
  List.count_eq_zero.mpr fun hmem => h ev hmem hev

/-- what does not concern a child changes nothing for it -/
theorem reaped_append {tr e : List Event} {c : ℕ} (he : ∀ ev ∈ e, ¬ ev.ends c) :
    Reaped (tr ++ e) c ↔ Reaped tr c := by
  unfold Reaped
  rw [List.count_append, List.count_append, List.count_append,
    count_of_quiet he (show Event.ends c (.stopSent c) from rfl),
    count_of_quiet he (show Event.ends c (.awaited c) from rfl),
    count_of_quiet he (show Event.ends c (.deleted c) from rfl)]
  exact Iff.rfl

theorem not_reaped_of_quiet {tr : List Event} {c : ℕ} (h : ∀ ev ∈ tr, ¬ ev.ends c) :
    ¬ Reaped tr c := by
  intro hreaped
  have hcount := hreaped.1
  rw [count_of_quiet h (show Event.ends c (.stopSent c) from rfl)] at hcount
  cases hcount

theorem reaped_reap {tr : List Event} {c : ℕ} (h : ∀ ev ∈ tr, ¬ ev.ends c) (sent : Bool) :
    Reaped (tr ++ reap sent c) c ↔ sent = true := by
  unfold Reaped
  rw [List.count_append, List.count_append, List.count_append,
    count_of_quiet h (show Event.ends c (.stopSent c) from rfl),
    count_of_quiet h (show Event.ends c (.awaited c) from rfl),
    count_of_quiet h (show Event.ends c (.deleted c) from rfl)]
  cases sent with
  | true => simp [reap]
  | false => simp [reap]

/-- a child that no actor owns is left alone -/
theorem ends_of_step {s t : State} {tr : List Event} {l : Label} {e : List Event} (hi : Inv s tr)
    (hs : Step s l t e) {c : ℕ} (hheld : ¬ Held s.actors.pipe c) : ∀ ev ∈ e, ¬ ev.ends c := by
  cases hs with
  | construct x hx =>
    intro ev hev
    rw [List.mem_singleton.mp hev]
    exact id
  | moveConstruct this o ht ho => exact nofun
  | moveAssign this o ho => exact nofun
  | destroy x sent sig a es hx hes =>
    rw [destroy_eq (hi.running x a hx) hes]
    intro ev hev hends
    exact hheld ⟨x, (Actors.pipe_of_some hx).trans ((ends_of_mem_reap hev).2 c hends)⟩

/-- a child that no actor owns stays so -/
theorem not_held_of_step {s t : State} {tr : List Event} {l : Label} {e : List Event}
    (hi : Inv s tr) (hs : Step s l t e) {c : ℕ} (hc : c < s.next)
    (hheld : ¬ Held s.actors.pipe c) : c < t.next ∧ ¬ Held t.actors.pipe c := by
  cases hs with
  | construct x hx =>
    have hnone : s.actors.pipe x = none := Actors.pipe_of_none hx
    refine ⟨Nat.lt_succ_of_lt hc, ?_⟩
    dsimp only
    rw [Actors.pipe_update]
    intro h
    rcases (Lib.Handles.held_acquire hnone s.next c).mp h with h | h
    · exact hheld h
    · exact Nat.ne_of_lt hc h
  | moveConstruct this o ht ho =>
    refine ⟨hc, ?_⟩
    dsimp only
    rw [Actors.pipe_moveAssign ho]
    exact fun h => hheld (Lib.Handles.held_of_transfer h)
  | moveAssign this o ho =>
    refine ⟨hc, ?_⟩
    dsimp only
    rw [Actors.pipe_moveAssign ho]
    exact fun h => hheld (Lib.Handles.held_of_transfer h)
  | destroy x sent sig a es hx hes => exact ⟨hc, fun h => hheld ((held_destroy hi hx c).mp h).1⟩

/-- a child that loses its owner in a step that takes care is reaped in it -/
theorem reaped_of_step {s t : State} {tr : List Event} {l : Label} {e : List Event} (hi : Inv s tr)
    (hok : TakesCare s l) (hs : Step s l t e) {c : ℕ} (hheld : Held s.actors.pipe c)
    (hheld' : ¬ Held t.actors.pipe c) : Reaped (tr ++ e) c := by
  cases hs with
  | construct x hx =>
    dsimp only at hheld'
    rw [Actors.pipe_update] at hheld'
    exact absurd ((Lib.Handles.held_acquire (Actors.pipe_of_none hx) s.next c).mpr (Or.inl hheld))
      hheld'
  | moveConstruct this o ht ho =>
    dsimp only at hheld'
    rw [Actors.pipe_moveAssign ho, Lib.Handles.held_transfer (Actors.pipe_of_none ht)] at hheld'
    exact absurd hheld hheld'
  | moveAssign this o ho =>
    dsimp only at hheld'
    rw [Actors.pipe_moveAssign ho, Lib.Handles.held_transfer hok] at hheld'
    exact absurd hheld hheld'
  | destroy x sent sig a es hx hes =>
    dsimp only at hheld'
    rw [held_destroy hi hx] at hheld'
    have hp : a.parentPipe = some c := by
      by_contra hp
      exact hheld' ⟨hheld, hp⟩
    have hpipe : s.actors.pipe x ≠ none := by
      rw [Actors.pipe_of_some hx, hp]
      exact Option.some_ne_none c
    rw [destroy_eq (hi.running x a hx) hes, hp]
    exact (reaped_reap (hi.quiet c (Or.inl hheld)) sent).mpr (hok hpipe)

theorem step_allReaped {s t : State} {tr : List Event} {l : Label} {e : List Event}
    (hi : Inv s tr) (h : AllReaped s tr) (hok : TakesCare s l) (hs : Step s l t e) :
    AllReaped t (tr ++ e) := by
  intro c hc hheld'
  by_cases hheld : Held s.actors.pipe c
  · exact reaped_of_step hi hok hs hheld hheld'
  · rw [reaped_append (ends_of_step hi hs hheld)]
    refine h c ?_ hheld
    -- a child that has just been started has an owner
    cases hs with
    | construct x hx =>
      dsimp only at hheld'
      rw [Actors.pipe_update] at hheld'
      have hnew : c ≠ s.next := fun hcn =>
        hheld' ((Lib.Handles.held_acquire (Actors.pipe_of_none hx) s.next c).mpr (Or.inr hcn))
      have hlt : c < s.next + 1 := hc
      omega
    | _ => exact hc

/-- a child that no actor owns and that was not reaped -/
def Orphan (c : ℕ) (s : State) (tr : List Event) : Prop :=
  c < s.next ∧ ¬ Held s.actors.pipe c ∧ ¬ Reaped tr c

/-- once an orphan, always an orphan -/
theorem step_orphan {s t : State} {tr : List Event} {l : Label} {e : List Event} {c : ℕ}
    (hi : Inv s tr) (h : Orphan c s tr) (hs : Step s l t e) : Orphan c t (tr ++ e) := by
  obtain ⟨hc, hheld, hreaped⟩ := h
  obtain ⟨hc', hheld'⟩ := not_held_of_step hi hs hc hheld
  exact ⟨hc', hheld', fun h => hreaped ((reaped_append (ends_of_step hi hs hheld)).mp h)⟩

/-- an assignment to an actor with a child, or a destruction whose signal is refused -/
theorem step_orphans {s t : State} {tr : List Event} {l : Label} {e : List Event}
    (hi : Inv s tr) (hok : ¬ TakesCare s l) (hs : Step s l t e) : ∃ c, Orphan c t (tr ++ e) := by
  cases hs with
  | construct x hx => exact absurd trivial hok
  | moveConstruct this o ht ho => exact absurd trivial hok
  | moveAssign this o ho =>
    obtain ⟨c, hc⟩ := Option.ne_none_iff_exists'.mp hok
    have hheld : Held s.actors.pipe c := ⟨this, hc⟩
    refine ⟨c, hi.old c hheld, ?_, ?_⟩
    · dsimp only
      rw [Actors.pipe_moveAssign ho]
      exact Lib.Handles.lost_of_transfer hi.exclusive hc o
    · rw [List.append_nil]
      exact not_reaped_of_quiet (hi.quiet c (Or.inl hheld))
  | destroy x sent sig a es hx hes =>
    unfold TakesCare at hok
    push Not at hok
    obtain ⟨hpipe, hsent⟩ := hok
    obtain ⟨c, hc⟩ := Option.ne_none_iff_exists'.mp hpipe
    have hp : a.parentPipe = some c := (Actors.pipe_of_some hx).symm.trans hc
    have hheld : Held s.actors.pipe c := ⟨x, hc⟩
    refine ⟨c, hi.old c hheld, fun h => ((held_destroy hi hx c).mp h).2 hp, ?_⟩
    rw [destroy_eq (hi.running x a hx) hes, hp]
    exact fun h => hsent ((reaped_reap (hi.quiet c (Or.inl hheld)) sent).mp h)

/-- every child whose pipe is not deleted has exactly one owner -/
def OwnedOnce (s : State) (tr : List Event) : Prop :=
  ∀ c, .started c ∈ tr → .deleted c ∉ tr → ∃! x, s.actors.pipe x = some c

/-- at any time of the run every child has one owner until it is destroyed, and in the end every
child has been reaped -/
def NoOrphan (ls : List Label) (es : List Event) : Prop :=
  (∀ pre t tr, pre <+: ls → machine.exec {} pre = some (t, tr) → OwnedOnce t tr) ∧
    ∀ c, .started c ∈ es → Reaped es c

theorem inv_of_run {ls : List Label} {s : State} {es : List Event}
    (hr : machine.exec {} ls = some (s, es)) : Inv s es :=
  Lib.Machine.exec_always Inv (fun _ _ _ _ _ h hs => step_inv h (step_cases hs)) [] inv_init hr

theorem allReaped_of_run {ls : List Label} {s : State} {es : List Event}
    (hr : machine.exec {} ls = some (s, es)) (hok : machine.Along TakesCare {} ls) :
    AllReaped s es :=
  (Lib.Machine.exec_inv (fun s tr => Inv s tr ∧ AllReaped s tr)
    (fun _ _ _ _ _ h ho hs =>
      ⟨step_inv h.1 (step_cases hs), step_allReaped h.1 h.2 ho (step_cases hs)⟩)
    [] ⟨inv_init, fun c hc => absurd hc (Nat.not_lt_zero c)⟩ hok hr).2

/-- the pipe of a child that was not reaped has one owner -/
theorem ownedOnce_of_run {ls : List Label} {s : State} {es : List Event}
    (hr : machine.exec {} ls = some (s, es)) (hok : machine.Along TakesCare {} ls) :
    OwnedOnce s es := by
  intro c hstarted hdel
  have hi := inv_of_run hr
  have hheld : Held s.actors.pipe c := by
    by_contra hheld
    have hreaped := allReaped_of_run hr hok c ((hi.started c).mp hstarted) hheld
    rw [Reaped, List.count_eq_zero.mpr hdel] at hreaped
    exact absurd hreaped.2.2 (by decide)
  obtain ⟨x, hx⟩ := hheld
  exact ⟨x, hx, fun y hy => hi.exclusive hy hx⟩

/-- **No child is orphaned iff no move assignment has a target with a child**, the source itself
included, **and every destruction gets its `signal::stop` sent.** -/
theorem no_orphan_iff (ls : List Label) (s : State) (es : List Event)
    (hr : machine.exec {} ls = some (s, es)) (hend : ∀ x, s.actors x = none) :
    NoOrphan ls es ↔ machine.Along TakesCare {} ls := by
  have hnobody : ∀ c, ¬ Held s.actors.pipe c := by
    intro c h
    obtain ⟨x, hx⟩ := h
    rw [Actors.pipe_of_none (hend x)] at hx
    cases hx
  constructor
  · intro h
    apply Lib.Machine.along_of_unmarked Inv (fun s tr => ∃ c, Orphan c s tr) _ _ _ [] inv_init
      (Lib.Machine.along_of_forall (fun (_ : State) (_ : Label) => trivial) {} ls) hr
    · -- an orphan in the end has not been reaped
      intro horphan
      obtain ⟨c, hc, -, hreaped⟩ := horphan
      rw [List.nil_append] at hreaped
      exact hreaped (h.2 c (((inv_of_run hr).started c).mpr hc))
    · exact fun s tr l t e hi _ hs => step_inv hi (step_cases hs)
    · exact fun s tr l t e hi _ hok hs => step_orphans hi hok (step_cases hs)
    · intro s tr l t e hi horphan hs
      obtain ⟨c, hc⟩ := horphan
      exact ⟨c, step_orphan hi hc (step_cases hs)⟩
  · intro hok
    refine ⟨?_, ?_⟩
    · intro pre t tr hpre hrun
      obtain ⟨rest, rfl⟩ := hpre
      exact ownedOnce_of_run hrun (Lib.Machine.along_append hok hrun).1
    · intro c hstarted
      exact allReaped_of_run hr hok c (((inv_of_run hr).started c).mp hstarted) (hnobody c)

/-- two children; the actor of the first is moved, and the second one's to what is left of it -/
def assignToMoved : List Label :=
  [.construct 0, .moveConstruct 1 0, .construct 2, .moveAssign 0 2,
    .destroy 2 false Signal.ok.value, .destroy 1 true Signal.ko.value,
    .destroy 0 true Signal.ok.value]

theorem no_orphan_moved :
    ∃ s es, machine.exec {} assignToMoved = some (s, es) ∧ NoOrphan assignToMoved es := by
  refine ⟨_, _, rfl, ?_⟩
  refine (no_orphan_iff assignToMoved _ _ rfl ?_).mpr (by decide +kernel)
  intro x
  match x with
  | 0 | 1 | 2 => rfl
  | _ + 3 => rfl

/-- an actor is assigned to itself and destroyed -/
def assignToSelf : List Label := [.construct 0, .moveAssign 0 0, .destroy 0 true Signal.ok.value]

/-- the pipe to the child does not take the `signal::stop`, as the child has ended by itself -/
def stopRefused : List Label := [.construct 0, .destroy 0 false Signal.ok.value]

/-- **A child is orphaned by a self-assignment**, and one is destroyed without `signal::stop`. -/
theorem self_assignment_orphans :
    (∃ s es, machine.exec {} assignToSelf = some (s, es) ∧ (∀ x, s.actors x = none) ∧
      ¬ NoOrphan assignToSelf es) ∧
    ∃ s es, machine.exec {} stopRefused = some (s, es) ∧ (∀ x, s.actors x = none) ∧
      .deleted 0 ∈ es ∧ ¬ NoOrphan stopRefused es := by
  constructor
  · refine ⟨_, _, rfl, ?_, ?_⟩
    · intro x
      match x with
      | 0 => rfl
      | _ + 1 => rfl
    · intro h
      have hreaped := h.2 0 (by decide)
      revert hreaped
      unfold Reaped
      decide
  · refine ⟨_, _, rfl, ?_, by decide, ?_⟩
    · intro x
      match x with
      | 0 => rfl
      | _ + 1 => rfl
    · intro h
      have hreaped := h.2 0 (by decide)
      revert hreaped
      unfold Reaped
      decide

end Ownership
end Actor
end Zmqpp
