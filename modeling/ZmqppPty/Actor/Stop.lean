import ZmqppPty.Actor.Basic
import ZmqppPty.Lib.Machine

/-!
# The stop protocol of an actor (actor.cpp, socket::wait)

Parent and child are joined by two queues of messages, a message being its parts.  The parent
constructs the actor at address 0 and then stops it, moves it and uses its pipe; the child runs
the routine, then `start_routine` sends the final signal.  A wait goes through the queue message
by message, so that the child runs on in the meantime.

* `childStep`, `constructWith`, `waitStep`, `stopStep`   the pieces of actor.cpp;
* `step`                 one step of either side;
* `waitStep_cases`       what a round of a wait does;
* `Orderly`, `Failing`   the routines: one signal of their own, `ok`, or no good start;
* `Inv`                  the signals still to be received: those in the queue and those that the
                         routine has still to send;
* `step_sound`           a step keeps it, and what it emits is as the protocol says;
* `stop_protocol`        in every run the constructor and `stop` come out as the routine does.
-/

namespace Zmqpp
namespace Actor
namespace Stop

/-- what a routine does -/
inductive Act where
  | send (msg : List Bytes)
  | receive
  | ret (value : Bool)
  /-- a `std::exception` leaves the routine -/
  | throw

inductive Parent where
  | constructing
  | idle
  /-- in the wait of `stop(true)` on the object at `x` -/
  | stopping (x : ℕ)
  /-- the constructor has thrown, or an assertion failed -/
  | gone
deriving DecidableEq

inductive Event where
  | acted (a : Act)
  | constructed
  /-- the constructor throws, with the exception of the routine nested or not -/
  | threw (nested : Bool)
  | aborted
  /-- `stop` on `x` sends `signal::stop` -/
  | stopSent (x : ℕ)
  | stopped (x : ℕ) (block : Bool) (value : Option Bool)
  | moved (this o : ℕ)

structure State where
  parent : Parent := .constructing
  actors : Actors Unit := fun _ => none
  toChild : List (List Bytes) := []
  toParent : List (List Bytes) := []
  /-- the routine has not ended -/
  running : Bool := true
  /-- `eptr_` is set -/
  eptr : Bool := false

inductive Label where
  | child (a : Act)
  /-- the parent's wait receives a message -/
  | wait
  /-- `sent`: whether the child gets the signal; it is sent with `dont_wait` -/
  | stop (x : ℕ) (block sent : Bool)
  | send (x : ℕ) (msg : List Bytes)
  | receive (x : ℕ)
  | move (this o : ℕ)

/-- the signal that `start_routine` sends for the value of the routine -/
def finalSignal (value : Bool) : Signal := if value then .ok else .ko

/-- `start_routine` -/
def childStep (s : State) : Act → Option State
  | .send msg => if msg = [] then none else some { s with toParent := s.toParent ++ [msg] }
  | .receive =>
    match s.toChild with
    | [] => none
    | _ :: rest => some { s with toChild := rest }
  | .ret value =>
    some { s with toParent := s.toParent ++ [(finalSignal value).frames], running := false }
  | .throw =>
    some { s with toParent := s.toParent ++ [Signal.ko.frames], running := false, eptr := true }

/-- the constructor, when its wait has returned `sig` -/
def constructWith (s : State) (sig : Int64) : State × List Event :=
  if sig = Signal.ok.value ∨ sig = Signal.ko.value then
    if sig = Signal.ko.value then ({ s with parent := .gone }, [.threw s.eptr])
    else
      ({ s with parent := .idle, actors := Function.update s.actors 0 (some (construct ())) },
        [.constructed])
  else ({ s with parent := .gone }, [.aborted])

/-- `stop(true)` on `x`, when its wait has returned `sig` -/
def stoppedWith (s : State) (x : ℕ) (a : Actor Unit) (sig : Int64) : State × List Event :=
  match a.stopWith sig with
  | .error _ => ({ s with parent := .gone }, [.aborted])
  | .ok (a, value) =>
    ({ s with parent := .idle, actors := Function.update s.actors x (some a) },
      [.stopped x true (some value)])

/-- one round of `socket::wait` -/
def waitStep (s : State) : Option (State × List Event) :=
  match s.toParent with
  | [] => none
  | msg :: rest =>
    match s.parent with
    | .constructing =>
      match signalOf msg with
      | none => some ({ s with toParent := rest }, [])
      | some sig => some (constructWith { s with toParent := rest } sig)
    | .stopping x =>
      match signalOf msg, s.actors x with
      | none, _ => some ({ s with toParent := rest }, [])
      | some sig, some a => some (stoppedWith { s with toParent := rest } x a sig)
      | some _, none => none
    | _ => none

/-- `stop(block)` up to its wait -/
def stopStep (s : State) (x : ℕ) (a : Actor Unit) (block sent : Bool) : State × List Event :=
  let (pipe, call) := a.stop block
  let toChild := if pipe.isSome && sent then s.toChild ++ [Signal.stop.frames] else s.toChild
  let stopSent := pipe.toList.map fun _ => Event.stopSent x
  match call with
  | .returns value => ({ s with toChild := toChild }, stopSent ++ [.stopped x block value])
  | .waits => ({ s with toChild := toChild, parent := .stopping x }, stopSent)

def step (s : State) : Label → Option (State × List Event)
  | .child a => if s.running then (childStep s a).map fun t => (t, [.acted a]) else none
  | .wait => waitStep s
  | .stop x block sent =>
    match s.parent, s.actors x with
    | .idle, some a => some (stopStep s x a block sent)
    | _, _ => none
  | .send x msg =>
    match s.parent, s.actors.pipe x with
    | .idle, some () =>
      if msg = [] then none else some ({ s with toChild := s.toChild ++ [msg] }, [])
    | _, _ => none
  | .receive x =>
    match s.parent, s.actors.pipe x, s.toParent with
    | .idle, some (), _ :: rest => some ({ s with toParent := rest }, [])
    | _, _, _ => none
  | .move this o =>
    match s.parent, s.actors this, s.actors o with
    | .idle, none, some _ =>
      some ({ s with actors := s.actors.moveConstruct this o }, [.moved this o])
    | _, _, _ => none

def machine : Lib.Machine State Label Event := ⟨step⟩

/-! ## routines -/

def actedBy : Event → Option Act
  | .acted a => some a
  | _ => none

/-- what the routine has done so far -/
def acts (tr : List Event) : List Act := tr.filterMap actedBy

/-- the routine sends no signal and does not end -/
def Act.Quiet : Act → Prop
  | .send msg => signalOf msg = none
  | .receive => True
  | .ret _ | .throw => False

/-- one signal of its own, `signal::ok`, then the value `b` or, if `b` is false, an exception -/
def Orderly (b : Bool) (routine : List Act) : Prop :=
  ∃ before after last, routine = before ++ .send Signal.ok.frames :: (after ++ [last]) ∧
    (∀ a ∈ before, a.Quiet) ∧ (∀ a ∈ after, a.Quiet) ∧
    (last = .ret b ∨ (b = false ∧ last = .throw))

/-- its first signal is `signal::ko`, or it throws or returns false before it has sent one -/
def Failing (routine : List Act) : Prop :=
  ∃ before a rest, routine = before ++ a :: rest ∧ (∀ a ∈ before, a.Quiet) ∧
    (a = .send Signal.ko.frames ∨ a = .throw ∨ a = .ret false)

/-- the parent does not receive a signal by itself -/
def ReceivesNoSignal (s : State) : Label → Prop
  | .receive _ => ∀ msg, s.toParent.head? = some msg → signalOf msg = none
  | _ => True

instance : DecidablePred Act.Quiet
  | .send msg => inferInstanceAs (Decidable (signalOf msg = none))
  | .receive => isTrue trivial
  | .ret _ | .throw => isFalse id

instance (s : State) : DecidablePred (ReceivesNoSignal s)
  | .receive _ =>
    inferInstanceAs (Decidable (∀ msg, s.toParent.head? = some msg → signalOf msg = none))
  | .child _ | .wait | .stop _ _ _ | .send _ _ | .move _ _ => isTrue trivial

/-! ## signals -/

/-- the signals that reach the parent because of this -/
def Act.signals : Act → List Int64
  | .send msg => (signalOf msg).toList
  | .receive => []
  | .ret value => [(finalSignal value).value]
  | .throw => [Signal.ko.value]

def signalsOf (routine : List Act) : List Int64 := routine.flatMap Act.signals

/-- the signals of a queue -/
def pending (queue : List (List Bytes)) : List Int64 := queue.filterMap signalOf

theorem signalsOf_append (a b : List Act) : signalsOf (a ++ b) = signalsOf a ++ signalsOf b :=
  List.flatMap_append

theorem signalsOf_quiet {routine : List Act} (h : ∀ a ∈ routine, a.Quiet) :
    signalsOf routine = [] := by
  apply List.flatMap_eq_nil_iff.mpr
  intro a ha
  have hq := h a ha
  cases a with
  | send msg =>
    show (signalOf msg).toList = []
    rw [show signalOf msg = none from hq]
    rfl
  | receive => rfl
  | ret value => exact hq.elim
  | throw => exact hq.elim

theorem signals_send (sig : Signal) : Act.signals (.send sig.frames) = [sig.value] := by
  show (signalOf sig.frames).toList = _
  rw [sig.signalOf_frames]
  rfl

theorem Orderly.signals {b : Bool} {routine : List Act} (h : Orderly b routine) :
    signalsOf routine = [Signal.ok.value, (finalSignal b).value] := by
  obtain ⟨before, after, last, rfl, hbefore, hafter, hlast⟩ := h
  have hfinal : last.signals = [(finalSignal b).value] := by
    rcases hlast with rfl | ⟨rfl, rfl⟩ <;> rfl
  rw [signalsOf_append, signalsOf_quiet hbefore]
  show Act.signals (.send Signal.ok.frames) ++ signalsOf (after ++ [last]) = _
  rw [signals_send, signalsOf_append, signalsOf_quiet hafter]
  show [Signal.ok.value] ++ (last.signals ++ []) = _
  rw [hfinal]
  rfl

theorem Failing.signals {routine : List Act} (h : Failing routine) :
    ∃ rest, signalsOf routine = Signal.ko.value :: rest := by
  obtain ⟨before, a, rest, rfl, hbefore, ha⟩ := h
  have hko : a.signals = [Signal.ko.value] := by
    rcases ha with rfl | rfl | rfl
    · exact signals_send .ko
    · rfl
    · rfl
  refine ⟨signalsOf rest, ?_⟩
  rw [signalsOf_append, signalsOf_quiet hbefore]
  show a.signals ++ signalsOf rest = _
  rw [hko]
  rfl

theorem pending_cons (msg : List Bytes) (queue : List (List Bytes)) :
    pending (msg :: queue) = (signalOf msg).toList ++ pending queue := by
  unfold pending
  rw [List.filterMap_cons]
  cases signalOf msg <;> rfl

theorem pending_concat (queue : List (List Bytes)) (msg : List Bytes) :
    pending (queue ++ [msg]) = pending queue ++ (signalOf msg).toList := by
  unfold pending
  rw [List.filterMap_append, List.filterMap_cons]
  cases signalOf msg <;> rfl

/-- **What a round of a wait does**: it drops the next message, or takes it as the signal that ends
the wait. -/
inductive WaitStep (s : State) : State → List Event → Prop
  | dropped (msg : List Bytes) (rest : List (List Bytes)) (hq : s.toParent = msg :: rest)
      (hmsg : signalOf msg = none) (hp : s.parent ≠ .gone) :
      WaitStep s { s with toParent := rest } []
  | constructed (msg : List Bytes) (rest : List (List Bytes)) (sig : Int64) (t : State)
      (e : List Event) (hq : s.toParent = msg :: rest) (hmsg : signalOf msg = some sig)
      (hp : s.parent = .constructing) (he : constructWith { s with toParent := rest } sig = (t, e)) :
      WaitStep s t e
  | stopped (msg : List Bytes) (rest : List (List Bytes)) (sig : Int64) (x : ℕ) (a : Actor Unit)
      (t : State) (e : List Event) (hq : s.toParent = msg :: rest)
      (hmsg : signalOf msg = some sig) (hp : s.parent = .stopping x) (ha : s.actors x = some a)
      (he : stoppedWith { s with toParent := rest } x a sig = (t, e)) : WaitStep s t e

theorem waitStep_cases {s t : State} {e : List Event} (hs : waitStep s = some (t, e)) :
    WaitStep s t e := by
  unfold waitStep at hs
  split at hs
  · cases hs
  · rename_i msg rest hq
    split at hs
    · rename_i hp
      split at hs
      · rename_i hmsg
        cases hs
        exact WaitStep.dropped msg rest hq hmsg (by rw [hp]; exact nofun)
      · rename_i sig hmsg
        exact WaitStep.constructed msg rest sig t e hq hmsg hp (Option.some.inj hs)
    · rename_i x hp
      split at hs
      · rename_i hmsg
        cases hs
        exact WaitStep.dropped msg rest hq hmsg (by rw [hp]; exact nofun)
      · rename_i sig a hmsg ha
        exact WaitStep.stopped msg rest sig x a t e hq hmsg hp ha (Option.some.inj hs)
      · cases hs
    · cases hs

/-- **What the child does**: its signals join the queue, and the parent's side stays. -/
theorem childStep_eq {s t : State} {a : Act} (h : childStep s a = some t) :
    pending t.toParent = pending s.toParent ++ a.signals ∧ t.parent = s.parent ∧
      t.actors = s.actors := by
  cases a with
  | send msg =>
    unfold childStep at h
    dsimp only at h
    split at h
    · cases h
    · cases h
      exact ⟨pending_concat s.toParent msg, rfl, rfl⟩
  | receive =>
    unfold childStep at h
    dsimp only at h
    split at h
    · cases h
    · cases h
      exact ⟨(List.append_nil _).symm, rfl, rfl⟩
  | ret value =>
    cases h
    refine ⟨?_, rfl, rfl⟩
    show pending (s.toParent ++ [(finalSignal value).frames]) = _
    rw [pending_concat, Signal.signalOf_frames]
    rfl
  | throw =>
    cases h
    refine ⟨?_, rfl, rfl⟩
    show pending (s.toParent ++ [Signal.ko.frames]) = _
    rw [pending_concat, Signal.signalOf_frames]
    rfl

/-! ## what a run should look like -/

/-- the actor object that has the pipe: the constructed one, and then where it is moved to -/
def ownerAfter (x : ℕ) : Event → ℕ
  | .moved this o => if o = x then this else x
  | _ => x

def owner (tr : List Event) : ℕ := tr.foldl ownerAfter 0

/-- **The protocol**, for a routine that comes out as `b`.  The constructor returns; only the owner
sends; `stop(true)` on it returns `b`, and on an empty actor `stop` returns false. -/
def Protocol (b : Bool) (pre : List Event) : Event → Prop
  | .acted _ | .constructed | .moved _ _ => True
  | .threw _ | .aborted => False
  | .stopSent x => x = owner pre
  | .stopped x block value =>
    value = some (if x = owner pre then (if block then b else true) else false)

theorem owner_concat (tr : List Event) (ev : Event) :
    owner (tr ++ [ev]) = ownerAfter (owner tr) ev :=
  List.foldl_concat ..

theorem acts_append (tr e : List Event) : acts (tr ++ e) = acts tr ++ acts e :=
  List.filterMap_append

theorem acts_concat (tr : List Event) (ev : Event) :
    acts (tr ++ [ev]) = acts tr ++ (actedBy ev).toList := by
  rw [acts_append]
  unfold acts
  rw [List.filterMap_cons]
  cases actedBy ev <;> rfl

/-! ## the signals still to come -/

/-- the object at `x` has the pipe; `left` are the signals still to be received -/
structure Owned (b : Bool) (actors : Actors Unit) (x : ℕ) (left : List Int64) : Prop where
  only : ∀ y, actors.pipe y = some () ↔ y = x
  object : ∃ stopped retval, actors x = some ⟨some (), stopped, retval⟩ ∧
    (stopped = true → retval = some b ∧ left = []) ∧
    (stopped = false → left = [(finalSignal b).value])

def Inv (b : Bool) (s : State) (tr : List Event) (left : List Int64) : Prop :=
  match s.parent with
  | .constructing =>
    (∀ x, s.actors x = none) ∧ owner tr = 0 ∧
      left = [Signal.ok.value, (finalSignal b).value]
  | .idle => Owned b s.actors (owner tr) left
  | .stopping x => x = owner tr ∧ Owned b s.actors (owner tr) left ∧ left ≠ []
  | .gone => False

theorem Owned.waiting {b : Bool} {actors : Actors Unit} {x : ℕ} {left : List Int64}
    (h : Owned b actors x left) (hleft : left ≠ []) :
    left = [(finalSignal b).value] ∧ ∃ retval, actors x = some ⟨some (), false, retval⟩ := by
  obtain ⟨stopped, retval, hx, hstopped, hrunning⟩ := h.object
  cases stopped with
  | true => exact absurd (hstopped rfl).2 hleft
  | false => exact ⟨hrunning rfl, retval, hx⟩

/-- an actor that is not the owner is empty -/
theorem Owned.empty {b : Bool} {actors : Actors Unit} {x y : ℕ} {left : List Int64}
    (h : Owned b actors x left) (hy : y ≠ x) : actors.pipe y = none := by
  cases hp : actors.pipe y with
  | none => rfl
  | some u => exact absurd ((h.only y).mp hp) hy

/-- the constructed object -/
theorem owned_construct {b : Bool} {actors : Actors Unit} (h : ∀ x, actors x = none) :
    Owned b (Function.update actors 0 (some (construct ()))) 0 [(finalSignal b).value] := by
  refine ⟨?_, false, none, Function.update_self .., nofun, fun _ => rfl⟩
  intro y
  rw [Actors.pipe_update, Function.update_apply]
  by_cases hy : y = 0
  · rw [if_pos hy]
    exact iff_of_true rfl hy
  · rw [if_neg hy, Actors.pipe_of_none (h y)]
    exact iff_of_false nofun hy

/-- the object that has been stopped -/
theorem Owned.stopped {b : Bool} {actors : Actors Unit} {x : ℕ} {left : List Int64}
    (h : Owned b actors x left) :
    Owned b (Function.update actors x (some ⟨some (), true, some b⟩)) x [] := by
  refine ⟨?_, true, some b, Function.update_self .., fun _ => ⟨rfl, rfl⟩, nofun⟩
  intro y
  rw [Actors.pipe_update, Function.update_apply]
  by_cases hy : y = x
  · rw [if_pos hy]
    exact iff_of_true rfl hy
  · rw [if_neg hy]
    exact h.only y

/-- **A move takes the pipe and its state to the new object.** -/
theorem Owned.move {b : Bool} {actors : Actors Unit} {x this o : ℕ} {left : List Int64}
    (h : Owned b actors x left) (hthis : actors this = none) (ho : actors o ≠ none) :
    Owned b (actors.moveAssign this o) (if o = x then this else x) left := by
  obtain ⟨source, hsource⟩ := Option.ne_none_iff_exists'.mp ho
  obtain ⟨stopped, retval, hx, hvalue⟩ := h.object
  have hne : this ≠ o := by
    intro hto
    rw [hto, hsource] at hthis
    cases hthis
  have hthisx : x ≠ this := by
    intro hxt
    rw [← hxt, hx] at hthis
    cases hthis
  refine ⟨?_, stopped, retval, ?_, hvalue⟩
  · intro y
    rw [Actors.pipe_moveAssign ho]
    by_cases hyo : y = o
    · subst hyo
      rw [Lib.Handles.transfer_src]
      apply iff_of_false nofun
      split
      · exact hne.symm
      · rename_i hyx
        exact hyx
    · by_cases hyt : y = this
      · subst hyt
        rw [Lib.Handles.transfer_dst _ hne, h.only o]
        by_cases hox : o = x
        · rw [if_pos hox]
          exact iff_of_true hox rfl
        · rw [if_neg hox]
          exact iff_of_false hox hthisx.symm
      · rw [Lib.Handles.transfer_other _ hyt hyo, h.only y]
        by_cases hox : o = x
        · rw [if_pos hox]
          exact iff_of_false (fun hyx => hyo (hyx.trans hox.symm)) hyt
        · rw [if_neg hox]
  · rw [Actors.moveAssign_eq hsource]
    by_cases hox : o = x
    · rw [if_pos hox, Function.update_of_ne hne, Function.update_self, ← hsource, hox, hx]
    · rw [if_neg hox, Function.update_of_ne (Ne.symm hox), Function.update_of_ne hthisx, hx]

/-! ## steps -/

/-- the trace is as the protocol says, and the signals still to come fit the state -/
structure Sound (b : Bool) (s : State) (tr : List Event) (future : List Int64) : Prop where
  protocol : Lib.EachAfter (Protocol b) tr
  inv : Inv b s tr (pending s.toParent ++ future)

section
variable {b : Bool} {s t : State} {tr e : List Event} {future : List Int64}

theorem sound_init {routine : List Act}
    (h : signalsOf routine = [Signal.ok.value, (finalSignal b).value]) :
    Sound b {} [] (signalsOf routine) where
  protocol := Lib.eachAfter_nil
  inv := ⟨fun _ => rfl, rfl, h⟩

/-- a message that is no signal is dropped -/
theorem Sound.discard (h : Sound b s tr future) {msg : List Bytes} {rest : List (List Bytes)}
    (hq : s.toParent = msg :: rest) (hmsg : signalOf msg = none) :
    Sound b { s with toParent := rest } tr future := by
  have hpending : pending s.toParent = pending rest := by
    rw [hq, pending_cons, hmsg]
    rfl
  have hinv := h.inv
  rw [hpending] at hinv
  exact ⟨h.protocol, hinv⟩

/-- the first signal of all ends the constructor -/
theorem Sound.construct (h : Sound b s tr future) (hp : s.parent = .constructing)
    {msg : List Bytes} {rest : List (List Bytes)} {sig : Int64} (hq : s.toParent = msg :: rest)
    (hmsg : signalOf msg = some sig) (he : constructWith { s with toParent := rest } sig = (t, e)) :
    Sound b t (tr ++ e) future ∧ acts e = [] := by
  have hinv := h.inv
  unfold Inv at hinv
  rw [hp, hq, pending_cons, hmsg] at hinv
  obtain ⟨hactors, howner, hleft⟩ := hinv
  obtain ⟨hsig, hrest⟩ := List.cons.inj hleft
  have heq : constructWith { s with toParent := rest } sig
      = ({ s with toParent := rest, parent := .idle,
                  actors := Function.update s.actors 0 (some (Actor.construct ())) },
        [.constructed]) := by
    unfold constructWith
    rw [hsig, if_pos (Or.inl rfl), if_neg Signal.ok_ne_ko]
  obtain ⟨rfl, rfl⟩ := Prod.mk.inj (heq.symm.trans he)
  refine ⟨⟨Lib.eachAfter_concat h.protocol trivial, ?_⟩, rfl⟩
  show Owned b _ (owner (tr ++ [.constructed])) (pending rest ++ future)
  rw [owner_concat, howner, show pending rest ++ future = [(finalSignal b).value] from hrest]
  exact owned_construct hactors

theorem stopWith_final (b : Bool) (retval : Option Bool) :
    stopWith ⟨some (), false, retval⟩ (finalSignal b).value
      = .ok (⟨some (), true, some b⟩, b) := by
  cases b <;> rfl

/-- the final signal ends `stop(true)` -/
theorem Sound.stopped (h : Sound b s tr future) {x : ℕ} (hp : s.parent = .stopping x)
    {msg : List Bytes} {rest : List (List Bytes)} {sig : Int64} (hq : s.toParent = msg :: rest)
    (hmsg : signalOf msg = some sig) {a : Actor Unit} (ha : s.actors x = some a)
    (he : stoppedWith { s with toParent := rest } x a sig = (t, e)) :
    Sound b t (tr ++ e) future ∧ acts e = [] := by
  have hinv := h.inv
  unfold Inv at hinv
  rw [hp, hq, pending_cons, hmsg] at hinv
  obtain ⟨rfl, howned, hne⟩ := hinv
  obtain ⟨hleft, retval, hx⟩ := howned.waiting hne
  obtain ⟨hsig, hrest⟩ := List.cons.inj hleft
  obtain rfl : a = ⟨some (), false, retval⟩ := Option.some.inj (ha.symm.trans hx)
  have heq : stoppedWith { s with toParent := rest } (owner tr) ⟨some (), false, retval⟩ sig
      = ({ s with toParent := rest, parent := .idle,
                  actors := Function.update s.actors (owner tr) (some ⟨some (), true, some b⟩) },
        [.stopped (owner tr) true (some b)]) := by
    unfold stoppedWith
    rw [hsig, stopWith_final]
  obtain ⟨rfl, rfl⟩ := Prod.mk.inj (heq.symm.trans he)
  refine ⟨⟨Lib.eachAfter_concat h.protocol ?_, ?_⟩, rfl⟩
  · show some b = some (if owner tr = owner tr then _ else _)
    rw [if_pos rfl]
    rfl
  · show Owned b _ (owner (tr ++ [.stopped (owner tr) true (some b)])) (pending rest ++ future)
    rw [owner_concat, show pending rest ++ future = [] from hrest]
    exact howned.stopped

theorem Sound.wait (h : Sound b s tr future) (hs : waitStep s = some (t, e)) :
    Sound b t (tr ++ e) future ∧ acts e = [] := by
  cases waitStep_cases hs with
  | dropped msg rest hq hmsg hp =>
    rw [List.append_nil]
    exact ⟨h.discard hq hmsg, rfl⟩
  | constructed msg rest sig t e hq hmsg hp he => exact h.construct hp hq hmsg he
  | stopped msg rest sig x a t e hq hmsg hp ha he => exact h.stopped hp hq hmsg ha he

theorem inv_idle {left : List Int64} (hp : s.parent = .idle) :
    Inv b s tr left ↔ Owned b s.actors (owner tr) left := by
  unfold Inv
  rw [hp]

/-- a `stop` on the owner that does not wait -/
theorem Sound.returns (h : Sound b s tr future) (hp : s.parent = .idle)
    (toChild : List (List Bytes)) {block : Bool} {value : Option Bool}
    (hvalue : value = some (if block then b else true)) :
    Sound b { s with toChild := toChild }
      (tr ++ [.stopSent (owner tr), .stopped (owner tr) block value]) future := by
  have howner : owner (tr ++ [.stopSent (owner tr)]) = owner tr := owner_concat ..
  have hsplit : tr ++ [.stopSent (owner tr), .stopped (owner tr) block value]
      = tr ++ [.stopSent (owner tr)] ++ [.stopped (owner tr) block value] :=
    List.append_cons ..
  rw [hsplit]
  refine ⟨Lib.eachAfter_concat (Lib.eachAfter_concat h.protocol rfl) ?_, ?_⟩
  · show value = some (if owner tr = owner (tr ++ [.stopSent (owner tr)]) then _ else _)
    rw [howner, if_pos rfl, hvalue]
  · rw [inv_idle (show State.parent { s with toChild := toChild } = .idle from hp), owner_concat,
      howner]
    exact (inv_idle hp).mp h.inv

/-- a `stop` on the owner that waits -/
theorem Sound.waits (h : Sound b s tr future) (hp : s.parent = .idle)
    (toChild : List (List Bytes)) (hne : pending s.toParent ++ future ≠ []) :
    Sound b { s with toChild := toChild, parent := .stopping (owner tr) }
      (tr ++ [.stopSent (owner tr)]) future := by
  have howner : owner (tr ++ [.stopSent (owner tr)]) = owner tr := owner_concat ..
  refine ⟨Lib.eachAfter_concat h.protocol rfl, howner.symm, ?_, hne⟩
  rw [howner]
  exact (inv_idle hp).mp h.inv

/-- a `stop` on an empty actor -/
theorem Sound.empty (h : Sound b s tr future) (hp : s.parent = .idle) {x : ℕ} (hx : x ≠ owner tr)
    (block : Bool) : Sound b s (tr ++ [.stopped x block (some false)]) future := by
  refine ⟨Lib.eachAfter_concat h.protocol ?_, ?_⟩
  · show some false = some (if x = owner tr then _ else false)
    rw [if_neg hx]
  · rw [inv_idle hp, owner_concat]
    exact (inv_idle hp).mp h.inv

/-- `stop` up to its wait -/
theorem Sound.stop (h : Sound b s tr future) (hp : s.parent = .idle) {x : ℕ} {a : Actor Unit}
    (ha : s.actors x = some a) {block sent : Bool} (he : stopStep s x a block sent = (t, e)) :
    Sound b t (tr ++ e) future ∧ acts e = [] := by
  have howned := (inv_idle hp).mp h.inv
  by_cases hx : x = owner tr
  · subst hx
    obtain ⟨stopped, retval, hobject, hstopped, hrunning⟩ := howned.object
    obtain rfl : a = ⟨some (), stopped, retval⟩ := Option.some.inj (ha.symm.trans hobject)
    cases block with
    | false =>
      obtain ⟨rfl, rfl⟩ := Prod.mk.inj he
      exact ⟨h.returns hp _ rfl, rfl⟩
    | true =>
      cases stopped with
      | true =>
        obtain ⟨rfl, rfl⟩ := Prod.mk.inj he
        exact ⟨h.returns hp _ (hstopped rfl).1, rfl⟩
      | false =>
        obtain ⟨rfl, rfl⟩ := Prod.mk.inj he
        refine ⟨h.waits hp _ ?_, rfl⟩
        rw [hrunning rfl]
        exact List.cons_ne_nil _ _
  · have hempty : a.parentPipe = none := (Actors.pipe_of_some ha).symm.trans (howned.empty hx)
    have heq : stopStep s x a block sent = (s, [.stopped x block (some false)]) := by
      unfold stopStep Actor.stop
      rw [hempty]
      rfl
    obtain ⟨rfl, rfl⟩ := Prod.mk.inj (heq.symm.trans he)
    exact ⟨h.empty hp hx block, rfl⟩

theorem Sound.move (h : Sound b s tr future) (hp : s.parent = .idle) {this o : ℕ}
    (hthis : s.actors this = none) (ho : s.actors o ≠ none) :
    Sound b { s with actors := s.actors.moveAssign this o } (tr ++ [.moved this o]) future := by
  refine ⟨Lib.eachAfter_concat h.protocol trivial, ?_⟩
  have hidle : State.parent { s with actors := s.actors.moveAssign this o } = .idle := hp
  rw [inv_idle hidle, owner_concat]
  exact ((inv_idle hp).mp h.inv).move hthis ho

theorem Sound.acted (h : Sound b s tr future) {a : Act} {rest : List Act}
    (hf : future = signalsOf (a :: rest)) (hs : childStep s a = some t) :
    Sound b t (tr ++ [.acted a]) (signalsOf rest) := by
  obtain ⟨hpending, hparent, hactors⟩ := childStep_eq hs
  refine ⟨Lib.eachAfter_concat h.protocol trivial, ?_⟩
  have hinv := h.inv
  have hleft : pending t.toParent ++ signalsOf rest = pending s.toParent ++ future := by
    rw [hpending, hf, List.append_assoc]
    rfl
  unfold Inv at hinv ⊢
  rw [hleft, hparent, hactors, owner_concat]
  exact hinv

/-- **A step of the parent** keeps the run sound. -/
theorem Sound.parent (h : Sound b s tr future) {l : Label} (hl : ∀ a, l ≠ .child a)
    (hok : ReceivesNoSignal s l) (hs : step s l = some (t, e)) :
    Sound b t (tr ++ e) future ∧ acts e = [] := by
  cases l with
  | child a => exact absurd rfl (hl a)
  | wait => exact h.wait hs
  | stop x block sent =>
    unfold step at hs
    dsimp only at hs
    split at hs
    · rename_i a hp ha
      exact h.stop hp ha (Option.some.inj hs)
    · cases hs
  | send x msg =>
    unfold step at hs
    dsimp only at hs
    split at hs
    · split at hs
      · cases hs
      · cases hs
        rw [List.append_nil]
        exact ⟨⟨h.protocol, h.inv⟩, rfl⟩
    · cases hs
  | receive x =>
    unfold step at hs
    dsimp only at hs
    split at hs
    · rename_i msg rest hp hx hq
      cases hs
      rw [List.append_nil]
      refine ⟨h.discard hq (hok msg ?_), rfl⟩
      rw [hq]
      rfl
    · cases hs
  | move this o =>
    unfold step at hs
    dsimp only at hs
    split at hs
    · rename_i source hp hthis ho
      cases hs
      exact ⟨h.move hp hthis (by rw [ho]; exact Option.some_ne_none source), rfl⟩
    · cases hs

theorem step_child {a : Act} (hs : step s (.child a) = some (t, e)) :
    childStep s a = some t ∧ e = [.acted a] := by
  unfold step at hs
  dsimp only at hs
  split at hs
  · obtain ⟨t', ht, heq⟩ := Option.map_eq_some_iff.mp hs
    obtain ⟨rfl, rfl⟩ := Prod.mk.inj heq
    exact ⟨ht, rfl⟩
  · cases hs

/-- **A step of either side**: what the routine has still to do loses what it does now. -/
theorem step_sound {routine : List Act}
    (h : ∀ rest, acts tr ++ rest = routine → Sound b s tr (signalsOf rest)) {l : Label}
    (hok : ReceivesNoSignal s l) (hs : step s l = some (t, e)) (rest : List Act)
    (hrest : acts (tr ++ e) ++ rest = routine) : Sound b t (tr ++ e) (signalsOf rest) := by
  by_cases hl : ∃ a, l = .child a
  · obtain ⟨a, rfl⟩ := hl
    obtain ⟨hchild, rfl⟩ := step_child hs
    rw [acts_concat, List.append_assoc] at hrest
    exact (h (a :: rest) hrest).acted rfl hchild
  · rw [acts_append, List.append_assoc] at hrest
    obtain ⟨hsound, hnone⟩ := (h _ hrest).parent (fun a ha => hl ⟨a, ha⟩) hok hs
    rw [hnone] at hsound
    exact hsound

/-! ## routines without a good start -/

/-- the constructor has not returned, and no assertion has failed -/
def Event.Unconstructed : Event → Prop
  | .acted _ | .threw _ => True
  | _ => False

/-- the constructor still waits, and nothing that it waits for has been received, or it has
thrown -/
structure Doomed (routine : List Act) (s : State) (tr : List Event) (future : List Int64) :
    Prop where
  events : ∀ ev ∈ tr, ev.Unconstructed
  state : s.parent = .gone ∨
    (s.parent = .constructing ∧ pending s.toParent ++ future = signalsOf routine)

theorem Doomed.wait {routine : List Act} {left : List Int64}
    (hko : signalsOf routine = Signal.ko.value :: left) (h : Doomed routine s tr future)
    (hs : waitStep s = some (t, e)) : Doomed routine t (tr ++ e) future ∧ acts e = [] := by
  cases waitStep_cases hs with
  | dropped msg rest hq hmsg hp =>
    obtain ⟨hp', hleft⟩ := h.state.resolve_left hp
    rw [hq, pending_cons, hmsg] at hleft
    rw [List.append_nil]
    exact ⟨⟨h.events, Or.inr ⟨hp', hleft⟩⟩, rfl⟩
  | constructed msg rest sig t e hq hmsg hp he =>
    obtain ⟨-, hleft⟩ := h.state.resolve_left (by rw [hp]; exact nofun)
    rw [hq, pending_cons, hmsg] at hleft
    have hsig : sig = Signal.ko.value := (List.cons.inj (hleft.trans hko)).1
    have heq : constructWith { s with toParent := rest } sig
        = ({ s with toParent := rest, parent := .gone }, [.threw s.eptr]) := by
      unfold constructWith
      rw [hsig, if_pos (Or.inr rfl), if_pos rfl]
    obtain ⟨rfl, rfl⟩ := Prod.mk.inj (heq.symm.trans he)
    have hthrew : ∀ ev ∈ [Event.threw s.eptr], ev.Unconstructed :=
      List.forall_mem_singleton.mpr trivial
    exact ⟨⟨List.forall_mem_append.mpr ⟨h.events, hthrew⟩, Or.inl rfl⟩, rfl⟩
  | stopped msg rest sig x a t e hq hmsg hp ha he =>
    rcases h.state with hgone | ⟨hgone, -⟩ <;> rw [hp] at hgone <;> cases hgone

theorem step_doomed {routine : List Act} {left : List Int64}
    (hko : signalsOf routine = Signal.ko.value :: left)
    (h : ∀ rest, acts tr ++ rest = routine → Doomed routine s tr (signalsOf rest)) {l : Label}
    (hs : step s l = some (t, e)) (rest : List Act) (hrest : acts (tr ++ e) ++ rest = routine) :
    Doomed routine t (tr ++ e) (signalsOf rest) := by
  rw [acts_append, List.append_assoc] at hrest
  have hd := h _ hrest
  have hidle : s.parent ≠ .idle := by
    intro hp
    rcases hd.state with h | ⟨h, -⟩ <;> rw [hp] at h <;> cases h
  cases l with
  | child a =>
    obtain ⟨hchild, rfl⟩ := step_child hs
    obtain ⟨hpending, hparent, -⟩ := childStep_eq hchild
    have hacted : ∀ ev ∈ [Event.acted a], ev.Unconstructed :=
      List.forall_mem_singleton.mpr trivial
    refine ⟨List.forall_mem_append.mpr ⟨hd.events, hacted⟩, ?_⟩
    rw [hparent, hpending, List.append_assoc]
    exact hd.state
  | wait =>
    obtain ⟨hwait, hnone⟩ := hd.wait hko hs
    rw [hnone] at hwait
    exact hwait
  | stop x block sent | send x msg | receive x | move this o =>
    unfold step at hs
    dsimp only at hs
    split at hs
    · exact absurd (by assumption) hidle
    · cases hs

end

/-! ## the end of the constructor's wait -/

theorem constructWith_events (s : State) (queue : List (List Bytes)) (sig : Int64) :
    (constructWith { s with toParent := queue } sig).2 = (constructWith s sig).2 := by
  unfold constructWith
  by_cases hsig : sig = Signal.ok.value ∨ sig = Signal.ko.value
  · rw [if_pos hsig, if_pos hsig]
    by_cases hko : sig = Signal.ko.value
    · rw [if_pos hko, if_pos hko]
    · rw [if_neg hko, if_neg hko]
  · rw [if_neg hsig, if_neg hsig]

/-- the wait goes through the queue up to its first signal -/
theorem waits_end {s : State} {queue : List (List Bytes)} (hq : s.toParent = queue)
    (hp : s.parent = .constructing) {sig : Int64} {left : List Int64}
    (hpending : pending queue = sig :: left) :
    ∃ n t, machine.exec s (List.replicate n .wait) = some (t, (constructWith s sig).2) := by
  have hstep : machine.step s .wait = waitStep s := rfl
  induction queue generalizing s with
  | nil => cases hpending
  | cons msg rest ih =>
    unfold waitStep at hstep
    rw [hq, hp] at hstep
    dsimp only at hstep
    rw [pending_cons] at hpending
    cases hmsg : signalOf msg with
    | none =>
      rw [hmsg] at hpending hstep
      obtain ⟨n, t, hexec⟩ := ih (s := { s with toParent := rest }) rfl hp hpending rfl
      rw [constructWith_events] at hexec
      rw [← hp] at hstep
      exact ⟨n + 1, t, Lib.Machine.exec_cons_of hstep hexec⟩
    | some sig' =>
      rw [hmsg] at hpending hstep
      obtain rfl : sig' = sig := (List.cons.inj hpending).1
      rw [← hp] at hstep
      refine ⟨1, (constructWith { s with toParent := rest } sig').1, ?_⟩
      rw [← constructWith_events s rest sig', ← List.append_nil (constructWith _ _).2]
      exact Lib.Machine.exec_cons_of hstep rfl

/-- once the child has sent a signal, the wait of the constructor comes to an end -/
def ConstructorEnds (s : State) (tr : List Event) (ends : Event → Prop) : Prop :=
  s.parent = .constructing → signalsOf (acts tr) ≠ [] →
    ∃ n t ev, machine.exec s (List.replicate n .wait) = some (t, [ev]) ∧ ends ev

/-- while the constructor waits, the signals of the queue are all those sent so far -/
theorem pending_eq {routine rest : List Act} {s : State} {tr : List Event}
    (hrest : acts tr ++ rest = routine)
    (h : pending s.toParent ++ signalsOf rest = signalsOf routine) :
    pending s.toParent = signalsOf (acts tr) := by
  rw [← hrest, signalsOf_append] at h
  exact List.append_cancel_right h

/-- the first signal decides how the constructor ends -/
theorem constructorEnds {routine rest : List Act} {s : State} {tr : List Event} {sig : Int64}
    {left : List Int64} {ends : Event → Prop} (hrest : acts tr ++ rest = routine)
    (hroutine : signalsOf routine = sig :: left)
    (h : s.parent = .constructing → pending s.toParent ++ signalsOf rest = signalsOf routine)
    (hends : ∃ ev, (constructWith s sig).2 = [ev] ∧ ends ev) : ConstructorEnds s tr ends := by
  intro hp hsent
  have hpending := pending_eq hrest (h hp)
  obtain ⟨sig', left', hcons⟩ := List.exists_cons_of_ne_nil hsent
  have hfirst : sig' = sig := by
    have hall := h hp
    rw [hpending, hcons, hroutine] at hall
    exact (List.cons.inj hall).1
  obtain ⟨ev, hev, hend⟩ := hends
  obtain ⟨n, t, hexec⟩ := waits_end rfl hp (hpending.trans hcons)
  rw [hfirst, hev] at hexec
  exact ⟨n, t, ev, hexec, hend⟩

/-- **The stop protocol.**  Whatever the interleaving: with an orderly routine that comes out as
`b` the constructor returns, and `stop` returns what the protocol says; with a routine that starts
by failing the constructor throws. -/
theorem stop_protocol (routine : List Act) (ls : List Label) (s : State) (es : List Event)
    (hr : machine.exec {} ls = some (s, es)) (hacts : acts es <+: routine)
    (hrecv : machine.Along ReceivesNoSignal {} ls) :
    (∀ b, Orderly b routine →
      Lib.EachAfter (Protocol b) es ∧ ConstructorEnds s es fun ev => ev = .constructed) ∧
    (Failing routine →
      (∀ ev ∈ es, ev.Unconstructed) ∧
        ConstructorEnds s es fun ev => ∃ nested, ev = .threw nested) := by
  obtain ⟨rest, hrest⟩ := hacts
  refine ⟨?_, ?_⟩
  · intro b horderly
    have hsignals := horderly.signals
    have hinit : ∀ rest, acts [] ++ rest = routine → Sound b {} [] (signalsOf rest) := by
      intro rest hall
      obtain rfl : rest = routine := hall
      exact sound_init hsignals
    have hsound := Lib.Machine.exec_inv
      (fun s tr => ∀ rest, acts tr ++ rest = routine → Sound b s tr (signalsOf rest))
      (fun s tr l t e h hok hs => step_sound h hok hs) [] hinit hrecv hr rest hrest
    rw [List.nil_append] at hsound
    refine ⟨hsound.protocol, constructorEnds hrest hsignals ?_ ⟨.constructed, ?_, rfl⟩⟩
    · intro hp
      have hinv := hsound.inv
      unfold Inv at hinv
      rw [hp] at hinv
      rw [hinv.2.2, hsignals]
    · unfold constructWith
      rw [if_pos (Or.inl rfl), if_neg Signal.ok_ne_ko]
  · intro hfailing
    obtain ⟨left, hsignals⟩ := hfailing.signals
    have hinit : ∀ rest, acts [] ++ rest = routine → Doomed routine {} [] (signalsOf rest) := by
      intro rest hall
      obtain rfl : rest = routine := hall
      exact ⟨nofun, Or.inr ⟨rfl, rfl⟩⟩
    have hdoomed := Lib.Machine.exec_always
      (fun s tr => ∀ rest, acts tr ++ rest = routine → Doomed routine s tr (signalsOf rest))
      (fun s tr l t e h hs => step_doomed hsignals h hs) [] hinit hr rest hrest
    rw [List.nil_append] at hdoomed
    refine ⟨hdoomed.events, constructorEnds hrest hsignals ?_ ⟨.threw s.eptr, ?_, s.eptr, rfl⟩⟩
    · intro hp
      rcases hdoomed.state with hgone | hleft
      · rw [hp] at hgone
        cases hgone
      · exact hleft.2
    · unfold constructWith
      rw [if_pos (Or.inr rfl), if_pos rfl]

/-- a routine that sends `signal::ok` and a message and throws -/
def throwing : List Act := [.send Signal.ok.frames, .send [ascii "boap1"], .throw]

/-- the actor is stopped, moved and stopped again; the message is received in between -/
def stopMoved : List Label :=
  throwing.map .child ++ [.wait, .stop 0 false true, .receive 0, .move 1 0, .stop 1 true false,
    .wait, .stop 0 true true, .move 2 1, .stop 2 true false]

theorem stop_protocol_moved :
    ∃ s es, machine.exec {} stopMoved = some (s, es) ∧ acts es = throwing ∧
      Lib.EachAfter (Protocol false) es := by
  refine ⟨_, _, rfl, rfl, ?_⟩
  have horderly : Orderly false throwing :=
    ⟨[], [.send [ascii "boap1"]], .throw, rfl, nofun, by decide, Or.inr ⟨rfl, rfl⟩⟩
  refine ((stop_protocol throwing stopMoved _ _ rfl ⟨[], rfl⟩ ?_).1 false horderly).1
  decide

end Stop
end Actor
end Zmqpp
