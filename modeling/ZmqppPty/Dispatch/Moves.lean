import Mathlib.Logic.Relation
import ZmqppPty.Dispatch.Deferred
import ZmqppPty.Dispatch.Reactor
import ZmqppPty.Dispatch.Run

/-!
# What a reactor and a loop do to the registry they share

A step of either machine is a chain of moves on the registry, the socket objects and the point
whether a dispatch is running.

* `View`, `Move`, `Moves`      what the machines share, and what can be done to it;
* `Dispatcher`                 a machine whose steps are chains of moves;
* `Dispatcher.keeps`           what every move keeps, every run of such a machine keeps;
* `Reactor.dispatcher`, `Run.dispatcher`   the two machines;
* `View.Marked`                while a dispatch is running `dispatching_` is set;
* `Tidy`                       no key is registered twice, and the poller polls the registered ones.
-/

namespace Zmqpp
namespace Registry

structure View where
  registry : Registry
  sockets : Sockets
  /-- a dispatch is running -/
  inside : Bool

/-- one move; `fresh` says of an addition that its key is not registered -/
inductive Move (fresh : Prop) (v : View) : View → Prop
  | add (x : Target) (callable : ℕ) (event : Short)
      (hnew : fresh → (x.item v.sockets event).key ∉ v.registry.registered) :
      Move fresh v { v with registry := v.registry.add v.sockets x callable event }
  | remove (x : Target) :
      Move fresh v { v with registry := (Registry.remove v.sockets v.registry x).1 }
  | checkFor (x : Target) (event : Short) :
      Move fresh v { v with registry := (Registry.checkFor v.sockets v.registry x event).1 }
  | moved (r : SocketRef) (h : Option Handle) :
      Move fresh v { v with sockets := Function.update v.sockets r h }
  | poll (zmqPoll : ZmqPoll) :
      Move fresh v
        { v with registry := { v.registry with poller := (v.registry.poller.poll zmqPoll).1 } }
  | flush (h : v.inside = false) :
      Move fresh v { v with registry := (Registry.flushRemoveLater v.sockets v.registry).1 }
  | begins : Move fresh v { v with registry := v.registry.setDispatching true, inside := true }
  | ends : Move fresh v { v with registry := v.registry.setDispatching false, inside := false }
  /-- an exception leaves the dispatch -/
  | leaves : Move fresh v { v with inside := false }

def Moves (fresh : Prop) : View → View → Prop := Relation.ReflTransGen (Move fresh)

namespace Moves
variable {fresh : Prop} {v v' v'' : View}

theorem refl : Moves fresh v v := Relation.ReflTransGen.refl

theorem of_eq (h : v = v') : Moves fresh v v' := h ▸ refl

theorem one (h : Move fresh v v') : Moves fresh v v' := Relation.ReflTransGen.single h

theorem andThen (h : Moves fresh v v') (h' : Move fresh v' v'') : Moves fresh v v'' :=
  Relation.ReflTransGen.tail h h'

/-- what every move keeps -/
theorem keep (P : View → Prop) (hmove : ∀ v v', Move fresh v v' → P v → P v')
    (h : Moves fresh v v') (hv : P v) : P v' := by
  induction h with
  | refl => exact hv
  | tail _ hlast ih => exact hmove _ _ hlast ih

end Moves

/-- a machine that shows a registry, and whose steps are chains of moves on it -/
structure Dispatcher {σ ℓ ε : Type} (M : Lib.Machine σ ℓ ε) where
  view : σ → View
  /-- the step adds no key that is registered -/
  fresh : σ → ℓ → Prop
  moves : ∀ {s t l e}, M.step s l = some (t, e) → Moves (fresh s l) (view s) (view t)

namespace Dispatcher
variable {σ ℓ ε : Type} {M : Lib.Machine σ ℓ ε} (d : Dispatcher M)

theorem keeps_step (P : View → Prop) (hmove : ∀ (f : Prop) (v v'), Move f v v' → P v → P v')
    {s t : σ} {l : ℓ} {e : List ε} (h : M.step s l = some (t, e)) (hs : P (d.view s)) :
    P (d.view t) :=
  (d.moves h).keep P (hmove _) hs

/-- **What every move keeps, every run keeps.** -/
theorem keeps (P : View → Prop) (hmove : ∀ (f : Prop) (v v'), Move f v v' → P v → P v')
    {s t : σ} {ls : List ℓ} {es : List ε} (hs : P (d.view s)) (hr : M.exec s ls = some (t, es)) :
    P (d.view t) :=
  Lib.Machine.exec_always (fun s _ => P (d.view s))
    (fun _ _ _ _ _ hs h => d.keeps_step P hmove h hs) [] hs hr

/-- what every move keeps that adds no registered key, every run keeps that adds none -/
theorem keeps_fresh (P : View → Prop) (hmove : ∀ (f : Prop) (v v'), f → Move f v v' → P v → P v')
    {s t : σ} {ls : List ℓ} {es : List ε} (hs : P (d.view s)) (hf : M.Along d.fresh s ls)
    (hr : M.exec s ls = some (t, es)) : P (d.view t) :=
  Lib.Machine.exec_state (fun s => P (d.view s))
    (fun _ _ _ _ hs hf h => (d.moves h).keep P (fun v v' => hmove _ v v' hf) hs) hs hf hr

end Dispatcher

/-! ## while a dispatch is running -/

theorem remove_dispatching {sockets : Sockets} {r : Registry} (h : r.dispatching = true)
    (x : Target) : (r.remove sockets x).1 = r.removeLater x := by
  unfold remove
  rw [h]
  rfl

theorem removeLater_fixed (r : Registry) (x : Target) :
    (r.removeLater x).items = r.items ∧ (r.removeLater x).dispatching = r.dispatching := by
  cases x <;> exact ⟨rfl, rfl⟩

/-- inside a dispatch `dispatching_` is set -/
def View.Marked (v : View) : Prop := v.inside = true → v.registry.dispatching = true

theorem Move.marked {f : Prop} {v v' : View} (h : Move f v v') (hv : v.Marked) : v'.Marked := by
  intro hin
  cases h with
  | add x callable event hnew => exact hv hin
  | remove x =>
    have hd := hv hin
    show (Registry.remove v.sockets v.registry x).1.dispatching = true
    rw [remove_dispatching hd, (removeLater_fixed v.registry x).2]
    exact hd
  | checkFor x event =>
    obtain ⟨p, hp⟩ := Reactor.checkFor_poller v.sockets v.registry x event
    show (Registry.checkFor v.sockets v.registry x event).1.dispatching = true
    rw [hp]
    exact hv hin
  | moved r h => exact hv hin
  | poll zmqPoll => exact hv hin
  | flush hout => exact Bool.noConfusion (hin.symm.trans hout)
  | begins => rfl
  | ends => cases hin
  | leaves => cases hin

theorem Dispatcher.step_marked {σ ℓ ε : Type} {M : Lib.Machine σ ℓ ε} (d : Dispatcher M) {s t : σ}
    {l : ℓ} {e : List ε} (h : M.step s l = some (t, e)) (hs : (d.view s).Marked) :
    (d.view t).Marked :=
  d.keeps_step View.Marked (fun _ _ _ hmove => hmove.marked) h hs

theorem Dispatcher.marked_of_exec {σ ℓ ε : Type} {M : Lib.Machine σ ℓ ε} (d : Dispatcher M)
    {s t : σ} {ls : List ℓ} {es : List ε} (hs : (d.view s).inside = false)
    (hr : M.exec s ls = some (t, es)) : (d.view t).Marked :=
  d.keeps View.Marked (fun _ _ _ hmove => hmove.marked)
    (fun h => Bool.noConfusion (h.symm.trans hs)) hr

/-! ## no key is registered twice -/

/-- no key is registered twice, and the poller has an item for each that is, and no others -/
structure Tidy (r : Registry) : Prop where
  nodup : r.registered.Nodup
  polled : ∃ m, Polled r m

theorem tidy_init : Tidy {} :=
  ⟨List.nodup_nil, fun _ => none, Poller.Represents.init, fun _ => by simp [registered]⟩

theorem mem_registered_add (r : Registry) (sockets : Sockets) (x : Target) (callable : ℕ)
    (event : Short) : (r.add sockets x callable event).registered
      = r.registered ++ [(x.item sockets event).key] :=
  List.map_append

namespace Tidy
variable {r : Registry}

/-- `items_` and the poller are as before -/
theorem of_same (h : r.Tidy) {r' : Registry} (hi : r'.items = r.items)
    (hp : r'.poller = r.poller) : r'.Tidy := by
  obtain ⟨hn, m, hm⟩ := h
  refine ⟨?_, m, ?_⟩
  · unfold registered
    rw [hi]
    exact hn
  · unfold Polled registered
    rw [hp, hi]
    exact hm

/-- another poller of the same keys -/
theorem of_poller (h : r.Tidy) {p : Poller}
    (hp : ∀ m, Poller.Represents r.poller m →
      ∃ m', Poller.Represents p m' ∧ ∀ k, m' k = none ↔ m k = none) :
    Tidy { r with poller := p } := by
  obtain ⟨hn, m, hm, hkeys⟩ := h
  obtain ⟨m', hm', hsame⟩ := hp m hm
  exact ⟨hn, m', hm', fun k => (hsame k).trans (hkeys k)⟩

theorem add (h : r.Tidy) (sockets : Sockets) (x : Target) (callable : ℕ) (event : Short)
    (hk : (x.item sockets event).key ∉ r.registered) : (r.add sockets x callable event).Tidy := by
  obtain ⟨hn, m, hm⟩ := h
  refine ⟨?_, _, polled_add_item hm sockets x hk callable⟩
  rw [mem_registered_add, List.nodup_append]
  refine ⟨hn, List.nodup_singleton _, ?_⟩
  intro a ha b hb
  rw [List.mem_singleton.mp hb]
  rintro rfl
  exact hk ha

theorem eraseKey (h : r.Tidy) (k : Key) : (r.eraseKey k).1.Tidy := by
  obtain ⟨hn, m, hm⟩ := h
  exact ⟨hn.sublist (List.filter_sublist.map _), _, (polled_eraseKey hm k).2⟩

theorem remove (h : r.Tidy) (sockets : Sockets) (x : Target) :
    (Registry.remove sockets r x).1.Tidy := by
  unfold Registry.remove
  split
  · exact h.of_same (removeLater_fixed r x).1 (removeLater_rest r x).1
  · cases x.key sockets with
    | none => exact h
    | some k => exact h.eraseKey k

theorem checkFor (h : r.Tidy) (sockets : Sockets) (x : Target) (event : Short) :
    (Registry.checkFor sockets r x event).1.Tidy := by
  unfold Registry.checkFor
  cases x.key sockets with
  | none => exact h
  | some k =>
    refine h.of_poller fun m hm => ⟨_, hm.checkForKey k event, fun k' => ?_⟩
    rw [Function.update_apply]
    split
    · rename_i hk
      rw [hk, Option.map_eq_none_iff]
    · exact Iff.rfl

theorem poll (h : r.Tidy) (zmqPoll : ZmqPoll) :
    Tidy { r with poller := (r.poller.poll zmqPoll).1 } :=
  h.of_poller fun _ hm => ⟨_, hm.poll zmqPoll, fun _ => Option.map_eq_none_iff⟩

theorem flushRemoveLater (h : r.Tidy) (sockets : Sockets) :
    (Registry.flushRemoveLater sockets r).1.Tidy :=
  flushRemoveLater_state Tidy (fun _ x ht => ht.remove sockets x) (fun _ ht => ht.of_same rfl rfl) h

/-- the poller has no item of a key that is not registered -/
theorem copies_eq_zero (h : r.Tidy) {k : Key} (hk : k ∉ r.registered) : r.poller.copies k = 0 := by
  obtain ⟨hn, m, hm⟩ := h
  rw [copies_of_polled hm hn, List.count_eq_zero]
  exact hk

end Tidy

theorem Move.tidy {f : Prop} {v v' : View} (hf : f) (h : Move f v v') (hv : v.registry.Tidy) :
    v'.registry.Tidy := by
  cases h with
  | add x callable event hnew => exact hv.add v.sockets x callable event (hnew hf)
  | remove x => exact hv.remove v.sockets x
  | checkFor x event => exact hv.checkFor v.sockets x event
  | moved r h => exact hv
  | poll zmqPoll => exact hv.poll zmqPoll
  | flush hout => exact hv.flushRemoveLater v.sockets
  | begins => exact hv.of_same rfl rfl
  | ends => exact hv.of_same rfl rfl
  | leaves => exact hv

end Registry

open Registry (Move Moves)

/-! ## the two machines -/

namespace Reactor

/-- in the range-for over `items_`, or in one of its handlers -/
def Pc.ranging : Pc → Bool
  | .outside => false
  | .items _ _ | .item _ _ => true

def view (s : State) : Registry.View := ⟨s.registry, s.sockets, s.pc.ranging⟩

/-- the step adds no key that is registered -/
def AddsNew (s : State) : Label → Prop
  | .call (.add x event) => (x.item s.sockets event).key ∉ s.registry.registered
  | _ => True

instance (s : State) : DecidablePred (AddsNew s)
  | .call (.add x event) =>
    inferInstanceAs (Decidable ((x.item s.sockets event).key ∉ s.registry.registered))
  | .call (.remove _) | .call (.checkFor _ _) | .moved _ _ | .poll _ | .test | .ret | .throw =>
    isTrue trivial

theorem view_of_pc {s : State} {pc : Pc} (h : pc.ranging = s.pc.ranging) :
    view { s with pc := pc } = view s := by
  unfold view
  dsimp only
  rw [h]

theorem moves_of_poll (s : State) (f : Prop) (zmqPoll : ZmqPoll) :
    Moves f (view s) (view (poll s zmqPoll)) := by
  have hpoll : Moves f (view s) _ := Moves.one (Move.poll zmqPoll)
  dsimp only [view] at hpoll
  unfold poll
  cases hp : s.registry.poller.poll zmqPoll with
  | mk p res =>
    rw [hp] at hpoll
    cases res with
    | error x => exact hpoll
    | ok b =>
      cases b with
      | false => exact hpoll
      | true => exact hpoll.andThen Move.begins

theorem step_moves {s t : State} {l : Label} {e : List ℕ} (h : step s l = some (t, e)) :
    Moves (AddsNew s l) (view s) (view t) := by
  cases l with
  | call c =>
    obtain ⟨-, rfl, -⟩ := call_of_step h
    cases c with
    | add x event => exact Moves.one (Move.add x s.next event id)
    | remove x => exact Moves.one (Move.remove x)
    | checkFor x event => exact Moves.one (Move.checkFor x event)
  | poll zmqPoll =>
    obtain ⟨-, rfl, -⟩ := poll_of_step h
    exact moves_of_poll s _ zmqPoll
  | moved r p =>
    cases step_cases h with
    | moved _ _ hu => exact Moves.one (Move.moved r p)
  | test =>
    cases step_cases h with
    | handle i n item c hpc hi hit hready =>
      exact Moves.of_eq (view_of_pc (by rw [hpc]; rfl)).symm
    | skip i n item c hpc hi hit hready =>
      exact Moves.of_eq (view_of_pc (by rw [hpc]; rfl)).symm
    | testThrows i n item c x hpc hi hit hready => exact Moves.one Move.leaves
    | finish i n hpc hi => exact (Moves.one Move.ends).andThen (Move.flush rfl)
  | ret =>
    cases step_cases h with
    | ret i n hpc => exact Moves.of_eq (view_of_pc (by rw [hpc]; rfl)).symm
  | throw =>
    cases step_cases h with
    | throw i n hpc => exact Moves.one Move.leaves

/-- a reactor is a machine of moves -/
def dispatcher : Registry.Dispatcher machine := ⟨view, AddsNew, step_moves⟩

end Reactor

namespace Run

/-- in a dispatch, of timers or of registrations -/
def Pc.dispatches : Pc → Bool
  | .outside | .head => false
  | _ => true

def view (s : State) : Registry.View := ⟨s.loop.toRegistry, s.sockets, s.pc.dispatches⟩

/-- the step adds no key that is registered -/
def AddsNew (s : State) : Label → Prop
  | .call (.add x event) => (x.item s.sockets event).key ∉ s.loop.registered
  | _ => True

instance (s : State) : DecidablePred (AddsNew s)
  | .call (.add x event) =>
    inferInstanceAs (Decidable ((x.item s.sockets event).key ∉ s.loop.registered))
  | .call (.remove _) | .call (.addTimer _ _ _ _) | .call (.reset _ _) | .call (.removeTimer _)
  | .moved _ _ | .start | .iterate _ _ _ _ | .test | .ret _ | .throw => isTrue trivial

theorem reset_toRegistry (l : Loop) (now : ℤ) (id : TimerId) :
    (l.reset now id).toRegistry = l.toRegistry := by
  unfold Loop.reset
  split <;> rfl

theorem removeTimer_rest (l : Loop) (id : TimerId) :
    (l.removeTimer id).toRegistry = l.toRegistry := by
  unfold Loop.removeTimer
  split <;> rfl

theorem timerReturned_toRegistry (l : Loop) (u : Timer) :
    (l.timerReturned u).toRegistry = l.toRegistry := by
  unfold Loop.timerReturned
  split <;> rfl

/-- the registry, the socket objects and whether a dispatch is running are as before -/
theorem view_eq {s t : State} (hl : t.loop.toRegistry = s.loop.toRegistry)
    (hs : t.sockets = s.sockets) (hpc : t.pc.dispatches = s.pc.dispatches) : view s = view t := by
  unfold view
  rw [hl, hs, hpc]

theorem moves_of_call {s t : State} {c : Api} {e : List Event} (h : Step s (.call c) t e) :
    Moves (AddsNew s (.call c)) (view s) (view t) := by
  cases h with
  | add x event hu => exact Moves.one (Move.add x s.next event id)
  | remove x hu => exact Moves.one (Move.remove x)
  | addTimer delay times id now hu hclock hid => exact Moves.refl
  | reset id now hu hclock =>
    exact Moves.of_eq (view_eq (reset_toRegistry s.loop now id) rfl rfl)
  | removeTimer id hu => exact Moves.of_eq (view_eq (removeTimer_rest s.loop id) rfl rfl)

/-- the flush at the head, `zmq_poll` and the start of the dispatch -/
theorem moves_of_iterate {s : State} (hpc : s.pc = .head) (f : Prop) (now now' passNow : ℤ)
    (zmqPoll : ZmqPoll) : Moves f (view s) (view (iterate s now now' passNow zmqPoll).1) := by
  have hout : (view s).inside = false := by
    unfold view
    rw [hpc]
    rfl
  have hflush : Moves f (view s) _ := Moves.one (Move.flush hout)
  have hreg := (Loop.flushRemoveLater_toRegistry s.sockets
    { s.loop with rebuildPoller := false }).1
  dsimp only [view] at hflush
  change (Loop.flushRemoveLater _ _).1.toRegistry
    = (Registry.flushRemoveLater s.sockets s.loop.toRegistry).1 at hreg
  rw [← hreg, hpc] at hflush
  unfold iterate view
  rw [hpc]
  cases hl : Loop.flushRemoveLater s.sockets { s.loop with rebuildPoller := false } with
  | mk l res =>
    rw [hl] at hflush
    cases res with
    | error x => exact hflush
    | ok u =>
      have hpoll := hflush.andThen (Move.poll zmqPoll)
      dsimp only at hpoll ⊢
      cases hp : l.poller.poll zmqPoll with
      | mk p pres =>
        rw [hp] at hpoll
        cases pres with
        | error x => exact hpoll
        | ok rc => exact hpoll.andThen Move.begins

theorem moves_of_finish (s : State) (f : Prop) : Moves f (view s) (view (finish s)) := by
  have hflush : Moves f (view s) _ := (Moves.one Move.ends).andThen (Move.flush rfl)
  dsimp only [view] at hflush
  unfold finish view
  rw [(Loop.flushRemoveLater_toRegistry s.sockets (s.loop.setDispatching false)).1]
  exact hflush

theorem moves_of_timersDone (s : State) (f : Prop) (rc : Bool) :
    Moves f (view s) (view (timersDone s rc)) := by
  have hends : Moves f (view s) _ := Moves.one Move.ends
  unfold timersDone
  dsimp only
  split
  · exact hends
  · split
    · exact hends.andThen Move.begins
    · exact hends

theorem step_moves {s t : State} {l : Label} {e : List Event} (h : step s l = some (t, e)) :
    Moves (AddsNew s l) (view s) (view t) := by
  cases l with
  | call c => exact moves_of_call (step_cases h)
  | iterate now now' passNow zmqPoll =>
    obtain ⟨hpc, -, hnext⟩ := iterate_of_step h
    have hmoves := moves_of_iterate hpc (AddsNew s (.iterate now now' passNow zmqPoll)) now now'
      passNow zmqPoll
    rw [hnext] at hmoves
    exact hmoves
  | moved r p =>
    cases step_cases h with
    | moved _ _ hu => exact Moves.one (Move.moved r p)
  | start =>
    cases step_cases h with
    | start hpc => exact Moves.of_eq (view_eq rfl rfl (by rw [hpc]; rfl))
  | test =>
    cases step_cases h with
    | timersDone now it rc hpc => exact moves_of_timersDone s _ rc
    | itemsDone i n hpc => exact Moves.one Move.ends
    | testThrows i n item c x hpc hi hit hready => exact Moves.one Move.leaves
    | fire now c rc tm hpc hmem hc hdue =>
      exact Moves.of_eq (view_eq rfl rfl (by rw [hpc]; rfl))
    | handle i n item c hpc hi hit hready =>
      exact Moves.of_eq (view_eq rfl rfl (by rw [hpc]; rfl))
    | skip i n item c hpc hi hit hready =>
      exact Moves.of_eq (view_eq rfl rfl (by rw [hpc]; rfl))
  | ret b =>
    cases step_cases h with
    | timerTrue now c rc tm hpc hmem hc =>
      exact Moves.of_eq (view_eq (timerReturned_toRegistry s.loop tm) rfl (by rw [hpc]; rfl))
    | timerFalse now c rc tm hpc hmem hc =>
      have hview : view s = view { s with loop := s.loop.timerReturned tm } :=
        view_eq (timerReturned_toRegistry s.loop tm) rfl rfl
      rw [hview]
      exact moves_of_finish { s with loop := s.loop.timerReturned tm } _
    | itemTrue i n hpc => exact Moves.of_eq (view_eq rfl rfl (by rw [hpc]; rfl))
    | itemFalse i n hpc => exact moves_of_finish s _
  | throw =>
    cases step_cases h with
    | throw hu hpc => exact Moves.one Move.leaves

/-- a loop is a machine of moves -/
def dispatcher : Registry.Dispatcher machine := ⟨view, AddsNew, step_moves⟩

end Run
end Zmqpp
