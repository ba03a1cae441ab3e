import ZmqppPty.Dispatch.Moves

/-!
# `items_` under the range-for

Removals wait for the end of a dispatch; additions do not.

* `Pc.ranging`, `Stays`     in the range-for over `items_`, or in one of its handlers;
* `step_items`              a step that stays there leaves `items_` alone iff it is no `add`;
* `items_stable`            so does a run of any such machine;
* `items_stable_iff`        and so it is in a reactor and in a loop.
-/

namespace Zmqpp

theorem Registry.add_items_ne (r : Registry) (sockets : Sockets) (x : Target) (callable : ℕ)
    (event : Short) : (r.add sockets x callable event).items ≠ r.items := by
  intro h
  have hlen := congrArg List.length h
  unfold Registry.add at hlen
  rw [List.length_append, List.length_singleton] at hlen
  omega

/-- **`items_` over the steps of a range-for**, in any machine whose steps in it change `items_` iff
they are additions -/
theorem Registry.Dispatcher.items_stable {σ ℓ ε : Type} {M : Lib.Machine σ ℓ ε}
    (d : Registry.Dispatcher M) {ranging : σ → Prop} {isAdd : ℓ → Prop}
    (hstep : ∀ {s t l e}, M.step s l = some (t, e) → (d.view s).Marked → ranging s → ranging t →
      ((d.view t).registry.items = (d.view s).registry.items ↔ ¬ isAdd l))
    {s u : σ} {ls : List ℓ} {es : List ε} (hm : (d.view s).Marked) (hs : ranging s)
    (hr : M.exec s ls = some (u, es)) (hstay : M.Along (M.LeadsTo ranging) s ls) :
    M.Throughout (fun t _ => (d.view t).registry.items = (d.view s).registry.items) s ls ↔
      ∀ l ∈ ls, ¬ isAdd l := by
  rw [← Lib.Machine.along_labels hr]
  refine Lib.Machine.throughout_iff_along (fun t _ => (d.view t).Marked ∧ ranging t)
    (fun t _ => (d.view t).registry.items = (d.view s).registry.items) ?_ ?_ [] ⟨hm, hs⟩ rfl hstay
    hr
  · intro t _ l v e ht hok h
    exact ⟨d.step_marked h ht.1, hok v e h⟩
  · intro t _ l v e ht hitems hok h
    rw [← hitems]
    exact hstep h ht.1 ht.2 (hok v e h)

namespace Reactor

/-- the step does not leave the range-for -/
def Stays : State → Label → Prop := machine.LeadsTo fun t => t.pc.ranging = true

instance (s : State) : DecidablePred (Stays s) := fun l =>
  inferInstanceAs (Decidable (machine.LeadsTo (fun t => t.pc.ranging = true) s l))

def Label.isAdd : Label → Prop
  | .call (.add _ _) => True
  | _ => False

/-- **Of all that a handler may do, an addition alone changes `items_`.** -/
theorem step_items {s t : State} {l : Label} {e : List ℕ} (h : Step s l t e) (hm : (view s).Marked)
    (hs : s.pc.ranging = true) (ht : t.pc.ranging = true) :
    t.registry.items = s.registry.items ↔ ¬ l.isAdd := by
  cases h with
  | add x event hu =>
    exact iff_of_false (s.registry.add_items_ne s.sockets x s.next event) (fun h => h trivial)
  | remove x hu =>
    have hd : s.registry.dispatching = true := hm hs
    refine iff_of_true ?_ not_false
    show (Registry.remove s.sockets s.registry x).1.items = s.registry.items
    rw [Registry.remove_dispatching hd]
    exact (Registry.removeLater_fixed s.registry x).1
  | poll zmqPoll hpc hpos =>
    rw [hpc] at hs
    cases hs
  | testThrows i n item c x hpc hi hit hready => cases ht
  | finish i n hpc hi => cases ht
  | throw i n hpc => cases ht
  | _ => exact iff_of_true rfl not_false

theorem reactor_items_stable {sockets : Sockets} {ls ls' : List Label} {s u : State}
    {tr tr' : List ℕ} (hr : machine.exec { sockets := sockets } ls = some (s, tr))
    (hs : s.pc.ranging = true) (hr' : machine.exec s ls' = some (u, tr'))
    (hstay : machine.Along Stays s ls') :
    machine.Throughout (fun t _ => t.registry.items = s.registry.items) s ls' ↔
      ∀ l ∈ ls', ¬ l.isAdd :=
  dispatcher.items_stable (fun h hm hs ht => step_items (step_cases h) hm hs ht)
    (dispatcher.marked_of_exec rfl hr) hs hr' hstay

end Reactor

namespace Run

def Pc.ranging : Pc → Bool
  | .items _ _ | .item _ _ => true
  | _ => false

/-- the step does not leave the range-for -/
def Stays : State → Label → Prop := machine.LeadsTo fun t => t.pc.ranging = true

instance (s : State) : DecidablePred (Stays s) := fun l =>
  inferInstanceAs (Decidable (machine.LeadsTo (fun t => t.pc.ranging = true) s l))

def Label.isAdd : Label → Prop
  | .call (.add _ _) => True
  | _ => False

theorem dispatches_of_ranging {pc : Pc} (h : pc.ranging = true) : pc.dispatches = true := by
  cases pc with
  | items i n => rfl
  | item i n => rfl
  | _ => cases h

theorem step_items {s t : State} {l : Label} {e : List Event} (h : Step s l t e)
    (hm : (view s).Marked) (hs : s.pc.ranging = true) (ht : t.pc.ranging = true) :
    t.loop.items = s.loop.items ↔ ¬ l.isAdd := by
  have hd : s.loop.dispatching = true := hm (dispatches_of_ranging hs)
  cases h with
  | add x event hu =>
    exact iff_of_false (s.loop.toRegistry.add_items_ne s.sockets x s.next event)
      (fun h => h trivial)
  | remove x hu =>
    refine iff_of_true ?_ not_false
    show (Registry.remove s.sockets s.loop.toRegistry x).1.items = s.loop.items
    rw [Registry.remove_dispatching hd]
    exact (Registry.removeLater_fixed s.loop.toRegistry x).1
  | reset id now hu hclock =>
    exact iff_of_true (congrArg Registry.items (reset_toRegistry s.loop now id)) not_false
  | removeTimer id hu =>
    exact iff_of_true (congrArg Registry.items (removeTimer_rest s.loop id)) not_false
  | addTimer delay times id now hu hclock hid => exact iff_of_true rfl not_false
  | moved r p hu => exact iff_of_true rfl not_false
  | handle i n item c hpc hi hit hready => exact iff_of_true rfl not_false
  | skip i n item c hpc hi hit hready => exact iff_of_true rfl not_false
  | itemTrue i n hpc => exact iff_of_true rfl not_false
  | testThrows i n item c x hpc hi hit hready => cases ht
  | itemsDone i n hpc => cases ht
  | itemFalse i n hpc => cases ht
  | throw hu hpc => cases ht
  | start hpc => cases ht
  | flushThrows now now' passNow zmqPoll hpc hf => cases ht
  | pollThrows now now' passNow zmqPoll p hpc hclock hf => cases ht
  | iterate now now' passNow zmqPoll p rc hpc hclock hf => cases ht
  | fire now c rc tm hpc hmem hc hdue => cases ht
  | timerTrue now c rc tm hpc hmem hc => cases ht
  | timerFalse now c rc tm hpc hmem hc => cases ht
  | timersDone now it rc hpc =>
    rw [hpc] at hs
    cases hs

theorem loop_items_stable {sockets : Sockets} {clock : ℤ} {ls ls' : List Label} {s u : State}
    {tr tr' : List Event}
    (hr : machine.exec { sockets := sockets, clock := clock } ls = some (s, tr))
    (hs : s.pc.ranging = true) (hr' : machine.exec s ls' = some (u, tr'))
    (hstay : machine.Along Stays s ls') :
    machine.Throughout (fun t _ => t.loop.items = s.loop.items) s ls' ↔
      ∀ l ∈ ls', ¬ l.isAdd :=
  dispatcher.items_stable (fun h hm hs ht => step_items (step_cases h) hm hs ht)
    (dispatcher.marked_of_exec rfl hr) hs hr' hstay

end Run

/-- **`items_` keeps still under the range-for iff no handler adds a registration**, in a reactor
and in a loop: in every state between two points of one range-for it is the list of the first. -/
theorem items_stable_iff (sockets : Sockets) :
    (∀ {ls ls' : List Reactor.Label} {s u : Reactor.State} {tr tr' : List ℕ},
      Reactor.machine.exec { sockets := sockets } ls = some (s, tr) → s.pc.ranging = true →
      Reactor.machine.exec s ls' = some (u, tr') → Reactor.machine.Along Reactor.Stays s ls' →
      (Reactor.machine.Throughout (fun t _ => t.registry.items = s.registry.items) s ls' ↔
        ∀ l ∈ ls', ¬ l.isAdd)) ∧
    (∀ {clock : ℤ} {ls ls' : List Run.Label} {s u : Run.State} {tr tr' : List Run.Event},
      Run.machine.exec { sockets := sockets, clock := clock } ls = some (s, tr) →
      s.pc.ranging = true → Run.machine.exec s ls' = some (u, tr') →
      Run.machine.Along Run.Stays s ls' →
      (Run.machine.Throughout (fun t _ => t.loop.items = s.loop.items) s ls' ↔
        ∀ l ∈ ls', ¬ l.isAdd)) :=
  ⟨Reactor.reactor_items_stable, Run.loop_items_stable⟩

/-- a handler of a reactor removes its own registration -/
def removesItself : List Reactor.Label × List Reactor.Label :=
  ([.call (.add (.fd 3) 1), .poll ⟨fun _ => some 1, 1, .eintr⟩],
   [.test, .call (.remove (.fd 3)), .ret])

/-- the same in a loop -/
def removesItselfInLoop : List Run.Label × List Run.Label :=
  ([.call (.add (.fd 3) 1), .start, .iterate 0 0 0 ⟨fun _ => some 1, 1, .eintr⟩, .test],
   [.test, .call (.remove (.fd 3)), .ret true])

theorem items_stable_remove :
    (∃ s u tr tr', Reactor.machine.exec {} removesItself.1 = some (s, tr) ∧
      Reactor.machine.exec s removesItself.2 = some (u, tr') ∧
      Reactor.machine.Throughout (fun t _ => t.registry.items = s.registry.items) s
        removesItself.2) ∧
    (∃ s u tr tr', Run.machine.exec {} removesItselfInLoop.1 = some (s, tr) ∧
      Run.machine.exec s removesItselfInLoop.2 = some (u, tr') ∧
      Run.machine.Throughout (fun t _ => t.loop.items = s.loop.items) s
        removesItselfInLoop.2) := by
  obtain ⟨hreactor, hloop⟩ := items_stable_iff fun _ => none
  refine ⟨⟨_, _, _, _, rfl, rfl, ?_⟩, ⟨_, _, _, _, rfl, rfl, ?_⟩⟩
  · apply (@hreactor removesItself.1 removesItself.2 _ _ _ _ rfl rfl rfl (by decide +kernel)).mpr
    simp [removesItself, Reactor.Label.isAdd]
  · apply (@hloop 0 removesItselfInLoop.1 removesItselfInLoop.2 _ _ _ _ rfl rfl rfl
      (by decide +kernel)).mpr
    simp [removesItselfInLoop, Run.Label.isAdd]

/-- **A handler that adds a descriptor appends to `items_` while it is iterated over.** -/
theorem add_in_handler_appends :
    ∃ s u tr tr', Reactor.machine.exec {} [.call (.add (.fd 3) 1),
        .poll ⟨fun _ => some 1, 1, .eintr⟩] = some (s, tr) ∧ s.pc.ranging = true ∧
      Reactor.machine.exec s [.test, .call (.add (.fd 4) 1)] = some (u, tr') ∧
      u.pc.ranging = true ∧ s.registry.items.length = 1 ∧ u.registry.items.length = 2 ∧
      ¬ Reactor.machine.Throughout (fun t _ => t.registry.items = s.registry.items) s
        [.test, .call (.add (.fd 4) 1)] := by
  refine ⟨_, _, _, _, rfl, rfl, rfl, rfl, rfl, rfl, ?_⟩
  intro h
  have hitems := congrArg List.length (h _ [] _ _ (List.append_nil _).symm rfl)
  cases hitems

end Zmqpp
