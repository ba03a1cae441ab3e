import ZmqppPty.Dispatch.Pass

/-!
# A loop without timers (loop::start in loop.cpp, reactor::poll in reactor.cpp)

The two dispatchers were written apart: a loop flushes its queues when it comes back to its head,
a reactor before `poll` returns, and a loop has the timer pass in between.  Without timers a loop
does to the handlers what a reactor does that is polled again and again.

* `reactorOf`           the reactor that a loop at its head stands for;
* `handledBy`           the events that a reactor has too;
* `commandOf`           the calls, polls and returns, which it has too;
* `Untimed`             no timer is added, and `start` is not called again;
* `Stands`, `step_stands`   the relation, and a step of the loop on the reactor;
* `loop_as_reactor`     a run.
-/

namespace Zmqpp
namespace Run

/-- what is queued is flushed before a handler is invoked -/
def reactorOf (s : State) : Reactor.State where
  registry := (Registry.flushRemoveLater s.sockets s.loop.toRegistry).1
  sockets := s.sockets
  next := s.next

/-- the reactor that a loop in its range-for stands for -/
def dispatchingOf (s : State) (pc : Reactor.Pc) : Reactor.State where
  registry := s.loop.toRegistry
  sockets := s.sockets
  pc := pc
  next := s.next

def handledBy : Event → Option ℕ
  | .handled c => some c
  | _ => none

def handledIn (tr : List Event) : List ℕ := tr.filterMap handledBy

/-- what the environment and the handlers of sockets do -/
def commandOf : Label → Option Reactor.Label
  | .call (.add x event) => some (.call (.add x event))
  | .call (.remove x) => some (.call (.remove x))
  | .moved r h => some (.moved r h)
  | .iterate _ _ _ zmqPoll => some (.poll zmqPoll)
  | .ret _ => some .ret
  | _ => none

def isTest : Reactor.Label → Bool
  | .test => true
  | _ => false

/-- the labels but the tests of the range-for -/
def commands (ls : List Reactor.Label) : List Reactor.Label := ls.filter fun l => !isTest l

theorem commands_append (ls ls' : List Reactor.Label) :
    commands (ls ++ ls') = commands ls ++ commands ls' := List.filter_append ..

theorem handledIn_append (tr tr' : List Event) :
    handledIn (tr ++ tr') = handledIn tr ++ handledIn tr' := List.filterMap_append

def Untimed : Label → Prop
  | .call (.addTimer _ _ _ _) | .start => False
  | _ => True

instance : DecidablePred Untimed
  | .call (.addTimer _ _ _ _) | .start => isFalse id
  | .call (.add _ _) | .call (.remove _) | .call (.reset _ _) | .call (.removeTimer _)
  | .moved _ _ | .iterate _ _ _ _ | .test | .ret _ | .throw => isTrue trivial

/-! ## where the loop is -/

/-- the loop stands for the reactor -/
inductive Stands (s : State) (u : Reactor.State) : Prop
  | head (hpc : s.pc = .head) (hd : s.loop.dispatching = false) (hu : u = reactorOf s)
  | polled (now : ℤ) (rc : Bool) (hpc : s.pc = .timers now none rc)
      (hb : s.loop.rebuildPoller = false)
      (hq : s.loop.fdRemoveLater = [] ∧ s.loop.sockRemoveLater = [])
      (hu : u = { registry := s.loop.toRegistry.setDispatching rc, sockets := s.sockets,
                  pc := if rc then .items 0 s.loop.items.length else .outside, next := s.next })
  | items (i n : ℕ) (hpc : s.pc = .items i n) (hu : u = dispatchingOf s (.items i n))
  | item (i n : ℕ) (hpc : s.pc = .item i n) (hu : u = dispatchingOf s (.item i n))

/-- the loop is left, with nothing handled -/
def Leaves (t : State) (e : List Event) : Prop := t.pc = .outside ∧ handledIn e = []

/-- the step of the reactor, with the tests it takes -/
def Goes (u : Reactor.State) (l : Label) (t : State) (e : List Event) : Prop :=
  ∃ ls v, Reactor.machine.exec u ls = some (v, handledIn e) ∧
    commands ls = (commandOf l).toList ∧ Stands t v

variable {s t : State} {u v : Reactor.State} {l : Label} {e : List Event}

theorem Goes.stays (hl : commandOf l = none) (he : handledIn e = []) (hv : Stands t u) :
    Goes u l t e :=
  ⟨[], u, by rw [he]; rfl, by rw [hl]; rfl, hv⟩

theorem Goes.one (l' : Reactor.Label) {e' : List ℕ} (hs : Reactor.step u l' = some (v, e'))
    (he : handledIn e = e') (hl : commands [l'] = (commandOf l).toList) (hv : Stands t v) :
    Goes u l t e := by
  have hrun : Reactor.machine.exec u [l'] = some (v, e' ++ []) :=
    Lib.Machine.exec_cons_of hs (Lib.Machine.exec_nil v)
  rw [List.append_nil, ← he] at hrun
  exact ⟨[l'], v, hrun, hl, hv⟩

/-! ## the pieces of `start` -/

theorem flush_untimed {sockets : Sockets} {l : Loop} (ht : l.timers = []) :
    (Loop.flushRemoveLater sockets l).1.timers = [] :=
  List.sublist_nil.mp (ht ▸ (Loop.flushRemoveLater_timers sockets l).1)

theorem setDispatching_false {r : Registry} (hd : r.dispatching = false) (b : Bool) :
    (r.setDispatching b).setDispatching false = r := by
  cases r
  cases hd
  rfl

/-- from the head to the timer pass the reactor polls -/
theorem poll_stands {l : Loop} {p : Poller} {zmqPoll : ZmqPoll} {rc : Bool}
    (hd : l.dispatching = false) (hp : l.poller.poll zmqPoll = (p, .ok rc)) (sockets : Sockets)
    (next : ℕ) :
    Reactor.step { registry := l.toRegistry, sockets := sockets, next := next } (.poll zmqPoll)
      = some ({ registry :=
                  ({ l with poller := p }.setDispatching true).toRegistry.setDispatching rc,
                sockets := sockets, pc := if rc then .items 0 l.items.length else .outside,
                next := next }, []) := by
  show some (Reactor.poll
    { registry := l.toRegistry, sockets := sockets, next := next } zmqPoll, []) = _
  unfold Reactor.poll
  dsimp only
  rw [hp]
  cases rc with
  | true => rfl
  | false =>
    have hidle : ({ l with poller := p }.setDispatching true).toRegistry.setDispatching false
        = ({ l with poller := p } : Loop).toRegistry :=
      setDispatching_false (r := ({ l with poller := p } : Loop).toRegistry) hd true
    rw [hidle]
    rfl

theorem iterate_stands {now now' passNow : ℤ} {zmqPoll : ZmqPoll} (ht : s.loop.timers = [])
    (hd : s.loop.dispatching = false) (hs : iterate s now now' passNow zmqPoll = (t, e)) :
    Leaves t e ∨ Goes (reactorOf s) (.iterate now now' passNow zmqPoll) t e ∧
      t.loop.timers = [] := by
  obtain ⟨hregistry, hresult⟩ :=
    Loop.flushRemoveLater_toRegistry s.sockets { s.loop with rebuildPoller := false }
  have htimers : (Loop.flushRemoveLater s.sockets
      { s.loop with rebuildPoller := false }).1.timers = [] := flush_untimed ht
  have hrebuild := (Loop.flushRemoveLater_timers s.sockets
    { s.loop with rebuildPoller := false }).2.1
  have hidle : (Registry.flushRemoveLater s.sockets s.loop.toRegistry).1.dispatching = false :=
    (Registry.flushRemoveLater_idle s.sockets hd).1
  unfold iterate at hs
  cases hf : Loop.flushRemoveLater s.sockets { s.loop with rebuildPoller := false } with
  | mk l res =>
    rw [hf] at hregistry hresult htimers hrebuild hs
    dsimp only at hregistry hresult htimers hrebuild hs
    cases res with
    | error x =>
      cases hs
      exact Or.inl ⟨rfl, rfl⟩
    | ok _ =>
      have hqueues := Registry.flushRemoveLater_queues hresult.symm
      rw [← hregistry] at hidle hqueues
      dsimp only at hs
      cases hp : l.poller.poll zmqPoll with
      | mk p pres =>
        rw [hp] at hs
        cases pres with
        | error x =>
          cases hs
          exact Or.inl ⟨rfl, rfl⟩
        | ok rc =>
          cases hs
          have hu : reactorOf s
              = { registry := l.toRegistry, sockets := s.sockets, next := s.next } := by
            unfold reactorOf
            rw [hregistry]
          have hpoll := poll_stands hidle hp s.sockets s.next
          have hnone : l.timers.head?.map Timer.callable = none := by
            rw [htimers]
            rfl
          rw [hu]
          have hpc : Pc.timers passNow (l.timers.head?.map Timer.callable) rc
              = .timers passNow none rc := congrArg (fun it => Pc.timers passNow it rc) hnone
          exact Or.inr
            ⟨Goes.one _ hpoll rfl rfl (.polled passNow rc hpc (hrebuild hd) hqueues rfl), htimers⟩

theorem flush_nothing (sockets : Sockets) {r : Registry} (hfd : r.fdRemoveLater = [])
    (hsock : r.sockRemoveLater = []) : (Registry.flushRemoveLater sockets r).1 = r := by
  cases r
  cases hfd
  cases hsock
  rfl

/-- the timer pass has nothing to do -/
theorem timersDone_stands {rc : Bool} (hb : s.loop.rebuildPoller = false)
    (hq : s.loop.fdRemoveLater = [] ∧ s.loop.sockRemoveLater = []) :
    Stands (timersDone s rc)
      { registry := s.loop.toRegistry.setDispatching rc, sockets := s.sockets,
        pc := if rc then .items 0 s.loop.items.length else .outside, next := s.next } := by
  have hskip : (s.loop.sort.setDispatching false).rebuildPoller = false := hb
  unfold timersDone
  dsimp only
  rw [hskip, if_neg Bool.false_ne_true]
  cases rc with
  | true => exact .items 0 s.loop.items.length rfl rfl
  | false =>
    show Stands { s with loop := s.loop.sort.setDispatching false, pc := .head } _
    refine .head rfl rfl ?_
    unfold reactorOf
    dsimp only
    rw [flush_nothing s.sockets (r := (s.loop.sort.setDispatching false).toRegistry) hq.1 hq.2]
    rfl

/-- the tests of the two range-fors -/
theorem testItem_stands {i n : ℕ} (hs : testItem s i n = some (t, e)) :
    Leaves t e ∨ Goes (dispatchingOf s (.items i n)) .test t e ∧ t.loop.timers = s.loop.timers := by
  have hgoes {v : Reactor.State} {e' : List ℕ}
      (htest : Reactor.testItem (dispatchingOf s (.items i n)) i n = some (v, e'))
      (he : handledIn e = e') (hv : Stands t v) :
      Goes (dispatchingOf s (.items i n)) .test t e := by
    have hstep : Reactor.step (dispatchingOf s (.items i n)) .test = some (v, e') := htest
    exact Goes.one _ hstep he rfl hv
  unfold testItem at hs
  unfold Reactor.testItem at hgoes
  split at hs
  · rename_i hi
    rw [if_pos hi] at hgoes
    split at hs
    · cases hs
    · rename_i item c hit
      rw [show (dispatchingOf s (.items i n)).registry.items[i]? = some (item, c) from hit] at hgoes
      dsimp only at hgoes
      split at hs
      · cases hs
        exact Or.inl ⟨rfl, rfl⟩
      · rename_i hready
        cases hs
        rw [show (dispatchingOf s (.items i n)).registry.ready item = _ from hready] at hgoes
        exact Or.inr ⟨hgoes rfl rfl (.item i n rfl rfl), rfl⟩
      · rename_i hready
        cases hs
        rw [show (dispatchingOf s (.items i n)).registry.ready item = _ from hready] at hgoes
        exact Or.inr ⟨hgoes rfl rfl (.items (i + 1) n rfl rfl), rfl⟩
  · rename_i hi
    cases hs
    rw [if_neg hi] at hgoes
    exact Or.inr ⟨hgoes rfl rfl (.head rfl rfl rfl), rfl⟩

/-! ## a step -/

theorem Stands.at_user (h : Stands s u) (hu : s.pc.user = true) :
    ∃ i n, s.pc = .item i n ∧ u = dispatchingOf s (.item i n) := by
  cases h with
  | head hpc hd hu' => rw [hpc] at hu; cases hu
  | polled now rc hpc hb hq hu' => rw [hpc] at hu; cases hu
  | items i n hpc hu' => rw [hpc] at hu; cases hu
  | item i n hpc hu' => exact ⟨i, n, hpc, hu'⟩

theorem Stands.at_head (h : Stands s u) (hpc : s.pc = .head) :
    s.loop.dispatching = false ∧ u = reactorOf s := by
  cases h with
  | head _ hd hu => exact ⟨hd, hu⟩
  | polled now rc hpc' hb hq hu => rw [hpc] at hpc'; cases hpc'
  | items i n hpc' hu => rw [hpc] at hpc'; cases hpc'
  | item i n hpc' hu => rw [hpc] at hpc'; cases hpc'

theorem Stands.at_items (h : Stands s u) {i n : ℕ} (hpc : s.pc = .items i n) :
    u = dispatchingOf s (.items i n) := by
  cases h with
  | head hpc' hd hu => rw [hpc] at hpc'; cases hpc'
  | polled now rc hpc' hb hq hu => rw [hpc] at hpc'; cases hpc'
  | items j m hpc' hu =>
    rw [hpc] at hpc'
    cases hpc'
    exact hu
  | item i n hpc' hu => rw [hpc] at hpc'; cases hpc'

theorem Stands.at_timers (h : Stands s u) {now : ℤ} {it : Option ℕ} {rc : Bool}
    (hpc : s.pc = .timers now it rc) : it = none ∧ Stands (timersDone s rc) u := by
  cases h with
  | head hpc' hd hu => rw [hpc] at hpc'; cases hpc'
  | polled now' rc' hpc' hb hq hu =>
    rw [hpc] at hpc'
    cases hpc'
    exact ⟨rfl, hu ▸ timersDone_stands hb hq⟩
  | items i n hpc' hu => rw [hpc] at hpc'; cases hpc'
  | item i n hpc' hu => rw [hpc] at hpc'; cases hpc'

theorem handledIn_reset (l : Loop) (id : TimerId) (now : ℤ) :
    handledIn (resetEvent l id now) = [] := by
  unfold resetEvent
  cases l.timers.find? fun t => t.id = id with
  | none => rfl
  | some t => rfl

theorem reset_untimed {l : Loop} (ht : l.timers = []) (now : ℤ) (id : TimerId) :
    l.reset now id = l := by
  unfold Loop.reset
  rw [ht]
  rfl

theorem test_stands (h : Stands s u) (ht : s.loop.timers = []) {i n : ℕ} (hpc : s.pc = .items i n)
    (hs : step s .test = some (t, e)) :
    Leaves t e ∨ Goes u .test t e ∧ t.loop.timers = [] := by
  unfold step at hs
  dsimp only at hs
  rw [hpc] at hs
  rw [h.at_items hpc]
  rcases testItem_stands hs with hleaves | ⟨hgoes, htimers⟩
  · exact Or.inl hleaves
  · exact Or.inr ⟨hgoes, htimers.trans ht⟩

theorem step_stands (h : Stands s u) (ht : s.loop.timers = []) (hl : Untimed l)
    (hs : step s l = some (t, e)) : Leaves t e ∨ Goes u l t e ∧ t.loop.timers = [] := by
  have hiterate {now now' passNow : ℤ} {zmqPoll : ZmqPoll}
      (hs : step s (.iterate now now' passNow zmqPoll) = some (t, e)) :
      Leaves t e ∨ Goes u (.iterate now now' passNow zmqPoll) t e ∧ t.loop.timers = [] := by
    obtain ⟨hpc, -, hnext⟩ := iterate_of_step hs
    obtain ⟨hd, rfl⟩ := h.at_head hpc
    exact iterate_stands ht hd hnext
  cases step_cases hs with
  | add x event hu =>
    obtain ⟨i, n, hpc, rfl⟩ := h.at_user hu
    exact Or.inr ⟨Goes.one (.call (.add x event)) rfl rfl rfl (.item i n hpc rfl), ht⟩
  | remove x hu =>
    obtain ⟨i, n, hpc, rfl⟩ := h.at_user hu
    exact Or.inr ⟨Goes.one (.call (.remove x)) rfl rfl rfl (.item i n hpc rfl), ht⟩
  | addTimer delay times id now hu hclock hid => exact hl.elim
  | reset id now hu hclock =>
    obtain ⟨i, n, hpc, rfl⟩ := h.at_user hu
    have hsame := reset_untimed ht now id
    refine Or.inr ⟨Goes.stays rfl (handledIn_reset s.loop id now) (.item i n hpc ?_), ?_⟩
    · unfold dispatchingOf
      dsimp only
      rw [hsame]
    · dsimp only
      rw [hsame, ht]
  | removeTimer id hu =>
    obtain ⟨i, n, hpc, rfl⟩ := h.at_user hu
    refine Or.inr ⟨Goes.stays rfl rfl (.item i n hpc ?_), ?_⟩
    · unfold dispatchingOf
      dsimp only
      rw [removeTimer_rest]
    · exact List.sublist_nil.mp (ht ▸ Loop.removeTimers_sublist [id] s.loop)
  | moved r p hu =>
    obtain ⟨i, n, hpc, rfl⟩ := h.at_user hu
    exact Or.inr ⟨Goes.one (.moved r p) rfl rfl rfl (.item i n hpc rfl), ht⟩
  | start hpc => exact hl.elim
  | flushThrows now now' passNow zmqPoll hpc hf => exact hiterate hs
  | pollThrows now now' passNow zmqPoll p hpc hclock hf => exact hiterate hs
  | iterate now now' passNow zmqPoll p rc hpc hclock hf => exact hiterate hs
  | fire now c rc tm hpc hmem hc hdue => cases (h.at_timers hpc).1
  | timersDone now it rc hpc =>
    refine Or.inr ⟨Goes.stays rfl rfl (h.at_timers hpc).2, ?_⟩
    rw [(timersDone_rest s rc).1, ht]
    rfl
  | handle i n item c hpc hi hit hready => exact test_stands h ht hpc hs
  | skip i n item c hpc hi hit hready => exact test_stands h ht hpc hs
  | testThrows i n item c x hpc hi hit hready => exact test_stands h ht hpc hs
  | itemsDone i n hpc => exact test_stands h ht hpc hs
  | timerTrue now c rc tm hpc hmem hc =>
    obtain ⟨i, n, hpc', -⟩ := h.at_user (by rw [hpc]; rfl)
    rw [hpc] at hpc'
    cases hpc'
  | timerFalse now c rc tm hpc hmem hc => exact Or.inl ⟨rfl, rfl⟩
  | itemTrue i n hpc =>
    obtain ⟨j, m, hpc', rfl⟩ := h.at_user (by rw [hpc]; rfl)
    rw [hpc] at hpc'
    cases hpc'
    exact Or.inr ⟨Goes.one .ret rfl rfl rfl (.items (i + 1) n rfl rfl), ht⟩
  | itemFalse i n hpc => exact Or.inl ⟨rfl, rfl⟩
  | throw hu hpc => exact Or.inl ⟨rfl, rfl⟩

/-! ## runs -/

/-- nothing is handled once the loop is left -/
theorem outside_step (hpc : s.pc = .outside) (hl : Untimed l) (hs : step s l = some (t, e)) :
    Leaves t e := by
  cases step_cases hs with
  | add x event hu => exact ⟨hpc, rfl⟩
  | remove x hu => exact ⟨hpc, rfl⟩
  | addTimer delay times id now hu hclock hid => exact hl.elim
  | reset id now hu hclock => exact ⟨hpc, handledIn_reset s.loop id now⟩
  | removeTimer id hu => exact ⟨hpc, rfl⟩
  | moved r p hu => exact ⟨hpc, rfl⟩
  | start hpc' => exact hl.elim
  | flushThrows now now' passNow zmqPoll hpc' hf => rw [hpc] at hpc'; cases hpc'
  | pollThrows now now' passNow zmqPoll p hpc' hclock hf => rw [hpc] at hpc'; cases hpc'
  | iterate now now' passNow zmqPoll p rc hpc' hclock hf => rw [hpc] at hpc'; cases hpc'
  | fire now c rc tm hpc' hmem hc hdue => rw [hpc] at hpc'; cases hpc'
  | timersDone now it rc hpc' => rw [hpc] at hpc'; cases hpc'
  | handle i n item c hpc' hi hit hready => rw [hpc] at hpc'; cases hpc'
  | skip i n item c hpc' hi hit hready => rw [hpc] at hpc'; cases hpc'
  | testThrows i n item c x hpc' hi hit hready => rw [hpc] at hpc'; cases hpc'
  | itemsDone i n hpc' => rw [hpc] at hpc'; cases hpc'
  | timerTrue now c rc tm hpc' hmem hc => rw [hpc] at hpc'; cases hpc'
  | timerFalse now c rc tm hpc' hmem hc => rw [hpc] at hpc'; cases hpc'
  | itemTrue i n hpc' => rw [hpc] at hpc'; cases hpc'
  | itemFalse i n hpc' => rw [hpc] at hpc'; cases hpc'
  | throw hu hpc' => exact absurd hpc hpc'

theorem outside_run {ls : List Label} {tr : List Event} (hpc : s.pc = .outside)
    (hl : ∀ l ∈ ls, Untimed l) (hr : machine.exec s ls = some (t, tr)) : Leaves t tr := by
  induction ls generalizing s tr with
  | nil =>
    rw [Lib.Machine.exec_nil] at hr
    cases hr
    exact ⟨hpc, rfl⟩
  | cons l ls ih =>
    obtain ⟨v, e, es, hs, hrest, rfl⟩ := Lib.Machine.exec_cons hr
    obtain ⟨hv, he⟩ := outside_step hpc (hl l List.mem_cons_self) hs
    obtain ⟨ht, hes⟩ := ih hv (fun l' hl' => hl l' (List.mem_cons_of_mem l hl')) hrest
    exact ⟨ht, by rw [handledIn_append, he, hes, List.append_nil]⟩

def commandsOf (ls : List Label) : List Reactor.Label := ls.flatMap fun l => (commandOf l).toList

theorem Stands.run {ls : List Label} {tr : List Event} (h : Stands s u)
    (ht : s.loop.timers = []) (hl : ∀ l ∈ ls, Untimed l)
    (hr : machine.exec s ls = some (t, tr)) :
    ∃ ls' v, Reactor.machine.exec u ls' = some (v, handledIn tr) ∧
      commands ls' <+: commandsOf ls ∧
      (t.pc ≠ .outside → commands ls' = commandsOf ls ∧ Stands t v) := by
  induction ls generalizing s u tr with
  | nil =>
    rw [Lib.Machine.exec_nil] at hr
    cases hr
    exact ⟨[], u, rfl, List.prefix_rfl, fun _ => ⟨rfl, h⟩⟩
  | cons l ls ih =>
    obtain ⟨s', e, es, hs, hrest, rfl⟩ := Lib.Machine.exec_cons hr
    have hl' : ∀ l' ∈ ls, Untimed l' := fun l' hmem => hl l' (List.mem_cons_of_mem l hmem)
    rcases step_stands h ht (hl l List.mem_cons_self) hs with
      ⟨hleft, he⟩ | ⟨⟨ls1, u', hexec, hcommands, hstands⟩, htimers⟩
    · obtain ⟨hpc, hes⟩ := outside_run hleft hl' hrest
      refine ⟨[], u, ?_, List.nil_prefix, fun hne => absurd hpc hne⟩
      rw [handledIn_append, he, hes]
      rfl
    · obtain ⟨ls2, v, hexec', hbegun, hend⟩ := ih hstands htimers hl' hrest
      refine ⟨ls1 ++ ls2, v, ?_, ?_, fun hne => ?_⟩
      · rw [handledIn_append]
        exact Lib.Machine.exec_append hexec hexec'
      · rw [commands_append, hcommands]
        exact (List.prefix_append_right_inj _).mpr hbegun
      · obtain ⟨heq, hv⟩ := hend hne
        exact ⟨by rw [commands_append, hcommands, heq]; rfl, hv⟩

/-- **A loop without timers is a reactor that is polled again and again**: from a `start` with no
dispatch left open, the same handlers are invoked in the same order in a run of the reactor with the
same calls, polls and returns.  Once the loop is left, by `false` or an exception, they are the
first of these; at the head of the loop the reactor has the registrations that the loop has after
its next flush. -/
theorem loop_as_reactor {s t : State} {ls : List Label} {tr : List Event} (hpc : s.pc = .head)
    (hd : s.loop.dispatching = false) (ht : s.loop.timers = []) (hl : ∀ l ∈ ls, Untimed l)
    (hr : machine.exec s ls = some (t, tr)) :
    ∃ ls' u, Reactor.machine.exec (reactorOf s) ls' = some (u, handledIn tr) ∧
      commands ls' <+: commandsOf ls ∧
      (t.pc ≠ .outside → commands ls' = commandsOf ls) ∧ (t.pc = .head → u = reactorOf t) := by
  have hstands : Stands s (reactorOf s) := .head hpc hd rfl
  obtain ⟨ls', u, hexec, hbegun, hend⟩ := hstands.run ht hl hr
  refine ⟨ls', u, hexec, hbegun, fun hne => (hend hne).1, fun hhead => ?_⟩
  have hne : t.pc ≠ .outside := by
    rw [hhead]
    intro h
    cases h
  exact ((hend hne).2.at_head hhead).2

/-- two descriptors -/
def twoDescriptors : List Label :=
  [.call (.add (.fd 3) pollIn), .call (.add (.fd 4) pollIn), .start]

/-- both have input, and the first handler removes itself; then the second one has input again -/
def removesFirst : List Label :=
  [.iterate 0 0 0 ⟨fun _ => some pollIn, 2, .eintr⟩, .test, .test, .call (.remove (.fd 3)),
    .ret true, .test, .ret true, .test,
    .iterate 0 0 0 ⟨fun _ => some pollIn, 1, .eintr⟩, .test, .test, .ret true, .test]

theorem loop_as_reactor_removed :
    ∃ s t tr, (machine.exec {} twoDescriptors).map Prod.fst = some s ∧
      machine.exec s removesFirst = some (t, tr) ∧ handledIn tr = [0, 1, 1] ∧
      ∃ ls' u, Reactor.machine.exec (reactorOf s) ls' = some (u, [0, 1, 1]) ∧
        commands ls' = commandsOf removesFirst := by
  have hrun : (machine.exec {} twoDescriptors).map (fun r =>
      (decide (r.1.pc = .head ∧ r.1.loop.dispatching = false ∧ r.1.loop.timers = []),
        (machine.exec r.1 removesFirst).map fun q => (decide (q.1.pc = .head), handledIn q.2)))
      = some (true, some (true, [0, 1, 1])) := by decide +kernel
  obtain ⟨⟨s, tr0⟩, h0, hs⟩ := Option.map_eq_some_iff.mp hrun
  obtain ⟨hbegun, hpasses⟩ := Prod.mk.inj hs
  obtain ⟨hpc, hd, htimers⟩ := of_decide_eq_true hbegun
  obtain ⟨⟨t, tr⟩, hr, ht⟩ := Option.map_eq_some_iff.mp hpasses
  obtain ⟨hend, hhandled⟩ := Prod.mk.inj ht
  have huntimed : ∀ l ∈ removesFirst, Untimed l := by decide
  obtain ⟨ls', u, hexec, -, hsame, -⟩ := loop_as_reactor hpc hd htimers huntimed hr
  have hne : t.pc ≠ .outside := by
    rw [show t.pc = .head from of_decide_eq_true hend]
    intro h
    cases h
  dsimp only at hhandled
  rw [hhandled] at hexec
  exact ⟨s, t, tr, by rw [h0]; rfl, hr, hhandled, ls', u, hexec, hsame hne⟩

end Run
end Zmqpp
