import ZmqppPty.Lib.Machine
import ZmqppPty.Dispatch.Retired

/-!
# The runs of a reactor (reactor::poll in reactor.cpp)

`poll` is cut as `loop::start` is: a handler may call the functions of the reactor and may throw,
and `zmq_poll` says what is ready.  The range-for over `items_` is an index and the length at its
start.  Each step emits the numbers of the handlers it invokes.

* `poll`, `testItem`, `finish`     the pieces of `reactor::poll`;
* `step`, `machine`                the steps;
* `Step`, `step_cases`             all a step can do;
* `Timely`                         no removal comes too late for the pass it is made in;
* `reactor_removal_is_final`       then the removed handler is not invoked again.
-/

namespace Zmqpp
namespace Reactor

inductive Pc where
  /-- no `poll` is running -/
  | outside
  /-- in the range-for, at index `i` of `n` -/
  | items (i n : ℕ)
  /-- the callable of item `i` runs -/
  | item (i n : ℕ)

/-- user code runs -/
def Pc.user : Pc → Bool
  | .outside | .item _ _ => true
  | .items _ _ => false

structure State where
  registry : Registry := {}
  sockets : Sockets := fun _ => none
  pc : Pc := .outside
  /-- the number of the next handler -/
  next : ℕ := 0

inductive Api where
  | add (x : Target) (event : Short)
  | remove (x : Target)
  | checkFor (x : Target) (event : Short)

inductive Label where
  | call (c : Api)
  /-- the socket object holds another pointer from now on -/
  | moved (s : SocketRef) (h : Option Handle)
  | poll (zmqPoll : ZmqPoll)
  /-- the next test of the range-for -/
  | test
  /-- the handler that runs returns -/
  | ret
  | throw

def poll (s : State) (zmqPoll : ZmqPoll) : State :=
  match s.registry.poller.poll zmqPoll with
  | (p, .ok true) =>
    { s with registry := { s.registry with poller := p }.setDispatching true,
             pc := .items 0 s.registry.items.length }
  | (p, _) => { s with registry := { s.registry with poller := p } }

/-- the end of the range-for -/
def finish (s : State) : State :=
  { s with registry := (Registry.flushRemoveLater s.sockets (s.registry.setDispatching false)).1,
           pc := .outside }

def testItem (s : State) (i n : ℕ) : Option (State × List ℕ) :=
  if i < n then
    match s.registry.items[i]? with
    | none => none
    | some (item, c) =>
      match s.registry.ready item with
      | .error _ => some ({ s with pc := .outside }, [])
      | .ok true => some ({ s with pc := .item i n }, [c])
      | .ok false => some ({ s with pc := .items (i + 1) n }, [])
  else some (finish s, [])

def api (s : State) : Api → State
  | .add x event =>
    { s with registry := s.registry.add s.sockets x s.next event, next := s.next + 1 }
  | .remove x => { s with registry := (Registry.remove s.sockets s.registry x).1 }
  | .checkFor x event => { s with registry := (Registry.checkFor s.sockets s.registry x event).1 }

def step (s : State) (l : Label) : Option (State × List ℕ) :=
  match l with
  | .call c => if s.pc.user then some (api s c, []) else none
  | .moved r h =>
    if s.pc.user then some ({ s with sockets := Function.update s.sockets r h }, []) else none
  | .poll zmqPoll =>
    match s.pc with
    | .outside => some (poll s zmqPoll, [])
    | _ => none
  | .test =>
    match s.pc with
    | .items i n => testItem s i n
    | _ => none
  | .ret =>
    match s.pc with
    | .item i n => some ({ s with pc := .items (i + 1) n }, [])
    | _ => none
  | .throw =>
    match s.pc with
    | .item _ _ => some ({ s with pc := .outside }, [])
    | _ => none

def machine : Lib.Machine State Label ℕ := ⟨step⟩

/-! ## all a step can do -/

/-- the registry with what `zmq_poll` has written -/
def polled (s : State) (zmqPoll : ZmqPoll) : Registry :=
  { s.registry with poller := (s.registry.poller.poll zmqPoll).1 }

inductive Step (s : State) : Label → State → List ℕ → Prop
  | add (x : Target) (event : Short) (hu : s.pc.user = true) :
      Step s (.call (.add x event))
        { s with registry := s.registry.add s.sockets x s.next event, next := s.next + 1 } []
  | remove (x : Target) (hu : s.pc.user = true) :
      Step s (.call (.remove x)) { s with registry := (Registry.remove s.sockets s.registry x).1 } []
  | checkFor (x : Target) (event : Short) (hu : s.pc.user = true) (p : Poller) :
      Step s (.call (.checkFor x event))
        { s with registry := { s.registry with poller := p } } []
  | moved (r : SocketRef) (h : Option Handle) (hu : s.pc.user = true) :
      Step s (.moved r h) { s with sockets := Function.update s.sockets r h } []
  | idle (zmqPoll : ZmqPoll) (p : Poller) (hpc : s.pc = .outside) :
      Step s (.poll zmqPoll) { s with registry := { s.registry with poller := p } } []
  | poll (zmqPoll : ZmqPoll) (hpc : s.pc = .outside) (hpos : 0 < zmqPoll.result) :
      Step s (.poll zmqPoll)
        { s with registry := (polled s zmqPoll).setDispatching true,
                 pc := .items 0 s.registry.items.length } []
  | handle (i n : ℕ) (item : PollItem) (c : ℕ) (hpc : s.pc = .items i n) (hi : i < n)
      (hit : s.registry.items[i]? = some (item, c)) (hready : s.registry.ready item = .ok true) :
      Step s .test { s with pc := .item i n } [c]
  | skip (i n : ℕ) (item : PollItem) (c : ℕ) (hpc : s.pc = .items i n) (hi : i < n)
      (hit : s.registry.items[i]? = some (item, c)) (hready : s.registry.ready item = .ok false) :
      Step s .test { s with pc := .items (i + 1) n } []
  | testThrows (i n : ℕ) (item : PollItem) (c : ℕ) (e : Exn) (hpc : s.pc = .items i n) (hi : i < n)
      (hit : s.registry.items[i]? = some (item, c)) (hready : s.registry.ready item = .error e) :
      Step s .test { s with pc := .outside } []
  | finish (i n : ℕ) (hpc : s.pc = .items i n) (hi : ¬ i < n) : Step s .test (finish s) []
  | ret (i n : ℕ) (hpc : s.pc = .item i n) : Step s .ret { s with pc := .items (i + 1) n } []
  | throw (i n : ℕ) (hpc : s.pc = .item i n) : Step s .throw { s with pc := .outside } []

theorem checkFor_poller (sockets : Sockets) (r : Registry) (x : Target) (event : Short) :
    ∃ p, (Registry.checkFor sockets r x event).1 = { r with poller := p } := by
  unfold Registry.checkFor
  cases x.key sockets with
  | none => exact ⟨r.poller, rfl⟩
  | some k => exact ⟨(r.poller.checkForKey k event).1, rfl⟩

theorem result_pos {p : Poller} {zmqPoll : ZmqPoll} (h : (p.poll zmqPoll).2 = .ok true) :
    0 < zmqPoll.result := by
  unfold Poller.poll at h
  dsimp only at h
  split at h
  · split at h <;> cases h
  · exact of_decide_eq_true (Except.ok.inj h)

theorem step_api {s : State} {c : Api} (hu : s.pc.user = true) :
    Step s (.call c) (api s c) [] := by
  cases c with
  | add x event => exact Step.add x event hu
  | remove x => exact Step.remove x hu
  | checkFor x event =>
    obtain ⟨p, hp⟩ := checkFor_poller s.sockets s.registry x event
    unfold api
    dsimp only
    rw [hp]
    exact Step.checkFor x event hu p

theorem step_poll {s : State} {zmqPoll : ZmqPoll} (hpc : s.pc = .outside) :
    Step s (.poll zmqPoll) (poll s zmqPoll) [] := by
  unfold poll
  cases hp : s.registry.poller.poll zmqPoll with
  | mk p res =>
    cases res with
    | error x => exact Step.idle zmqPoll p hpc
    | ok b =>
      cases b with
      | false => exact Step.idle zmqPoll p hpc
      | true =>
        have hpolled : { s.registry with poller := p } = polled s zmqPoll := by
          unfold polled
          rw [hp]
        dsimp only
        rw [hpolled]
        exact Step.poll zmqPoll hpc (result_pos (by rw [hp]))

theorem step_testItem {s t : State} {e : List ℕ} {i n : ℕ} (hpc : s.pc = .items i n)
    (h : testItem s i n = some (t, e)) : Step s .test t e := by
  unfold testItem at h
  split at h
  · rename_i hi
    split at h
    · cases h
    · rename_i item c hit
      split at h
      · rename_i x hready
        cases h
        exact Step.testThrows i n item c x hpc hi hit hready
      · rename_i hready
        cases h
        exact Step.handle i n item c hpc hi hit hready
      · rename_i hready
        cases h
        exact Step.skip i n item c hpc hi hit hready
  · rename_i hi
    cases h
    exact Step.finish i n hpc hi

/-- a call is made by user code -/
theorem call_of_step {s t : State} {c : Api} {e : List ℕ} (h : step s (.call c) = some (t, e)) :
    s.pc.user = true ∧ t = api s c ∧ e = [] := by
  unfold step at h
  dsimp only at h
  split at h
  · rename_i hu
    cases h
    exact ⟨hu, rfl, rfl⟩
  · cases h

/-- `poll` is called while none is running -/
theorem poll_of_step {s t : State} {zmqPoll : ZmqPoll} {e : List ℕ}
    (h : step s (.poll zmqPoll) = some (t, e)) : s.pc = .outside ∧ t = poll s zmqPoll ∧ e = [] := by
  unfold step at h
  dsimp only at h
  split at h
  · rename_i hpc
    cases h
    exact ⟨hpc, rfl, rfl⟩
  · cases h

theorem step_cases {s t : State} {l : Label} {e : List ℕ} (h : step s l = some (t, e)) :
    Step s l t e := by
  cases l with
  | call c =>
    obtain ⟨hu, rfl, rfl⟩ := call_of_step h
    exact step_api hu
  | moved r p =>
    unfold step at h
    dsimp only at h
    split at h
    · rename_i hu
      cases h
      exact Step.moved r p hu
    · cases h
  | poll zmqPoll =>
    obtain ⟨hpc, rfl, rfl⟩ := poll_of_step h
    exact step_poll hpc
  | test =>
    unfold step at h
    dsimp only at h
    split at h
    · rename_i i n hpc
      exact step_testItem hpc h
    · cases h
  | ret =>
    unfold step at h
    dsimp only at h
    split at h
    · rename_i i n hpc
      cases h
      exact Step.ret i n hpc
    · cases h
  | throw =>
    unfold step at h
    dsimp only at h
    split at h
    · rename_i i n hpc
      cases h
      exact Step.throw i n hpc
    · cases h

/-! ## the numbers of the handlers -/

/-- the registrations are numbered in the order of `items_`, below `next` -/
def Numbered (r : Registry) (next : ℕ) : Prop :=
  (r.items.map Prod.snd ++ [next]).Pairwise (· < ·)

theorem Numbered.sublist {r r' : Registry} {next : ℕ} (h : Numbered r next)
    (hs : r'.items.Sublist r.items) : Numbered r' next :=
  List.Pairwise.sublist ((hs.map Prod.snd).append_right [next]) h

theorem Numbered.lt {r : Registry} {next : ℕ} (h : Numbered r next) {it : PollItem × ℕ}
    (hit : it ∈ r.items) : it.2 < next :=
  (List.pairwise_append.mp h).2.2 it.2 (List.mem_map_of_mem hit) next (List.mem_singleton.mpr rfl)

theorem Numbered.unique {r : Registry} {next : ℕ} (h : Numbered r next) {a b : PollItem × ℕ}
    (ha : a ∈ r.items) (hb : b ∈ r.items) (he : a.2 = b.2) : a = b := by
  have hnodup : (r.items.map Prod.snd).Nodup :=
    (List.pairwise_append.mp h).1.imp fun hlt => Nat.ne_of_lt hlt
  exact List.inj_on_of_nodup_map hnodup ha hb he

theorem Numbered.add {r : Registry} {next : ℕ} (h : Numbered r next) (sockets : Sockets)
    (x : Target) (event : Short) : Numbered (r.add sockets x next event) (next + 1) := by
  unfold Numbered
  show ((r.items ++ [(x.item sockets event, next)]).map Prod.snd ++ [next + 1]).Pairwise (· < ·)
  rw [List.map_append, List.pairwise_append]
  refine ⟨h, List.pairwise_singleton _ _, ?_⟩
  intro a ha b hb
  rw [List.mem_singleton.mp hb]
  rcases List.mem_append.mp ha with ha | ha
  · obtain ⟨it, hit, rfl⟩ := List.mem_map.mp ha
    exact Nat.lt_succ_of_lt (h.lt hit)
  · rw [List.mem_singleton.mp ha]
    exact Nat.lt_succ_self next

theorem finish_sublist (s : State) : (finish s).registry.items.Sublist s.registry.items :=
  Registry.flushRemoveLater_sublist s.sockets (s.registry.setDispatching false)

theorem step_numbered {s t : State} {l : Label} {e : List ℕ} (h : Step s l t e)
    (hn : Numbered s.registry s.next) : Numbered t.registry t.next ∧ s.next ≤ t.next := by
  cases h with
  | add x event hu => exact ⟨hn.add s.sockets x event, Nat.le_succ _⟩
  | remove x hu =>
    exact ⟨hn.sublist (Registry.remove_sublist s.sockets s.registry x), Nat.le_refl _⟩
  | finish i n hpc hi => exact ⟨hn.sublist (finish_sublist s), Nat.le_refl _⟩
  | _ => exact ⟨hn, Nat.le_refl _⟩

/-! ## removals in time -/

/-- What is queued for removal is not ready in the rest of the range-for, neither when a handler
returns nor when the range-for begins (an exception may have left a queue), and a socket object
keeps its pointer while its removal is queued. -/
def Timely (s : State) : Label → Prop
  | .ret =>
    match s.pc with
    | .item i n => s.registry.NoneReady s.sockets (i + 1) n
    | _ => True
  | .moved r h => r ∈ s.registry.sockRemoveLater → h = s.sockets r
  | .poll zmqPoll =>
    0 < zmqPoll.result → (polled s zmqPoll).NoneReady s.sockets 0 s.registry.items.length
  | _ => True

instance (s : State) : DecidablePred (Timely s)
  | .ret =>
    match h : s.pc with
    | .item i n => decidable_of_iff (s.registry.NoneReady s.sockets (i + 1) n)
        (by unfold Timely; rw [h])
    | .outside | .items _ _ => isTrue (by unfold Timely; rw [h]; trivial)
  | .moved r p => inferInstanceAs (Decidable (r ∈ s.registry.sockRemoveLater → p = s.sockets r))
  | .poll zmqPoll => inferInstanceAs (Decidable (0 < zmqPoll.result →
      (polled s zmqPoll).NoneReady s.sockets 0 s.registry.items.length))
  | .call _ | .test | .throw => isTrue trivial

/-- what is queued is not ready in the rest of the range-for -/
def Harmless (s : State) : Prop :=
  match s.pc with
  | .items i n => s.registry.NoneReady s.sockets i n
  | .outside | .item _ _ => True

theorem Harmless.items {s : State} (h : Harmless s) {i n : ℕ} (hpc : s.pc = .items i n) :
    s.registry.NoneReady s.sockets i n := by
  unfold Harmless at h
  rw [hpc] at h
  exact h

theorem harmless_of_user {s : State} (hu : s.pc.user = true) : Harmless s := by
  unfold Harmless
  cases hpc : s.pc with
  | outside => trivial
  | item i n => trivial
  | items i n =>
    rw [hpc] at hu
    cases hu

theorem step_harmless {s t : State} {l : Label} {e : List ℕ} (h : Step s l t e)
    (ho : Timely s l) (hs : Harmless s) : Harmless t := by
  cases h with
  | add x event hu => exact harmless_of_user hu
  | remove x hu => exact harmless_of_user hu
  | checkFor x event hu p => exact harmless_of_user hu
  | moved r p hu => exact harmless_of_user hu
  | idle zmqPoll p hpc => exact harmless_of_user (by show s.pc.user = true; rw [hpc]; rfl)
  | poll zmqPoll hpc hpos => exact ho hpos
  | handle i n item c hpc hi hit hready => trivial
  | skip i n item c hpc hi hit hready => exact Registry.NoneReady.succ (hs.items hpc)
  | testThrows i n item c x hpc hi hit hready => trivial
  | finish i n hpc hi => trivial
  | ret i n hpc =>
    unfold Timely at ho
    rw [hpc] at ho
    exact ho
  | throw i n hpc => trivial

/-- a retired handler stays retired and is not invoked -/
theorem step_retired {s t : State} {l : Label} {e : List ℕ} {c : ℕ} (h : Step s l t e)
    (ho : Timely s l) (hs : Harmless s) (hc : c < s.next)
    (hr : s.registry.Retired s.sockets c) :
    t.registry.Retired t.sockets c ∧ ∀ ev ∈ e, ev ≠ c := by
  cases h with
  | add x event hu => exact ⟨hr.add x (Nat.ne_of_gt hc) event, nofun⟩
  | remove x hu => exact ⟨hr.remove x, nofun⟩
  | moved r p hu => exact ⟨hr.moved ho, nofun⟩
  | handle i n item c' hpc hi hit hready =>
    refine ⟨hr, ?_⟩
    intro ev hev
    rw [List.mem_singleton.mp hev]
    intro hsame
    subst hsame
    have hkey := hr (item, c') (List.mem_of_getElem? hit) rfl
    exact hs.items hpc (item, c') (Registry.mem_ahead hi hit) hkey hready
  | finish i n hpc hi =>
    have hflush := Registry.flush_retired (r := s.registry.setDispatching false)
      (Or.inl rfl) hr
    exact ⟨hflush.1, nofun⟩
  | _ => exact ⟨hr, nofun⟩

/-! ## the runs -/

/-- `call` removes the target that the handler numbered `c` is registered for -/
def RegisteredFor (s : State) (c : ℕ) : Api → Prop
  | .remove x => ∃ it ∈ s.registry.items, it.2 = c ∧ x.key s.sockets = some it.1.key
  | _ => False

theorem retired_of_call {s t : State} {c : ℕ} {call : Api} {e : List ℕ}
    (hs : Step s (.call call) t e) (h : RegisteredFor s c call)
    (hn : Numbered s.registry s.next) :
    (c < t.next ∧ t.registry.Retired t.sockets c) ∧ ∀ ev ∈ e, ev ≠ c := by
  cases hs with
  | add x event hu => exact absurd h id
  | checkFor x event hu p => exact absurd h id
  | remove x hu =>
    obtain ⟨it, hit, rfl, hkey⟩ := h
    refine ⟨⟨hn.lt hit, Registry.remove_retires x ?_⟩, nofun⟩
    intro it' hit' he
    apply Or.inr
    rw [hn.unique hit' hit he]
    exact hkey

/-- **In a reactor removal is final**, if every removal comes in time. -/
theorem reactor_removal_is_final {sockets : Sockets} {ls ls' : List Label} {call : Api} {c : ℕ}
    {s u : State} {tr tr' : List ℕ} (hr : machine.exec { sockets := sockets } ls = some (s, tr))
    (hreg : RegisteredFor s c call) (hr' : machine.exec s (.call call :: ls') = some (u, tr'))
    (hok : machine.Along Timely { sockets := sockets } (ls ++ .call call :: ls')) : c ∉ tr' := by
  have hinit : Numbered { : Registry } 0 ∧ Harmless { sockets := sockets } :=
    ⟨List.pairwise_singleton _ _, trivial⟩
  have hall := Lib.Machine.exec_since (fun s => Numbered s.registry s.next ∧ Harmless s)
    (fun s => c < s.next ∧ s.registry.Retired s.sockets c) (· ≠ c)
    (fun s l t e hi ho hs => ⟨(step_numbered (step_cases hs) hi.1).1,
      step_harmless (step_cases hs) ho hi.2⟩)
    (fun s l t e hi hp ho hs => by
      have hs : Step s l t e := step_cases hs
      obtain ⟨hret, hno⟩ := step_retired hs ho hi.2 hp.1 hp.2
      exact ⟨⟨Nat.lt_of_lt_of_le hp.1 (step_numbered hs hi.1).2, hret⟩, hno⟩)
    hinit (fun t e hi hs => retired_of_call (step_cases hs) hreg hi.1) hok hr hr'
  exact fun hmem => hall c hmem rfl

end Reactor
end Zmqpp
