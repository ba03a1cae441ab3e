import ZmqppPty.Dispatch.Deferred
import ZmqppPty.Dispatch.Reactor

/-!
# What a pass of a reactor dispatches

`reactor::poll` asks the poller about every registration, by `has_input`, `has_error` and
`has_output`.  Here a reactor is built by additions, removals and `check_for`, an event is reported
and the handlers leave the reactor alone.

* `BuildStep`              how the reactor is built;
* `ownRevents`             the events of the item that stands for a registration, wherever
                           it is in the poller's vector;
* `ready_eq`               what `ready` says of it: the three flags it tests;
* `pending`, `pass_events` the handlers a pass has still to call, and that it calls them;
* `exists_pass`            that it ends;
* `dispatches_exactly_iff` a pass calls exactly the handlers with events iff none of them has
                           `poll_pri` alone, the flag that `ready` leaves out.
-/

namespace Zmqpp
namespace Reactor

/-! ## flags -/

/-- the flags of poller.hpp -/
def pollFlags : Short := pollIn ||| pollOut ||| pollError ||| pollPri

theorem within_pollFlags {ev mask : Short} (h : Within ev (mask ||| pollError))
    (hmask : Within mask pollFlags) : Within ev pollFlags := by
  have herror : pollError &&& pollFlags = pollError := by decide
  have hboth : (mask ||| pollError) &&& pollFlags = mask ||| pollError := by
    rw [BitVec.and_or_distrib_right, hmask, herror]
  show ev &&& pollFlags = ev
  calc ev &&& pollFlags = ev &&& (mask ||| pollError) &&& pollFlags := by rw [h]
    _ = ev &&& ((mask ||| pollError) &&& pollFlags) := BitVec.and_assoc ..
    _ = ev := by rw [hboth, h]

/-- `has_input || has_error || has_output` of these events -/
def dispatched (ev : Short) : Bool :=
  ev &&& pollIn != 0 || (ev &&& pollError != 0 || ev &&& pollOut != 0)

theorem within_cases {ev : Short} (h : Within ev pollFlags) :
    ∃ i : Fin 16, ev = BitVec.ofFin ⟨i, by omega⟩ := by
  have hle : ev.toNat ≤ 15 := by
    rw [← h]
    exact Nat.and_le_right
  refine ⟨⟨ev.toNat, by omega⟩, ?_⟩
  apply BitVec.eq_of_toNat_eq
  rfl

/-- the flag that is not tested -/
theorem dispatched_iff {ev : Short} (h : Within ev pollFlags) :
    dispatched ev = true ↔ ev ≠ 0 ∧ ev ≠ pollPri := by
  obtain ⟨i, rfl⟩ := within_cases h
  revert i
  decide

/-! ## how the reactor is built -/

/-- additions of absent keys, removals, `check_for`, all with the flags of poller.hpp; socket
objects may change the pointer they hold -/
def BuildStep (s : State) : Label → Prop
  | .call (.add x event) =>
    (x.item s.sockets event).key ∉ s.registry.registered ∧ Within event pollFlags
  | .call (.checkFor _ event) => Within event pollFlags
  | .call (.remove _) => True
  | .moved _ _ => True
  | _ => False

/-- what holds of a reactor built like this -/
structure Built (s : State) : Prop where
  outside : s.pc = .outside
  idle : s.registry.dispatching = false
  polled : ∃ m, Registry.Polled s.registry m
  flags : ∀ it ∈ s.registry.poller.items, Within it.events pollFlags

theorem built_init : Built {} where
  outside := rfl
  idle := rfl
  polled := ⟨fun _ => none, Poller.Represents.init, fun _ => ⟨fun _ h => (nomatch h), fun _ => rfl⟩⟩
  flags := fun _ hit => (nomatch hit)

theorem Built.add {s : State} (h : Built s) {x : Target} {event : Short}
    (hx : (x.item s.sockets event).key ∉ s.registry.registered) (hf : Within event pollFlags) :
    Built (api s (.add x event)) := by
  obtain ⟨m, hm⟩ := h.polled
  refine ⟨h.outside, h.idle,
    ⟨_, Registry.polled_add_item hm s.sockets x hx s.next⟩, ?_⟩
  · intro it hit
    have hit' : it ∈ s.registry.poller.items ++ [x.item s.sockets event] := by
      rw [← Poller.items_add]
      exact hit
    rcases List.mem_append.mp hit' with hit' | hit'
    · exact h.flags it hit'
    · rw [List.mem_singleton.mp hit']
      cases x <;> exact hf

theorem Built.remove {s : State} (h : Built s) (x : Target) : Built (api s (.remove x)) := by
  obtain ⟨m, hm⟩ := h.polled
  show Built { s with registry := (Registry.remove s.sockets s.registry x).1 }
  cases hk : x.key s.sockets with
  | none =>
    have hstep : (Registry.remove s.sockets s.registry x).1 = s.registry := by
      unfold Registry.remove
      rw [h.idle, hk]
      rfl
    rw [hstep]
    exact h
  | some k =>
    have hstep : (Registry.remove s.sockets s.registry x).1 = (s.registry.eraseKey k).1 := by
      unfold Registry.remove
      rw [h.idle, hk]
      rfl
    rw [hstep]
    refine ⟨h.outside, h.idle, ⟨_, (Registry.polled_eraseKey hm k).2⟩, ?_⟩
    intro it hit
    exact h.flags it (Poller.mem_of_mem_removeKey hm.1.sound hit)

theorem checkForKey_flags {p : Poller} (h : ∀ it ∈ p.items, Within it.events pollFlags) (k : Key)
    {event : Short} (hf : Within event pollFlags) :
    ∀ it ∈ (p.checkForKey k event).1.items, Within it.events pollFlags := by
  unfold Poller.checkForKey
  cases p.find k with
  | none => exact h
  | some i =>
    intro it hit
    obtain ⟨j, hj⟩ := List.getElem?_of_mem hit
    dsimp only at hj
    rw [List.getElem?_modify] at hj
    obtain ⟨it', hj', rfl⟩ := Option.map_eq_some_iff.mp hj
    split
    · exact hf
    · exact h it' (List.mem_of_getElem? hj')

theorem Built.checkFor {s : State} (h : Built s) (x : Target) {event : Short}
    (hf : Within event pollFlags) : Built (api s (.checkFor x event)) := by
  obtain ⟨m, hrep, hreg⟩ := h.polled
  show Built { s with registry := (Registry.checkFor s.sockets s.registry x event).1 }
  cases hk : x.key s.sockets with
  | none =>
    have hstep : (Registry.checkFor s.sockets s.registry x event).1 = s.registry := by
      unfold Registry.checkFor
      rw [hk]
    rw [hstep]
    exact h
  | some k =>
    have hstep : (Registry.checkFor s.sockets s.registry x event).1
        = { s.registry with poller := (s.registry.poller.checkForKey k event).1 } := by
      unfold Registry.checkFor
      rw [hk]
    rw [hstep]
    refine ⟨h.outside, h.idle, ⟨_, hrep.checkForKey k event, ?_⟩, checkForKey_flags h.flags k hf⟩
    intro k'
    show _ ↔ k' ∉ s.registry.registered
    rw [← hreg k', Function.update_apply]
    by_cases e : k' = k
    · simp [e]
    · simp [e]

theorem step_built {s t : State} {l : Label} {e : List ℕ} (h : step s l = some (t, e))
    (hok : BuildStep s l) (hs : Built s) : Built t := by
  cases l with
  | call c =>
    obtain ⟨-, rfl, -⟩ := call_of_step h
    cases c with
    | add x event => exact hs.add hok.1 hok.2
    | remove x => exact hs.remove x
    | checkFor x event => exact hs.checkFor x hok
  | moved r p =>
    cases step_cases h
    exact ⟨hs.outside, hs.idle, hs.polled, hs.flags⟩
  | poll _ | test | ret | throw => exact hok.elim

theorem built_of_run {ls : List Label} {s : State} {es : List ℕ}
    (hr : machine.exec {} ls = some (s, es)) (hok : machine.Along BuildStep {} ls) : Built s :=
  Lib.Machine.exec_state Built (fun _ _ _ _ hp ho hs => step_built hs ho hp) built_init hok hr

/-! ## the events of a registration -/

/-- the events reported in the item of a key, wherever it stands in the vector -/
def ownRevents (p : Poller) (k : Key) : Short :=
  ((p.items.find? fun it => it.key = k).map PollItem.revents).getD 0

theorem ownRevents_eq {p : Poller} {m : Poller.PollMap} (h : Poller.Represents p m) {k : Key}
    {e : Poller.Entry} (he : m k = some e) : ownRevents p k = e.revents := by
  unfold ownRevents
  rw [← List.head?_filter, h.items_of_key, he]
  rfl

/-- **What the test of a registration sees**: the three flags in its own item. -/
theorem ready_eq {r : Registry} {m : Poller.PollMap} (h : Registry.Polled r m)
    {it : PollItem × ℕ} (hit : it ∈ r.items) :
    r.ready it.1 = .ok (dispatched (ownRevents r.poller it.1.key)) := by
  have hmem : it.1.key ∈ r.registered := List.mem_map_of_mem hit
  have hpresent : m it.1.key ≠ none := fun hnone => (h.2 _).mp hnone hmem
  obtain ⟨e, he⟩ := Option.ne_none_iff_exists'.mp hpresent
  have hevents : r.poller.eventsItem it.1 = .ok (ownRevents r.poller it.1.key) := by
    show r.poller.eventsKey it.1.key = _
    rw [h.1.eventsKey_eq, he, ownRevents_eq h.1 he]
  have hflag : ∀ flag, r.poller.hasFlag flag it.1
      = .ok (ownRevents r.poller it.1.key &&& flag != 0) := by
    intro flag
    unfold Poller.hasFlag
    rw [hevents]
  unfold Registry.ready Poller.hasInput Poller.hasError Poller.hasOutput dispatched
  simp only [hflag]
  show (if _ then _ else _) = _
  cases ownRevents r.poller it.1.key &&& pollIn != 0 with
  | true => rfl
  | false =>
    show (if _ then _ else _) = _
    cases ownRevents r.poller it.1.key &&& pollError != 0 <;> rfl

/-- a registration has only flags of poller.hpp after a legal `zmq_poll` -/
theorem ownRevents_flags {s : State} (hs : Built s) {call : ZmqPoll}
    (hlegal : Poller.Legal s.registry.poller call) {it : PollItem × ℕ}
    (hit : it ∈ s.registry.items) :
    Within (ownRevents (s.registry.poller.poll call).1 it.1.key) pollFlags := by
  obtain ⟨m, hrep, hreg⟩ := hs.polled
  have hmem : it.1.key ∈ s.registry.registered := List.mem_map_of_mem hit
  have hpresent : m it.1.key ≠ none := fun hnone => (hreg _).mp hnone hmem
  obtain ⟨e, he⟩ := Option.ne_none_iff_exists'.mp hpresent
  obtain ⟨ev, hwritten, hwithin⟩ := hrep.written_of_legal hlegal he
  obtain ⟨i, -, hi⟩ := hrep.get_of_map he
  rw [ownRevents_eq (hrep.poll call) (by rw [he]; rfl)]
  show Within ((Poller.written s.registry.poller call it.1.key).getD e.revents) pollFlags
  rw [hwritten]
  have hmask := hs.flags _ (List.mem_of_getElem? hi)
  rw [e.events_item] at hmask
  exact within_pollFlags hwithin hmask

/-! ## a pass whose handlers leave the reactor alone -/

/-- the test of a registration succeeds -/
def isReady (r : Registry) (it : PollItem × ℕ) : Bool :=
  match r.ready it.1 with
  | .ok b => b
  | .error _ => false

/-- the handlers of the ready registrations from index `i` on -/
def readyFrom (r : Registry) (i : ℕ) : List ℕ :=
  ((r.items.drop i).filter (isReady r)).map Prod.snd

/-- the handlers that the range-for has still to call -/
def pending (s : State) : List ℕ :=
  match s.pc with
  | .outside => []
  | .items i _ => readyFrom s.registry i
  | .item i _ => readyFrom s.registry (i + 1)

/-- every test of the range-for returns, and it goes over all of `items_` -/
structure InPass (s : State) : Prop where
  tests : ∀ it ∈ s.registry.items, s.registry.ready it.1 = .ok (isReady s.registry it)
  length : ∀ i n, s.pc = .items i n ∨ s.pc = .item i n → n = s.registry.items.length

/-- the handlers return, and that is all they do -/
def Undisturbed (ls : List Label) : Prop := ∀ l ∈ ls, l = .test ∨ l = .ret

theorem readyFrom_length (r : Registry) {i : ℕ} (h : r.items.length ≤ i) : readyFrom r i = [] := by
  unfold readyFrom
  rw [List.drop_eq_nil_of_le h]
  rfl

theorem readyFrom_of_get {r : Registry} {i : ℕ} {it : PollItem × ℕ} (h : r.items[i]? = some it) :
    readyFrom r i = if isReady r it = true then it.2 :: readyFrom r (i + 1)
      else readyFrom r (i + 1) := by
  obtain ⟨hlt, hget⟩ := List.getElem?_eq_some_iff.mp h
  unfold readyFrom
  rw [List.drop_eq_getElem_cons hlt, hget, List.filter_cons]
  split <;> rfl

/-- one test of the range-for -/
theorem testItem_eq {s : State} (hs : InPass s) {i n : ℕ} (hpc : s.pc = .items i n) :
    testItem s i n =
      match s.registry.items[i]? with
      | none => some (finish s, [])
      | some it =>
        if isReady s.registry it = true then some ({ s with pc := .item i n }, [it.2])
        else some ({ s with pc := .items (i + 1) n }, []) := by
  have hn := hs.length i n (Or.inl hpc)
  unfold testItem
  cases hit : s.registry.items[i]? with
  | none =>
    have hge : ¬ i < n := by
      have := List.getElem?_eq_none_iff.mp hit
      omega
    rw [if_neg hge]
  | some it =>
    have hlt : i < n := by
      have := (List.getElem?_eq_some_iff.mp hit).1
      omega
    have htest := hs.tests it (List.mem_of_getElem? hit)
    rw [if_pos hlt]
    dsimp only
    rw [htest]
    cases isReady s.registry it <;> rfl

/-- the range-for is at another test -/
theorem InPass.items {s : State} (hs : InPass s) {n : ℕ} (hn : n = s.registry.items.length)
    (i : ℕ) : InPass { s with pc := .items i n } := by
  refine ⟨hs.tests, ?_⟩
  intro j k hj
  rcases hj with hj | hj
  · cases hj
    exact hn
  · cases hj

/-- or in a handler -/
theorem InPass.item {s : State} (hs : InPass s) {n : ℕ} (hn : n = s.registry.items.length)
    (i : ℕ) : InPass { s with pc := .item i n } := by
  refine ⟨hs.tests, ?_⟩
  intro j k hj
  rcases hj with hj | hj
  · cases hj
  · cases hj
    exact hn

/-- **What a step of the pass calls is what is no longer pending.** -/
theorem step_pending {s t : State} {l : Label} {e : List ℕ} (hs : InPass s)
    (hl : l = .test ∨ l = .ret) (h : step s l = some (t, e)) :
    pending s = e ++ pending t ∧ (t.pc ≠ .outside → InPass t) := by
  unfold step at h
  rcases hl with rfl | rfl
  · cases hpc : s.pc with
    | outside => simp only [hpc] at h; cases h
    | item i n => simp only [hpc] at h; cases h
    | items i n =>
      simp only [hpc] at h
      rw [testItem_eq hs hpc] at h
      have hpend : pending s = readyFrom s.registry i := by
        unfold pending
        rw [hpc]
      have hn := hs.length i n (Or.inl hpc)
      rw [hpend]
      cases hit : s.registry.items[i]? with
      | none =>
        rw [hit] at h
        obtain ⟨rfl, rfl⟩ := Prod.mk.inj (Option.some.inj h)
        refine ⟨readyFrom_length _ (List.getElem?_eq_none_iff.mp hit), fun hne => absurd rfl hne⟩
      | some it =>
        rw [hit] at h
        rw [readyFrom_of_get hit]
        dsimp only at h
        by_cases hr : isReady s.registry it = true
        · rw [if_pos hr] at h ⊢
          obtain ⟨rfl, rfl⟩ := Prod.mk.inj (Option.some.inj h)
          exact ⟨rfl, fun _ => hs.item hn i⟩
        · rw [if_neg hr] at h ⊢
          obtain ⟨rfl, rfl⟩ := Prod.mk.inj (Option.some.inj h)
          exact ⟨rfl, fun _ => hs.items hn (i + 1)⟩
  · cases hpc : s.pc with
    | outside => simp only [hpc] at h; cases h
    | items i n => simp only [hpc] at h; cases h
    | item i n =>
      simp only [hpc] at h
      obtain ⟨rfl, rfl⟩ := Prod.mk.inj (Option.some.inj h)
      refine ⟨?_, fun _ => hs.items (hs.length i n (Or.inr hpc)) (i + 1)⟩
      unfold pending
      rw [hpc]
      rfl

theorem step_outside {s : State} (hpc : s.pc = .outside) {l : Label} (hl : l = .test ∨ l = .ret) :
    step s l = none := by
  unfold step
  rcases hl with rfl | rfl
  · dsimp only
    rw [hpc]
  · dsimp only
    rw [hpc]

/-- **A pass that has ended has called exactly what was pending.** -/
theorem pass_events {s t : State} {ls : List Label} {es : List ℕ} (hs : s.pc ≠ .outside → InPass s)
    (hls : Undisturbed ls) (hr : machine.exec s ls = some (t, es)) (ht : t.pc = .outside) :
    es = pending s := by
  induction ls generalizing s es with
  | nil =>
    obtain ⟨rfl, rfl⟩ := Prod.mk.inj (Option.some.inj hr)
    unfold pending
    rw [ht]
  | cons l ls ih =>
    obtain ⟨u, e, es', hstep, hrest, rfl⟩ := Lib.Machine.exec_cons hr
    have hl := hls l List.mem_cons_self
    have hpc : s.pc ≠ .outside := by
      intro hpc
      have hnone : machine.step s l = none := step_outside hpc hl
      rw [hnone] at hstep
      cases hstep
    obtain ⟨hpend, hu⟩ := step_pending (hs hpc) hl hstep
    rw [hpend, ih hu (fun l' hl' => hls l' (List.mem_cons_of_mem l hl')) hrest]

theorem step_test {s : State} {i n : ℕ} (hpc : s.pc = .items i n) :
    machine.step s .test = testItem s i n := by
  show step s .test = _
  unfold step
  dsimp only
  rw [hpc]

/-- behind the last registration the pass ends -/
theorem pass_ends {s : State} (hs : InPass s) {i n : ℕ} (hpc : s.pc = .items i n)
    (hnone : s.registry.items[i]? = none) :
    ∃ ls t es, Undisturbed ls ∧ machine.exec s ls = some (t, es) ∧ t.pc = .outside := by
  have hstep := (step_test hpc).trans (testItem_eq hs hpc)
  rw [hnone] at hstep
  refine ⟨[.test], finish s, [] ++ [], ?_, Lib.Machine.exec_cons_of hstep rfl, rfl⟩
  intro l hl
  exact Or.inl (List.mem_singleton.mp hl)

/-- a pass comes to its end -/
theorem exists_pass (k : ℕ) {s : State} (hs : InPass s) {i n : ℕ} (hpc : s.pc = .items i n)
    (hk : n - i ≤ k) :
    ∃ ls t es, Undisturbed ls ∧ machine.exec s ls = some (t, es) ∧ t.pc = .outside := by
  have hn := hs.length i n (Or.inl hpc)
  induction k generalizing s i with
  | zero => exact pass_ends hs hpc (List.getElem?_eq_none_iff.mpr (by omega))
  | succ k ih =>
    cases hit : s.registry.items[i]? with
    | none => exact pass_ends hs hpc hit
    | some it =>
      have hstep := (step_test hpc).trans (testItem_eq hs hpc)
      rw [hit] at hstep
      dsimp only at hstep
      -- the range-for goes on at its next index
      obtain ⟨ls, t, es, hls, hr, ht⟩ := ih (hs.items hn (i + 1)) rfl (by omega) hn
      by_cases hready : isReady s.registry it = true
      · rw [if_pos hready] at hstep
        have hret : machine.step { s with pc := .item i n } .ret
            = some ({ s with pc := .items (i + 1) n }, []) := rfl
        refine ⟨.test :: .ret :: ls, t, _, ?_,
          Lib.Machine.exec_cons_of hstep (Lib.Machine.exec_cons_of hret hr), ht⟩
        intro l hl
        rcases List.mem_cons.mp hl with rfl | hl
        · exact Or.inl rfl
        · rcases List.mem_cons.mp hl with rfl | hl
          · exact Or.inr rfl
          · exact hls l hl
      · rw [if_neg hready] at hstep
        refine ⟨.test :: ls, t, _, ?_, Lib.Machine.exec_cons_of hstep hr, ht⟩
        intro l hl
        rcases List.mem_cons.mp hl with rfl | hl
        · exact Or.inl rfl
        · exact hls l hl

/-! ## polling -/

/-- the pass after this `zmq_poll` calls the handlers of the registrations whose own item got an
event, each once and in the order of registration, and no other -/
def DispatchesExactly (s : State) (call : ZmqPoll) : Prop :=
  (s.registry.poller.poll call).2 = .ok true →
  ∀ ls t es, Undisturbed ls → machine.exec s (.poll call :: ls) = some (t, es) → t.pc = .outside →
    es = (s.registry.items.filter fun it =>
      ownRevents (s.registry.poller.poll call).1 it.1.key ≠ 0).map Prod.snd

/-- the pass as `poll` begins it -/
def begun (s : State) (call : ZmqPoll) : State :=
  { s with registry := (polled s call).setDispatching true,
           pc := .items 0 s.registry.items.length }

theorem step_begun {s : State} (hs : Built s) {call : ZmqPoll}
    (hp : (s.registry.poller.poll call).2 = .ok true) :
    machine.step s (.poll call) = some (begun s call, []) := by
  show step s (.poll call) = _
  unfold step
  dsimp only
  rw [hs.outside]
  dsimp only
  unfold poll begun polled
  rw [show s.registry.poller.poll call = ((s.registry.poller.poll call).1, .ok true) from
    Prod.ext rfl hp]

theorem polled_begun {s : State} (hs : Built s) (call : ZmqPoll) :
    ∃ m, Registry.Polled (begun s call).registry m := by
  obtain ⟨m, hrep, hreg⟩ := hs.polled
  refine ⟨_, hrep.poll call, ?_⟩
  intro k
  rw [Option.map_eq_none_iff]
  exact hreg k

/-- what the pass will call -/
theorem pending_begun {s : State} (hs : Built s) (call : ZmqPoll) :
    InPass (begun s call) ∧
      pending (begun s call) = (s.registry.items.filter fun it =>
        dispatched (ownRevents (s.registry.poller.poll call).1 it.1.key)).map Prod.snd := by
  obtain ⟨m, hm⟩ := polled_begun hs call
  have hready : ∀ it ∈ (begun s call).registry.items, (begun s call).registry.ready it.1
      = .ok (dispatched (ownRevents (s.registry.poller.poll call).1 it.1.key)) :=
    fun it hit => ready_eq hm hit
  have hisReady : ∀ it ∈ (begun s call).registry.items, isReady (begun s call).registry it
      = dispatched (ownRevents (s.registry.poller.poll call).1 it.1.key) := by
    intro it hit
    unfold isReady
    rw [hready it hit]
  refine ⟨⟨?_, ?_⟩, ?_⟩
  · intro it hit
    rw [hready it hit, hisReady it hit]
  · intro i n h
    rcases h with h | h
    · cases h
      rfl
    · cases h
  · show readyFrom (begun s call).registry 0 = _
    unfold readyFrom
    rw [List.drop_zero]
    exact congrArg (List.map Prod.snd) (List.filter_congr hisReady)

/-- filters of a list of handlers with distinct numbers agree iff their conditions do -/
theorem map_filter_eq_iff (items : List (PollItem × ℕ)) (p q : PollItem × ℕ → Bool)
    (hpq : ∀ it ∈ items, p it = true → q it = true) :
    (items.filter p).map Prod.snd = (items.filter q).map Prod.snd ↔
      ∀ it ∈ items, p it = q it := by
  constructor
  · intro h
    have hlen := congrArg List.length h
    rw [List.length_map, List.length_map] at hlen
    have hsub : (items.filter p).Sublist (items.filter q) := by
      have : items.filter p = (items.filter q).filter p := by
        rw [List.filter_filter]
        apply List.filter_congr
        intro it hit
        cases hp : p it with
        | false => rfl
        | true => rw [hpq it hit hp]; rfl
      rw [this]
      exact List.filter_sublist
    have heq := hsub.eq_of_length hlen
    intro it hit
    have hmem : it ∈ items.filter p ↔ it ∈ items.filter q := by rw [heq]
    rw [List.mem_filter, List.mem_filter] at hmem
    cases hp : p it with
    | true => exact (hpq it hit hp).symm
    | false =>
      cases hq : q it with
      | false => rfl
      | true =>
        have hit' := (hmem.mpr ⟨hit, hq⟩).2
        rw [hp] at hit'
        cases hit'
  · intro h
    rw [List.filter_congr h]

/-- **A pass dispatches exactly the registrations with events iff none of them got `poll_pri`
alone.** -/
theorem dispatches_exactly_iff (ls : List Label) (s : State) (es : List ℕ)
    (hr : machine.exec {} ls = some (s, es)) (hok : machine.Along BuildStep {} ls)
    (call : ZmqPoll) (hlegal : Poller.Legal s.registry.poller call) :
    DispatchesExactly s call ↔
      ((s.registry.poller.poll call).2 = .ok true → ∀ it ∈ s.registry.items,
        ownRevents (s.registry.poller.poll call).1 it.1.key ≠ pollPri) := by
  have hs := built_of_run hr hok
  apply imp_congr_right
  intro hp
  have hbegun := step_begun hs hp
  obtain ⟨hpass, hpend⟩ := pending_begun hs call
  have hflags : ∀ it ∈ s.registry.items,
      dispatched (ownRevents (s.registry.poller.poll call).1 it.1.key) = true ↔
        ownRevents (s.registry.poller.poll call).1 it.1.key ≠ 0 ∧
          ownRevents (s.registry.poller.poll call).1 it.1.key ≠ pollPri :=
    fun it hit => dispatched_iff (ownRevents_flags hs hlegal hit)
  have hlists := map_filter_eq_iff s.registry.items
    (fun it => dispatched (ownRevents (s.registry.poller.poll call).1 it.1.key))
    (fun it => decide (ownRevents (s.registry.poller.poll call).1 it.1.key ≠ 0))
    fun it hit h => decide_eq_true ((hflags it hit).mp h).1
  constructor
  · -- a pass exists, and its handlers are those of both lists
    intro hexact it hit
    obtain ⟨run, t, evs, hrun, hexec, ht⟩ :=
      exists_pass s.registry.items.length hpass rfl (Nat.sub_le _ 0)
    have hcalled := pass_events (fun _ => hpass) hrun hexec ht
    have hwanted := hexact run t ([] ++ evs) hrun (Lib.Machine.exec_cons_of hbegun hexec) ht
    rw [List.nil_append, hcalled, hpend] at hwanted
    have hsame := hlists.mp hwanted it hit
    intro hpri
    rw [hpri] at hsame
    revert hsame
    decide
  · intro hnone run t evs hrun hexec ht
    obtain ⟨u, e, rest, hstep, hrest, rfl⟩ := Lib.Machine.exec_cons hexec
    obtain ⟨rfl, rfl⟩ := Prod.mk.inj (Option.some.inj (hbegun.symm.trans hstep))
    rw [List.nil_append, pass_events (fun _ => hpass) hrun hrest ht, hpend]
    apply hlists.mpr
    intro it hit
    rw [Bool.eq_iff_iff, hflags it hit, decide_eq_true_iff]
    exact and_iff_left (hnone it hit)
/-- a `zmq_poll` of one item that gets these events -/
def oneItem (ev : Short) : ZmqPoll := ⟨fun _ => some ev, 1, .eagain⟩

/-- a reactor with the one registration of descriptor 3 -/
def oneFd (event : Short) : State := api {} (.add (.fd 3) event)

theorem oneFd_run (event : Short) :
    machine.exec {} [.call (.add (.fd 3) event)] = some (oneFd event, []) := rfl

theorem oneFd_along {event : Short} (h : Within event pollFlags) :
    machine.Along BuildStep {} [.call (.add (.fd 3) event)] := by
  refine ⟨⟨List.not_mem_nil, h⟩, ?_⟩
  intro t e _
  trivial

theorem oneFd_legal {event ev : Short} (h : Within ev (event ||| pollError)) :
    Poller.Legal (oneFd event).registry.poller (oneItem ev) := by
  intro i it hit
  have hitem : it = ⟨none, 3, event, 0⟩ := List.mem_singleton.mp (List.mem_of_getElem? hit)
  rw [hitem]
  exact ⟨ev, rfl, h⟩

/-- descriptor 3 is registered for input and gets it -/
theorem dispatches_input :
    DispatchesExactly (oneFd pollIn) (oneItem pollIn) ↔
      (((oneFd pollIn).registry.poller.poll (oneItem pollIn)).2 = .ok true →
        ∀ it ∈ (oneFd pollIn).registry.items,
          ownRevents ((oneFd pollIn).registry.poller.poll (oneItem pollIn)).1 it.1.key
            ≠ pollPri) :=
  dispatches_exactly_iff _ (oneFd pollIn) [] (oneFd_run pollIn) (oneFd_along (by decide))
    (oneItem pollIn) (oneFd_legal (by decide))

/-- descriptor 3 is registered for `poll_pri` and gets it: `poll` returns true and calls nothing -/
theorem dispatches_no_pri :
    ¬ ∀ ls s es, machine.exec {} ls = some (s, es) → machine.Along BuildStep {} ls →
      ∀ call, Poller.Legal s.registry.poller call → DispatchesExactly s call := by
  intro h
  have hexact := h _ (oneFd pollPri) [] (oneFd_run pollPri) (oneFd_along (by decide))
    (oneItem pollPri) (oneFd_legal (by decide))
  have hrun : Undisturbed [.test, .test] := by
    intro l hl
    have htest : l = .test ∨ l = .test := by simpa using hl
    exact Or.inl (htest.elim id id)
  have hcalls := hexact rfl [.test, .test] _ [] hrun rfl rfl
  revert hcalls
  decide

end Reactor
end Zmqpp
