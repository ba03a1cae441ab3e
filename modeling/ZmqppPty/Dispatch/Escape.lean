import ZmqppPty.Dispatch.Lookup

/-!
# An exception that leaves a dispatch

It leaves `dispatching_` set and the queues as they are.

* `Gone`                     nothing of a key is left in `items_` and in the poller;
* `remove_gone_iff`          when a removal takes effect before it returns;
* `flush_dispatching`        a flush under a set `dispatching_` empties the queues and no more;
* `NextPoll`, `NextStart`    the first `poll` or `start` after an exception;
* `CatchesUp`                what was queued is gone then, and has not been invoked;
* `Spares`                   what each step of that `poll` has to do for it;
* `Waiting.step`             one step, and `Waiting.run` the whole `poll`;
* `loop_forgets`             a loop forgets the queue;
* `throw_safe_iff`           when a removal around an exception takes effect.
-/

namespace Zmqpp

namespace Registry

/-- no registration of the key is left, and no item of it in the poller -/
def Gone (r : Registry) (k : Key) : Prop := k ∉ r.registered ∧ r.poller.copies k = 0

theorem Tidy.indexed {r : Registry} (h : r.Tidy) : r.Indexed := by
  obtain ⟨-, m, hm, hkeys⟩ := h
  refine ⟨hm.sound, ?_⟩
  intro it hit hnone
  exact (hkeys it.1.key).mp ((hm.indexed it.1.key).mp hnone) (List.mem_map_of_mem hit)

theorem Tidy.gone_iff {r : Registry} (h : r.Tidy) (k : Key) : r.Gone k ↔ k ∉ r.registered :=
  ⟨And.left, fun hk => ⟨hk, h.copies_eq_zero hk⟩⟩

/-- **Outside a dispatch a removal takes effect at once iff no exception has left `dispatching_`
set**, or there is nothing to remove. -/
theorem remove_gone_iff (sockets : Sockets) {r : Registry} (h : r.Tidy) {x : Target} {k : Key}
    (hx : x.key sockets = some k) :
    (r.remove sockets x).1.Gone k ↔ r.dispatching = false ∨ k ∉ r.registered := by
  rw [(h.remove sockets x).gone_iff]
  cases hd : r.dispatching with
  | true =>
    have hsame : (r.removeLater x).registered = r.registered :=
      congrArg (List.map fun it : PollItem × ℕ => it.1.key) (removeLater_fixed r x).1
    rw [remove_dispatching hd, hsame]
    simp
  | false =>
    have hstep : r.remove sockets x = r.eraseKey k := call_remove_idle hd hx
    rw [hstep, mem_registered_eraseKey]
    simp

theorem each_removeLater (sockets : Sockets) (xs : List Target) {r : Registry}
    (hd : r.dispatching = true) :
    ∃ fds socks, Lib.each (remove sockets) xs r
      = ({ r with fdRemoveLater := fds, sockRemoveLater := socks }, .ok ()) := by
  induction xs generalizing r with
  | nil => exact ⟨_, _, rfl⟩
  | cons x xs ih =>
    have hstep : remove sockets r x = (r.removeLater x, .ok ()) := by
      unfold remove
      rw [hd]
      rfl
    rw [Lib.each_cons_ok (by rw [hstep]), hstep]
    cases x with
    | socket s => exact @ih { r with sockRemoveLater := r.sockRemoveLater ++ [s] } hd
    | fd d => exact @ih { r with fdRemoveLater := r.fdRemoveLater ++ [d] } hd

/-- **Under a set `dispatching_` the flush loses what was queued.** -/
theorem flush_dispatching (sockets : Sockets) {r : Registry} (hd : r.dispatching = true) :
    flushRemoveLater sockets r
      = ({ r with fdRemoveLater := [], sockRemoveLater := [] }, .ok ()) := by
  obtain ⟨fds, socks, h⟩ := each_removeLater sockets (r.fdRemoveLater.map Target.fd) hd
  have hd' : ({ r with fdRemoveLater := fds, sockRemoveLater := socks } : Registry).dispatching
      = true := hd
  obtain ⟨fds', socks', h'⟩ := each_removeLater sockets (socks.map Target.socket) hd'
  unfold flushRemoveLater
  rw [h]
  dsimp only
  rw [h']

/-- outside a dispatch the flush takes out the queued registrations, and no others -/
theorem Tidy.flush_gone_iff {r : Registry} (h : r.Tidy) (hd : r.dispatching = false)
    (sockets : Sockets) {it : PollItem × ℕ} (hit : it ∈ r.items) :
    (Registry.flushRemoveLater sockets r).1.Gone it.1.key ↔ it.1.key ∈ r.queuedKeys sockets := by
  obtain ⟨m, hm⟩ := h.polled
  have hok := (eraseKeys_polled hm (r.queuedKeys sockets)).1
  have hitems : (Registry.flushRemoveLater sockets r).1.items
      = r.items.filter fun it => it.1.key ∉ r.queuedKeys sockets := by
    rw [flushRemoveLater_eq sockets hd,
      show r.eraseKeys (r.queuedKeys sockets) = (_, .ok ()) from Prod.ext rfl hok]
    exact eraseKeys_items hok
  rw [(h.flushRemoveLater sockets).gone_iff]
  unfold registered
  rw [hitems]
  constructor
  · intro hgone
    by_contra hkey
    exact hgone (List.mem_map_of_mem (List.mem_filter.mpr ⟨hit, decide_eq_true hkey⟩))
  · intro hkey hmem
    obtain ⟨it', hit', hsame⟩ := List.mem_map.mp hmem
    have hno := of_decide_eq_true (List.mem_filter.mp hit').2
    exact hno (hsame ▸ hkey)

end Registry

namespace Reactor

/-- a `poll` is running -/
def Inside (s : State) (_ : Label) : Prop := s.pc.ranging = true

instance (s : State) : DecidablePred (Inside s) := fun _ =>
  inferInstanceAs (Decidable (s.pc.ranging = true))

def Label.isPoll : Label → Prop
  | .poll _ => True
  | _ => False

def Label.isUser : Label → Prop
  | .call _ | .moved _ _ => True
  | _ => False

theorem isUser_of_step {s t : State} {l : Label} {e : List ℕ} (hpc : s.pc = .outside)
    (h : machine.step s l = some (t, e)) (hl : ¬ l.isPoll) : l.isUser := by
  cases step_cases h with
  | add | remove | checkFor | moved => trivial
  | idle | poll => exact absurd trivial hl
  | handle i n item c hpc' => cases hpc.symm.trans hpc'
  | skip i n item c hpc' => cases hpc.symm.trans hpc'
  | testThrows i n item c x hpc' => cases hpc.symm.trans hpc'
  | finish i n hpc' => cases hpc.symm.trans hpc'
  | ret i n hpc' => cases hpc.symm.trans hpc'
  | throw i n hpc' => cases hpc.symm.trans hpc'

/-- From `t` on, where no `poll` is running, the first `poll` is called after the steps `mid`; `v`
is the state once `zmq_poll` has returned in it, and in `u`, after the steps `ins`, it has
returned. -/
structure NextPoll (t : State) (mid : List Label) (zmqPoll : ZmqPoll) (ins : List Label)
    (v u : State) (e : List ℕ) : Prop where
  before : ∀ l ∈ mid, ¬ l.isPoll
  called : (machine.exec t (mid ++ [.poll zmqPoll])).map Prod.fst = some v
  inside : machine.Along Inside v ins
  steps : machine.exec v ins = some (u, e)
  returned : u.pc.ranging = false

/-- what was queued in `t` is gone in `u`, and `e` has no invocation of it -/
def CatchesUp (t u : State) (e : List ℕ) : Prop :=
  ∀ it ∈ t.registry.items, it.1.key ∈ t.registry.queuedKeys t.sockets →
    u.registry.Gone it.1.key ∧ it.2 ∉ e

/-- no handler throws; `it` is not ready when the range-for comes to it, and when the range-for ends
its key is queued -/
def Spares (it : PollItem × ℕ) (s : State) : Label → Prop
  | .throw => False
  | .test =>
    match s.pc with
    | .items i n =>
      if i < n then s.registry.items[i]? = some it → s.registry.ready it.1 ≠ .ok true
      else it.1.key ∈ s.registry.queuedKeys s.sockets
    | _ => True
  | _ => True

instance (it : PollItem × ℕ) (s : State) : DecidablePred (Spares it s)
  | .throw => isFalse not_false
  | .test =>
    match h : s.pc with
    | .items i n => decidable_of_iff (if i < n then
          s.registry.items[i]? = some it → s.registry.ready it.1 ≠ .ok true
        else it.1.key ∈ s.registry.queuedKeys s.sockets)
        (by unfold Spares; rw [h])
    | .outside | .item _ _ => isTrue (by unfold Spares; rw [h]; trivial)
  | .call _ | .moved _ _ | .poll _ | .ret => isTrue trivial

/-- the registration `it` is waiting for the end of a dispatch -/
structure Waiting (it : PollItem × ℕ) (s : State) : Prop where
  numbered : Numbered s.registry s.next
  tidy : s.registry.Tidy
  dispatching : s.registry.dispatching = true
  mem : it ∈ s.registry.items

namespace Waiting
variable {it : PollItem × ℕ} {s t : State} {l : Label} {e : List ℕ}

theorem not_gone (h : Waiting it s) : ¬ s.registry.Gone it.1.key :=
  fun hgone => hgone.1 (List.mem_map_of_mem h.mem)

theorem keep (h : Waiting it s) (hs : machine.step s l = some (t, e)) (hnew : AddsNew s l)
    (hd : t.registry.dispatching = true) (hmem : it ∈ t.registry.items) : Waiting it t :=
  ⟨(step_numbered (step_cases hs) h.numbered).1,
    (step_moves hs).keep (fun v => v.registry.Tidy) (fun _ _ hmove => hmove.tidy hnew) h.tidy, hd,
    hmem⟩

/-- what user code does leaves it waiting -/
theorem user (h : Waiting it s) (hs : machine.step s l = some (t, e)) (hnew : AddsNew s l)
    (hl : l.isUser) : Waiting it t ∧ t.pc = s.pc ∧ e = [] := by
  have hkeep := h.keep hs hnew
  cases step_cases hs with
  | add x event hu => exact ⟨hkeep h.dispatching (List.mem_append_left _ h.mem), rfl, rfl⟩
  | remove x hu =>
    have hstep : (Registry.remove s.sockets s.registry x).1 = _ :=
      Registry.remove_dispatching h.dispatching x
    obtain ⟨hitems, hd⟩ := Registry.removeLater_fixed s.registry x
    refine ⟨hkeep ?_ ?_, rfl, rfl⟩
    · show (Registry.remove s.sockets s.registry x).1.dispatching = true
      rw [hstep, hd]
      exact h.dispatching
    · show it ∈ (Registry.remove s.sockets s.registry x).1.items
      rw [hstep, hitems]
      exact h.mem
  | checkFor x event hu p => exact ⟨hkeep h.dispatching h.mem, rfl, rfl⟩
  | moved r p hu => exact ⟨hkeep h.dispatching h.mem, rfl, rfl⟩
  | _ => exact hl.elim

/-- **One step of the dispatch.**  Either it goes on, and the handler of `it` is invoked iff the
step does not spare it; or it is over, and `it` is gone iff the step spares it. -/
theorem step (h : Waiting it s) (hin : s.pc.ranging = true) (hs : machine.step s l = some (t, e))
    (hnew : AddsNew s l) :
    (t.pc.ranging = true ∧ Waiting it t ∧ (it.2 ∉ e ↔ Spares it s l)) ∨
      (t.pc.ranging = false ∧ e = [] ∧ (t.registry.Gone it.1.key ↔ Spares it s l)) := by
  have hkeep := h.keep hs hnew
  have huser : l.isUser → (t.pc.ranging = true ∧ Waiting it t ∧ (it.2 ∉ e ↔ Spares it s l)) := by
    intro hl
    obtain ⟨hwait, hpc, rfl⟩ := h.user hs hnew hl
    refine ⟨hpc ▸ hin, hwait, iff_of_true List.not_mem_nil ?_⟩
    cases l with
    | call c => trivial
    | moved r p => trivial
    | _ => exact hl.elim
  cases step_cases hs with
  | add | remove | checkFor | moved => exact Or.inl (huser trivial)
  | idle zmqPoll p hpc =>
    rw [hpc] at hin
    cases hin
  | poll zmqPoll hpc hpos =>
    rw [hpc] at hin
    cases hin
  | handle i n item c hpc hi hit hready =>
    refine Or.inl ⟨rfl, hkeep h.dispatching h.mem, ?_⟩
    unfold Spares
    rw [hpc]
    dsimp only
    rw [if_pos hi, hit, List.mem_singleton]
    constructor
    · intro hne hsame
      obtain rfl := Option.some.inj hsame
      exact absurd rfl hne
    · intro hspares hc
      have hsame : (item, c) = it :=
        h.numbered.unique (List.mem_of_getElem? hit) h.mem hc.symm
      subst hsame
      exact hspares rfl hready
  | skip i n item c hpc hi hit hready =>
    refine Or.inl ⟨rfl, hkeep h.dispatching h.mem, iff_of_true List.not_mem_nil ?_⟩
    unfold Spares
    rw [hpc]
    dsimp only
    rw [if_pos hi, hit]
    intro hsame
    obtain rfl := Option.some.inj hsame
    rw [hready]
    nofun
  | testThrows i n item c x hpc hi hit hready =>
    obtain ⟨b, hb⟩ := h.tidy.indexed.ready (List.mem_of_getElem? hit)
    cases hb.symm.trans hready
  | finish i n hpc hi =>
    refine Or.inr ⟨rfl, rfl, ?_⟩
    unfold Spares
    rw [hpc]
    dsimp only
    rw [if_neg hi]
    have htidy : (s.registry.setDispatching false).Tidy := h.tidy.of_same rfl rfl
    exact htidy.flush_gone_iff rfl s.sockets h.mem
  | ret i n hpc =>
    exact Or.inl ⟨rfl, hkeep h.dispatching h.mem, iff_of_true List.not_mem_nil trivial⟩
  | throw i n hpc => exact Or.inr ⟨rfl, rfl, iff_of_false h.not_gone not_false⟩

/-- a whole dispatch -/
theorem run {u : State} {ls : List Label} {es : List ℕ} (h : Waiting it s)
    (hin : s.pc.ranging = true) (hinside : machine.Along Inside s ls)
    (hnew : machine.Along AddsNew s ls)
    (hr : machine.exec s ls = some (u, es)) (hu : u.pc.ranging = false) :
    (u.registry.Gone it.1.key ∧ it.2 ∉ es) ↔ machine.Along (Spares it) s ls := by
  induction ls generalizing s es with
  | nil =>
    rw [Lib.Machine.exec_nil] at hr
    cases hr
    cases hin.symm.trans hu
  | cons l ls ih =>
    obtain ⟨t, e, es', hs, hr', rfl⟩ := Lib.Machine.exec_cons hr
    rw [Lib.Machine.along_cons_iff hs, List.mem_append, not_or]
    rcases h.step hin hs hnew.1 with ⟨hpc, hwait, hspares⟩ | ⟨hpc, rfl, hspares⟩
    · rw [← ih hwait hpc (hinside.2 t e hs) (hnew.2 t e hs) hr', ← hspares]
      exact and_left_comm
    · cases ls with
      | cons l' ls => cases (hinside.2 t [] hs).1.symm.trans hpc
      | nil =>
        rw [Lib.Machine.exec_nil] at hr'
        cases hr'
        rw [hspares]
        simp [Lib.Machine.Along]

/-- what comes before the next `poll` -/
theorem outside {ls : List Label} {es : List ℕ} (h : Waiting it s) (hpc : s.pc = .outside)
    (hl : ∀ l ∈ ls, ¬ l.isPoll) (hnew : machine.Along AddsNew s ls)
    (hr : machine.exec s ls = some (t, es)) : Waiting it t ∧ t.pc = .outside := by
  induction ls generalizing s es with
  | nil =>
    rw [Lib.Machine.exec_nil] at hr
    cases hr
    exact ⟨h, hpc⟩
  | cons l ls ih =>
    obtain ⟨v, e, es', hs, hr', rfl⟩ := Lib.Machine.exec_cons hr
    obtain ⟨hwait, hpc', rfl⟩ := h.user hs hnew.1 (isUser_of_step hpc hs (hl l List.mem_cons_self))
    exact ih hwait (hpc'.trans hpc) (fun l' hl' => hl l' (List.mem_cons_of_mem l hl'))
      (hnew.2 v [] hs) hr'

end Waiting

/-- after an exception whatever is registered is waiting -/
theorem waiting_of_throw {sockets : Sockets} {ls : List Label} {t : State} {tr : List ℕ}
    (hr : machine.exec { sockets := sockets } (ls ++ [.throw]) = some (t, tr))
    (hnew : machine.Along AddsNew { sockets := sockets } (ls ++ [.throw])) :
    t.pc = .outside ∧ ∀ it ∈ t.registry.items, Waiting it t := by
  obtain ⟨s, tr', e', hs, hlast, -⟩ := Lib.Machine.exec_split hr
  obtain ⟨t', e, es, hthrow, hnil, -⟩ := Lib.Machine.exec_cons hlast
  rw [Lib.Machine.exec_nil] at hnil
  cases hnil
  have hnum := Lib.Machine.exec_always (fun s _ => Numbered s.registry s.next)
    (fun _ _ _ _ _ hn h => (step_numbered (step_cases h) hn).1) []
    (show Numbered { : Registry } 0 from List.pairwise_singleton _ _) hr
  have htidy := dispatcher.keeps_fresh (fun v => v.registry.Tidy)
    (fun _ _ _ hf hmove => hmove.tidy hf) (s := { sockets := sockets }) Registry.tidy_init hnew hr
  have hstep : Step s .throw t e := step_cases hthrow
  cases hstep with
  | throw i n hpc =>
    have hmark := dispatcher.marked_of_exec (s := { sockets := sockets }) rfl hs
    have hd : s.registry.dispatching = true := hmark (by show s.pc.ranging = true; rw [hpc]; rfl)
    exact ⟨rfl, fun it hit => ⟨hnum, htidy, hd, hit⟩⟩

theorem result_iff (p : Poller) (zmqPoll : ZmqPoll) :
    (p.poll zmqPoll).2 = .ok true ↔ 0 < zmqPoll.result := by
  refine ⟨result_pos, fun h => ?_⟩
  unfold Poller.poll
  rw [if_neg (by omega)]
  exact congrArg Except.ok (decide_eq_true h)

/-- a `poll` dispatches iff `zmq_poll` reports something -/
theorem poll_dispatches (s : State) (zmqPoll : ZmqPoll) :
    (0 < zmqPoll.result ∧ (poll s zmqPoll).pc = .items 0 s.registry.items.length ∧
      (poll s zmqPoll).registry = (polled s zmqPoll).setDispatching true) ∨
    (¬ 0 < zmqPoll.result ∧ (poll s zmqPoll).pc = s.pc ∧
      (poll s zmqPoll).registry.items = s.registry.items) := by
  rw [← result_iff s.registry.poller zmqPoll]
  unfold poll polled
  cases s.registry.poller.poll zmqPoll with
  | mk p res =>
    cases res with
    | error x => exact Or.inr ⟨nofun, rfl, rfl⟩
    | ok b =>
      cases b with
      | false => exact Or.inr ⟨nofun, rfl, rfl⟩
      | true => exact Or.inl ⟨rfl, rfl, rfl⟩

/-- **In a reactor the removals queued before an exception take effect in the next `poll` iff it
dispatches, and spares each of them.** -/
theorem reactor_catchesUp_iff {sockets : Sockets} {ls mid ins : List Label} {zmqPoll : ZmqPoll}
    {t v u : State} {tr e : List ℕ}
    (hr : machine.exec { sockets := sockets } (ls ++ [.throw]) = some (t, tr))
    (hn : NextPoll t mid zmqPoll ins v u e)
    (hnew : machine.Along AddsNew { sockets := sockets }
      ((ls ++ [.throw]) ++ (mid ++ [.poll zmqPoll] ++ ins))) :
    CatchesUp t u e ↔ ∀ it ∈ t.registry.items, it.1.key ∈ t.registry.queuedKeys t.sockets →
      0 < zmqPoll.result ∧ machine.Along (Spares it) v ins := by
  obtain ⟨hnew1, hnew2⟩ := Lib.Machine.along_append hnew hr
  obtain ⟨hpc, hall⟩ := waiting_of_throw hr hnew1
  refine forall₂_congr fun it hit => forall_congr' fun _ => ?_
  obtain ⟨⟨v', es⟩, hcalled, rfl⟩ := Option.map_eq_some_iff.mp hn.called
  obtain ⟨hnew3, hnewIns⟩ := Lib.Machine.along_append hnew2 hcalled
  obtain ⟨w, e1, e2, hmid, hlast, -⟩ := Lib.Machine.exec_split hcalled
  obtain ⟨hnewMid, hnewPoll⟩ := Lib.Machine.along_append hnew3 hmid
  obtain ⟨hwait, hwpc⟩ := (hall it hit).outside hpc hn.before hnewMid hmid
  obtain ⟨v'', e3, es', hpoll, hnil, -⟩ := Lib.Machine.exec_cons hlast
  rw [Lib.Machine.exec_nil] at hnil
  cases hnil
  have hkeep := hwait.keep hpoll hnewPoll.1
  obtain ⟨-, rfl, -⟩ := poll_of_step hpoll
  rcases poll_dispatches w zmqPoll with ⟨hpos, hvpc, hreg⟩ | ⟨hneg, hvpc, hitems⟩
  · have hv : Waiting it (poll w zmqPoll) :=
      hkeep (by rw [hreg]; rfl) (by rw [hreg]; exact hwait.mem)
    rw [hv.run (by rw [hvpc]; rfl) hn.inside hnewIns hn.steps hn.returned]
    exact (and_iff_right hpos).symm
  · refine iff_of_false (fun hgone => ?_) (fun h => hneg h.1)
    have hins : ins = [] := by
      cases ins with
      | nil => rfl
      | cons l ins =>
        have hranging : (poll w zmqPoll).pc.ranging = true := hn.inside.1
        rw [hvpc, hwpc] at hranging
        cases hranging
    subst hins
    have hu := hn.steps
    rw [Lib.Machine.exec_nil] at hu
    cases hu
    apply hgone.1.1
    unfold Registry.registered
    rw [hitems]
    exact List.mem_map_of_mem hwait.mem

end Reactor

namespace Run

def Label.isStart : Label → Prop
  | .start => True
  | _ => False

/-- From `t` on, where no `start` is running, the first `start` is called after the steps `mid`, and
in `u` its first turn has come to the timers. -/
structure NextStart (t : State) (mid : List Label) (now now' passNow : ℤ) (zmqPoll : ZmqPoll)
    (u : State) (e : List Event) : Prop where
  before : ∀ l ∈ mid, ¬ l.isStart
  turned : machine.exec t (mid ++ [.start, .iterate now now' passNow zmqPoll]) = some (u, e)

/-- what was queued in `t` is gone in `u`, and `e` has no invocation of it -/
def CatchesUp (t u : State) (e : List Event) : Prop :=
  ∀ it ∈ t.loop.items, it.1.key ∈ t.loop.queuedKeys t.sockets →
    u.loop.Gone it.1.key ∧ .handled it.2 ∉ e

/-- an exception has left `dispatching_` set, and `it` is registered -/
structure Stuck (it : PollItem × ℕ) (s : State) : Prop where
  outside : s.pc = .outside
  dispatching : s.loop.dispatching = true
  mem : it ∈ s.loop.items

namespace Stuck
variable {it : PollItem × ℕ} {s t : State} {l : Label} {e : List Event}

theorem step (h : Stuck it s) (hs : Step s l t e) (hl : ¬ l.isStart) : Stuck it t := by
  obtain ⟨hpc, hd, hmem⟩ := h
  cases hs with
  | add x event hu => exact ⟨hpc, hd, List.mem_append_left _ hmem⟩
  | remove x hu =>
    have hstep : (Registry.remove s.sockets s.loop.toRegistry x).1 = _ :=
      Registry.remove_dispatching hd x
    obtain ⟨hitems, hdisp⟩ := Registry.removeLater_fixed s.loop.toRegistry x
    refine ⟨hpc, ?_, ?_⟩
    · show (Registry.remove s.sockets s.loop.toRegistry x).1.dispatching = true
      rw [hstep, hdisp]
      exact hd
    · show it ∈ (Registry.remove s.sockets s.loop.toRegistry x).1.items
      rw [hstep, hitems]
      exact hmem
  | addTimer delay times id now hu hclock hid => exact ⟨hpc, hd, hmem⟩
  | reset id now hu hclock =>
    have hreg := reset_toRegistry s.loop now id
    exact ⟨hpc, (congrArg Registry.dispatching hreg).trans hd,
      (congrArg Registry.items hreg).symm ▸ hmem⟩
  | removeTimer id hu =>
    have hreg := removeTimer_rest s.loop id
    exact ⟨hpc, (congrArg Registry.dispatching hreg).trans hd,
      (congrArg Registry.items hreg).symm ▸ hmem⟩
  | moved r p hu => exact ⟨hpc, hd, hmem⟩
  | start hpc' => exact absurd trivial hl
  | throw hu hpc' => exact absurd hpc hpc'
  | flushThrows now now' passNow zmqPoll hpc' => cases hpc.symm.trans hpc'
  | pollThrows now now' passNow zmqPoll p hpc' => cases hpc.symm.trans hpc'
  | iterate now now' passNow zmqPoll p rc hpc' => cases hpc.symm.trans hpc'
  | fire now c rc tm hpc' => cases hpc.symm.trans hpc'
  | timersDone now it rc hpc' => cases hpc.symm.trans hpc'
  | handle i n item c hpc' => cases hpc.symm.trans hpc'
  | skip i n item c hpc' => cases hpc.symm.trans hpc'
  | testThrows i n item c x hpc' => cases hpc.symm.trans hpc'
  | itemsDone i n hpc' => cases hpc.symm.trans hpc'
  | timerTrue now c rc tm hpc' => cases hpc.symm.trans hpc'
  | timerFalse now c rc tm hpc' => cases hpc.symm.trans hpc'
  | itemTrue i n hpc' => cases hpc.symm.trans hpc'
  | itemFalse i n hpc' => cases hpc.symm.trans hpc'

/-- what comes before the next `start` -/
theorem run {ls : List Label} {es : List Event} (h : Stuck it s) (hl : ∀ l ∈ ls, ¬ l.isStart)
    (hr : machine.exec s ls = some (t, es)) : Stuck it t := by
  have hno : machine.Along (fun _ l => ¬ Label.isStart l) s ls :=
    (Lib.Machine.along_labels hr).mpr hl
  refine Lib.Machine.exec_state (Stuck it) ?_ h hno hr
  exact fun _ _ _ _ h hl hs => h.step (step_cases hs) hl

/-- the flush at the head of that `start` loses the queue -/
theorem iterate (h : Stuck it s) {now now' passNow : ℤ} {zmqPoll : ZmqPoll}
    (hs : Step { s with pc := .head } (.iterate now now' passNow zmqPoll) t e) :
    it ∈ t.loop.items ∧ t.loop.Unqueued := by
  have hflush : (flushed { s with pc := .head }).toRegistry
      = { s.loop.toRegistry with fdRemoveLater := [], sockRemoveLater := [] } := by
    have hreg := (Loop.flushRemoveLater_toRegistry s.sockets
      { s.loop with rebuildPoller := false }).1
    rw [Registry.flush_dispatching s.sockets h.dispatching] at hreg
    exact hreg
  have hitems : it ∈ (flushed { s with pc := .head }).items := by
    rw [hflush]
    exact h.mem
  have hqueues : (flushed { s with pc := .head }).Unqueued := by
    rw [hflush]
    exact ⟨rfl, rfl⟩
  cases hs with
  | flushThrows _ _ _ _ hpc hf => exact ⟨hitems, hqueues⟩
  | pollThrows _ _ _ _ p hpc hclock hf => exact ⟨hitems, hqueues⟩
  | iterate _ _ _ _ p rc hpc hclock hf => exact ⟨hitems, hqueues⟩

end Stuck

theorem stuck_of_throw {sockets : Sockets} {clock : ℤ} {ls : List Label} {t : State}
    {tr : List Event}
    (hr : machine.exec { sockets := sockets, clock := clock } (ls ++ [.throw]) = some (t, tr)) :
    ∀ it ∈ t.loop.items, Stuck it t := by
  obtain ⟨s, tr', e', hs, hlast, -⟩ := Lib.Machine.exec_split hr
  obtain ⟨t', e, es, hthrow, hnil, -⟩ := Lib.Machine.exec_cons hlast
  rw [Lib.Machine.exec_nil] at hnil
  cases hnil
  have hstep : Step s .throw t e := step_cases hthrow
  cases hstep with
  | throw hu hpc =>
    have hmark := dispatcher.marked_of_exec (s := { sockets := sockets, clock := clock }) rfl hs
    have hin : s.pc.dispatches = true := by
      cases h : s.pc with
      | outside => exact absurd h hpc
      | timer now it rc => rfl
      | item i n => rfl
      | _ =>
        rw [h] at hu
        cases hu
    exact fun it hit => ⟨rfl, hmark hin, hit⟩

/-- **In a loop the removals queued before an exception are lost in the next `start`.** -/
theorem loop_forgets {sockets : Sockets} {clock : ℤ} {ls mid : List Label}
    {now now' passNow : ℤ} {zmqPoll : ZmqPoll} {t u : State} {tr e : List Event}
    (hr : machine.exec { sockets := sockets, clock := clock } (ls ++ [.throw]) = some (t, tr))
    (hn : NextStart t mid now now' passNow zmqPoll u e) {it : PollItem × ℕ}
    (hit : it ∈ t.loop.items) : it ∈ u.loop.items ∧ u.loop.Unqueued := by
  obtain ⟨w, e1, e2, hmid, hrest, -⟩ := Lib.Machine.exec_split hn.turned
  obtain ⟨w', e3, e4, hstart, hrest', -⟩ := Lib.Machine.exec_cons hrest
  obtain ⟨u', e5, e6, hiter, hnil, -⟩ := Lib.Machine.exec_cons hrest'
  rw [Lib.Machine.exec_nil] at hnil
  cases hnil
  have hstart : Step w .start w' e3 := step_cases hstart
  cases hstart with
  | start hpc => exact ((stuck_of_throw hr it hit).run hn.before hmid).iterate (step_cases hiter)

theorem loop_catchesUp_iff {sockets : Sockets} {clock : ℤ} {ls mid : List Label}
    {now now' passNow : ℤ} {zmqPoll : ZmqPoll} {t u : State} {tr e : List Event}
    (hr : machine.exec { sockets := sockets, clock := clock } (ls ++ [.throw]) = some (t, tr))
    (hn : NextStart t mid now now' passNow zmqPoll u e) :
    (CatchesUp t u e ↔ ∀ it ∈ t.loop.items, it.1.key ∉ t.loop.queuedKeys t.sockets) ∧
      ∀ it ∈ t.loop.items, it ∈ u.loop.items ∧ u.loop.Unqueued := by
  refine ⟨forall₂_congr fun it hit => imp_congr_right fun _ => ?_, fun it => loop_forgets hr hn⟩
  have hmem := (loop_forgets hr hn hit).1
  exact iff_of_false (fun h => h.1.1 (List.mem_map_of_mem hmem)) not_false

end Run

/-- descriptor 3, the first one polled, is ready -/
def firstReady : ZmqPoll := ⟨fun i => some (if i = 0 then 1 else 0), 1, .eintr⟩

/-- the handler of descriptor 3 removes descriptor 4 -/
def removesOther : List Reactor.Label :=
  [.call (.add (.fd 3) 1), .call (.add (.fd 4) 1), .poll firstReady, .test,
   .call (.remove (.fd 4))]

/-- the handler of descriptor 3 returns, and descriptor 4 is not ready -/
def returns : List Reactor.Label := [.test, .ret, .test, .test]

/-- the handler of descriptor 3 throws, and in the next `start` it ends the loop -/
def throwsOnce : List Run.Label :=
  [.call (.add (.fd 3) 1), .start, .iterate 0 0 0 firstReady, .test, .test, .throw]

/-- the handler of descriptor 3 is invoked by a reactor -/
def handlerOfReactor : List Reactor.Label :=
  [.call (.add (.fd 3) 1), .poll ⟨fun _ => some 1, 1, .eintr⟩, .test]

/-- the handler of descriptor 3 is invoked by a loop, and removes it -/
def handlerOfLoop : List Run.Label :=
  [.call (.add (.fd 3) 1), .start, .iterate 0 0 0 ⟨fun _ => some 1, 1, .eintr⟩, .test, .test,
   .call (.remove (.fd 3))]

end Zmqpp
