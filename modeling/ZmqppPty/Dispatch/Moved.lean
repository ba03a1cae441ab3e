import ZmqppPty.Dispatch.Deferred

/-!
# Sockets that are closed or moved while their removal is queued

The queue of removals holds the addresses of socket objects; the flush reads the pointers they hold
by then.

* `Action`, `act`        what the handlers of a pass do: calls, and changes of socket objects;
* `meant`                the registrations that the removals name when they are made;
* `atFlush`              the keys of the same targets after the last action;
* `RemovesMeant`         the flush takes out the registrations that were meant and no others;
* `each_act`             what a pass leaves;
* `removes_meant_iff`    the flush does so iff, among the registrations there are by then, those
                         keys name the ones that were meant.
-/

namespace Zmqpp
namespace Registry

inductive Action where
  | call (c : Call)
  /-- the socket object holds another pointer from now on -/
  | moved (s : SocketRef) (p : Option Handle)

def act (st : Registry × Sockets) : Action → (Registry × Sockets) × Except Exn Unit
  | .call c => (((call st.2 st.1 c).1, st.2), (call st.2 st.1 c).2)
  | .moved s p => ((st.1, Function.update st.2 s p), .ok ())

/-- a pass whose handlers act so, and the flush after it -/
def dispatch (sockets : Sockets) (r : Registry) (acts : List Action) :
    Registry × Except Exn Unit :=
  match Lib.each act acts (r.setDispatching true, sockets) with
  | (st, .ok ()) => flushRemoveLater st.2 (st.1.setDispatching false)
  | (st, .error e) => (st.1, .error e)

/-- what the socket objects hold in the end -/
def finalSockets : Sockets → List Action → Sockets
  | sockets, [] => sockets
  | sockets, .call _ :: acts => finalSockets sockets acts
  | sockets, .moved s p :: acts => finalSockets (Function.update sockets s p) acts

/-- the registrations that are added -/
def added : Sockets → List Action → List (PollItem × ℕ)
  | _, [] => []
  | sockets, .call (.add x callable event) :: acts =>
    (x.item sockets event, callable) :: added sockets acts
  | sockets, .call (.remove _) :: acts => added sockets acts
  | sockets, .moved s p :: acts => added (Function.update sockets s p) acts

/-- the targets of the removals -/
def removed : List Action → List Target
  | [] => []
  | .call (.add _ _ _) :: acts => removed acts
  | .call (.remove x) :: acts => x :: removed acts
  | .moved _ _ :: acts => removed acts

/-- the registrations that a removal names when it is asked for; one that is added afterwards is not
among them, even under the same key -/
def meant : List (PollItem × ℕ) → Sockets → List Action → List (PollItem × ℕ)
  | _, _, [] => []
  | items, sockets, .call (.add x callable event) :: acts =>
    meant (items ++ [(x.item sockets event, callable)]) sockets acts
  | items, sockets, .call (.remove x) :: acts =>
    (items.filter fun it => x.key sockets = some it.1.key) ++ meant items sockets acts
  | items, sockets, .moved s p :: acts => meant items (Function.update sockets s p) acts

def atFlush (sockets : Sockets) (acts : List Action) : List Key :=
  (removed acts).filterMap (Target.key (finalSockets sockets acts))

/-- the registrations before the pass and those added in it -/
def present (sockets : Sockets) (r : Registry) (acts : List Action) : List (PollItem × ℕ) :=
  r.items ++ added sockets acts

/-- `t` has the registrations of the pass but those meant, and the poller an item for each -/
def RemovesMeant (sockets : Sockets) (r : Registry) (acts : List Action)
    (t : Registry × Except Exn Unit) : Prop :=
  t.2 = .ok () ∧
  t.1.items = ((present sockets r acts).filter fun it => it ∉ meant r.items sockets acts) ∧
  ∀ k, t.1.poller.copies k = t.1.registered.count k

/-- at the flush the targets denote the registrations that they denoted when they were removed -/
def DenotesStill (sockets : Sockets) (r : Registry) (acts : List Action) : Prop :=
  ∀ it ∈ present sockets r acts,
    (it.1.key ∈ atFlush sockets acts ↔ it ∈ meant r.items sockets acts)

instance (sockets : Sockets) (r : Registry) (acts : List Action) :
    Decidable (DenotesStill sockets r acts) :=
  inferInstanceAs (Decidable (∀ it ∈ present sockets r acts,
    (it.1.key ∈ atFlush sockets acts ↔ it ∈ meant r.items sockets acts)))

/-! ## the pass -/

/-- what a pass that began with `r` leaves before its flush -/
structure Passed (sockets : Sockets) (r : Registry) (acts : List Action) (t : Registry) : Prop where
  items : t.items = present sockets r acts
  polled : ∃ m, Polled t m
  queued : ∀ sockets' k, k ∈ t.queuedKeys sockets' ↔
    k ∈ r.queuedKeys sockets' ∨ ∃ x ∈ removed acts, x.key sockets' = some k

theorem each_act {sockets : Sockets} {r : Registry} {acts : List Action}
    (hd : r.dispatching = true) (hp : ∃ m, Polled r m)
    (hn : ((present sockets r acts).map fun it => it.1.key).Nodup) :
    ∃ t, Lib.each act acts (r, sockets) = ((t, finalSockets sockets acts), .ok ()) ∧
      Passed sockets r acts t := by
  induction acts generalizing sockets r with
  | nil =>
    refine ⟨r, rfl, (List.append_nil _).symm, hp, fun sockets' k => ?_⟩
    simp [removed]
  | cons a acts ih =>
    cases a with
    | moved s p =>
      obtain ⟨t, heach, ht⟩ := @ih (Function.update sockets s p) r hd hp hn
      exact ⟨t, heach, ht.items, ht.polled, ht.queued⟩
    | call c =>
      cases c with
      | add x callable event =>
        obtain ⟨m, hm⟩ := hp
        have hpresent : present sockets (r.add sockets x callable event) acts
            = present sockets r (.call (.add x callable event) :: acts) :=
          List.append_assoc _ _ _
        have habsent : (x.item sockets event).key ∉ r.registered := by
          intro hmem
          unfold present at hn
          rw [List.map_append, List.nodup_append] at hn
          exact hn.2.2 _ hmem _ List.mem_cons_self rfl
        obtain ⟨t, heach, ht⟩ := ih (r := r.add sockets x callable event) hd
          ⟨_, polled_add_item hm sockets x habsent callable⟩ (by rw [hpresent]; exact hn)
        exact ⟨t, heach, ht.items.trans hpresent, ht.polled, ht.queued⟩
      | remove x =>
        obtain ⟨hpoller, hitems, hdisp⟩ := removeLater_rest r x
        have hstep : act (r, sockets) (.call (.remove x)) = ((r.removeLater x, sockets), .ok ()) := by
          show (((call sockets r (.remove x)).1, sockets), (call sockets r (.remove x)).2) = _
          rw [call_remove_dispatching hd]
        have hpresent : present sockets (r.removeLater x) acts
            = present sockets r (.call (.remove x) :: acts) := by
          unfold present
          rw [hitems]
          rfl
        have hp' : ∃ m, Polled (r.removeLater x) m := by
          obtain ⟨m, hm⟩ := hp
          refine ⟨m, ?_⟩
          unfold Polled registered
          rw [hpoller, hitems]
          exact hm
        obtain ⟨t, heach, ht⟩ := ih (hdisp.trans hd) hp' (by rw [hpresent]; exact hn)
        refine ⟨t, ?_, ht.items.trans hpresent, ht.polled, fun sockets' k => ?_⟩
        · rw [Lib.each_cons_ok (by rw [hstep]), hstep]
          exact heach
        · rw [ht.queued, mem_queuedKeys_removeLater, or_assoc]
          show _ ↔ _ ∨ ∃ y ∈ x :: removed acts, y.key sockets' = some k
          rw [List.exists_mem_cons_iff]

/-! ## the flush -/

theorem mem_atFlush {sockets : Sockets} {acts : List Action} {k : Key} :
    k ∈ atFlush sockets acts ↔
      ∃ x ∈ removed acts, x.key (finalSockets sockets acts) = some k :=
  List.mem_filterMap

/-- the flush takes out the keys that the targets have by then -/
theorem dispatch_spec {sockets : Sockets} {r : Registry} {acts : List Action} (hr : r.Distinct)
    (hn : ((present sockets r acts).map fun it => it.1.key).Nodup) :
    (dispatch sockets r acts).2 = .ok () ∧
      (dispatch sockets r acts).1.items
        = ((present sockets r acts).filter fun it => it.1.key ∉ atFlush sockets acts) ∧
      ∀ k, (dispatch sockets r acts).1.poller.copies k
        = (dispatch sockets r acts).1.registered.count k := by
  obtain ⟨t, heach, ht⟩ := @each_act sockets (r.setDispatching true) acts rfl hr.polled hn
  obtain ⟨m, hm⟩ := ht.polled
  have hm' : Polled (t.setDispatching false) m := hm
  have hkeys : ∀ k, k ∈ (t.setDispatching false).queuedKeys (finalSockets sockets acts) ↔
      k ∈ atFlush sockets acts := by
    intro k
    have hnone : k ∉ (r.setDispatching true).queuedKeys (finalSockets sockets acts) := by
      show k ∉ r.fdRemoveLater.map _ ++ r.sockRemoveLater.filterMap _
      rw [hr.noFd, hr.noSock]
      exact List.not_mem_nil
    show k ∈ t.queuedKeys (finalSockets sockets acts) ↔ _
    rw [ht.queued, mem_atFlush]
    exact or_iff_right hnone
  obtain ⟨hok, hpolled⟩ := eraseKeys_polled hm'
    ((t.setDispatching false).queuedKeys (finalSockets sockets acts))
  have hitems := eraseKeys_items hok
  have hdispatch : dispatch sockets r acts
      = ({ (eraseKeys (t.setDispatching false)
          ((t.setDispatching false).queuedKeys (finalSockets sockets acts))).1 with
            fdRemoveLater := [], sockRemoveLater := [] }, .ok ()) := by
    unfold dispatch
    rw [heach]
    show flushRemoveLater (finalSockets sockets acts) (t.setDispatching false) = _
    rw [flushRemoveLater_eq _ rfl, show eraseKeys _ _ = (_, .ok ()) from Prod.ext rfl hok]
  rw [hdispatch]
  refine ⟨rfl, ?_, fun k => copies_of_polled hpolled ?_ k⟩
  · show (eraseKeys _ _).1.items = _
    rw [hitems]
    show t.items.filter _ = _
    rw [ht.items]
    apply List.filter_congr
    intro it _
    rw [decide_eq_decide, not_iff_not]
    exact hkeys it.1.key
  · show ((eraseKeys _ _).1.items.map fun it => it.1.key).Nodup
    rw [hitems]
    show ((t.items.filter _).map _).Nodup
    rw [ht.items]
    exact hn.sublist (List.filter_sublist.map _)

/-- two filters leave the same iff they agree on the list -/
theorem filter_eq_filter_iff {α : Type*} {l : List α} {p q : α → Bool} :
    l.filter p = l.filter q ↔ ∀ a ∈ l, p a = q a := by
  constructor
  · intro h a ha
    have hp : a ∈ l.filter p ↔ p a = true := by simp [ha]
    have hq : a ∈ l.filter q ↔ q a = true := by simp [ha]
    rw [h, hq] at hp
    exact Bool.eq_iff_iff.mpr hp.symm
  · exact fun h => List.filter_congr h

theorem registry_removes_meant {sockets : Sockets} {r : Registry} {acts : List Action}
    (hr : r.Distinct) (hn : ((present sockets r acts).map fun it => it.1.key).Nodup) :
    RemovesMeant sockets r acts (dispatch sockets r acts) ↔ DenotesStill sockets r acts := by
  obtain ⟨hok, hitems, hcopies⟩ := dispatch_spec hr hn
  unfold RemovesMeant DenotesStill
  rw [hitems, filter_eq_filter_iff]
  constructor
  · intro h it hit
    have hsame := h.2.1 it hit
    rw [decide_eq_decide, not_iff_not] at hsame
    exact hsame
  · intro h
    refine ⟨hok, fun it hit => ?_, hcopies⟩
    rw [decide_eq_decide, not_iff_not]
    exact h it hit

end Registry

/-! ## the same for a loop -/

namespace Loop
open Registry (Action)

def act (sl : Loop × Sockets) : Action → (Loop × Sockets) × Except Exn Unit
  | .call c => (((call sl.2 sl.1 c).1, sl.2), (call sl.2 sl.1 c).2)
  | .moved s p => ((sl.1, Function.update sl.2 s p), .ok ())

/-- a pass whose handlers act so, and the flush after it -/
def dispatch (sockets : Sockets) (l : Loop) (acts : List Action) : Loop × Except Exn Unit :=
  match Lib.each act acts (l.setDispatching true, sockets) with
  | (sl, .ok ()) => flushRemoveLater sl.2 (sl.1.setDispatching false)
  | (sl, .error e) => (sl.1, .error e)

theorem dispatch_toRegistry (sockets : Sockets) (l : Loop) (acts : List Action) :
    (dispatch sockets l acts).1.toRegistry = (Registry.dispatch sockets l.toRegistry acts).1 ∧
      (dispatch sockets l acts).2 = (Registry.dispatch sockets l.toRegistry acts).2 := by
  have hact : ∀ (sl : Loop × Sockets) (a : Action),
      ((act sl a).1.1.toRegistry, (act sl a).1.2) = (Registry.act (sl.1.toRegistry, sl.2) a).1 ∧
        (act sl a).2 = (Registry.act (sl.1.toRegistry, sl.2) a).2 := by
    intro sl a
    cases a with
    | moved s p => exact ⟨rfl, rfl⟩
    | call c =>
      obtain ⟨h1, h2⟩ := call_toRegistry sl.2 sl.1 c
      exact ⟨Prod.ext h1 rfl, h2⟩
  obtain ⟨h1, h2⟩ := Lib.each_proj (fun sl : Loop × Sockets => (sl.1.toRegistry, sl.2)) hact acts
    (l.setDispatching true, sockets)
  unfold dispatch Registry.dispatch
  cases hp : Lib.each act acts (l.setDispatching true, sockets) with
  | mk sl res =>
    rw [hp] at h1 h2
    dsimp only at h1 h2
    change _ = (Lib.each Registry.act acts (l.toRegistry.setDispatching true, sockets)).1 at h1
    change _ = (Lib.each Registry.act acts (l.toRegistry.setDispatching true, sockets)).2 at h2
    cases hq : Lib.each Registry.act acts (l.toRegistry.setDispatching true, sockets) with
    | mk st res' =>
      rw [hq] at h1 h2
      dsimp only at h1 h2
      subst h1
      subst h2
      cases res with
      | error e => exact ⟨rfl, rfl⟩
      | ok u => exact flushRemoveLater_toRegistry sl.2 (sl.1.setDispatching false)

end Loop

/-- **A removal in a dispatch takes out what its target denoted iff the target denotes the same at
the flush**, in a reactor and in a loop. -/
theorem removes_meant_iff (sockets : Sockets) (r : Registry) (acts : List Registry.Action)
    (hr : r.Distinct) (hn : ((Registry.present sockets r acts).map fun it => it.1.key).Nodup) :
    (Registry.RemovesMeant sockets r acts (Registry.dispatch sockets r acts) ↔
      Registry.DenotesStill sockets r acts) ∧
    ∀ l : Loop, l.toRegistry = r →
      (Registry.RemovesMeant sockets r acts
        ((Loop.dispatch sockets l acts).1.toRegistry, (Loop.dispatch sockets l acts).2) ↔
      Registry.DenotesStill sockets r acts) := by
  have h := Registry.registry_removes_meant hr hn
  refine ⟨h, ?_⟩
  intro l hl
  obtain ⟨h1, h2⟩ := Loop.dispatch_toRegistry sockets l acts
  rw [h1, h2, hl]
  exact h

/-- the socket object 1 holds pointer 7, and nothing else is open -/
def oneSocket : Sockets := Function.update (fun _ => none) 1 (some 7)

def oneSocketRegistered : Registry := ({} : Registry).add oneSocket (.socket 1) 0 pollIn

theorem oneSocket_distinct : oneSocketRegistered.Distinct :=
  Registry.distinct_empty.add rfl (by simp [Registry.registered]) 0 pollIn

/-- a socket is removed and stays open, another one is closed -/
theorem removes_meant_open :
    Registry.RemovesMeant oneSocket oneSocketRegistered [.call (.remove (.socket 1)), .moved 2 none]
      (Registry.dispatch oneSocket oneSocketRegistered
        [.call (.remove (.socket 1)), .moved 2 none]) :=
  (removes_meant_iff oneSocket oneSocketRegistered [.call (.remove (.socket 1)), .moved 2 none]
    oneSocket_distinct (by decide +kernel)).1.mpr (by decide +kernel)

/-- **A handler removes a socket and closes it**: the registration stays, in `items_` and in the
poller. -/
theorem removed_and_closed_stays :
    oneSocketRegistered.Distinct ∧
    (Registry.dispatch oneSocket oneSocketRegistered
      [.call (.remove (.socket 1)), .moved 1 none]).1.items = [(⟨some 7, 0, pollIn, 0⟩, 0)] ∧
    (Registry.dispatch oneSocket oneSocketRegistered
      [.call (.remove (.socket 1)), .moved 1 none]).1.poller.items = [⟨some 7, 0, pollIn, 0⟩] ∧
    ¬ Registry.RemovesMeant oneSocket oneSocketRegistered
      [.call (.remove (.socket 1)), .moved 1 none]
      (Registry.dispatch oneSocket oneSocketRegistered
        [.call (.remove (.socket 1)), .moved 1 none]) := by
  have hitems : (Registry.dispatch oneSocket oneSocketRegistered
      [.call (.remove (.socket 1)), .moved 1 none]).1.items = [(⟨some 7, 0, pollIn, 0⟩, 0)] := by
    decide +kernel
  refine ⟨oneSocket_distinct, hitems, by decide +kernel, ?_⟩
  intro h
  have hgone := h.2.1
  rw [hitems] at hgone
  exact absurd hgone (by decide +kernel)

end Zmqpp
