import ZmqppPty.Poller.Refine
import ZmqppPty.Dispatch.Loop

/-!
# Removals queued during a dispatch

While handlers run, additions take effect at once and removals are queued; the flush afterwards
erases the queued keys.  The same calls outside a dispatch take effect one by one.

* `deferred`, `immediate`      the two ways to carry out a list of calls;
* `DeferredIsImmediate`        they end with the same registrations and the same polled items;
* `registeredAfter`            the last call on a key decides whether it is registered in the end;
* `immediate_spec`, `pass_spec`   what each way leaves, key by key;
* `deferred_iff`               the two agree iff every key that is removed stays away in the end and
                               is counted at most once, before the pass and among its additions.
-/

namespace Zmqpp
namespace Registry

inductive Call where
  | add (x : Target) (callable : ℕ) (event : Short)
  | remove (x : Target)

namespace Call

def target : Call → Target
  | .add x _ _ => x
  | .remove x => x

def isAdd : Call → Bool
  | .add _ _ _ => true
  | .remove _ => false

/-- the call adds a registration of `k` -/
def adds (sockets : Sockets) (k : Key) (c : Call) : Bool :=
  c.isAdd && c.target.key sockets == some k

/-- the call asks for the removal of `k` -/
def removes (sockets : Sockets) (k : Key) (c : Call) : Bool :=
  !c.isAdd && c.target.key sockets == some k

end Call

def call (sockets : Sockets) (r : Registry) : Call → Registry × Except Exn Unit
  | .add x callable event => (r.add sockets x callable event, .ok ())
  | .remove x => r.remove sockets x

/-- the calls made outside a dispatch -/
def immediate (sockets : Sockets) (r : Registry) (calls : List Call) :
    Registry × Except Exn Unit :=
  Lib.each (call sockets) calls r

/-- the calls made by the handlers of one pass -/
def pass (sockets : Sockets) (r : Registry) (calls : List Call) : Registry × Except Exn Unit :=
  Lib.each (call sockets) calls (r.setDispatching true)

/-- the pass, and the flush after it -/
def deferred (sockets : Sockets) (r : Registry) (calls : List Call) :
    Registry × Except Exn Unit :=
  match pass sockets r calls with
  | (t, .ok ()) => flushRemoveLater sockets (t.setDispatching false)
  | (t, .error e) => (t, .error e)

/-- both ways return, with the same `items_` and up to order the same items in the poller -/
def DeferredIsImmediate (sockets : Sockets) (r : Registry) (calls : List Call) : Prop :=
  (deferred sockets r calls).2 = .ok () ∧ (immediate sockets r calls).2 = .ok () ∧
  (deferred sockets r calls).1.items = (immediate sockets r calls).1.items ∧
  (deferred sockets r calls).1.poller.items.Perm (immediate sockets r calls).1.poller.items

def registered (r : Registry) : List Key := r.items.map fun it => it.1.key

/-- the registered keys are pairwise distinct, and the poller has one item for each and no others -/
def Polled (r : Registry) (m : Poller.PollMap) : Prop :=
  Poller.Represents r.poller m ∧ ∀ k, m k = none ↔ k ∉ r.registered

structure Distinct (r : Registry) : Prop where
  nodup : r.registered.Nodup
  polled : ∃ m, Polled r m
  noSock : r.sockRemoveLater = []
  noFd : r.fdRemoveLater = []
  idle : r.dispatching = false

/-- every call is on a live socket or a descriptor -/
def Live (sockets : Sockets) (calls : List Call) : Prop :=
  ∀ c ∈ calls, ∃ k, c.target.key sockets = some k

/-- a key is added only when the calls so far have left it unregistered -/
def AddsAbsent (sockets : Sockets) (r : Registry) (calls : List Call) : Prop :=
  ∀ pre c post, calls = pre ++ c :: post → ∀ k, c.adds sockets k = true →
    k ∉ (immediate sockets r pre).1.registered

/-- whether `k` is registered after the calls in program order: the last call on it decides -/
def registeredAfter (sockets : Sockets) (k : Key) (before : Bool) (calls : List Call) : Bool :=
  calls.foldl (fun b c => if c.adds sockets k then true else if c.removes sockets k then false
    else b) before

/-- the last call on a removed key is a removal, and there is one registration of it at most -/
def RemovedForGood (sockets : Sockets) (r : Registry) (calls : List Call) : Prop :=
  ∀ k, (∃ c ∈ calls, c.removes sockets k = true) →
    registeredAfter sockets k (decide (k ∈ r.registered)) calls = false ∧
    r.registered.count k + calls.countP (Call.adds sockets k) ≤ 1

/-! ## one call outside a dispatch -/

theorem polled_add_item {r : Registry} {m : Poller.PollMap} (h : Polled r m) (sockets : Sockets)
    (x : Target) {event : Short} (hk : (x.item sockets event).key ∉ r.registered) (callable : ℕ) :
    Polled (r.add sockets x callable event)
      (Function.update m (x.item sockets event).key (some ⟨event, 0⟩)) := by
  have hadd := h.1.add event ((h.2 _).mpr hk)
  rw [← Target.item_eq] at hadd
  refine ⟨hadd, fun k' => ?_⟩
  show _ ↔ k' ∉ (r.items ++ [(x.item sockets event, callable)]).map fun it => it.1.key
  rw [List.map_append, List.map_singleton, List.mem_append, List.mem_singleton,
    Function.update_apply]
  by_cases e : k' = (x.item sockets event).key
  · simp [e]
  · simp [e, h.2 k', registered]

theorem polled_add {r : Registry} {m : Poller.PollMap} (h : Polled r m) {sockets : Sockets}
    {x : Target} {k : Key} (hx : x.key sockets = some k) (hk : k ∉ r.registered) (callable : ℕ)
    (event : Short) :
    Polled (r.add sockets x callable event) (Function.update m k (some ⟨event, 0⟩)) := by
  have hkey : (x.item sockets event).key = k := by
    rw [Target.item_of_key hx, k.item_key]
  have hadd := polled_add_item h sockets x (hkey.symm ▸ hk) callable
  rwa [hkey] at hadd

theorem polled_eraseKey {r : Registry} {m : Poller.PollMap} (h : Polled r m) (k : Key) :
    (r.eraseKey k).2 = .ok () ∧ Polled (r.eraseKey k).1 (Function.update m k none) := by
  have hrep := h.1
  refine ⟨Poller.removeKey_ok hrep.sound hrep.complete (hrep.copies_le k), hrep.removeKey k, ?_⟩
  intro k'
  unfold eraseKey registered
  dsimp only
  rw [Function.update_apply]
  by_cases e : k' = k
  · simp [e]
  · rw [if_neg e, h.2 k']
    unfold registered
    rw [not_iff_not, List.mem_map, List.mem_map]
    constructor
    · intro hmem
      obtain ⟨it, hit, hk⟩ := hmem
      exact ⟨it, List.mem_filter.mpr ⟨hit, by simpa [hk] using e⟩, hk⟩
    · intro hmem
      obtain ⟨it, hit, hk⟩ := hmem
      exact ⟨it, List.mem_of_mem_filter hit, hk⟩

/-- the items of a poller are determined by its map, up to order -/
theorem perm_of_represents {p q : Poller} {m : Poller.PollMap} (hp : Poller.Represents p m)
    (hq : Poller.Represents q m) : p.items.Perm q.items := by
  rw [List.perm_iff_count]
  intro it
  have hcount : ∀ l : List PollItem,
      l.count it = (l.filter fun it' => it'.key = it.key).count it := by
    intro l
    rw [List.count_filter (by simp)]
  rw [hcount, hcount q.items, hp.items_of_key, hq.items_of_key]

theorem copies_of_polled {r : Registry} {m : Poller.PollMap} (h : Polled r m)
    (hn : r.registered.Nodup) (k : Key) : r.poller.copies k = r.registered.count k := by
  have h1 := h.1.copies_le k
  have h2 := List.nodup_iff_count_le_one.mp hn k
  have h3 : r.poller.copies k = 0 ↔ k ∉ r.registered := by
    rw [← h.2 k, ← h.1.indexed k, Poller.copies_eq_zero]
    constructor
    · intro hno
      cases hf : r.poller.find k with
      | none => rfl
      | some i =>
        obtain ⟨it, hit, hk⟩ := h.1.sound k i hf
        exact absurd hk (hno it (List.mem_of_getElem? hit))
    · intro hf it hit hk
      exact h.1.complete it hit (hk ▸ hf)
  rw [← List.count_eq_zero] at h3
  omega

/-! ## the calls outside a dispatch -/

theorem Live.left {sockets : Sockets} {a b : List Call} (h : Live sockets (a ++ b)) :
    Live sockets a := fun c hc => h c (List.mem_append_left b hc)

theorem AddsAbsent.left {sockets : Sockets} {r : Registry} {a b : List Call}
    (h : AddsAbsent sockets r (a ++ b)) : AddsAbsent sockets r a := by
  intro pre c post e
  apply h pre c (post ++ b)
  rw [e, List.append_assoc, List.cons_append]

theorem registeredAfter_concat (sockets : Sockets) (k : Key) (b : Bool) (cs : List Call)
    (c : Call) :
    registeredAfter sockets k b (cs ++ [c]) =
      if c.adds sockets k then true else if c.removes sockets k then false
      else registeredAfter sockets k b cs := by
  unfold registeredAfter
  rw [List.foldl_append]
  rfl

theorem adds_iff {sockets : Sockets} {x : Target} {k k' : Key} (hx : x.key sockets = some k)
    (callable : ℕ) (event : Short) :
    (Call.add x callable event).adds sockets k' = true ↔ k' = k := by
  show (true && x.key sockets == some k') = true ↔ _
  rw [hx, Bool.true_and, beq_iff_eq, Option.some.injEq]
  exact eq_comm

theorem removes_iff {sockets : Sockets} {x : Target} {k k' : Key} (hx : x.key sockets = some k) :
    (Call.remove x).removes sockets k' = true ↔ k' = k := by
  show (true && x.key sockets == some k') = true ↔ _
  rw [hx, Bool.true_and, beq_iff_eq, Option.some.injEq]
  exact eq_comm

theorem call_remove_idle {sockets : Sockets} {r : Registry} (hd : r.dispatching = false)
    {x : Target} {k : Key} (hx : x.key sockets = some k) :
    call sockets r (.remove x) = r.eraseKey k := by
  show remove sockets r x = _
  unfold remove
  rw [hd, hx]
  rfl

theorem call_remove_dispatching {sockets : Sockets} {r : Registry} (hd : r.dispatching = true)
    (x : Target) : call sockets r (.remove x) = (r.removeLater x, .ok ()) := by
  show remove sockets r x = _
  unfold remove
  rw [hd]
  rfl

theorem registered_add {sockets : Sockets} {r : Registry} {x : Target} {k : Key}
    (hx : x.key sockets = some k) (callable : ℕ) (event : Short) :
    (r.add sockets x callable event).registered = r.registered ++ [k] := by
  unfold registered add
  dsimp only
  rw [List.map_append, List.map_singleton, Target.item_of_key hx, k.item_key]

theorem mem_registered_eraseKey (r : Registry) (k k' : Key) :
    k' ∈ (r.eraseKey k).1.registered ↔ k' ∈ r.registered ∧ k' ≠ k := by
  unfold registered eraseKey
  dsimp only
  rw [List.mem_map, List.mem_map]
  constructor
  · intro hmem
    obtain ⟨it, hit, rfl⟩ := hmem
    have := List.mem_filter.mp hit
    exact ⟨⟨it, this.1, rfl⟩, by simpa using this.2⟩
  · intro hmem
    obtain ⟨⟨it, hit, rfl⟩, hne⟩ := hmem
    exact ⟨it, List.mem_filter.mpr ⟨hit, by simpa using hne⟩, rfl⟩

/-- what the calls outside a dispatch leave -/
structure ImmediateSpec (sockets : Sockets) (r : Registry) (calls : List Call) : Prop where
  returns : (immediate sockets r calls).2 = .ok ()
  idle : (immediate sockets r calls).1.dispatching = false
  polled : ∃ m, Polled (immediate sockets r calls).1 m
  registered : ∀ k, k ∈ (immediate sockets r calls).1.registered ↔
    registeredAfter sockets k (decide (k ∈ r.registered)) calls = true

theorem immediate_concat {sockets : Sockets} {r : Registry} {cs : List Call} {c : Call}
    (h : (immediate sockets r cs).2 = .ok ()) :
    immediate sockets r (cs ++ [c]) = call sockets (immediate sockets r cs).1 c :=
  Lib.each_concat h

theorem immediate_spec {sockets : Sockets} {r : Registry} {calls : List Call} (hr : Distinct r)
    (hlive : Live sockets calls) (hadd : AddsAbsent sockets r calls) :
    ImmediateSpec sockets r calls := by
  induction calls using List.reverseRecOn with
  | nil => exact ⟨rfl, hr.idle, hr.polled, fun k => by simp [immediate, Lib.each, registeredAfter]⟩
  | append_singleton cs c ih =>
    have h := ih hlive.left hadd.left
    obtain ⟨k, hk⟩ := hlive c (by simp)
    obtain ⟨m, hm⟩ := h.polled
    have hstep : immediate sockets r (cs ++ [c]) = _ := immediate_concat h.returns
    cases c with
    | add x callable event =>
      change x.key sockets = some k at hk
      have habsent : k ∉ (immediate sockets r cs).1.registered :=
        hadd cs _ [] rfl k ((adds_iff hk callable event).mpr rfl)
      refine ⟨by rw [hstep]; rfl, by rw [hstep]; exact h.idle, ?_, fun k' => ?_⟩
      · rw [hstep]
        exact ⟨_, polled_add hm hk habsent callable event⟩
      · rw [hstep, registeredAfter_concat]
        show k' ∈ ((immediate sockets r cs).1.add sockets x callable event).registered ↔ _
        rw [registered_add hk, List.mem_append, List.mem_singleton, h.registered]
        by_cases e : k' = k
        · rw [if_pos ((adds_iff hk callable event).mpr e)]
          simp [e]
        · rw [if_neg (fun ha => e ((adds_iff hk callable event).mp ha)), if_neg (by
            simp [Call.removes, Call.isAdd])]
          simp [e]
    | remove x =>
      change x.key sockets = some k at hk
      rw [call_remove_idle h.idle hk] at hstep
      obtain ⟨hok, hpolled⟩ := polled_eraseKey hm k
      refine ⟨by rw [hstep]; exact hok, by rw [hstep]; exact h.idle, ?_, fun k' => ?_⟩
      · rw [hstep]
        exact ⟨_, hpolled⟩
      · rw [hstep, registeredAfter_concat, mem_registered_eraseKey, h.registered,
          if_neg (by simp [Call.adds, Call.isAdd])]
        by_cases e : k' = k
        · rw [if_pos ((removes_iff hk).mpr e)]
          simp [e]
        · rw [if_neg (fun ha => e ((removes_iff hk).mp ha))]
          simp [e]

/-! ## the calls of a pass -/

/-- what a pass leaves before the flush -/
structure PassSpec (sockets : Sockets) (r : Registry) (calls : List Call) : Prop where
  returns : (pass sockets r calls).2 = .ok ()
  dispatching : (pass sockets r calls).1.dispatching = true
  sound : (pass sockets r calls).1.poller.Sound
  queued : ∀ k, k ∈ (pass sockets r calls).1.queuedKeys sockets ↔
    ∃ c ∈ calls, c.removes sockets k = true
  registered : ∀ k, (pass sockets r calls).1.registered.count k
    = r.registered.count k + calls.countP (Call.adds sockets k)
  copies : ∀ k, (pass sockets r calls).1.poller.copies k
    = r.poller.copies k + calls.countP (Call.adds sockets k)

theorem pass_concat {sockets : Sockets} {r : Registry} {cs : List Call} {c : Call}
    (h : (pass sockets r cs).2 = .ok ()) :
    pass sockets r (cs ++ [c]) = call sockets (pass sockets r cs).1 c :=
  Lib.each_concat h

theorem copies_add (p : Poller) (item : PollItem) (k : Key) :
    (p.add item).copies k = p.copies k + if item.key = k then 1 else 0 := by
  unfold Poller.copies
  rw [Poller.items_add, List.map_append, List.count_append, List.map_singleton]
  by_cases e : item.key = k
  · simp [e]
  · simp [e]

theorem PassSpec.add {sockets : Sockets} {r : Registry} {cs : List Call}
    (h : PassSpec sockets r cs) {x : Target} {k : Key} (hk : x.key sockets = some k)
    (callable : ℕ) (event : Short) : PassSpec sockets r (cs ++ [.add x callable event]) := by
  have hstep : pass sockets r (cs ++ [.add x callable event])
      = ((pass sockets r cs).1.add sockets x callable event, .ok ()) := pass_concat h.returns
  have hcount : ∀ k', [Call.add x callable event].countP (Call.adds sockets k')
      = if k = k' then 1 else 0 := by
    intro k'
    by_cases e : k = k'
    · simp [(adds_iff hk callable event).mpr e.symm, e]
    · have : ¬ (Call.add x callable event).adds sockets k' = true :=
        fun ha => e ((adds_iff hk callable event).mp ha).symm
      simp [this, e]
  refine ⟨by rw [hstep], by rw [hstep]; exact h.dispatching, ?_, ?_, ?_, ?_⟩
  · rw [hstep]
    exact Poller.sound_add h.sound _
  · intro k'
    rw [hstep]
    show k' ∈ queuedKeys (pass sockets r cs).1 sockets ↔ _
    rw [h.queued]
    simp [Call.removes, Call.isAdd]
  · intro k'
    rw [hstep]
    show ((pass sockets r cs).1.add sockets x callable event).registered.count k' = _
    rw [registered_add hk, List.count_append, h.registered, List.countP_append, hcount,
      List.count_singleton, Nat.add_assoc]
    simp only [beq_iff_eq]
  · intro k'
    rw [hstep]
    show ((pass sockets r cs).1.poller.add (x.item sockets event)).copies k' = _
    rw [copies_add, Target.item_of_key hk, k.item_key, h.copies, List.countP_append, hcount]
    omega

theorem removeLater_rest (r : Registry) (x : Target) :
    (r.removeLater x).poller = r.poller ∧ (r.removeLater x).items = r.items ∧
      (r.removeLater x).dispatching = r.dispatching := by
  cases x <;> exact ⟨rfl, rfl, rfl⟩

theorem PassSpec.remove {sockets : Sockets} {r : Registry} {cs : List Call}
    (h : PassSpec sockets r cs) {x : Target} {k : Key} (hk : x.key sockets = some k) :
    PassSpec sockets r (cs ++ [.remove x]) := by
  have hstep : pass sockets r (cs ++ [.remove x]) = _ := pass_concat h.returns
  rw [call_remove_dispatching h.dispatching] at hstep
  have hcount : ∀ k', [Call.remove x].countP (Call.adds sockets k') = 0 := by
    intro k'
    simp [Call.adds, Call.isAdd]
  obtain ⟨hpoller, hitems, hdisp⟩ := removeLater_rest (pass sockets r cs).1 x
  refine ⟨by rw [hstep], by rw [hstep]; exact hdisp.trans h.dispatching, ?_, ?_, ?_, ?_⟩
  · rw [hstep]
    show ((pass sockets r cs).1.removeLater x).poller.Sound
    rw [hpoller]
    exact h.sound
  · intro k'
    rw [hstep]
    show k' ∈ queuedKeys ((pass sockets r cs).1.removeLater x) sockets ↔ _
    rw [mem_queuedKeys_removeLater, h.queued]
    have hrem : (Call.remove x).removes sockets k' = true ↔ k' = k := removes_iff hk
    simp only [List.mem_append, List.mem_singleton, hk, Option.some.injEq]
    constructor
    · intro hq
      rcases hq with ⟨c, hc, hcr⟩ | e
      · exact ⟨c, Or.inl hc, hcr⟩
      · exact ⟨_, Or.inr rfl, hrem.mpr e.symm⟩
    · intro hq
      obtain ⟨c, hc | rfl, hcr⟩ := hq
      · exact Or.inl ⟨c, hc, hcr⟩
      · exact Or.inr (hrem.mp hcr).symm
  · intro k'
    rw [hstep]
    show (((pass sockets r cs).1.removeLater x).items.map _).count k' = _
    rw [hitems, List.countP_append, hcount]
    exact h.registered k'
  · intro k'
    rw [hstep]
    show ((pass sockets r cs).1.removeLater x).poller.copies k' = _
    rw [hpoller, List.countP_append, hcount]
    exact h.copies k'

theorem pass_spec {sockets : Sockets} {r : Registry} {calls : List Call} (hr : Distinct r)
    (hlive : Live sockets calls) : PassSpec sockets r calls := by
  obtain ⟨m0, hm0⟩ := hr.polled
  induction calls using List.reverseRecOn with
  | nil =>
    refine ⟨rfl, rfl, hm0.1.sound, fun k => ?_, fun k => rfl, fun k => rfl⟩
    show k ∈ queuedKeys r sockets ↔ _
    unfold queuedKeys
    rw [hr.noSock, hr.noFd]
    simp
  | append_singleton cs c ih =>
    have h := ih hlive.left
    obtain ⟨k, hk⟩ := hlive c (by simp)
    cases c with
    | add x callable event => exact h.add hk callable event
    | remove x => exact h.remove hk

/-! ## the flush -/

theorem eraseKeys_polled {r : Registry} {m : Poller.PollMap} (h : Polled r m) (ks : List Key) :
    (r.eraseKeys ks).2 = .ok () ∧
      Polled (r.eraseKeys ks).1 fun k => if k ∈ ks then none else m k := by
  induction ks generalizing r m with
  | nil => exact ⟨rfl, by simpa [eraseKeys, Lib.each_nil] using h⟩
  | cons k ks ih =>
    obtain ⟨hok, h1⟩ := polled_eraseKey h k
    rw [eraseKeys_cons_ok hok]
    obtain ⟨hoks, h2⟩ := ih h1
    refine ⟨hoks, ?_⟩
    have hm : (fun k' => if k' ∈ ks then none else Function.update m k none k')
        = fun k' => if k' ∈ k :: ks then none else m k' := by
      funext k'
      rw [Function.update_apply]
      by_cases e : k' = k <;> by_cases hk : k' ∈ ks <;> simp [e, hk]
    rw [← hm]
    exact h2

/-- the flush of a pass erases the keys its calls have removed -/
theorem deferred_eq {sockets : Sockets} {r : Registry} {calls : List Call}
    (h : PassSpec sockets r calls) :
    deferred sockets r calls =
      match eraseKeys ((pass sockets r calls).1.setDispatching false)
          ((pass sockets r calls).1.queuedKeys sockets) with
      | (t, .ok ()) => ({ t with fdRemoveLater := [], sockRemoveLater := [] }, .ok ())
      | (t, .error e) => (t, .error e) := by
  unfold deferred
  rw [show pass sockets r calls = ((pass sockets r calls).1, .ok ()) from Prod.ext rfl h.returns]
  exact flushRemoveLater_eq sockets rfl

/-! ## the two ways compared -/

/-- Up to the keys in `gone`, a pass leaves what the calls leave outside a dispatch, as long as the
keys in `gone` are counted at most once. -/
theorem pass_agrees {sockets : Sockets} {r : Registry} (gone : Key → Bool) {calls : List Call}
    (hr : Distinct r) (hlive : Live sockets calls) (hadd : AddsAbsent sockets r calls)
    (hgone : ∀ c ∈ calls, ∀ k, c.removes sockets k = true → gone k = true)
    (hone : ∀ k, gone k = true →
      r.registered.count k + calls.countP (Call.adds sockets k) ≤ 1) :
    ∃ m n, Polled (immediate sockets r calls).1 m ∧ Polled (pass sockets r calls).1 n ∧
      (∀ k, gone k = false → n k = m k) ∧
      (immediate sockets r calls).1.items.filter (fun it => !gone it.1.key)
        = (pass sockets r calls).1.items.filter fun it => !gone it.1.key := by
  induction calls using List.reverseRecOn with
  | nil =>
    obtain ⟨m, hm⟩ := hr.polled
    exact ⟨m, m, hm, hm, fun _ _ => rfl, rfl⟩
  | append_singleton cs c ih =>
    have hspec := immediate_spec hr hlive.left hadd.left
    have hpass := pass_spec hr hlive.left
    have hstep : immediate sockets r (cs ++ [c]) = _ := immediate_concat hspec.returns
    have hstep' : pass sockets r (cs ++ [c]) = _ := pass_concat hpass.returns
    obtain ⟨k, hk⟩ := hlive c (by simp)
    have hone' : ∀ k, gone k = true →
        r.registered.count k + cs.countP (Call.adds sockets k) ≤ 1 := by
      intro k' hk'
      have := hone k' hk'
      rw [List.countP_append] at this
      omega
    obtain ⟨m, n, hm, hn, hsame, hitems⟩ := ih hlive.left hadd.left
      (fun c' hc' => hgone c' (List.mem_append_left _ hc')) hone'
    cases c with
    | add x callable event =>
      change x.key sockets = some k at hk
      have hadds := (adds_iff hk callable event).mpr rfl
      have habsent : k ∉ (immediate sockets r cs).1.registered := hadd cs _ [] rfl k hadds
      have habsent' : k ∉ (pass sockets r cs).1.registered := by
        cases hg : gone k with
        | false => rw [← hn.2, hsame k hg, hm.2]; exact habsent
        | true =>
          have h1 := hone k hg
          rw [List.countP_append, List.countP_singleton, if_pos hadds] at h1
          rw [← List.count_eq_zero, hpass.registered]
          omega
      refine ⟨Function.update m k (some ⟨event, 0⟩), Function.update n k (some ⟨event, 0⟩), ?_, ?_,
        ?_, ?_⟩
      · rw [hstep]; exact polled_add hm hk habsent callable event
      · rw [hstep']; exact polled_add hn hk habsent' callable event
      · intro k' hk'
        rw [Function.update_apply, Function.update_apply, hsame k' hk']
      · rw [hstep, hstep']
        show List.filter _ ((immediate sockets r cs).1.items ++ [_])
          = List.filter _ ((pass sockets r cs).1.items ++ [_])
        rw [List.filter_append, List.filter_append, hitems]
    | remove x =>
      change x.key sockets = some k at hk
      have hg : gone k = true := hgone _ (by simp) k ((removes_iff hk).mpr rfl)
      rw [call_remove_idle hspec.idle hk] at hstep
      rw [call_remove_dispatching hpass.dispatching] at hstep'
      obtain ⟨hpoller, hkeep, _⟩ := removeLater_rest (pass sockets r cs).1 x
      refine ⟨Function.update m k none, n, ?_, ?_, ?_, ?_⟩
      · rw [hstep]; exact (polled_eraseKey hm k).2
      · rw [hstep']
        unfold Polled registered
        rw [hpoller, hkeep]
        exact hn
      · intro k' hk'
        rw [hsame k' hk', Function.update_of_ne]
        rintro rfl
        rw [hg] at hk'
        cases hk'
      · rw [hstep, hstep']
        show ((immediate sockets r cs).1.items.filter _).filter _ = List.filter _ _
        rw [hkeep, ← hitems, List.filter_filter]
        apply List.filter_congr
        intro it _
        by_cases e : it.1.key = k
        · simp [e, hg]
        · simp [e]

/-- some call removes `k` -/
def removedBy (sockets : Sockets) (calls : List Call) (k : Key) : Bool :=
  calls.any fun c => c.removes sockets k

theorem removedBy_iff (sockets : Sockets) (calls : List Call) (k : Key) :
    removedBy sockets calls k = true ↔ ∃ c ∈ calls, c.removes sockets k = true :=
  List.any_eq_true

section
variable {sockets : Sockets} {r : Registry} {calls : List Call}

/-- the flush takes out at most one item of each key, so more than one would leave some -/
theorem removedForGood_of_deferred (hr : Distinct r) (hlive : Live sockets calls)
    (hadd : AddsAbsent sockets r calls) (h : DeferredIsImmediate sockets r calls) :
    RemovedForGood sockets r calls := by
  have hspec := immediate_spec hr hlive hadd
  have hpass := pass_spec hr hlive
  obtain ⟨m0, hm0⟩ := hr.polled
  obtain ⟨m, hm⟩ := hspec.polled
  have hdef := deferred_eq hpass
  obtain ⟨hret, -, hitems, hperm⟩ := h
  intro k hk
  have hqueued := (hpass.queued k).mpr hk
  have hok : (eraseKeys ((pass sockets r calls).1.setDispatching false)
      ((pass sockets r calls).1.queuedKeys sockets)).2 = .ok () := by
    rw [hdef] at hret
    revert hret
    cases eraseKeys ((pass sockets r calls).1.setDispatching false)
      ((pass sockets r calls).1.queuedKeys sockets) with
    | mk t res => cases res <;> exact id
  rw [show eraseKeys _ _ = (_, .ok ()) from Prod.ext rfl hok] at hdef
  have habsent : k ∉ (immediate sockets r calls).1.registered := by
    unfold registered
    rw [← hitems, hdef]
    dsimp only
    rw [eraseKeys_items hok, List.mem_map]
    intro hmem
    obtain ⟨it, hit, rfl⟩ := hmem
    have := (List.mem_filter.mp hit).2
    simp [hqueued] at this
  constructor
  · rw [hspec.registered, Bool.not_eq_true] at habsent
    exact habsent
  · have hzero : (immediate sockets r calls).1.poller.copies k = 0 := by
      rw [Poller.copies_eq_zero]
      intro it hit e
      exact absurd ((hm.1.indexed k).mpr ((hm.2 k).mpr habsent)) (e ▸ hm.1.complete it hit)
    have hsame := (hperm.map PollItem.key).count_eq k
    rw [hdef] at hsame
    change (eraseKeys _ _).1.poller.copies k = (immediate sockets r calls).1.poller.copies k
      at hsame
    have hsound : ((pass sockets r calls).1.setDispatching false).poller.Sound := hpass.sound
    have hle := eraseKeys_copies hsound ((pass sockets r calls).1.queuedKeys sockets) k
    have hcop := hpass.copies k
    rw [copies_of_polled hm0 hr.nodup] at hcop
    change (pass sockets r calls).1.poller.copies k ≤ _ at hle
    omega

theorem deferred_of_removedForGood (hr : Distinct r) (hlive : Live sockets calls)
    (hadd : AddsAbsent sockets r calls) (hgood : RemovedForGood sockets r calls) :
    DeferredIsImmediate sockets r calls := by
  have hspec := immediate_spec hr hlive hadd
  have hpass := pass_spec hr hlive
  have hdef := deferred_eq hpass
  have hgone := removedBy_iff sockets calls
  obtain ⟨m', n, hm', hn, hsame, hitems⟩ := pass_agrees (removedBy sockets calls) hr hlive hadd
    (fun c hc k hk => (hgone k).mpr ⟨c, hc, hk⟩) fun k hk => (hgood k ((hgone k).mp hk)).2
  have haway : ∀ k, removedBy sockets calls k = true →
      k ∉ (immediate sockets r calls).1.registered := by
    intro k hk
    rw [hspec.registered, (hgood k ((hgone k).mp hk)).1]
    exact Bool.false_ne_true
  have hn' : Polled ((pass sockets r calls).1.setDispatching false) n := hn
  obtain ⟨hok, hpolled⟩ := eraseKeys_polled hn' ((pass sockets r calls).1.queuedKeys sockets)
  rw [show eraseKeys _ _ = (_, .ok ()) from Prod.ext rfl hok] at hdef
  refine ⟨by rw [hdef], hspec.returns, ?_, ?_⟩
  · rw [hdef]
    dsimp only
    rw [eraseKeys_items hok]
    have hfilter : ∀ it : PollItem × ℕ,
        decide (it.1.key ∉ (pass sockets r calls).1.queuedKeys sockets)
          = !removedBy sockets calls it.1.key := by
      intro it
      have h1 := hpass.queued it.1.key
      rw [← hgone] at h1
      by_cases hg : removedBy sockets calls it.1.key = true
      · simp [h1, hg]
      · simp [h1, hg]
    rw [List.filter_congr fun it _ => hfilter it]
    show List.filter _ (pass sockets r calls).1.items = _
    rw [← hitems, List.filter_eq_self]
    intro it hit
    rw [Bool.not_eq_true']
    by_contra hg
    rw [Bool.not_eq_false] at hg
    exact haway _ hg (List.mem_map_of_mem hit)
  · have hmap : (fun k => if k ∈ (pass sockets r calls).1.queuedKeys sockets then none else n k)
        = m' := by
      funext k
      by_cases hg : removedBy sockets calls k = true
      · rw [if_pos ((hpass.queued k).mpr ((hgone k).mp hg))]
        exact ((hm'.2 k).mpr (haway k hg)).symm
      · rw [if_neg (fun hq => hg ((hgone k).mpr ((hpass.queued k).mp hq)))]
        exact hsame k (by simpa using hg)
    rw [hdef]
    rw [hmap] at hpolled
    exact perm_of_represents hpolled.1 hm'.1

/-- **The removals of a pass are as if carried out at once iff every removed key stays away and is
registered at most once.** -/
theorem registry_deferred_iff (hr : Distinct r) (hlive : Live sockets calls)
    (hadd : AddsAbsent sockets r calls) :
    DeferredIsImmediate sockets r calls ↔ RemovedForGood sockets r calls :=
  ⟨removedForGood_of_deferred hr hlive hadd, deferred_of_removedForGood hr hlive hadd⟩

end

end Registry

/-! ## the same for a loop -/

namespace Loop
open Registry (Call)

def call (sockets : Sockets) (l : Loop) : Call → Loop × Except Exn Unit
  | .add x callable event => (l.add sockets x callable event, .ok ())
  | .remove x => l.remove sockets x

def immediate (sockets : Sockets) (l : Loop) (calls : List Call) : Loop × Except Exn Unit :=
  Lib.each (call sockets) calls l

/-- the calls made by the timers of one pass -/
def pass (sockets : Sockets) (l : Loop) (calls : List Call) : Loop × Except Exn Unit :=
  Lib.each (call sockets) calls (l.setDispatching true)

/-- the pass, and the flush after it -/
def deferred (sockets : Sockets) (l : Loop) (calls : List Call) : Loop × Except Exn Unit :=
  match pass sockets l calls with
  | (t, .ok ()) => flushRemoveLater sockets (t.setDispatching false)
  | (t, .error e) => (t, .error e)

def DeferredIsImmediate (sockets : Sockets) (l : Loop) (calls : List Call) : Prop :=
  (deferred sockets l calls).2 = .ok () ∧ (immediate sockets l calls).2 = .ok () ∧
  (deferred sockets l calls).1.items = (immediate sockets l calls).1.items ∧
  (deferred sockets l calls).1.poller.items.Perm (immediate sockets l calls).1.poller.items

theorem call_toRegistry (sockets : Sockets) (l : Loop) (c : Call) :
    (call sockets l c).1.toRegistry = (Registry.call sockets l.toRegistry c).1 ∧
      (call sockets l c).2 = (Registry.call sockets l.toRegistry c).2 := by
  cases c <;> exact ⟨rfl, rfl⟩

theorem deferred_toRegistry (sockets : Sockets) (l : Loop) (calls : List Call) :
    (deferred sockets l calls).1.toRegistry = (Registry.deferred sockets l.toRegistry calls).1 ∧
      (deferred sockets l calls).2 = (Registry.deferred sockets l.toRegistry calls).2 := by
  obtain ⟨h1, h2⟩ := Lib.each_proj Loop.toRegistry (call_toRegistry sockets) calls
    (l.setDispatching true)
  change (pass sockets l calls).1.toRegistry = (Registry.pass sockets l.toRegistry calls).1 at h1
  change (pass sockets l calls).2 = (Registry.pass sockets l.toRegistry calls).2 at h2
  unfold deferred Registry.deferred
  cases hp : pass sockets l calls with
  | mk t res =>
    cases hq : Registry.pass sockets l.toRegistry calls with
    | mk t' res' =>
      rw [hp, hq] at h1 h2
      dsimp only at h1 h2
      subst h1
      subst h2
      cases res with
      | error e => exact ⟨rfl, rfl⟩
      | ok u => exact flushRemoveLater_toRegistry sockets (t.setDispatching false)

theorem deferredIsImmediate_iff (sockets : Sockets) (l : Loop) (calls : List Call) :
    DeferredIsImmediate sockets l calls
      ↔ Registry.DeferredIsImmediate sockets l.toRegistry calls := by
  obtain ⟨h1, h2⟩ := deferred_toRegistry sockets l calls
  obtain ⟨h3, h4⟩ := Lib.each_proj Loop.toRegistry (call_toRegistry sockets) calls l
  unfold DeferredIsImmediate Registry.DeferredIsImmediate
  rw [h1, h2]
  change (immediate sockets l calls).1.toRegistry = (Registry.immediate sockets l.toRegistry calls).1
    at h3
  change (immediate sockets l calls).2 = (Registry.immediate sockets l.toRegistry calls).2 at h4
  rw [h3, h4]

end Loop

/-- **Deferred removal is immediate removal iff every removed key stays away and is registered at
most once**, in a reactor and in a loop. -/
theorem deferred_iff (sockets : Sockets) (r : Registry) (calls : List Registry.Call)
    (hr : r.Distinct) (hlive : Registry.Live sockets calls)
    (hadd : Registry.AddsAbsent sockets r calls) :
    (Registry.DeferredIsImmediate sockets r calls ↔ Registry.RemovedForGood sockets r calls) ∧
    ∀ l : Loop, l.toRegistry = r →
      (Loop.DeferredIsImmediate sockets l calls ↔ Registry.RemovedForGood sockets r calls) := by
  have h := Registry.registry_deferred_iff hr hlive hadd
  refine ⟨h, ?_⟩
  intro l hl
  rw [Loop.deferredIsImmediate_iff, hl]
  exact h

namespace Registry

theorem distinct_empty : ({} : Registry).Distinct :=
  ⟨List.nodup_nil, ⟨fun _ => none, Poller.Represents.init, fun _ => by simp [registered]⟩, rfl, rfl,
    rfl⟩

/-- outside a dispatch an absent key may be added, and any key removed -/
theorem Distinct.add {r : Registry} (h : r.Distinct) {sockets : Sockets} {x : Target} {k : Key}
    (hx : x.key sockets = some k) (hk : k ∉ r.registered) (callable : ℕ) (event : Short) :
    (r.add sockets x callable event).Distinct := by
  obtain ⟨m, hm⟩ := h.polled
  refine ⟨?_, ⟨_, polled_add hm hx hk callable event⟩, h.noSock, h.noFd, h.idle⟩
  rw [registered_add hx, List.nodup_append]
  refine ⟨h.nodup, List.nodup_singleton k, ?_⟩
  intro a ha b hb
  rw [List.mem_singleton.mp hb]
  rintro rfl
  exact hk ha

end Registry

/-- descriptor 3, registered with handler 0 -/
def oneRegistered : Registry := ({} : Registry).add (fun _ => none) (.fd 3) 0 pollIn

theorem oneRegistered_distinct : oneRegistered.Distinct :=
  Registry.distinct_empty.add rfl (by simp [Registry.registered]) 0 pollIn

theorem deferred_iff_remove :
    Registry.DeferredIsImmediate (fun _ => none) oneRegistered [.remove (.fd 3)] := by
  refine (deferred_iff (fun _ => none) oneRegistered [.remove (.fd 3)] oneRegistered_distinct
    ?_ ?_).1.mpr ?_
  · intro c hc
    rw [List.mem_singleton.mp hc]
    exact ⟨.fd 3, rfl⟩
  · intro pre c post e k hk
    have hc : c ∈ [Registry.Call.remove (.fd 3)] := e ▸ List.mem_append_right pre (by simp)
    rw [List.mem_singleton.mp hc] at hk
    simp [Registry.Call.adds, Registry.Call.isAdd] at hk
  · intro k hk
    obtain ⟨c, hc, hrem⟩ := hk
    rw [List.mem_singleton.mp hc, Registry.removes_iff rfl] at hrem
    subst hrem
    exact ⟨rfl, by decide⟩

/-- a handler removes descriptor 3 and adds it again with a new callable -/
def removeAndAdd : List Registry.Call := [.remove (.fd 3), .add (.fd 3) 1 pollIn]

/-- **A descriptor that is removed and added again in one pass loses both registrations.** -/
theorem readded_in_pass_is_lost :
    (oneRegistered.Distinct ∧ Registry.Live (fun _ => none) removeAndAdd ∧
      Registry.AddsAbsent (fun _ => none) oneRegistered removeAndAdd) ∧
    (Registry.deferred (fun _ => none) oneRegistered removeAndAdd).1.items = [] ∧
    (Registry.immediate (fun _ => none) oneRegistered removeAndAdd).1.items
      = [(⟨none, 3, pollIn, 0⟩, 1)] ∧
    ¬ Registry.DeferredIsImmediate (fun _ => none) oneRegistered removeAndAdd := by
  have hd : (Registry.deferred (fun _ => none) oneRegistered removeAndAdd).1.items = [] := by rfl
  have hi : (Registry.immediate (fun _ => none) oneRegistered removeAndAdd).1.items
      = [(⟨none, 3, pollIn, 0⟩, 1)] := by rfl
  refine ⟨⟨oneRegistered_distinct, ?_, ?_⟩, hd, hi, fun h => ?_⟩
  · intro c hc
    refine ⟨.fd 3, ?_⟩
    rcases List.mem_cons.mp hc with rfl | hc
    · rfl
    · rw [List.mem_singleton.mp hc]
      rfl
  · intro pre c post e k hk
    rcases pre with _ | ⟨c1, _ | ⟨c2, pre⟩⟩
    · cases e
      cases hk
    · cases e
      have hnone : (Registry.immediate (fun _ => none) oneRegistered [.remove (.fd 3)]).1.registered
          = [] := by rfl
      rw [hnone]
      exact List.not_mem_nil
    · simp [removeAndAdd] at e
  · have hitems := h.2.2.1
    rw [hd, hi] at hitems
    cases hitems

end Zmqpp
