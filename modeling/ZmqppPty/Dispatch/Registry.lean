import ZmqppPty.Lib.Each
import ZmqppPty.Poller.Basic

/-!
# The registrations of a reactor or a loop (reactor.cpp, loop.cpp)

The members that `reactor` and `loop` share, and their functions.  A handler is a number: each
`add` is given its own, so that a number stands for one registration.  The overloads for sockets
and descriptors are one operation on a `Target`.  A socket object is its address; the `void*` it
holds is read when the source reads it, so it is an argument.

* `add`, `remove`, `checkFor`, `ready`     the operations;
* `flushRemoveLater`                       the queued removals carried out;
* `flushRemoveLater_eq`                    as one list of keys;
* `flushRemoveLater_state`                 what they keep, thrown or not;
* `eraseKeys_items`, `eraseKeys_copies`    what a list of removals leaves.
-/

namespace Zmqpp

/-- the address of a socket object -/
abbrev SocketRef := ℕ

/-- the pointer each socket object holds now -/
abbrev Sockets := SocketRef → Option Handle

inductive Target where
  | socket (s : SocketRef)
  | fd (d : Fd)
deriving DecidableEq, Repr

namespace Target

def item (sockets : Sockets) (event : Short) : Target → PollItem
  | .socket s => ⟨sockets s, 0, event, 0⟩
  | .fd d => ⟨none, d, event, 0⟩

/-- the key under which items of the target are found; a closed socket has none -/
def key (sockets : Sockets) : Target → Option Key
  | .socket s => (sockets s).map Key.sock
  | .fd d => some (.fd d)

theorem item_of_key {sockets : Sockets} {x : Target} {k : Key} (h : x.key sockets = some k)
    (event : Short) : x.item sockets event = k.item event := by
  cases x with
  | socket s =>
    obtain ⟨p, hp, rfl⟩ := Option.map_eq_some_iff.mp h
    show (⟨sockets s, 0, event, 0⟩ : PollItem) = _
    rw [hp]
    rfl
  | fd d =>
    cases h
    rfl

/-- an item is the item of its key, also that of a closed socket -/
theorem item_eq (sockets : Sockets) (x : Target) (event : Short) :
    x.item sockets event = (x.item sockets event).key.item event := by
  cases x with
  | fd d => rfl
  | socket s =>
    show (⟨sockets s, 0, event, 0⟩ : PollItem) = (PollItem.key ⟨sockets s, 0, event, 0⟩).item event
    cases sockets s <;> rfl

end Target

structure Registry where
  items : List (PollItem × ℕ) := []
  sockRemoveLater : List SocketRef := []
  fdRemoveLater : List Fd := []
  poller : Poller := {}
  dispatching : Bool := false

namespace Registry

def add (r : Registry) (sockets : Sockets) (x : Target) (callable : ℕ) (event : Short) :
    Registry :=
  { r with poller := r.poller.add (x.item sockets event),
           items := r.items ++ [(x.item sockets event, callable)] }

/-- the part of `remove` outside a dispatch, at the key of the target -/
def eraseKey (r : Registry) (k : Key) : Registry × Except Exn Unit :=
  ({ r with items := r.items.filter (fun it => it.1.key ≠ k), poller := (r.poller.removeKey k).1 },
    (r.poller.removeKey k).2)

/-- the part of `remove` during a dispatch -/
def removeLater (r : Registry) : Target → Registry
  | .socket s => { r with sockRemoveLater := r.sockRemoveLater ++ [s] }
  | .fd d => { r with fdRemoveLater := r.fdRemoveLater ++ [d] }

/-- no item matches a null pointer, and the poller has none indexed -/
def remove (sockets : Sockets) (r : Registry) (x : Target) : Registry × Except Exn Unit :=
  if r.dispatching then (r.removeLater x, .ok ())
  else
    match x.key sockets with
    | some k => r.eraseKey k
    | none => (r, .ok ())

/-- `reactor::check_for` -/
def checkFor (sockets : Sockets) (r : Registry) (x : Target) (event : Short) :
    Registry × Except Exn Unit :=
  match x.key sockets with
  | some k =>
    ({ r with poller := (r.poller.checkForKey k event).1 }, (r.poller.checkForKey k event).2)
  | none => (r, .error (.exception "this socket is not represented within this poller"))

/-- the test of a registration during the dispatch: `has_input || has_error || has_output` -/
def ready (r : Registry) (item : PollItem) : Except Exn Bool := do
  if ← r.poller.hasInput item then return true
  if ← r.poller.hasError item then return true
  r.poller.hasOutput item

/-- `dispatching_ = b` -/
def setDispatching (r : Registry) (b : Bool) : Registry := { r with dispatching := b }

/-- Outside a dispatch the removals are carried out.  While `dispatching_` is left true by an
exception they are queued again behind the ones iterated over, and cleared. -/
def flushRemoveLater (sockets : Sockets) (r : Registry) : Registry × Except Exn Unit :=
  match Lib.each (remove sockets) (r.fdRemoveLater.map Target.fd) r with
  | (r, .error e) => (r, .error e)
  | (r, .ok ()) =>
    match Lib.each (remove sockets) (r.sockRemoveLater.map Target.socket) r with
    | (r, .error e) => (r, .error e)
    | (r, .ok ()) => ({ r with fdRemoveLater := [], sockRemoveLater := [] }, .ok ())

/-! ## a list of removals -/

/-- the keys of the queued removals, in the order of the flush -/
def queuedKeys (r : Registry) (sockets : Sockets) : List Key :=
  r.fdRemoveLater.map Key.fd ++ r.sockRemoveLater.filterMap fun s => (sockets s).map Key.sock

def eraseKeys (r : Registry) (ks : List Key) : Registry × Except Exn Unit :=
  Lib.each eraseKey ks r

theorem mem_queuedKeys_removeLater (r : Registry) (sockets : Sockets) (x : Target) (k : Key) :
    k ∈ (r.removeLater x).queuedKeys sockets ↔
      k ∈ r.queuedKeys sockets ∨ x.key sockets = some k := by
  unfold queuedKeys
  cases x with
  | socket s =>
    show _ ∈ r.fdRemoveLater.map Key.fd ++ (r.sockRemoveLater ++ [s]).filterMap _ ↔ _
    rw [List.filterMap_append, ← List.append_assoc, List.mem_append]
    simp [Target.key]
  | fd d =>
    show _ ∈ (r.fdRemoveLater ++ [d]).map _ ++ _ ↔ _
    simp only [List.map_append, List.mem_append, List.map_singleton, List.mem_singleton, Target.key,
      Option.some.injEq]
    constructor
    · rintro ((h | h) | h)
      · exact Or.inl (Or.inl h)
      · exact Or.inr h.symm
      · exact Or.inl (Or.inr h)
    · rintro ((h | h) | h)
      · exact Or.inl (Or.inl h)
      · exact Or.inr h
      · exact Or.inl (Or.inr h.symm)

/-- outside a dispatch, removing targets is erasing their keys -/
theorem each_remove (sockets : Sockets) (xs : List Target) {r : Registry}
    (hd : r.dispatching = false) :
    Lib.each (remove sockets) xs r = r.eraseKeys (xs.filterMap (Target.key sockets)) := by
  unfold eraseKeys
  induction xs generalizing r with
  | nil => rfl
  | cons x xs ih =>
    rw [List.filterMap_cons]
    cases hk : x.key sockets with
    | none =>
      have hstep : remove sockets r x = (r, .ok ()) := by
        unfold remove
        rw [hd, hk]
        rfl
      rw [Lib.each_cons_ok (by rw [hstep]), hstep]
      exact ih hd
    | some k =>
      have hstep : remove sockets r x = r.eraseKey k := by
        unfold remove
        rw [hd, hk]
        rfl
      cases h : (r.eraseKey k).2 with
      | ok u =>
        rw [Lib.each_cons_ok (by rw [hstep]; exact h), hstep, Lib.each_cons_ok h]
        exact ih hd
      | error e =>
        rw [Lib.each_cons_error (by rw [hstep]; exact h), hstep, Lib.each_cons_error h]

/-- what no erasure touches -/
theorem eraseKeys_rest (r : Registry) (ks : List Key) :
    (r.eraseKeys ks).1.sockRemoveLater = r.sockRemoveLater ∧
      (r.eraseKeys ks).1.fdRemoveLater = r.fdRemoveLater ∧
      (r.eraseKeys ks).1.dispatching = r.dispatching := by
  refine Lib.each_state (fun t : Registry => t.sockRemoveLater = r.sockRemoveLater ∧
    t.fdRemoveLater = r.fdRemoveLater ∧ t.dispatching = r.dispatching) ?_ ⟨rfl, rfl, rfl⟩
  intro s k _ h
  exact h

/-- **The flush erases the queued keys in one go**, and empties the queues if none throws. -/
theorem flushRemoveLater_eq (sockets : Sockets) {r : Registry} (hd : r.dispatching = false) :
    flushRemoveLater sockets r =
      match r.eraseKeys (r.queuedKeys sockets) with
      | (t, .ok ()) => ({ t with fdRemoveLater := [], sockRemoveLater := [] }, .ok ())
      | (t, .error e) => (t, .error e) := by
  have hfd : (r.fdRemoveLater.map Target.fd).filterMap (Target.key sockets)
      = r.fdRemoveLater.map Key.fd := by
    rw [List.filterMap_map]
    exact List.filterMap_eq_map.symm ▸ rfl
  have hsock : ∀ l : List SocketRef, (l.map Target.socket).filterMap (Target.key sockets)
      = l.filterMap fun s => (sockets s).map Key.sock := by
    intro l
    rw [List.filterMap_map]
    rfl
  have hrest := eraseKeys_rest r (r.fdRemoveLater.map Key.fd)
  unfold flushRemoveLater
  rw [each_remove sockets _ hd, hfd]
  unfold queuedKeys eraseKeys at *
  rw [Lib.each_append]
  cases h : Lib.each eraseKey (r.fdRemoveLater.map Key.fd) r with
  | mk t res =>
    rw [h] at hrest
    cases res with
    | error e => rfl
    | ok u =>
      dsimp only
      rw [each_remove sockets _ (hrest.2.2.trans hd), hsock, hrest.1]
      unfold eraseKeys
      cases Lib.each eraseKey (r.sockRemoveLater.filterMap fun s => (sockets s).map Key.sock) t with
      | mk t' res' => cases res' <;> rfl

theorem eraseKeys_cons_ok {r : Registry} {k : Key} {ks : List Key}
    (h : (r.eraseKey k).2 = .ok ()) :
    r.eraseKeys (k :: ks) = (r.eraseKey k).1.eraseKeys ks := Lib.each_cons_ok h

theorem eraseKeys_items {r : Registry} {ks : List Key} (h : (r.eraseKeys ks).2 = .ok ()) :
    (r.eraseKeys ks).1.items = r.items.filter fun it => it.1.key ∉ ks := by
  induction ks generalizing r with
  | nil => simp [eraseKeys, Lib.each_nil]
  | cons k ks ih =>
    cases hk : (r.eraseKey k).2 with
    | error e =>
      unfold eraseKeys at h
      rw [Lib.each_cons_error hk, hk] at h
      cases h
    | ok u =>
      rw [eraseKeys_cons_ok hk] at h ⊢
      rw [ih h]
      show (r.items.filter _).filter _ = _
      rw [List.filter_filter]
      apply List.filter_congr
      intro it _
      simp only [List.mem_cons, not_or, ne_eq, decide_not, Bool.decide_and]
      rw [Bool.and_comm]

/-! ## what a flush keeps, thrown or not -/

theorem remove_sublist (sockets : Sockets) (r : Registry) (x : Target) :
    (remove sockets r x).1.items.Sublist r.items := by
  unfold remove
  split
  · cases x <;> exact List.Sublist.refl _
  · cases x.key sockets with
    | none => exact List.Sublist.refl _
    | some k => exact List.filter_sublist

/-- **The rule for a flush**: what a removal and the clearing of the queues keep, it keeps. -/
theorem flushRemoveLater_state (P : Registry → Prop) {sockets : Sockets}
    (hremove : ∀ r x, P r → P (remove sockets r x).1)
    (hclear : ∀ r, P r → P { r with fdRemoveLater := [], sockRemoveLater := [] }) {r : Registry}
    (h : P r) : P (flushRemoveLater sockets r).1 := by
  have hloop : ∀ (xs : List Target) (t : Registry), P t → P (Lib.each (remove sockets) xs t).1 :=
    fun xs t ht => Lib.each_state P (fun u x _ hu => hremove u x hu) ht
  have h1 := hloop (r.fdRemoveLater.map Target.fd) r h
  unfold flushRemoveLater
  cases hfd : Lib.each (remove sockets) (r.fdRemoveLater.map Target.fd) r with
  | mk t res =>
    rw [hfd] at h1
    cases res with
    | error e => exact h1
    | ok u =>
      have h2 := hloop (t.sockRemoveLater.map Target.socket) t h1
      dsimp only
      cases hsock : Lib.each (remove sockets) (t.sockRemoveLater.map Target.socket) t with
      | mk t' res' =>
        rw [hsock] at h2
        cases res' with
        | error e => exact h2
        | ok u => exact hclear t' h2

theorem flushRemoveLater_sublist (sockets : Sockets) (r : Registry) :
    (flushRemoveLater sockets r).1.items.Sublist r.items :=
  flushRemoveLater_state (fun t => t.items.Sublist r.items)
    (fun t x ht => (remove_sublist sockets t x).trans ht) (fun _ ht => ht) (List.Sublist.refl _)

/-- after a flush that returns nothing is queued -/
theorem flushRemoveLater_queues {sockets : Sockets} {r : Registry}
    (h : (flushRemoveLater sockets r).2 = .ok ()) :
    (flushRemoveLater sockets r).1.fdRemoveLater = [] ∧
      (flushRemoveLater sockets r).1.sockRemoveLater = [] := by
  revert h
  unfold flushRemoveLater
  cases Lib.each (remove sockets) (r.fdRemoveLater.map Target.fd) r with
  | mk t res =>
    cases res with
    | error e => exact fun h => by cases h
    | ok u =>
      dsimp only
      cases Lib.each (remove sockets) (t.sockRemoveLater.map Target.socket) t with
      | mk t' res' =>
        cases res' with
        | error e => exact fun h => by cases h
        | ok u => exact fun _ => ⟨rfl, rfl⟩

/-- outside a dispatch a flush that throws leaves the queues, and one that returns leaves no item
of a queued key -/
theorem flushRemoveLater_idle (sockets : Sockets) {r : Registry} (hd : r.dispatching = false) :
    (flushRemoveLater sockets r).1.dispatching = false ∧
    ((flushRemoveLater sockets r).2 = .ok () →
      ∀ it ∈ (flushRemoveLater sockets r).1.items, it.1.key ∉ r.queuedKeys sockets) ∧
    ((flushRemoveLater sockets r).2 ≠ .ok () →
      (flushRemoveLater sockets r).1.queuedKeys sockets = r.queuedKeys sockets) := by
  have hrest := eraseKeys_rest r (r.queuedKeys sockets)
  rw [flushRemoveLater_eq sockets hd]
  cases h : r.eraseKeys (r.queuedKeys sockets) with
  | mk t res =>
    rw [h] at hrest
    cases res with
    | error e =>
      dsimp only at hrest ⊢
      refine ⟨hrest.2.2.trans hd, nofun, fun _ => ?_⟩
      unfold queuedKeys
      rw [hrest.1, hrest.2.1]
    | ok u =>
      refine ⟨hrest.2.2.trans hd, fun _ it hit => ?_, fun h => absurd rfl h⟩
      have hitems := eraseKeys_items (show (r.eraseKeys (r.queuedKeys sockets)).2 = .ok () by
        rw [h])
      rw [h] at hitems
      change t.items = _ at hitems
      change it ∈ t.items at hit
      rw [hitems] at hit
      simpa using (List.mem_filter.mp hit).2

/-! ## the items of the poller -/

/-- after some removals from `r`: all items of `k` are left, or all but one and none is indexed -/
def LeavesAllButOne (r : Registry) (k : Key) (t : Registry) : Prop :=
  t.poller.Sound ∧ (t.poller.copies k = r.poller.copies k ∨
    (t.poller.find k = none ∧ r.poller.copies k ≤ t.poller.copies k + 1))

/-- a list of removals takes out at most one item of each key -/
theorem eraseKeys_copies {r : Registry} (hs : r.poller.Sound) (ks : List Key) (k : Key) :
    r.poller.copies k ≤ (r.eraseKeys ks).1.poller.copies k + 1 := by
  have hinv : LeavesAllButOne r k (r.eraseKeys ks).1 := by
    refine Lib.each_state (LeavesAllButOne r k) ?_ ⟨hs, Or.inl rfl⟩
    intro t k' _ h
    refine ⟨Poller.sound_removeKey h.1 k', ?_⟩
    have hcop := Poller.removeKey_copies h.1 k' k
    show (t.poller.removeKey k').1.copies k = _ ∨
      ((t.poller.removeKey k').1.find k = none ∧ _ ≤ (t.poller.removeKey k').1.copies k + 1)
    by_cases e : k = k'
    · subst e
      refine Or.inr ⟨Poller.removeKey_find_self h.1 k, ?_⟩
      rw [hcop]
      rcases h.2 with h2 | ⟨hf, h2⟩
      · split <;> omega
      · rw [if_neg (fun hc => hc.2 hf)]
        omega
    · rw [if_neg (fun hc => e hc.1), Nat.sub_zero] at hcop
      rw [Poller.removeKey_find_of_ne h.1 e, hcop]
      exact h.2
  rcases hinv.2 with h | h
  · omega
  · exact h.2

end Registry
end Zmqpp
