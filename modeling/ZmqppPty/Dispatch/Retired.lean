import ZmqppPty.Dispatch.Registry

/-!
# Registrations that are on their way out

After a removal during a dispatch the registration is still in `items_`, and only its key is in a
queue.  `Retired` says of a handler that this is so for each of its registrations; without any
registration left it holds as well.

* `Retired`            every registration of the handler is queued for removal;
* `ahead`              the registrations the range-for has not come to;
* `NoneReady`          none of those is both queued and ready;
* `remove_retires`     a removal retires the handlers of the target;
* `flush_retired`      and a flush does away with them.
-/

namespace Zmqpp
namespace Registry
variable {r : Registry} {sockets : Sockets} {c : ℕ}

def Retired (r : Registry) (sockets : Sockets) (c : ℕ) : Prop :=
  ∀ it ∈ r.items, it.2 = c → it.1.key ∈ r.queuedKeys sockets

/-- the registrations from index `i` on, of the `n` the range-for began with -/
def ahead (r : Registry) (i n : ℕ) : List (PollItem × ℕ) := (r.items.take n).drop i

def NoneReady (r : Registry) (sockets : Sockets) (i n : ℕ) : Prop :=
  ∀ it ∈ r.ahead i n, it.1.key ∈ r.queuedKeys sockets → r.ready it.1 ≠ .ok true

/-- no removal is queued -/
def Unqueued (r : Registry) : Prop := r.sockRemoveLater = [] ∧ r.fdRemoveLater = []

instance (i n : ℕ) : Decidable (r.NoneReady sockets i n) :=
  inferInstanceAs (Decidable (∀ it ∈ r.ahead i n, it.1.key ∈ r.queuedKeys sockets →
    r.ready it.1 ≠ .ok true))

instance : Decidable r.Unqueued := inferInstanceAs (Decidable (_ ∧ _))

theorem mem_ahead {i n : ℕ} (hi : i < n) {it : PollItem × ℕ} (h : r.items[i]? = some it) :
    it ∈ r.ahead i n := by
  unfold ahead
  apply List.mem_of_getElem? (i := 0)
  rw [List.getElem?_drop, Nat.add_zero, List.getElem?_take_of_lt hi]
  exact h

theorem NoneReady.succ {i n : ℕ} (h : r.NoneReady sockets i n) :
    r.NoneReady sockets (i + 1) n := by
  intro it hit
  apply h it
  unfold ahead at *
  rw [← List.drop_drop] at hit
  exact List.mem_of_mem_drop hit

theorem Unqueued.queuedKeys (h : r.Unqueued) : r.queuedKeys sockets = [] := by
  unfold Registry.queuedKeys
  rw [h.1, h.2]
  rfl

theorem Unqueued.noneReady (h : r.Unqueued) (i n : ℕ) : r.NoneReady sockets i n := by
  intro it _ hkey
  rw [h.queuedKeys] at hkey
  cases hkey

/-- a socket object keeps its pointer while its removal is queued -/
theorem queuedKeys_moved (s : SocketRef) (p : Option Handle)
    (h : s ∈ r.sockRemoveLater → p = sockets s) :
    r.queuedKeys (Function.update sockets s p) = r.queuedKeys sockets := by
  unfold queuedKeys
  congr 1
  apply List.filterMap_congr
  intro s' hs'
  by_cases e : s' = s
  · rw [e, Function.update_self, h (e ▸ hs')]
  · rw [Function.update_of_ne e]

/-! ## what retires a handler, and what keeps it retired -/

theorem Retired.add (h : r.Retired sockets c) (x : Target) {callable : ℕ} (hne : callable ≠ c)
    (event : Short) : (r.add sockets x callable event).Retired sockets c := by
  intro it hit hc
  rcases List.mem_append.mp hit with hit | hit
  · exact h it hit hc
  · rw [List.mem_singleton.mp hit] at hc
    exact absurd hc hne

/-- a removal adds the key of its target to the queue, or takes out the items of that key -/
theorem remove_retires (x : Target)
    (h : ∀ it ∈ r.items, it.2 = c →
      it.1.key ∈ r.queuedKeys sockets ∨ x.key sockets = some it.1.key) :
    (r.remove sockets x).1.Retired sockets c := by
  unfold remove
  split
  · -- during a dispatch
    intro it hit hc
    rw [mem_queuedKeys_removeLater]
    exact h it (by cases x <;> exact hit) hc
  · cases hk : x.key sockets with
    | none =>
      intro it hit hc
      rcases h it hit hc with hq | hx
      · exact hq
      · rw [hk] at hx
        cases hx
    | some k =>
      intro it hit hc
      obtain ⟨hmem, hne⟩ := List.mem_filter.mp hit
      rcases h it hmem hc with hq | hx
      · exact hq
      · rw [hk, Option.some.injEq] at hx
        exact absurd hx.symm (of_decide_eq_true hne)

theorem Retired.remove (h : r.Retired sockets c) (x : Target) :
    (r.remove sockets x).1.Retired sockets c :=
  remove_retires x fun it hit hc => Or.inl (h it hit hc)

theorem Retired.moved (h : r.Retired sockets c) {s : SocketRef} {p : Option Handle}
    (hs : s ∈ r.sockRemoveLater → p = sockets s) :
    r.Retired (Function.update sockets s p) c := by
  unfold Retired
  rw [queuedKeys_moved s p hs]
  exact h

/-- A flush that returns leaves no registration of a retired handler; one that throws leaves it
retired.  After an exception `dispatching_` is still true, and the flush would lose the queue. -/
theorem flush_retired (hd : r.dispatching = false ∨ r.Unqueued) (h : r.Retired sockets c) :
    (flushRemoveLater sockets r).1.Retired sockets c ∧
      ((flushRemoveLater sockets r).2 = .ok () →
        ∀ it ∈ (flushRemoveLater sockets r).1.items, it.2 ≠ c) := by
  have hsub := (flushRemoveLater_sublist sockets r).subset
  rcases hd with hd | hq
  · obtain ⟨_, hok, herror⟩ := flushRemoveLater_idle sockets hd
    by_cases hres : (flushRemoveLater sockets r).2 = .ok ()
    · have hgone : ∀ it ∈ (flushRemoveLater sockets r).1.items, it.2 ≠ c :=
        fun it hit hc => hok hres it hit (h it (hsub hit) hc)
      exact ⟨fun it hit hc => absurd hc (hgone it hit), fun _ => hgone⟩
    · refine ⟨fun it hit hc => ?_, fun hok => absurd hok hres⟩
      rw [herror hres]
      exact h it (hsub hit) hc
  · have hgone : ∀ it ∈ (flushRemoveLater sockets r).1.items, it.2 ≠ c := by
      intro it hit hc
      have hkey := h it (hsub hit) hc
      rw [hq.queuedKeys] at hkey
      cases hkey
    exact ⟨fun it hit hc => absurd hc (hgone it hit), fun _ => hgone⟩

end Registry
end Zmqpp
