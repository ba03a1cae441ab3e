import ZmqppPty.Poller.Basic

/-!
# Histories that add a key again

`reactor::add` and `loop::add` put no bound on how often a socket or descriptor is added.  The
vector keeps an item for every `add`, the indexes one position for every key.

* `adds`                          how often a key was added since it was last removed;
* `Counted`                       while no key is removed after two adds, the items are counted by
                                  `adds`;
* `find_last`                     while nothing else is removed, a key's index is its last item;
* `nothing_stays_polled_iff`      a history leaves no removed item behind iff every removal follows
                                  at most one `add` of its key.
-/

namespace Zmqpp
namespace Poller

inductive Op where
  | add (item : PollItem)
  | remove (k : Key)
  | checkFor (k : Key) (event : Short)

/-- an exception leaves the poller as it is when it is thrown; the history may go on -/
def apply (p : Poller) : Op → Poller
  | .add item => p.add item
  | .remove k => (p.removeKey k).1
  | .checkFor k event => (p.checkForKey k event).1

def after (ops : List Op) : Poller := ops.foldl apply {}

def addsStep (k : Key) (n : ℕ) : Op → ℕ
  | .add item => if item.key = k then n + 1 else n
  | .remove k' => if k' = k then 0 else n
  | .checkFor _ _ => n

/-- the number of times `k` was added since it was last removed -/
def adds (k : Key) (ops : List Op) : ℕ := ops.foldl (addsStep k) 0

/-- every removal that returns leaves no item of its key, and no later removal of another key
throws -/
def NothingStaysPolled (ops : List Op) : Prop :=
  ∀ pre k post, ops = pre ++ .remove k :: post → ((after pre).removeKey k).2 = .ok () →
    (∀ it ∈ (after (pre ++ [.remove k])).items, it.key ≠ k) ∧
    ∀ mid k' post', post = mid ++ .remove k' :: post' → k' ≠ k →
      ((after (pre ++ .remove k :: mid)).removeKey k').2 = .ok ()

/-- every removal follows at most one `add` of its key since the removal before it -/
def AddedOnce (ops : List Op) : Prop :=
  ∀ pre k post, ops = pre ++ .remove k :: post → adds k pre ≤ 1

theorem after_concat (ops : List Op) (op : Op) : after (ops ++ [op]) = (after ops).apply op := by
  unfold after
  rw [List.foldl_append]
  rfl

theorem adds_concat (k : Key) (ops : List Op) (op : Op) :
    adds k (ops ++ [op]) = addsStep k (adds k ops) op := by
  unfold adds
  rw [List.foldl_append]
  rfl

theorem AddedOnce.left {a b : List Op} (h : AddedOnce (a ++ b)) : AddedOnce a := by
  intro pre k post e
  apply h pre k (post ++ b)
  rw [e, List.append_assoc, List.cons_append]

theorem NothingStaysPolled.left {a b : List Op} (h : NothingStaysPolled (a ++ b)) :
    NothingStaysPolled a := by
  intro pre k post e hret
  have := h pre k (post ++ b) (by rw [e, List.append_assoc, List.cons_append]) hret
  refine ⟨this.1, fun mid k' post' e' => this.2 mid k' (post' ++ b) ?_⟩
  rw [e', List.append_assoc, List.cons_append]

/-! ## the items of a history without repeated adds before a removal -/

structure Counted (ops : List Op) : Prop where
  sound : (after ops).Sound
  complete : (after ops).Complete
  copies : ∀ k, (after ops).copies k = adds k ops

theorem counted_step {ops : List Op} {op : Op} (h : Counted ops)
    (hop : ∀ k, op = .remove k → adds k ops ≤ 1) : Counted (ops ++ [op]) := by
  cases op with
  | add item =>
    refine ⟨?_, ?_, fun k => ?_⟩
    · rw [after_concat]; exact sound_add h.sound item
    · rw [after_concat]; exact complete_add h.complete item
    · rw [after_concat, adds_concat, ← h.copies k]
      show ((after ops).add item).copies k = if item.key = k then _ else _
      unfold Poller.copies
      rw [items_add, List.map_append, List.count_append, List.map_singleton]
      by_cases e : item.key = k
      · simp [e]
      · simp [e]
  | remove k =>
    have h1 : (after ops).copies k ≤ 1 := by rw [h.copies]; exact hop k rfl
    refine ⟨?_, ?_, fun k' => ?_⟩
    · rw [after_concat]; exact sound_removeKey h.sound k
    · rw [after_concat]; exact complete_removeKey h.sound h.complete h1
    · rw [after_concat, adds_concat, ← h.copies k']
      show ((after ops).removeKey k).1.copies k' = if k = k' then 0 else _
      by_cases e : k' = k
      · rw [e, if_pos rfl]; exact removeKey_gone h.sound h.complete h1
      · rw [removeKey_copies h.sound, if_neg fun hk => e hk.1, if_neg fun hk => e hk.symm]
        rfl
  | checkFor k event =>
    have hkeys := checkForKey_keys (after ops) k event
    have hfind := checkForKey_find (after ops) k event
    refine ⟨?_, ?_, fun k' => ?_⟩
    · rw [after_concat]; exact sound_of_keys h.sound hfind hkeys
    · rw [after_concat]
      intro it hit
      show ((after ops).checkForKey k event).1.find it.key ≠ none
      rw [hfind]
      have hmem : it.key ∈ (after ops).items.map PollItem.key := by
        rw [← hkeys]; exact List.mem_map_of_mem hit
      obtain ⟨it', hit', e⟩ := List.mem_map.mp hmem
      rw [← e]
      exact h.complete it' hit'
    · rw [after_concat, adds_concat, ← h.copies k']
      show (((after ops).checkForKey k event).1.items.map PollItem.key).count k' = _
      rw [hkeys]
      rfl

theorem AddedOnce.counted {ops : List Op} (h : AddedOnce ops) : Counted ops := by
  induction ops using List.reverseRecOn with
  | nil => exact ⟨sound_init, complete_init, fun k => rfl⟩
  | append_singleton ops op ih =>
    refine counted_step (ih h.left) fun k e => h ops k [] ?_
    rw [e]

/-- a removal after at most one `add` of its key returns and leaves no item of it -/
theorem Counted.remove {ops : List Op} (h : Counted ops) {k : Key} (h1 : adds k ops ≤ 1) :
    ((after ops).removeKey k).2 = .ok () ∧ ∀ it ∈ ((after ops).removeKey k).1.items, it.key ≠ k := by
  have hc : (after ops).copies k ≤ 1 := by rw [h.copies]; exact h1
  exact ⟨removeKey_ok h.sound h.complete hc,
    copies_eq_zero.mp (removeKey_gone h.sound h.complete hc)⟩

/-! ## the first removal after two adds -/

/-- while only `k` is removed, `k` is indexed at its last item -/
theorem find_last {ops : List Op} (h : AddedOnce ops) {k : Key}
    (honly : ∀ k', .remove k' ∈ ops → k' = k) {i : ℕ} (hf : (after ops).find k = some i) {j : ℕ}
    (hj : ((after ops).items.map PollItem.key)[j]? = some k) : j ≤ i := by
  induction ops using List.reverseRecOn generalizing i j with
  | nil => cases hj
  | append_singleton ops op ih =>
    have hc := h.left.counted
    have hops : ∀ k', Op.remove k' ∈ ops → k' = k := fun k' hk' =>
      honly k' (List.mem_append_left _ hk')
    rw [after_concat] at hf hj
    cases op with
    | add item =>
      change ((after ops).add item).find k = some i at hf
      change (((after ops).add item).items.map PollItem.key)[j]? = some k at hj
      rw [find_add] at hf
      rw [items_add, List.map_append, List.map_singleton] at hj
      have hlen : j < (after ops).items.length + 1 := by
        have := (List.getElem?_eq_some_iff.mp hj).1
        simpa using this
      by_cases e : k = item.key
      · rw [if_pos e, Option.some.injEq] at hf
        omega
      · rw [if_neg e] at hf
        by_cases hl : j < (after ops).items.length
        · rw [List.getElem?_append_left (by simpa using hl)] at hj
          exact ih h.left hops hf hj
        · have hjl : j = ((after ops).items.map PollItem.key).length := by
            rw [List.length_map]; omega
          rw [hjl, List.getElem?_concat_length, Option.some.injEq] at hj
          exact absurd hj.symm e
    | remove k' =>
      have e : k' = k := honly k' (by simp)
      change ((after ops).removeKey k').1.find k = some i at hf
      rw [e, removeKey_find_self hc.sound] at hf
      cases hf
    | checkFor k' event =>
      change ((after ops).checkForKey k' event).1.find k = some i at hf
      change (((after ops).checkForKey k' event).1.items.map PollItem.key)[j]? = some k at hj
      rw [checkForKey_find] at hf
      rw [checkForKey_keys] at hj
      exact ih h.left hops hf hj

/-- a removal throws only when it swaps in another item of its own key -/
theorem back_of_throw {p : Poller} (hs : p.Sound) (hc : p.Complete) {k : Key}
    (h : (p.removeKey k).2 ≠ .ok ()) :
    ∃ i, p.find k = some i ∧ i < p.items.length - 1 ∧
      (p.items.map PollItem.key)[p.items.length - 1]? = some k := by
  cases hf : p.find k with
  | none => rw [removeKey_none hf] at h; exact absurd rfl h
  | some i =>
    obtain ⟨it, hit, -⟩ := hs k i hf
    by_cases hi : p.items.length - 1 = i
    · rw [removeKey_last hf hit hi] at h
      exact absurd rfl h
    · obtain ⟨back, hback, hlt, hr⟩ := removeKey_swap hf hit hi
      rw [hr] at h
      split at h
      · rename_i hb
        rcases hb with hb | hb
        · exact ⟨i, rfl, hlt, by rw [List.getElem?_map, hback, ← hb]; rfl⟩
        · exact absurd hb (hc back (List.mem_of_getElem? hback))
      · exact absurd rfl h

/-- if the first removal of a key added twice throws, some other key was removed before -/
theorem other_removed_of_throw {ops : List Op} (h : AddedOnce ops) {k : Key}
    (ht : ((after ops).removeKey k).2 ≠ .ok ()) : ∃ k', .remove k' ∈ ops ∧ k' ≠ k := by
  by_contra hno
  have honly : ∀ k', Op.remove k' ∈ ops → k' = k := by
    intro k' hk'
    by_contra hne
    exact hno ⟨k', hk', hne⟩
  obtain ⟨i, hf, hlt, hback⟩ := back_of_throw h.counted.sound h.counted.complete ht
  have := find_last h honly hf hback
  omega

/-- **A history leaves nothing removed behind iff every removal follows at most one `add` of its
key.** -/
theorem nothing_stays_polled_iff (ops : List Op) : NothingStaysPolled ops ↔ AddedOnce ops := by
  constructor
  · intro h
    induction ops using List.reverseRecOn with
    | nil =>
      intro pre k post e
      simp at e
    | append_singleton ops op ih =>
      have hops := ih h.left
      intro pre k post e
      rcases List.eq_nil_or_concat post with rfl | ⟨post', op', rfl⟩
      · obtain ⟨rfl, hop⟩ := List.append_inj' e rfl
        by_contra h2
        by_cases hret : ((after ops).removeKey k).2 = .ok ()
        · -- one item is taken out, and there were at least two
          have hgone := (h ops k [] e hret).1
          rw [after_concat] at hgone
          have h0 : ((after ops).removeKey k).1.copies k = 0 := copies_eq_zero.mpr hgone
          have hcop := removeKey_copies hops.counted.sound k k
          rw [hops.counted.copies k] at hcop
          split at hcop <;> omega
        · -- it throws, and the key removed before it was another one
          obtain ⟨k', hmem, hne⟩ := other_removed_of_throw hops hret
          obtain ⟨pre', mid, rfl⟩ := List.append_of_mem hmem
          have hret' := (hops.left.counted.remove (hops pre' k' mid rfl)).1
          have hsplit : pre' ++ .remove k' :: mid ++ [op]
              = pre' ++ .remove k' :: (mid ++ .remove k :: []) := by
            rw [e, List.append_assoc, List.cons_append]
          exact hret ((h pre' k' _ hsplit hret').2 mid k [] rfl (Ne.symm hne))
      · rw [List.concat_eq_append, ← List.cons_append, ← List.append_assoc] at e
        exact hops pre k post' (List.append_inj' e rfl).1
  · intro h pre k post e _
    have hpre : AddedOnce pre := (e ▸ h).left
    refine ⟨?_, fun mid k' post' e' _ => ?_⟩
    · rw [after_concat]
      exact (hpre.counted.remove (h pre k post e)).2
    · have hsplit : ops = (pre ++ .remove k :: mid) ++ .remove k' :: post' := by
        rw [e, e', List.append_assoc, List.cons_append]
      have hmid : AddedOnce (pre ++ .remove k :: mid) := (hsplit ▸ h).left
      exact (hmid.counted.remove (h _ k' post' hsplit)).1

/-- **A socket added twice and removed once is still polled.** -/
theorem readded_stays_polled :
    ¬ NothingStaysPolled
      [.add ((Key.sock 1).item pollIn), .add ((Key.sock 1).item pollIn), .remove (.sock 1)] := by
  intro h
  have hgone := (h [.add ((Key.sock 1).item pollIn), .add ((Key.sock 1).item pollIn)] (.sock 1) []
    rfl rfl).1
  have hleft : (after [.add ((Key.sock 1).item pollIn), .add ((Key.sock 1).item pollIn),
      .remove (.sock 1)]).items = [(Key.sock 1).item pollIn] := rfl
  exact hgone ((Key.sock 1).item pollIn) (hleft ▸ List.mem_singleton_self _) rfl

end Poller
end Zmqpp
