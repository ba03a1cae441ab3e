import ZmqppPty.Poller.Basic

/-!
# The poller as a finite map

The purpose of the poller: a finite map from sockets and descriptors to the events watched for and
the events last reported.  The vector, its order and the two indexes are representation.

* `PollMap`, `History`      the map, and how each operation on the poller changes it;
* `Represents`              the representation invariant; each operation keeps it;
* `refines_map`             what can be seen of a poller is what its map says.
-/

namespace Zmqpp
namespace Poller

structure Entry where
  events : Short
  revents : Short
deriving DecidableEq, Repr

abbrev PollMap := Key → Option Entry

def Entry.item (k : Key) (e : Entry) : PollItem := { k.item e.events with revents := e.revents }

theorem Entry.item_key (k : Key) (e : Entry) : (e.item k).key = k := k.item_key e.events

theorem Entry.events_item (k : Key) (e : Entry) : (e.item k).events = e.events := by
  cases k <;> rfl

theorem Entry.item_events (k : Key) (e : Entry) (event : Short) :
    { e.item k with events := event } = Entry.item k { e with events := event } := by
  cases k <;> rfl

/-- what a `zmq_poll` call writes into the item of `k`, wherever that item stands in the array -/
def written (p : Poller) (call : ZmqPoll) (k : Key) : Option Short :=
  (p.items.findIdx? fun it => it.key = k).bind call.revents

/-- The pollers reached by `add`, `remove`, `check_for` and `poll`, a key being added only while
absent, each with its map.  `has` and `events` change neither. -/
inductive History : Poller → PollMap → Prop
  | init : History {} fun _ => none
  | add {p m} (k : Key) (event : Short) (hk : m k = none) : History p m →
      History (p.add (k.item event)) (Function.update m k (some ⟨event, 0⟩))
  | remove {p m} (k : Key) : History p m →
      History (p.removeKey k).1 (Function.update m k none)
  | checkFor {p m} (k : Key) (event : Short) : History p m →
      History (p.checkForKey k event).1
        (Function.update m k ((m k).map fun e => { e with events := event }))
  | poll {p m} (call : ZmqPoll) : History p m →
      History (p.poll call).1
        fun k => (m k).map fun e => { e with revents := (written p call k).getD e.revents }

structure Represents (p : Poller) (m : PollMap) : Prop where
  sound : p.Sound
  nodup : (p.items.map PollItem.key).Nodup
  entry : ∀ it ∈ p.items, ∃ k e, m k = some e ∧ it = Entry.item k e
  indexed : ∀ k, p.find k = none ↔ m k = none

namespace Represents
variable {p : Poller} {m : PollMap}

theorem complete (h : Represents p m) : p.Complete := by
  intro it hit
  obtain ⟨k, e, he, rfl⟩ := h.entry it hit
  rw [e.item_key, ne_eq, h.indexed, he]
  exact Option.some_ne_none e

theorem copies_le (h : Represents p m) (k : Key) : p.copies k ≤ 1 :=
  List.nodup_iff_count_le_one.mp h.nodup k

/-- no two positions hold items of one key -/
theorem pos_unique (h : Represents p m) {i j : ℕ} {a b : PollItem} (hi : p.items[i]? = some a)
    (hj : p.items[j]? = some b) (hk : a.key = b.key) : i = j := by
  have hlt : i < (p.items.map PollItem.key).length := by
    rw [List.length_map]; exact (List.getElem?_eq_some_iff.mp hi).1
  apply (List.getElem?_inj hlt h.nodup).mp
  rw [List.getElem?_map, List.getElem?_map, hi, hj]
  exact congrArg some hk

/-- the index is the inverse of the array -/
theorem find_of_get (h : Represents p m) {i : ℕ} {it : PollItem} (hi : p.items[i]? = some it) :
    p.find it.key = some i := by
  cases hf : p.find it.key with
  | none => exact absurd hf (h.complete it (List.mem_of_getElem? hi))
  | some j =>
    obtain ⟨it', hj, hk⟩ := h.sound _ j hf
    rw [h.pos_unique hi hj hk.symm]

/-- the item of a present key and its place -/
theorem get_of_map (h : Represents p m) {k : Key} {e : Entry} (he : m k = some e) :
    ∃ i, p.find k = some i ∧ p.items[i]? = some (e.item k) := by
  cases hf : p.find k with
  | none => rw [(h.indexed k).mp hf] at he; cases he
  | some i =>
    obtain ⟨it, hi, hk⟩ := h.sound k i hf
    obtain ⟨k', e', he', rfl⟩ := h.entry it (List.mem_of_getElem? hi)
    rw [e'.item_key] at hk
    subst hk
    rw [he, Option.some.injEq] at he'
    exact ⟨i, rfl, by rw [hi, he']⟩

theorem slot_eq_find (h : Represents p m) {i : ℕ} {it : PollItem} (hi : p.items[i]? = some it) :
    (p.items.findIdx? fun it' => it'.key = it.key) = some i := by
  obtain ⟨hlt, hget⟩ := List.getElem?_eq_some_iff.mp hi
  rw [List.findIdx?_eq_some_iff_getElem]
  refine ⟨hlt, by simp [hget], ?_⟩
  intro j hj
  have hne : p.items[j].key ≠ it.key := fun hk =>
    absurd (h.pos_unique (List.getElem?_eq_getElem (by omega)) hi hk) (by omega)
  simpa using hne

/-! ## the operations -/

theorem init : Represents {} fun _ => none :=
  ⟨sound_init, List.nodup_nil, fun _ hit => absurd hit List.not_mem_nil,
    fun k => by cases k <;> exact ⟨fun _ => rfl, fun _ => rfl⟩⟩

theorem add (h : Represents p m) {k : Key} (event : Short) (hk : m k = none) :
    Represents (p.add (k.item event)) (Function.update m k (some ⟨event, 0⟩)) := by
  have hfresh : ∀ it ∈ p.items, it.key ≠ k := by
    intro it hit e
    obtain ⟨k', e', he', rfl⟩ := h.entry it hit
    rw [e'.item_key] at e
    rw [e, hk] at he'
    cases he'
  refine ⟨sound_add h.sound _, ?_, ?_, ?_⟩
  · rw [items_add, List.map_append, List.map_singleton, k.item_key, List.nodup_append]
    refine ⟨h.nodup, List.nodup_singleton k, ?_⟩
    intro a ha b hb
    obtain ⟨it, hit, rfl⟩ := List.mem_map.mp ha
    rw [List.mem_singleton.mp hb]
    exact hfresh it hit
  · intro it hit
    rw [items_add, List.mem_append, List.mem_singleton] at hit
    rcases hit with hit | rfl
    · have hne := hfresh it hit
      obtain ⟨k', e, he, rfl⟩ := h.entry it hit
      rw [e.item_key] at hne
      exact ⟨k', e, by rw [Function.update_of_ne hne, he], rfl⟩
    · refine ⟨k, ⟨event, 0⟩, Function.update_self k _ m, ?_⟩
      cases k <;> rfl
  · intro k'
    rw [find_add, k.item_key, Function.update_apply]
    by_cases e : k' = k
    · simp [e]
    · simp [e, h.indexed k']

theorem removeKey (h : Represents p m) (k : Key) :
    Represents (p.removeKey k).1 (Function.update m k none) := by
  have hgone : ∀ it ∈ (p.removeKey k).1.items, it.key ≠ k :=
    copies_eq_zero.mp (removeKey_gone h.sound h.complete (h.copies_le k))
  refine ⟨sound_removeKey h.sound k, ?_, ?_, ?_⟩
  · rw [List.nodup_iff_count_le_one]
    intro k'
    have := removeKey_copies h.sound k k'
    have := h.copies_le k'
    unfold copies at *
    omega
  · intro it hit
    have hne := hgone it hit
    obtain ⟨k', e, he, rfl⟩ := h.entry it (mem_of_mem_removeKey h.sound hit)
    rw [e.item_key] at hne
    exact ⟨k', e, by rw [Function.update_of_ne hne, he], rfl⟩
  · intro k'
    by_cases e : k' = k
    · subst e
      simp [removeKey_find_self h.sound]
    · rw [removeKey_find_of_ne h.sound e, Function.update_of_ne e, h.indexed]

theorem checkForKey (h : Represents p m) (k : Key) (event : Short) :
    Represents (p.checkForKey k event).1
      (Function.update m k ((m k).map fun e => { e with events := event })) := by
  refine ⟨sound_of_keys h.sound (checkForKey_find p k event) (checkForKey_keys p k event), ?_, ?_,
    ?_⟩
  · rw [checkForKey_keys]
    exact h.nodup
  · intro it hit
    unfold Poller.checkForKey at hit
    cases hf : p.find k with
    | none =>
      simp only [hf] at hit
      have hm := (h.indexed k).mp hf
      rw [hm, Option.map_none, Function.update_eq_self_iff.mpr hm.symm]
      exact h.entry it hit
    | some i =>
      simp only [hf] at hit
      obtain ⟨j, hj⟩ := List.getElem?_of_mem hit
      rw [List.getElem?_modify, Option.map_eq_map, Option.map_eq_some_iff] at hj
      obtain ⟨it', hj', rfl⟩ := hj
      have hfind := h.find_of_get hj'
      obtain ⟨k', e, he, rfl⟩ := h.entry it' (List.mem_of_getElem? hj')
      rw [e.item_key] at hfind
      by_cases hij : i = j
      · -- the item found under `k`: its events are set in the array and in the map
        have hk : k' = k := by
          obtain ⟨it2, hi2, hk2⟩ := h.sound k i hf
          rw [hij, hj', Option.some.injEq] at hi2
          rw [← hk2, ← hi2, e.item_key]
        subst hk
        refine ⟨k', { e with events := event }, ?_, ?_⟩
        · rw [Function.update_self, he, Option.map_some]
        · rw [if_pos hij, Entry.item_events]
      · have hk : k' ≠ k := by
          rintro rfl
          rw [hfind, Option.some.injEq] at hf
          exact hij hf.symm
        rw [if_neg hij]
        exact ⟨k', e, by rw [Function.update_of_ne hk, he], rfl⟩
  · intro k'
    rw [checkForKey_find, h.indexed, Function.update_apply]
    by_cases e : k' = k
    · simp [e]
    · simp [e]

theorem poll (h : Represents p m) (call : ZmqPoll) :
    Represents (p.poll call).1
      fun k => (m k).map fun e => { e with revents := (written p call k).getD e.revents } := by
  refine ⟨sound_of_keys h.sound (poll_find p call) (poll_keys p call), ?_, ?_, ?_⟩
  · rw [poll_keys]
    exact h.nodup
  · intro it hit
    rw [poll_fst] at hit
    obtain ⟨j, hj⟩ := List.getElem?_of_mem hit
    rw [List.getElem?_mapIdx, Option.map_eq_some_iff] at hj
    obtain ⟨it', hj', rfl⟩ := hj
    have hslot := h.slot_eq_find hj'
    obtain ⟨k, e, he, rfl⟩ := h.entry it' (List.mem_of_getElem? hj')
    rw [e.item_key] at hslot
    refine ⟨k, { e with revents := (call.revents j).getD e.revents }, ?_, rfl⟩
    show (m k).map _ = _
    unfold written
    rw [he, Option.map_some, hslot, Option.bind_some]
  · intro k
    rw [poll_find, h.indexed, Option.map_eq_none_iff]

end Represents

theorem History.represents {p : Poller} {m : PollMap} (h : History p m) : Represents p m := by
  induction h with
  | init => exact Represents.init
  | add k event hk _ ih => exact ih.add event hk
  | remove k _ ih => exact ih.removeKey k
  | checkFor k event _ ih => exact ih.checkForKey k event
  | poll call _ ih => exact ih.poll call

/-! ## what can be seen of a poller -/

theorem filter_key_of_nodup {l : List PollItem} (hn : (l.map PollItem.key).Nodup) {it : PollItem}
    (h : it ∈ l) : l.filter (fun it' => it'.key = it.key) = [it] := by
  induction l with
  | nil => cases h
  | cons a l ih =>
    rw [List.map_cons, List.nodup_cons] at hn
    rcases List.mem_cons.mp h with rfl | h'
    · rw [List.filter_cons_of_pos (by simp)]
      congr 1
      rw [List.filter_eq_nil_iff]
      intro b hb
      have : b.key ≠ it.key := fun e => hn.1 (e ▸ List.mem_map_of_mem hb)
      simpa using this
    · have hne : a.key ≠ it.key := fun e => hn.1 (e ▸ List.mem_map_of_mem h')
      rw [List.filter_cons_of_neg (by simpa using hne)]
      exact ih hn.2 h'

namespace Represents
variable {p : Poller} {m : PollMap}

theorem items_of_key (h : Represents p m) (k : Key) :
    p.items.filter (fun it => it.key = k) = ((m k).map (Entry.item k)).toList := by
  cases he : m k with
  | none =>
    rw [Option.map_none, Option.toList_none, List.filter_eq_nil_iff]
    intro it hit
    obtain ⟨k', e, he', rfl⟩ := h.entry it hit
    have : k' ≠ k := by
      rintro rfl
      rw [he] at he'
      cases he'
    simpa [e.item_key] using this
  | some e =>
    obtain ⟨i, -, hi⟩ := h.get_of_map he
    have := filter_key_of_nodup h.nodup (List.mem_of_getElem? hi)
    rw [e.item_key] at this
    exact this

theorem hasKey_eq (h : Represents p m) (k : Key) : p.hasKey k = (m k).isSome := by
  unfold hasKey
  have := h.indexed k
  cases hf : p.find k <;> cases hm : m k <;> simp_all

theorem eventsKey_eq (h : Represents p m) (k : Key) :
    p.eventsKey k = match m k with
      | some e => .ok e.revents
      | none => .error k.notRepresented := by
  unfold eventsKey
  cases he : m k with
  | none => rw [(h.indexed k).mpr he]
  | some e =>
    obtain ⟨i, hf, hi⟩ := h.get_of_map he
    rw [hf]
    dsimp only
    rw [hi]
    rfl

/-- what `zmq_poll` may write into the item of a key -/
theorem written_of_legal (h : Represents p m) {call : ZmqPoll} (hl : Legal p call) {k : Key}
    {e : Entry} (he : m k = some e) :
    ∃ ev, written p call k = some ev ∧ Within ev (e.events ||| pollError) := by
  obtain ⟨i, -, hi⟩ := h.get_of_map he
  obtain ⟨ev, hev, hwithin⟩ := hl i _ hi
  have hslot := h.slot_eq_find hi
  rw [e.item_key] at hslot
  refine ⟨ev, ?_, ?_⟩
  · unfold written
    rw [hslot]
    exact hev
  · rw [e.events_item] at hwithin
    exact hwithin

theorem checkForKey_snd (h : Represents p m) (k : Key) (event : Short) :
    (p.checkForKey k event).2 = if (m k).isSome then .ok () else .error k.notRepresented := by
  rw [← h.hasKey_eq]
  unfold Poller.checkForKey hasKey
  cases p.find k <;> rfl

/-- `check_for` on a present key -/
theorem checkForKey_ok (h : Represents p m) {k : Key} {e : Entry} (he : m k = some e)
    (event : Short) :
    ∃ p', p.checkForKey k event = (p', .ok ()) ∧
      Represents p' (Function.update m k (some { e with events := event })) := by
  have hsnd := h.checkForKey_snd k event
  have hrep := h.checkForKey k event
  rw [he] at hsnd hrep
  refine ⟨(p.checkForKey k event).1, ?_, hrep⟩
  calc p.checkForKey k event
      = ((p.checkForKey k event).1, (p.checkForKey k event).2) := rfl
    _ = ((p.checkForKey k event).1, .ok ()) := by rw [hsnd]; rfl

end Represents

/-- **The poller refines a finite map.**  After any history the array handed to `zmq_poll` holds for
each key exactly the item the map has for it, and every operation answers as the map does. -/
theorem refines_map {p : Poller} {m : PollMap} (h : History p m) :
    (∀ k, p.items.filter (fun it => it.key = k) = ((m k).map (Entry.item k)).toList) ∧
    (∀ k, p.hasKey k = (m k).isSome) ∧
    (∀ k, p.eventsKey k = match m k with
      | some e => .ok e.revents
      | none => .error k.notRepresented) ∧
    (∀ k event, (p.checkForKey k event).2 =
      if (m k).isSome then .ok () else .error k.notRepresented) ∧
    (∀ k, m k = none → p.removeKey k = (p, .ok ())) ∧
    (∀ k, (p.removeKey k).2 = .ok ()) := by
  have hr := h.represents
  refine ⟨hr.items_of_key, hr.hasKey_eq, hr.eventsKey_eq, hr.checkForKey_snd, ?_, ?_⟩
  · intro k hk
    exact removeKey_none ((hr.indexed k).mpr hk)
  · intro k
    exact removeKey_ok hr.sound hr.complete (hr.copies_le k)

/-- a socket and a descriptor are added, and the socket is removed: the descriptor's item moves -/
theorem refines_map_moved :
    ((({} : Poller).add ((Key.sock 7).item pollIn)).add ((Key.fd 3).item pollOut)
      |>.removeKey (.sock 7)).1.eventsKey (.fd 3) = .ok 0 := by
  have h := History.remove (.sock 7) (History.add (.fd 3) pollOut (by simp [Function.update])
    (History.add (.sock 7) pollIn rfl History.init))
  rw [(refines_map h).2.2.1]
  simp [Function.update]

end Poller
end Zmqpp
