import ZmqppPty.Dispatch.Moves

/-!
# The lookups of a dispatch (reactor.cpp, loop.cpp, poller.cpp)

The range-for asks the poller about every registration, and the poller throws if the key of one is
not in its index.  A key added twice has two items in the vector and one position in the index; a
`remove` of it may throw half-way, with an item of it left in the vector and none indexed.  Nothing
there says that an item of the vector is indexed.  What lasts is the converse for `items_`: a
`remove` takes all registrations of its key out of `items_` before it asks the poller, and leaves
the indexing of the other keys as it was.

* `LooksUp`                what a dispatch needs of the index;
* `Indexed`                the invariant, and that every operation keeps it;
* `Move.indexed`           so does every move of a reactor or a loop;
* `lookups_never_fail`     it holds in every run.
-/

namespace Zmqpp
namespace Registry

/-- Every key of `items_` is indexed at a position of the vector with an item of that key, and no
test of a registration throws. -/
def LooksUp (r : Registry) : Prop :=
  ∀ it ∈ r.items,
    (∃ i, r.poller.find it.1.key = some i ∧
      ∃ hi : i < r.poller.items.length, r.poller.items[i].key = it.1.key) ∧
    (∃ b, r.poller.hasInput it.1 = .ok b) ∧ (∃ b, r.poller.hasError it.1 = .ok b) ∧
    (∃ b, r.poller.hasOutput it.1 = .ok b) ∧ ∃ b, r.ready it.1 = .ok b

structure Indexed (r : Registry) : Prop where
  sound : r.poller.Sound
  present : ∀ it ∈ r.items, r.poller.find it.1.key ≠ none

theorem indexed_init : Indexed {} := ⟨Poller.sound_init, nofun⟩

namespace Indexed
variable {r : Registry}

/-! ## the operations -/

/-- only the poller is touched, and neither its index nor the keys of its items -/
theorem of_keys (h : r.Indexed) {p : Poller} (hf : ∀ k, p.find k = r.poller.find k)
    (hk : p.items.map PollItem.key = r.poller.items.map PollItem.key) :
    Indexed { r with poller := p } := by
  refine ⟨Poller.sound_of_keys h.sound hf hk, ?_⟩
  intro it hit
  show p.find it.1.key ≠ none
  rw [hf]
  exact h.present it hit

theorem poll (h : r.Indexed) (zmqPoll : ZmqPoll) :
    Indexed { r with poller := (r.poller.poll zmqPoll).1 } :=
  h.of_keys (Poller.poll_find r.poller zmqPoll) (Poller.poll_keys r.poller zmqPoll)

theorem checkFor (h : r.Indexed) (sockets : Sockets) (x : Target) (event : Short) :
    (Registry.checkFor sockets r x event).1.Indexed := by
  unfold Registry.checkFor
  cases x.key sockets with
  | none => exact h
  | some k =>
    exact h.of_keys (Poller.checkForKey_find r.poller k event)
      (Poller.checkForKey_keys r.poller k event)

theorem setDispatching (h : r.Indexed) (b : Bool) : (r.setDispatching b).Indexed :=
  ⟨h.sound, h.present⟩

theorem add (h : r.Indexed) (sockets : Sockets) (x : Target) (callable : ℕ) (event : Short) :
    (r.add sockets x callable event).Indexed := by
  refine ⟨Poller.sound_add h.sound _, ?_⟩
  intro it hit
  show (r.poller.add (x.item sockets event)).find it.1.key ≠ none
  rw [Poller.find_add]
  split
  · exact Option.some_ne_none _
  · rename_i hne
    rcases List.mem_append.mp hit with hit | hit
    · exact h.present it hit
    · rw [List.mem_singleton.mp hit] at hne
      exact absurd rfl hne

/-- also of a key that was added twice, and where the poller throws -/
theorem eraseKey (h : r.Indexed) (k : Key) : (r.eraseKey k).1.Indexed := by
  refine ⟨Poller.sound_removeKey h.sound k, ?_⟩
  intro it hit
  obtain ⟨hit', hne⟩ := List.mem_filter.mp hit
  show (r.poller.removeKey k).1.find it.1.key ≠ none
  rw [ne_eq, Poller.removeKey_find_of_ne h.sound (of_decide_eq_true hne)]
  exact h.present it hit'

theorem remove (h : r.Indexed) (sockets : Sockets) (x : Target) :
    (Registry.remove sockets r x).1.Indexed := by
  unfold Registry.remove
  split
  · cases x <;> exact ⟨h.sound, h.present⟩
  · cases x.key sockets with
    | none => exact h
    | some k => exact h.eraseKey k

theorem flushRemoveLater (h : r.Indexed) (sockets : Sockets) :
    (Registry.flushRemoveLater sockets r).1.Indexed :=
  flushRemoveLater_state Indexed (fun _ x ht => ht.remove sockets x)
    (fun _ ht => ⟨ht.sound, ht.present⟩) h

/-! ## the lookups -/

theorem hasFlag (h : r.Indexed) {it : PollItem × ℕ} (hit : it ∈ r.items) (flag : Short) :
    ∃ b, r.poller.hasFlag flag it.1 = .ok b := by
  obtain ⟨i, hi⟩ := Option.ne_none_iff_exists'.mp (h.present it hit)
  unfold Poller.hasFlag Poller.eventsItem Poller.eventsKey
  rw [hi]
  exact ⟨_, rfl⟩

theorem ready (h : r.Indexed) {it : PollItem × ℕ} (hit : it ∈ r.items) :
    ∃ b, r.ready it.1 = .ok b := by
  obtain ⟨input, hinput⟩ := h.hasFlag hit pollIn
  obtain ⟨error, herror⟩ := h.hasFlag hit pollError
  obtain ⟨output, houtput⟩ := h.hasFlag hit pollOut
  unfold Registry.ready Poller.hasInput Poller.hasError Poller.hasOutput
  rw [hinput, herror, houtput]
  cases input with
  | true => exact ⟨true, rfl⟩
  | false => cases error with
    | true => exact ⟨true, rfl⟩
    | false => exact ⟨output, rfl⟩

theorem looksUp (h : r.Indexed) : r.LooksUp := by
  intro it hit
  refine ⟨?_, h.hasFlag hit pollIn, h.hasFlag hit pollError, h.hasFlag hit pollOut, h.ready hit⟩
  obtain ⟨i, hfind⟩ := Option.ne_none_iff_exists'.mp (h.present it hit)
  obtain ⟨pos, hpos, hkey⟩ := h.sound _ i hfind
  obtain ⟨hi, hget⟩ := List.getElem?_eq_some_iff.mp hpos
  exact ⟨i, hfind, hi, by rw [hget, hkey]⟩

end Indexed
end Registry

/-! ## the runs -/

namespace Registry

theorem Move.indexed {f : Prop} {v v' : View} (h : Move f v v') (hv : v.registry.Indexed) :
    v'.registry.Indexed := by
  cases h with
  | add x callable event hnew => exact hv.add v.sockets x callable event
  | remove x => exact hv.remove v.sockets x
  | checkFor x event => exact hv.checkFor v.sockets x event
  | moved r h => exact hv
  | poll zmqPoll => exact hv.poll zmqPoll
  | flush hout => exact hv.flushRemoveLater v.sockets
  | begins => exact hv.setDispatching true
  | ends => exact hv.setDispatching false
  | leaves => exact hv

theorem Dispatcher.looksUp {σ ℓ ε : Type} {M : Lib.Machine σ ℓ ε} (d : Dispatcher M) {s t : σ}
    {ls : List ℓ} {es : List ε} (hs : (d.view s).registry.Indexed)
    (hr : M.exec s ls = some (t, es)) : (d.view t).registry.LooksUp :=
  (d.keeps (fun v => v.registry.Indexed) (fun _ _ _ h => h.indexed) hs hr).looksUp

end Registry

/-- **Dispatch lookups cannot fail**, in any run of a reactor or a loop. -/
theorem lookups_never_fail (sockets : Sockets) :
    (∀ (ls : List Reactor.Label) (s : Reactor.State) (es : List ℕ),
      Reactor.machine.exec { sockets := sockets } ls = some (s, es) → s.registry.LooksUp) ∧
    (∀ (clock : ℤ) (ls : List Run.Label) (s : Run.State) (es : List Run.Event),
      Run.machine.exec { sockets := sockets, clock := clock } ls = some (s, es) →
      s.loop.toRegistry.LooksUp) :=
  ⟨fun _ _ _ hr =>
      Reactor.dispatcher.looksUp (s := { sockets := sockets }) Registry.indexed_init hr,
    fun clock _ _ _ hr =>
      Run.dispatcher.looksUp (s := { sockets := sockets, clock := clock }) Registry.indexed_init hr⟩

/-- Descriptor 1 is added twice and removed once, which leaves an item of it; the removal of 2
throws over that item; then 3 is added twice and its handler is invoked. -/
def readdedInReactor : List Reactor.Label :=
  [.call (.add (.fd 2) 1), .call (.add (.fd 1) 1), .call (.add (.fd 1) 1),
   .call (.remove (.fd 1)), .call (.remove (.fd 2)), .call (.add (.fd 3) 1),
   .call (.add (.fd 3) 1), .poll ⟨fun _ => some 1, 3, .eintr⟩, .test]

/-- the same in a loop -/
def readdedInLoop : List Run.Label :=
  [.call (.add (.fd 2) 1), .call (.add (.fd 1) 1), .call (.add (.fd 1) 1),
   .call (.remove (.fd 1)), .call (.remove (.fd 2)), .call (.add (.fd 3) 1),
   .call (.add (.fd 3) 1), .start, .iterate 0 0 0 ⟨fun _ => some 1, 3, .eintr⟩]

/-- the keys of `items_`, and those of the poller's vector -/
def Registry.keys (r : Registry) : List Key × List Key :=
  (r.items.map fun it => it.1.key, r.poller.items.map PollItem.key)

theorem lookups_never_fail_readded :
    (∃ s es, Reactor.machine.exec {} readdedInReactor = some (s, es) ∧
      s.registry.keys = ([.fd 3, .fd 3], [.fd 1, .fd 3, .fd 3]) ∧ s.registry.LooksUp) ∧
    (∃ s es, Run.machine.exec {} readdedInLoop = some (s, es) ∧
      s.loop.toRegistry.keys = ([.fd 3, .fd 3], [.fd 1, .fd 3, .fd 3]) ∧
      s.loop.toRegistry.LooksUp) := by
  obtain ⟨hreactor, hloop⟩ := lookups_never_fail fun _ => none
  constructor
  · have hrun : (Reactor.machine.exec {} readdedInReactor).map (fun r => r.1.registry.keys)
        = some ([.fd 3, .fd 3], [.fd 1, .fd 3, .fd 3]) := by decide +kernel
    obtain ⟨⟨s, es⟩, hr, hkeys⟩ := Option.map_eq_some_iff.mp hrun
    exact ⟨s, es, hr, hkeys, hreactor _ s es hr⟩
  · have hrun : (Run.machine.exec {} readdedInLoop).map (fun r => r.1.loop.toRegistry.keys)
        = some ([.fd 3, .fd 3], [.fd 1, .fd 3, .fd 3]) := by decide +kernel
    obtain ⟨⟨s, es⟩, hr, hkeys⟩ := Option.map_eq_some_iff.mp hrun
    exact ⟨s, es, hr, hkeys, hloop 0 _ s es hr⟩

end Zmqpp
