import ZmqppPty.Base
import ZmqppPty.Lib.SwapErase

/-!
# The poller (poller.hpp, poller.cpp)

A vector of poll items and two hash indexes into it, one by socket pointer and one by descriptor.
A `Key` is what an item is indexed by.  The overloads of the source for sockets, descriptors and
poll items differ in the index they use and in a message: each is the operation on keys at its
own key.

* `add`, `hasKey`, `removeKey`, `reindex`, `checkForKey`, `eventsKey`, `poll`   the operations;
* `Sound`, `Complete`     the index points at items of the right key; every item is indexed;
* `removeKey_none`, `removeKey_last`, `removeKey_swap`   the three ways of a removal;
* `removeKey_items`       a removal takes out one item of its key, whatever else happens.
-/

namespace Zmqpp

/-- a non-null `void*` of libzmq; `nullptr` is the `none` of `Option Handle` -/
abbrev Handle := ℕ
abbrev Fd := ℤ
abbrev Short := BitVec 16

structure PollItem where
  socket : Option Handle
  fd : Fd
  events : Short
  revents : Short
deriving DecidableEq, Repr

inductive Key where
  | sock (h : Handle)
  | fd (d : Fd)
deriving DecidableEq, Repr

def PollItem.key (it : PollItem) : Key :=
  match it.socket with
  | some h => .sock h
  | none => .fd it.fd

namespace Key

/-- the item built by `add(socket, event)` and `add(descriptor, event)` -/
def item (k : Key) (event : Short) : PollItem :=
  match k with
  | .sock h => ⟨some h, 0, event, 0⟩
  | .fd d => ⟨none, d, event, 0⟩

def notRepresented : Key → Exn
  | .sock _ => .exception "this socket is not represented within this poller"
  | .fd _ => .exception "this standard socket is not represented within this poller"

def unableToReindex : Key → Exn
  | .sock _ => .exception "unable to reindex socket in poller"
  | .fd _ => .exception "unable to reindex file descriptor in poller"

theorem item_key (k : Key) (event : Short) : (k.item event).key = k := by cases k <;> rfl

end Key

def pollNone : Short := 0
def pollIn : Short := 1
def pollOut : Short := 2
def pollError : Short := 4
def pollPri : Short := 8

/-- no flag of `ev` but those of `mask` -/
def Within (ev mask : Short) : Prop := ev &&& mask = ev

instance (ev mask : Short) : Decidable (Within ev mask) := inferInstanceAs (Decidable (_ = _))

/-- what one `zmq_poll` call does: the `revents` it writes, by slot, and its result -/
structure ZmqPoll where
  revents : ℕ → Option Short
  result : ℤ
  errno : Errno

structure Poller where
  items : List PollItem := []
  index : Handle → Option ℕ := fun _ => none
  fdindex : Fd → Option ℕ := fun _ => none

namespace Poller

def find (p : Poller) : Key → Option ℕ
  | .sock h => p.index h
  | .fd d => p.fdindex d

/-- `_index[k] = i`, or with `none` `_index.erase(k)` -/
def assign (p : Poller) (k : Key) (i : Option ℕ) : Poller :=
  match k with
  | .sock h => { p with index := Function.update p.index h i }
  | .fd d => { p with fdindex := Function.update p.fdindex d i }

def add (p : Poller) (item : PollItem) : Poller :=
  { p with items := p.items ++ [item] }.assign item.key (some p.items.length)

def addSocket (p : Poller) (socket : Option Handle) (event : Short) : Poller :=
  p.add ⟨socket, 0, event, 0⟩

def addFd (p : Poller) (descriptor : Fd) (event : Short) : Poller :=
  p.add ⟨none, descriptor, event, 0⟩

def hasKey (p : Poller) (k : Key) : Bool := (p.find k).isSome

/-- a null pointer is never indexed: `add` indexes such an item by its descriptor -/
def hasSocket (p : Poller) : Option Handle → Bool
  | some h => p.hasKey (.sock h)
  | none => false

def hasFd (p : Poller) (descriptor : Fd) : Bool := p.hasKey (.fd descriptor)
def hasItem (p : Poller) (item : PollItem) : Bool := p.hasKey item.key

def reindex (p : Poller) (i : ℕ) : Poller × Except Exn Unit :=
  match p.items[i]? with
  | none => (p, .ok ())
  | some it =>
    match p.find it.key with
    | none => (p, .error it.key.unableToReindex)
    | some _ => (p.assign it.key (some i), .ok ())

/-- the common body of `remove(descriptor)` and `remove(void*)` -/
def removeKey (p : Poller) (k : Key) : Poller × Except Exn Unit :=
  match p.find k with
  | none => (p, .ok ())
  | some i =>
    if p.items.length - 1 = i then
      ({ p with items := p.items.dropLast }.assign k none, .ok ())
    else
      ({ p with items := Lib.swapErase p.items i }.assign k none).reindex i

def removeSocket (p : Poller) : Option Handle → Poller × Except Exn Unit
  | some h => p.removeKey (.sock h)
  | none => (p, .ok ())

def removeFd (p : Poller) (descriptor : Fd) : Poller × Except Exn Unit :=
  p.removeKey (.fd descriptor)

def removeItem (p : Poller) (item : PollItem) : Poller × Except Exn Unit := p.removeKey item.key

def checkForKey (p : Poller) (k : Key) (event : Short) : Poller × Except Exn Unit :=
  match p.find k with
  | none => (p, .error k.notRepresented)
  | some i => ({ p with items := p.items.modify i fun it => { it with events := event } }, .ok ())

def checkForSocket (p : Poller) (socket : Option Handle) (event : Short) :
    Poller × Except Exn Unit :=
  match socket with
  | some h => p.checkForKey (.sock h) event
  | none => (p, .error (.exception "this socket is not represented within this poller"))

def checkForFd (p : Poller) (descriptor : Fd) (event : Short) : Poller × Except Exn Unit :=
  p.checkForKey (.fd descriptor) event

def checkForItem (p : Poller) (item : PollItem) (event : Short) : Poller × Except Exn Unit :=
  p.checkForKey item.key event

def eventsKey (p : Poller) (k : Key) : Except Exn Short :=
  match p.find k with
  | none => .error k.notRepresented
  | some i => .ok ((p.items[i]?.map PollItem.revents).getD 0)

def eventsSocket (p : Poller) : Option Handle → Except Exn Short
  | some h => p.eventsKey (.sock h)
  | none => .error (.exception "this socket is not represented within this poller")

def eventsFd (p : Poller) (descriptor : Fd) : Except Exn Short := p.eventsKey (.fd descriptor)
def eventsItem (p : Poller) (item : PollItem) : Except Exn Short := p.eventsKey item.key

/-- `has_input`, `has_output` and `has_error` on a poll item, with their flag -/
def hasFlag (p : Poller) (flag : Short) (item : PollItem) : Except Exn Bool :=
  match p.eventsItem item with
  | .error e => .error e
  | .ok ev => .ok (ev &&& flag != 0)

def hasInput (p : Poller) (item : PollItem) : Except Exn Bool := p.hasFlag pollIn item
def hasOutput (p : Poller) (item : PollItem) : Except Exn Bool := p.hasFlag pollOut item
def hasError (p : Poller) (item : PollItem) : Except Exn Bool := p.hasFlag pollError item

def poll (p : Poller) (call : ZmqPoll) : Poller × Except Exn Bool :=
  let p := { p with
    items := p.items.mapIdx fun i it => { it with revents := (call.revents i).getD it.revents } }
  if call.result < 0 then
    match call.errno with
    | .eintr => (p, .ok false)
    | e => (p, .error (.zmqInternal e))
  else (p, .ok (decide (call.result > 0)))

/-- what `zmq_poll` may write: requested flags, or the error flag, in every item -/
def Legal (p : Poller) (call : ZmqPoll) : Prop :=
  ∀ i it, p.items[i]? = some it →
    ∃ ev, call.revents i = some ev ∧ Within ev (it.events ||| pollError)

/-! ## the indexes -/

@[simp] theorem items_assign (p : Poller) (k : Key) (i : Option ℕ) :
    (p.assign k i).items = p.items := by cases k <;> rfl

theorem find_assign (p : Poller) (k k' : Key) (i : Option ℕ) :
    (p.assign k i).find k' = if k' = k then i else p.find k' := by
  cases k <;> cases k' <;> simp [assign, find, Function.update_apply]

@[simp] theorem find_items (p : Poller) (l : List PollItem) (k : Key) :
    { p with items := l }.find k = p.find k := by cases k <;> rfl

theorem items_add (p : Poller) (item : PollItem) : (p.add item).items = p.items ++ [item] := by
  unfold add
  rw [items_assign]

theorem find_add (p : Poller) (item : PollItem) (k : Key) :
    (p.add item).find k = if k = item.key then some p.items.length else p.find k := by
  unfold add
  rw [find_assign, find_items]

/-- what is indexed under a key is an item of that key -/
def Sound (p : Poller) : Prop :=
  ∀ k i, p.find k = some i → ∃ it, p.items[i]? = some it ∧ it.key = k

/-- every item's key is indexed -/
def Complete (p : Poller) : Prop := ∀ it ∈ p.items, p.find it.key ≠ none

/-- the number of items of a key -/
def copies (p : Poller) (k : Key) : ℕ := (p.items.map PollItem.key).count k

theorem copies_eq_zero {p : Poller} {k : Key} : p.copies k = 0 ↔ ∀ it ∈ p.items, it.key ≠ k := by
  unfold copies
  rw [List.count_eq_zero, List.mem_map]
  constructor
  · intro h it hit e
    exact h ⟨it, hit, e⟩
  · intro h hmem
    obtain ⟨it, hit, e⟩ := hmem
    exact h it hit e

/-! ## the three ways of a removal -/

theorem removeKey_none {p : Poller} {k : Key} (h : p.find k = none) :
    p.removeKey k = (p, .ok ()) := by
  unfold removeKey
  rw [h]

theorem swapErase_last_eq {l : List PollItem} {i : ℕ} {it : PollItem} (h : l[i]? = some it)
    (hi : l.length - 1 = i) : Lib.swapErase l i = l.dropLast := by
  obtain ⟨x, y, rfl, rfl⟩ := Lib.exists_split h
  have hy : y = [] := by
    rw [List.length_append, List.length_cons] at hi
    exact List.length_eq_zero_iff.mp (by omega)
  subst hy
  rw [Lib.swapErase_last, List.dropLast_concat]

theorem removeKey_last {p : Poller} {k : Key} {i : ℕ} {it : PollItem} (h : p.find k = some i)
    (hit : p.items[i]? = some it) (hi : p.items.length - 1 = i) :
    p.removeKey k = ({ p with items := Lib.swapErase p.items i }.assign k none, .ok ()) := by
  unfold removeKey
  rw [h]
  simp only [hi, ↓reduceIte]
  rw [swapErase_last_eq hit hi]

/-- the former last item stands at `i`; its key is reindexed if it is still known -/
theorem removeKey_swap {p : Poller} {k : Key} {i : ℕ} {it : PollItem} (h : p.find k = some i)
    (hit : p.items[i]? = some it) (hi : p.items.length - 1 ≠ i) :
    ∃ back, p.items[p.items.length - 1]? = some back ∧ i < p.items.length - 1 ∧
      p.removeKey k =
        if back.key = k ∨ p.find back.key = none then
          ({ p with items := Lib.swapErase p.items i }.assign k none,
            .error back.key.unableToReindex)
        else
          (({ p with items := Lib.swapErase p.items i }.assign k none).assign back.key (some i),
            .ok ()) := by
  have hlt : i < p.items.length := (List.getElem?_eq_some_iff.mp hit).1
  have hlast : p.items.length - 1 < p.items.length := by omega
  refine ⟨p.items[p.items.length - 1], List.getElem?_eq_getElem hlast, by omega, ?_⟩
  generalize hb : p.items[p.items.length - 1] = back
  have hback : p.items[p.items.length - 1]? = some back := by
    rw [List.getElem?_eq_getElem hlast, hb]
  have hslot : (Lib.swapErase p.items i)[i]? = some back := by
    have hil : i < (Lib.swapErase p.items i).length := by
      rw [Lib.swapErase_length hit]; omega
    have hget := List.getElem?_eq_getElem hil
    have := (Lib.swapErase_get hit hget).2
    rw [if_pos rfl, hback] at this
    rw [hget, ← this]
  unfold removeKey
  rw [h]
  simp only [if_neg hi]
  unfold reindex
  rw [items_assign]
  simp only [hslot]
  rw [find_assign, find_items]
  by_cases hk : back.key = k
  · simp [hk]
  · rw [if_neg hk]
    cases hf : p.find back.key with
    | none => simp
    | some j => simp [hk]

theorem removeKey_items {p : Poller} (hs : p.Sound) {k : Key} {i : ℕ} (h : p.find k = some i) :
    (p.removeKey k).1.items = Lib.swapErase p.items i := by
  obtain ⟨it, hit, -⟩ := hs k i h
  by_cases hi : p.items.length - 1 = i
  · rw [removeKey_last h hit hi, items_assign]
  · obtain ⟨back, -, -, hr⟩ := removeKey_swap h hit hi
    rw [hr]
    split <;> simp

/-- **A removal takes out one item of its key** if the key is indexed, and no other item. -/
theorem removeKey_copies {p : Poller} (hs : p.Sound) (k k' : Key) :
    (p.removeKey k).1.copies k'
      = p.copies k' - (if k' = k ∧ p.find k ≠ none then 1 else 0) := by
  cases h : p.find k with
  | none => rw [removeKey_none h]; simp
  | some i =>
    obtain ⟨it, hit, hkey⟩ := hs k i h
    have hperm := ((Lib.swapErase_perm hit).map PollItem.key).count_eq k'
    unfold copies
    rw [removeKey_items hs h]
    rw [List.map_cons, List.count_cons, hkey] at hperm
    by_cases e : k' = k
    · subst e
      simp only [beq_self_eq_true, ↓reduceIte] at hperm
      simp only [ne_eq, reduceCtorEq, not_false_eq_true, and_self, ↓reduceIte]
      omega
    · have e' : (k == k') = false := by simpa using fun h => e h.symm
      rw [e'] at hperm
      simp only [e, false_and, ↓reduceIte]
      simpa using hperm.symm

/-- after a removal its key is not indexed -/
theorem removeKey_find_self {p : Poller} (hs : p.Sound) (k : Key) :
    (p.removeKey k).1.find k = none := by
  cases h : p.find k with
  | none => rw [removeKey_none h]; exact h
  | some i =>
    obtain ⟨it, hit, -⟩ := hs k i h
    by_cases hi : p.items.length - 1 = i
    · rw [removeKey_last h hit hi, find_assign, if_pos rfl]
    · obtain ⟨back, -, -, hr⟩ := removeKey_swap h hit hi
      rw [hr]
      split
      · rw [find_assign, if_pos rfl]
      · rename_i hb
        rw [not_or] at hb
        rw [find_assign, if_neg (fun e => hb.1 e.symm), find_assign, if_pos rfl]

/-! ## the operations keep the index sound -/

theorem sound_init : ({} : Poller).Sound := by
  intro k i h
  cases k <;> cases h

theorem sound_add {p : Poller} (hs : p.Sound) (item : PollItem) : (p.add item).Sound := by
  intro k i h
  rw [find_add] at h
  rw [items_add]
  by_cases e : k = item.key
  · rw [if_pos e, Option.some.injEq] at h
    subst h
    exact ⟨item, by simp, e.symm⟩
  · rw [if_neg e] at h
    obtain ⟨it, hit, hk⟩ := hs k i h
    have hlt := (List.getElem?_eq_some_iff.mp hit).1
    exact ⟨it, by rw [List.getElem?_append_left hlt]; exact hit, hk⟩

/-- an item other than the erased and the last one keeps its place -/
theorem find_of_swap {p : Poller} (hs : p.Sound) {k k' : Key} {i : ℕ} (h : p.find k = some i)
    (hk : k' ≠ k) {j : ℕ} (hj : p.find k' = some j) (hl : j ≠ p.items.length - 1) :
    ∃ it, (Lib.swapErase p.items i)[j]? = some it ∧ it.key = k' := by
  obtain ⟨it, hit, hkey⟩ := hs k i h
  obtain ⟨it', hit', hkey'⟩ := hs k' j hj
  have hjl := (List.getElem?_eq_some_iff.mp hit').1
  have hji : j ≠ i := by
    rintro rfl
    rw [hit, Option.some.injEq] at hit'
    exact hk (by rw [← hkey', ← hkey, hit'])
  exact ⟨it', by rw [Lib.swapErase_get_of_ne hit hji (by omega)]; exact hit', hkey'⟩

theorem sound_removeKey {p : Poller} (hs : p.Sound) (k : Key) : (p.removeKey k).1.Sound := by
  cases h : p.find k with
  | none => rw [removeKey_none h]; exact hs
  | some i =>
    obtain ⟨it, hit, hkey⟩ := hs k i h
    by_cases hi : p.items.length - 1 = i
    · rw [removeKey_last h hit hi]
      intro k' j hj
      rw [find_assign, find_items] at hj
      rw [items_assign]
      by_cases e : k' = k
      · rw [if_pos e] at hj; cases hj
      · rw [if_neg e] at hj
        apply find_of_swap hs h e hj
        rintro rfl
        obtain ⟨it', hit', hkey'⟩ := hs k' _ hj
        rw [hi, hit, Option.some.injEq] at hit'
        exact e (by rw [← hkey', ← hkey, hit'])
    · obtain ⟨back, hback, hlt, hr⟩ := removeKey_swap h hit hi
      have hlast : ∀ k' j, p.find k' = some j → back.key ≠ k' → j ≠ p.items.length - 1 := by
        rintro k' j hj hne rfl
        obtain ⟨it', hit', hkey'⟩ := hs k' _ hj
        rw [hback, Option.some.injEq] at hit'
        exact hne (by rw [hit', hkey'])
      rw [hr]
      split
      · rename_i hb
        intro k' j hj
        rw [find_assign, find_items] at hj
        rw [items_assign]
        by_cases e : k' = k
        · rw [if_pos e] at hj; cases hj
        · rw [if_neg e] at hj
          refine find_of_swap hs h e hj (hlast k' j hj ?_)
          rintro rfl
          rcases hb with hb | hb
          · exact e hb
          · rw [hb] at hj; cases hj
      · rename_i hb
        rw [not_or] at hb
        intro k' j hj
        rw [find_assign, find_assign, find_items] at hj
        rw [items_assign, items_assign]
        by_cases e' : k' = back.key
        · rw [if_pos e', Option.some.injEq] at hj
          subst hj
          have hil : i < (Lib.swapErase p.items i).length := by
            rw [Lib.swapErase_length hit]; exact hlt
          have hget := List.getElem?_eq_getElem hil
          have h2 := (Lib.swapErase_get hit hget).2
          rw [if_pos rfl, hback, Option.some.injEq] at h2
          exact ⟨back, by rw [hget, ← h2], e'.symm⟩
        · rw [if_neg e'] at hj
          by_cases e : k' = k
          · rw [if_pos e] at hj; cases hj
          · rw [if_neg e] at hj
            exact find_of_swap hs h e hj (hlast k' j hj fun h => e' h.symm)

/-! ## a removal of a key added once -/

theorem complete_init : ({} : Poller).Complete := by
  intro it hit
  cases hit

theorem complete_add {p : Poller} (hc : p.Complete) (item : PollItem) :
    (p.add item).Complete := by
  intro it hit
  rw [items_add, List.mem_append, List.mem_singleton] at hit
  rw [find_add]
  by_cases e : it.key = item.key
  · rw [if_pos e]
    exact Option.some_ne_none _
  · rw [if_neg e]
    rcases hit with hit | rfl
    · exact hc it hit
    · exact absurd rfl e

/-- a removal of one key leaves the others indexed or not, as they were -/
theorem removeKey_find_of_ne {p : Poller} (hs : p.Sound) {k k' : Key} (hk : k' ≠ k) :
    (p.removeKey k).1.find k' = none ↔ p.find k' = none := by
  cases h : p.find k with
  | none => rw [removeKey_none h]
  | some i =>
    obtain ⟨it, hit, -⟩ := hs k i h
    by_cases hi : p.items.length - 1 = i
    · rw [removeKey_last h hit hi, find_assign, if_neg hk, find_items]
    · obtain ⟨back, -, -, hr⟩ := removeKey_swap h hit hi
      rw [hr]
      split
      · rw [find_assign, if_neg hk, find_items]
      · rename_i hb
        rw [not_or] at hb
        rw [find_assign, find_assign, if_neg hk, find_items]
        by_cases e : k' = back.key
        · rw [if_pos e, e]
          exact ⟨fun he => absurd he (Option.some_ne_none _), fun he => absurd he hb.2⟩
        · rw [if_neg e]

/-- a removal that swaps in another item of its own key met two of them -/
theorem two_copies {p : Poller} {k : Key} {i : ℕ} {it back : PollItem}
    (hit : p.items[i]? = some it) (hkey : it.key = k)
    (hback : p.items[p.items.length - 1]? = some back) (hlt : i < p.items.length - 1)
    (hb : back.key = k) : 2 ≤ p.copies k := by
  have hil : i < (Lib.swapErase p.items i).length := by
    rw [Lib.swapErase_length hit]; exact hlt
  have hget := List.getElem?_eq_getElem hil
  have hslot := (Lib.swapErase_get hit hget).2
  rw [if_pos rfl, hback, Option.some.injEq] at hslot
  have hmem : k ∈ (Lib.swapErase p.items i).map PollItem.key := by
    rw [← hb, hslot]
    exact List.mem_map_of_mem (List.getElem_mem hil)
  have hpos := List.count_pos_iff.mpr hmem
  unfold copies
  rw [((Lib.swapErase_perm hit).map PollItem.key).count_eq k, List.map_cons, hkey,
    List.count_cons_self]
  omega

/-- **A removal of a key with at most one item does not throw.** -/
theorem removeKey_ok {p : Poller} (hs : p.Sound) (hc : p.Complete) {k : Key}
    (h1 : p.copies k ≤ 1) : (p.removeKey k).2 = .ok () := by
  cases h : p.find k with
  | none => rw [removeKey_none h]
  | some i =>
    obtain ⟨it, hit, hkey⟩ := hs k i h
    by_cases hi : p.items.length - 1 = i
    · rw [removeKey_last h hit hi]
    · obtain ⟨back, hback, hlt, hr⟩ := removeKey_swap h hit hi
      rw [hr, if_neg]
      rintro (hb | hb)
      · have := two_copies hit hkey hback hlt hb
        omega
      · exact hc back (List.mem_of_getElem? hback) hb

/-- every item left by a removal was there before -/
theorem mem_of_mem_removeKey {p : Poller} (hs : p.Sound) {k : Key} {it : PollItem}
    (hit : it ∈ (p.removeKey k).1.items) : it ∈ p.items := by
  cases h : p.find k with
  | none => rw [removeKey_none h] at hit; exact hit
  | some i =>
    obtain ⟨it', hit', -⟩ := hs k i h
    rw [removeKey_items hs h] at hit
    exact (Lib.swapErase_perm hit').mem_iff.mpr (List.mem_cons_of_mem _ hit)

/-- a removal of a key with at most one item leaves none -/
theorem removeKey_gone {p : Poller} (hs : p.Sound) (hc : p.Complete) {k : Key}
    (h1 : p.copies k ≤ 1) : (p.removeKey k).1.copies k = 0 := by
  rw [removeKey_copies hs]
  by_cases h : p.find k = none
  · have h0 : p.copies k = 0 := copies_eq_zero.mpr fun it hit e => hc it hit (e ▸ h)
    simp [h0]
  · rw [if_pos ⟨rfl, h⟩]
    omega

theorem complete_removeKey {p : Poller} (hs : p.Sound) (hc : p.Complete) {k : Key}
    (h1 : p.copies k ≤ 1) : (p.removeKey k).1.Complete := by
  intro it hit
  have hk : it.key ≠ k := copies_eq_zero.mp (removeKey_gone hs hc h1) it hit
  rw [ne_eq, removeKey_find_of_ne hs hk]
  exact hc it (mem_of_mem_removeKey hs hit)

/-! ## the operations that rewrite items in place -/

/-- the operations that rewrite items in place keep their keys -/
theorem sound_of_keys {p q : Poller} (hs : p.Sound) (hf : ∀ k, q.find k = p.find k)
    (hk : q.items.map PollItem.key = p.items.map PollItem.key) : q.Sound := by
  intro k i h
  rw [hf] at h
  obtain ⟨it, hit, hkey⟩ := hs k i h
  have hmap : (q.items.map PollItem.key)[i]? = some k := by
    rw [hk, List.getElem?_map, hit]
    exact congrArg some hkey
  rw [List.getElem?_map, Option.map_eq_some_iff] at hmap
  exact hmap

theorem modify_keys (l : List PollItem) (i : ℕ) (event : Short) :
    (l.modify i fun it => { it with events := event }).map PollItem.key = l.map PollItem.key := by
  apply List.ext_getElem?
  intro j
  rw [List.getElem?_map, List.getElem?_map, List.getElem?_modify]
  cases l[j]? with
  | none => rfl
  | some it => by_cases e : i = j <;> simp [e, PollItem.key]

theorem mapIdx_keys (l : List PollItem) (f : ℕ → Option Short) :
    (l.mapIdx fun i it => { it with revents := (f i).getD it.revents }).map PollItem.key
      = l.map PollItem.key := by
  apply List.ext_getElem?
  intro j
  rw [List.getElem?_map, List.getElem?_map, List.getElem?_mapIdx]
  cases l[j]? with
  | none => rfl
  | some it => rfl

theorem checkForKey_find (p : Poller) (k : Key) (event : Short) (k' : Key) :
    (p.checkForKey k event).1.find k' = p.find k' := by
  unfold checkForKey
  split
  · rfl
  · exact find_items _ _ _

theorem checkForKey_keys (p : Poller) (k : Key) (event : Short) :
    (p.checkForKey k event).1.items.map PollItem.key = p.items.map PollItem.key := by
  unfold checkForKey
  split
  · rfl
  · exact modify_keys _ _ _

theorem poll_fst (p : Poller) (call : ZmqPoll) :
    (p.poll call).1 = { p with
      items := p.items.mapIdx fun i it =>
        { it with revents := (call.revents i).getD it.revents } } := by
  unfold poll
  dsimp only
  split
  · split <;> rfl
  · rfl

theorem poll_returns (p : Poller) {call : ZmqPoll} (h : call.result < 0 → call.errno = .eintr) :
    ∃ b, (p.poll call).2 = .ok b := by
  unfold poll
  dsimp only
  split
  · rename_i hneg
    rw [h hneg]
    exact ⟨false, rfl⟩
  · exact ⟨_, rfl⟩

theorem poll_find (p : Poller) (call : ZmqPoll) (k : Key) : (p.poll call).1.find k = p.find k := by
  rw [poll_fst]
  exact find_items _ _ _

theorem poll_keys (p : Poller) (call : ZmqPoll) :
    (p.poll call).1.items.map PollItem.key = p.items.map PollItem.key := by
  rw [poll_fst]
  exact mapIdx_keys _ _

end Poller
end Zmqpp
