import ZmqppPty.Client.Basic
import ZmqppPty.Lib.Handles
import ZmqppPty.Lib.Ledger
import ZmqppPty.Lib.Machine

/-!
# The life of sockets and contexts (socket.cpp, context.cpp, context.hpp)

Constructions, moves, `close`, `terminate` and destructions of socket and context objects, in any
order, over a libzmq that knows its open sockets and contexts.

* `Zmq`                       libzmq: `zmqSocket`, `zmqClose`, `zmqCtxDestroy`;
* `constructSocket` …         the special members of the two classes;
* `step`                      one call;
* `every_handle_has_an_owner` no handle is lost, used by two objects or closed twice;
* `types_match_iff`           `type()` is the type of the handle, iff no move assignment mixes types;
* `no_block_lost_iff`         no message block is lost, iff no move assignment meets a full buffer.
-/

namespace Zmqpp
namespace Lifetime

open Lib.Handles (Held Exclusive Owned)
open Client (SocketType)

/-! ## libzmq -/

structure Zmq where
  /-- the context and the type of a socket that is open -/
  sockets : ℕ → Option (ℕ × SocketType) := fun _ => none
  contexts : ℕ → Bool := fun _ => false
  nextSocket : ℕ := 0
  nextContext : ℕ := 0

def efault : Errno := .other 14
def enotsock : Errno := .other 88

namespace Zmq

variable (z : Zmq)

def Valid (context : Option ℕ) : Prop := ∃ c, context = some c ∧ z.contexts c = true

instance (context : Option ℕ) : Decidable (z.Valid context) :=
  match context with
  | none => isFalse (by simp [Valid])
  | some c => decidable_of_iff (z.contexts c = true) (by simp [Valid])

/-- `zmq_ctx_new` -/
def zmqCtxNew (refused : Option Errno) : Except Errno (ℕ × Zmq) :=
  match refused with
  | some e => .error e
  | none =>
    .ok (z.nextContext, { z with
      contexts := Function.update z.contexts z.nextContext true
      nextContext := z.nextContext + 1 })

/-- `zmq_socket`, which may refuse one for reasons of its own -/
def zmqSocket (context : Option ℕ) (type : SocketType) (refused : Option Errno) :
    Except Errno (ℕ × Zmq) :=
  match context with
  | none => .error efault
  | some c =>
    if z.contexts c = true then
      match refused with
      | some e => .error e
      | none =>
        .ok (z.nextSocket, { z with
          sockets := Function.update z.sockets z.nextSocket (some (c, type))
          nextSocket := z.nextSocket + 1 })
    else .error efault

/-- `zmq_close` -/
def zmqClose (socket : Option ℕ) : Except Errno Zmq :=
  match socket with
  | none => .error enotsock
  | some h =>
    match z.sockets h with
    | none => .error enotsock
    | some _ => .ok { z with sockets := Function.update z.sockets h none }

/-- the context has sockets that are open -/
def inUse (c : ℕ) : Bool := (List.range z.nextSocket).any fun h => (z.sockets h).any fun p => p.1 = c

/-- `zmq_ctx_destroy`: it blocks (`none`) as long as the context has open sockets, unless it is
interrupted. -/
def zmqCtxDestroy (context : Option ℕ) (interrupted : Bool) : Option (Except Errno Zmq) :=
  match context with
  | none => some (.error efault)
  | some c =>
    if z.contexts c = true then
      if interrupted then some (.error .eintr)
      else if z.inUse c then none
      else some (.ok { z with contexts := Function.update z.contexts c false })
    else some (.error efault)

end Zmq

/-! ## the objects -/

structure SocketObject where
  /-- `_socket` -/
  socket : Option ℕ
  /-- `_type` -/
  type : SocketType
  /-- the block that `_recv_buffer` holds; small messages need none -/
  recvBuffer : Option ℕ
deriving DecidableEq

/-- the objects by their addresses -/
structure State where
  sockets : ℕ → Option SocketObject := fun _ => none
  /-- `_context` of each context object -/
  contexts : ℕ → Option (Option ℕ) := fun _ => none
  zmq : Zmq := {}
  /-- the number of the next block -/
  nextBlock : ℕ := 0

inductive Event where
  | opened (socket : ℕ)
  | closed (socket : ℕ)
  | created (context : ℕ)
  | destroyed (context : ℕ)
  | filled (block : ℕ)
  | freed (block : ℕ)
  | threw (e : Exn)
  /-- an `assert` fails, or an exception leaves a destructor -/
  | aborted
deriving DecidableEq

/-- how a `zmq_msg_recv` into `_recv_buffer` ends -/
inductive Recv where
  /-- with a message that stays there -/
  | kept (large : Bool)
  /-- with a part that `receive(message)` moves on -/
  | movedOn
  /-- with an error, before or after libzmq has emptied the buffer -/
  | failed (emptied : Bool)
deriving DecidableEq

inductive Label where
  | constructContext (k : ℕ) (refused : Option Errno)
  | moveConstructContext (this source : ℕ)
  | moveAssignContext (this source : ℕ)
  /-- the calls of `zmq_ctx_destroy`, whether they are interrupted -/
  | terminate (k : ℕ) (calls : List Bool)
  | destroyContext (k : ℕ) (calls : List Bool)
  | constructSocket (x k : ℕ) (type : SocketType) (refused : Option Errno)
  | moveConstructSocket (this source : ℕ)
  | moveAssignSocket (this source : ℕ)
  | receive (x : ℕ) (r : Recv)
  | close (x : ℕ)
  | destroySocket (x : ℕ)

/-- `context::terminate`: the loop over `EINTR` -/
def terminate (z : Zmq) (context : Option ℕ) : List Bool → Option (Except Exn Zmq)
  | [] => none
  | interrupted :: calls =>
    match z.zmqCtxDestroy context interrupted with
    | none => none
    | some (.ok z) => some (.ok z)
    | some (.error .eintr) => terminate z context calls
    | some (.error e) => some (.error (.zmqInternal e))

/-- the members of `socket(socket&&)`: of the new object, and of the source -/
def SocketObject.moveConstruct (source : SocketObject) : SocketObject × SocketObject :=
  (⟨source.socket, source.type, source.recvBuffer⟩, ⟨none, source.type, none⟩)

/-- The members of `operator=(socket&&)`.  `zmq_msg_init` forgets the block of the buffer, also in
an assignment to itself, which then moves the empty buffer. -/
def SocketObject.moveAssign (this source : SocketObject) : SocketObject × SocketObject :=
  (⟨source.socket, source.type, source.recvBuffer⟩, ⟨this.socket, source.type, none⟩)

def closedOf (socket : Option ℕ) : List Event := socket.toList.map .closed
def freedOf (block : Option ℕ) : List Event := block.toList.map .freed

def State.putSocket (s : State) (x : ℕ) (o : Option SocketObject) : State :=
  { s with sockets := Function.update s.sockets x o }

def State.putContext (s : State) (k : ℕ) (context : Option (Option ℕ)) : State :=
  { s with contexts := Function.update s.contexts k context }

/-- one call; there is none for misuse (an object that does not exist, or exists already) and where
`zmq_ctx_destroy` does not return -/
def step (s : State) : Label → Option (State × List Event)
  | .constructContext k refused =>
    match s.contexts k with
    | some _ => none
    | none =>
      match s.zmq.zmqCtxNew refused with
      | .error e => some (s, [.threw (.zmqInternal e)])
      | .ok (c, z) => some ({ s with zmq := z }.putContext k (some (some c)), [.created c])
  | .moveConstructContext this source =>
    match s.contexts this, s.contexts source with
    | none, some context => some ((s.putContext this (some context)).putContext source (some none), [])
    | _, _ => none
  | .moveAssignContext this source =>
    match s.contexts this, s.contexts source with
    | some a, some b => some ((s.putContext this (some b)).putContext source (some a), [])
    | _, _ => none
  | .terminate k calls =>
    match s.contexts k with
    | none => none
    | some context =>
      match terminate s.zmq context calls with
      | none => none
      | some (.error e) => some (s, [.threw e])
      | some (.ok z) =>
        some ({ s with zmq := z }.putContext k (some none), context.toList.map .destroyed)
  | .destroyContext k calls =>
    match s.contexts k with
    | none => none
    | some none => some (s.putContext k none, [])
    | some (some c) =>
      match terminate s.zmq (some c) calls with
      | none => none
      | some (.error _) => some (s, [.aborted])
      | some (.ok z) => some ({ s with zmq := z }.putContext k none, [.destroyed c])
  | .constructSocket x k type refused =>
    match s.sockets x, s.contexts k with
    | none, some context =>
      match s.zmq.zmqSocket context type refused with
      | .error e => some (s, [.threw (.zmqInternal e)])
      | .ok (h, z) => some ({ s with zmq := z }.putSocket x (some ⟨some h, type, none⟩), [.opened h])
    | _, _ => none
  | .moveConstructSocket this source =>
    match s.sockets this, s.sockets source with
    | none, some b =>
      some ((s.putSocket this (some b.moveConstruct.1)).putSocket source (some b.moveConstruct.2), [])
    | _, _ => none
  | .moveAssignSocket this source =>
    match s.sockets this, s.sockets source with
    | some a, some b =>
      some ((s.putSocket this (some (a.moveAssign b).1)).putSocket source (some (a.moveAssign b).2),
        [])
    | _, _ => none
  | .receive x r =>
    match s.sockets x with
    | none => none
    | some o =>
      match r with
      | .failed false => some (s, [])
      | .kept true =>
        some ({ s with nextBlock := s.nextBlock + 1 }.putSocket x
          (some { o with recvBuffer := some s.nextBlock }),
          freedOf o.recvBuffer ++ [.filled s.nextBlock])
      | .kept false | .movedOn | .failed true =>
        some (s.putSocket x (some { o with recvBuffer := none }), freedOf o.recvBuffer)
  | .close x =>
    match s.sockets x with
    | none => none
    | some o =>
      match s.zmq.zmqClose o.socket with
      | .error e => some (s, [.threw (.zmqInternal e)])
      | .ok z =>
        some ({ s with zmq := z }.putSocket x (some { o with socket := none }), closedOf o.socket)
  | .destroySocket x =>
    match s.sockets x with
    | none => none
    | some o =>
      if o.socket = none then some (s.putSocket x none, freedOf o.recvBuffer)
      else
        match s.zmq.zmqClose o.socket with
        | .error _ => some (s, [.aborted])
        | .ok z => some ({ s with zmq := z }.putSocket x none, freedOf o.recvBuffer ++ closedOf o.socket)

def machine : Lib.Machine State Label Event := ⟨step⟩

/-! ## all a call can do -/

namespace Zmq

def Open (z : Zmq) (h : ℕ) : Prop := z.sockets h ≠ none

def Running (z : Zmq) (c : ℕ) : Prop := z.contexts c = true

def addContext (z : Zmq) : Zmq :=
  { z with
    contexts := Function.update z.contexts z.nextContext true
    nextContext := z.nextContext + 1 }

def dropContext (z : Zmq) (c : ℕ) : Zmq := { z with contexts := Function.update z.contexts c false }

def addSocket (z : Zmq) (c : ℕ) (type : SocketType) : Zmq :=
  { z with
    sockets := Function.update z.sockets z.nextSocket (some (c, type))
    nextSocket := z.nextSocket + 1 }

def dropSocket (z : Zmq) (h : ℕ) : Zmq := { z with sockets := Function.update z.sockets h none }

theorem zmqClose_open {z : Zmq} {h : ℕ} (hopen : z.Open h) :
    z.zmqClose (some h) = .ok (z.dropSocket h) := by
  obtain ⟨p, hp⟩ := Option.ne_none_iff_exists'.mp hopen
  unfold zmqClose
  simp only [hp]
  rfl

theorem zmqClose_ok {z z' : Zmq} {socket : Option ℕ} (hz : z.zmqClose socket = .ok z') :
    ∃ h, socket = some h ∧ z.Open h ∧ z' = z.dropSocket h := by
  unfold zmqClose at hz
  split at hz
  · cases hz
  · rename_i h
    split at hz
    · cases hz
    · rename_i p hp
      refine ⟨h, rfl, ?_, (Except.ok.inj hz).symm⟩
      unfold Open
      rw [hp]
      exact Option.some_ne_none p

theorem zmqSocket_ok {z z' : Zmq} {context : Option ℕ} {type : SocketType}
    {refused : Option Errno} {h : ℕ} (hz : z.zmqSocket context type refused = .ok (h, z')) :
    ∃ c, context = some c ∧ z.Running c ∧ h = z.nextSocket ∧ z' = z.addSocket c type := by
  unfold zmqSocket at hz
  split at hz
  · cases hz
  · rename_i c
    split at hz
    · rename_i hc
      split at hz
      · cases hz
      · obtain ⟨rfl, rfl⟩ := Prod.mk.inj (Except.ok.inj hz)
        exact ⟨c, rfl, hc, rfl, rfl⟩
    · cases hz

/-- a context that is in use has an open socket -/
theorem not_inUse {z : Zmq} {c : ℕ} (hc : z.inUse c = false) {h : ℕ} {t : SocketType}
    (hlt : h < z.nextSocket) : z.sockets h ≠ some (c, t) := by
  intro hh
  unfold inUse at hc
  rw [List.any_eq_false] at hc
  have := hc h (List.mem_range.mpr hlt)
  rw [hh] at this
  simp at this

end Zmq

/-- **`context::terminate` of a context that runs** returns when no socket of it is open. -/
theorem terminate_running {z : Zmq} {c : ℕ} (hc : z.Running c) {calls : List Bool}
    {r : Except Exn Zmq} (h : terminate z (some c) calls = some r) :
    r = .ok (z.dropContext c) ∧ z.inUse c = false := by
  induction calls with
  | nil => cases h
  | cons interrupted calls ih =>
    unfold terminate Zmq.zmqCtxDestroy at h
    simp only [show z.contexts c = true from hc, if_true] at h
    cases interrupted with
    | true => exact ih h
    | false =>
      cases huse : z.inUse c with
      | true =>
        rw [huse] at h
        cases h
      | false =>
        rw [huse] at h
        cases h
        exact ⟨rfl, rfl⟩

theorem terminate_null {z : Zmq} {calls : List Bool} {r : Except Exn Zmq}
    (h : terminate z none calls = some r) : r = .error (.zmqInternal efault) := by
  cases calls with
  | nil => cases h
  | cons interrupted calls =>
    cases h
    rfl

/-- `_socket` of the object `x`, null also where there is none -/
def State.handle (s : State) (x : ℕ) : Option ℕ := (s.sockets x).bind SocketObject.socket

def State.block (s : State) (x : ℕ) : Option ℕ := (s.sockets x).bind SocketObject.recvBuffer

def State.context (s : State) (k : ℕ) : Option ℕ := (s.contexts k).join

/-- what the objects have is there in libzmq -/
structure Sound (s : State) : Prop where
  handles : ∀ x h, s.handle x = some h → s.zmq.Open h
  contexts : ∀ k c, s.context k = some c → s.zmq.Running c

inductive Step (s : State) : Label → State → List Event → Prop
  | threw (l : Label) (hl : ∀ this source, l ≠ .moveAssignSocket this source) (e : Exn) :
      Step s l s [.threw e]
  | idle (x : ℕ) : Step s (.receive x (.failed false)) s []
  | createContext (k : ℕ) (refused : Option Errno) (hk : s.contexts k = none) :
      Step s (.constructContext k refused)
        ({ s with zmq := s.zmq.addContext }.putContext k (some (some s.zmq.nextContext)))
        [.created s.zmq.nextContext]
  | moveContext (this source : ℕ) (context : Option ℕ) (ht : s.contexts this = none)
      (hs : s.contexts source = some context) :
      Step s (.moveConstructContext this source)
        ((s.putContext this (some context)).putContext source (some none)) []
  | swapContext (this source : ℕ) (a b : Option ℕ) (ht : s.contexts this = some a)
      (hs : s.contexts source = some b) :
      Step s (.moveAssignContext this source)
        ((s.putContext this (some b)).putContext source (some a)) []
  | endContext (l : Label) (hl : ∀ this source, l ≠ .moveAssignSocket this source) (k c : ℕ)
      (after : Option (Option ℕ)) (hafter : after.join = none) (hk : s.contexts k = some (some c))
      (huse : s.zmq.inUse c = false) :
      Step s l ({ s with zmq := s.zmq.dropContext c }.putContext k after) [.destroyed c]
  | forgetContext (k : ℕ) (calls : List Bool) (hk : s.contexts k = some none) :
      Step s (.destroyContext k calls) (s.putContext k none) []
  | openSocket (x k : ℕ) (type : SocketType) (refused : Option Errno) (c : ℕ)
      (hx : s.sockets x = none) (hk : s.contexts k = some (some c)) (hc : s.zmq.Running c) :
      Step s (.constructSocket x k type refused)
        ({ s with zmq := s.zmq.addSocket c type }.putSocket x
          (some ⟨some s.zmq.nextSocket, type, none⟩))
        [.opened s.zmq.nextSocket]
  | moveSocket (this source : ℕ) (b : SocketObject) (ht : s.sockets this = none)
      (hs : s.sockets source = some b) :
      Step s (.moveConstructSocket this source)
        ((s.putSocket this (some b.moveConstruct.1)).putSocket source (some b.moveConstruct.2)) []
  | swapSocket (this source : ℕ) (a b : SocketObject) (ht : s.sockets this = some a)
      (hs : s.sockets source = some b) :
      Step s (.moveAssignSocket this source)
        ((s.putSocket this (some (a.moveAssign b).1)).putSocket source (some (a.moveAssign b).2)) []
  | fill (x : ℕ) (o : SocketObject) (hx : s.sockets x = some o) :
      Step s (.receive x (.kept true))
        ({ s with nextBlock := s.nextBlock + 1 }.putSocket x
          (some { o with recvBuffer := some s.nextBlock }))
        (freedOf o.recvBuffer ++ [.filled s.nextBlock])
  | empty (x : ℕ) (r : Recv) (o : SocketObject) (hx : s.sockets x = some o) :
      Step s (.receive x r) (s.putSocket x (some { o with recvBuffer := none }))
        (freedOf o.recvBuffer)
  | closeSocket (x : ℕ) (o : SocketObject) (h : ℕ) (hx : s.sockets x = some o)
      (ho : o.socket = some h) :
      Step s (.close x)
        ({ s with zmq := s.zmq.dropSocket h }.putSocket x (some { o with socket := none }))
        [.closed h]
  | destroyNull (x : ℕ) (o : SocketObject) (hx : s.sockets x = some o) (ho : o.socket = none) :
      Step s (.destroySocket x) (s.putSocket x none) (freedOf o.recvBuffer)
  | destroyOpen (x : ℕ) (o : SocketObject) (h : ℕ) (hx : s.sockets x = some o)
      (ho : o.socket = some h) :
      Step s (.destroySocket x) ({ s with zmq := s.zmq.dropSocket h }.putSocket x none)
        (freedOf o.recvBuffer ++ [.closed h])

section
variable {s t : State} {e : List Event}

theorem constructContext_cases {k : ℕ} {refused : Option Errno}
    (h : step s (.constructContext k refused) = some (t, e)) :
    Step s (.constructContext k refused) t e := by
  dsimp only [step] at h
  split at h
  · cases h
  · rename_i hk
    cases refused with
    | some e =>
      cases h
      exact .threw _ (by simp) _
    | none =>
      cases h
      exact .createContext k none hk

theorem moveConstructContext_cases {this source : ℕ}
    (h : step s (.moveConstructContext this source) = some (t, e)) :
    Step s (.moveConstructContext this source) t e := by
  dsimp only [step] at h
  split at h
  · rename_i context ht hsrc
    cases h
    exact .moveContext this source context ht hsrc
  · cases h

theorem moveAssignContext_cases {this source : ℕ}
    (h : step s (.moveAssignContext this source) = some (t, e)) :
    Step s (.moveAssignContext this source) t e := by
  dsimp only [step] at h
  split at h
  · rename_i a b ht hsrc
    cases h
    exact .swapContext this source a b ht hsrc
  · cases h

theorem terminate_cases (hs : Sound s) {k : ℕ} {calls : List Bool}
    (h : step s (.terminate k calls) = some (t, e)) : Step s (.terminate k calls) t e := by
  dsimp only [step] at h
  split at h
  · cases h
  · rename_i context hk
    cases context with
    | none =>
      split at h
      · cases h
      · cases h
        exact .threw _ (by simp) _
      · rename_i z hz
        cases terminate_null hz
    | some c =>
      have hc : s.zmq.Running c := hs.contexts k c (by unfold State.context; rw [hk]; rfl)
      split at h
      · cases h
      · rename_i e he
        cases (terminate_running hc he).1
      · rename_i z hz
        obtain ⟨hz, huse⟩ := terminate_running hc hz
        cases hz
        cases h
        exact .endContext _ (by simp) k c (some none) rfl hk huse

/-- the destructor does not abort: the context it terminates is there -/
theorem destroyContext_cases (hs : Sound s) {k : ℕ} {calls : List Bool}
    (h : step s (.destroyContext k calls) = some (t, e)) :
    Step s (.destroyContext k calls) t e := by
  dsimp only [step] at h
  split at h
  · cases h
  · rename_i hk
    cases h
    exact .forgetContext k calls hk
  · rename_i c hk
    have hc : s.zmq.Running c := hs.contexts k c (by unfold State.context; rw [hk]; rfl)
    split at h
    · cases h
    · rename_i e he
      cases (terminate_running hc he).1
    · rename_i z hz
      obtain ⟨hz, huse⟩ := terminate_running hc hz
      cases hz
      cases h
      exact .endContext _ (by simp) k c none rfl hk huse

theorem constructSocket_cases {x k : ℕ} {type : SocketType} {refused : Option Errno}
    (h : step s (.constructSocket x k type refused) = some (t, e)) :
    Step s (.constructSocket x k type refused) t e := by
  dsimp only [step] at h
  split at h
  · rename_i context hx hk
    split at h
    · cases h
      exact .threw _ (by simp) _
    · rename_i i z hz
      obtain ⟨c, rfl, hc, rfl, rfl⟩ := Zmq.zmqSocket_ok hz
      cases h
      exact .openSocket x k type refused c hx hk hc
  · cases h

theorem moveConstructSocket_cases {this source : ℕ}
    (h : step s (.moveConstructSocket this source) = some (t, e)) :
    Step s (.moveConstructSocket this source) t e := by
  dsimp only [step] at h
  split at h
  · rename_i b ht hsrc
    cases h
    exact .moveSocket this source b ht hsrc
  · cases h

theorem moveAssignSocket_cases {this source : ℕ}
    (h : step s (.moveAssignSocket this source) = some (t, e)) :
    Step s (.moveAssignSocket this source) t e := by
  dsimp only [step] at h
  split at h
  · rename_i a b ht hsrc
    cases h
    exact .swapSocket this source a b ht hsrc
  · cases h

theorem receive_cases {x : ℕ} {r : Recv}
    (h : step s (.receive x r) = some (t, e)) : Step s (.receive x r) t e := by
  dsimp only [step] at h
  split at h
  · cases h
  · rename_i o hx
    split at h
    · cases h
      exact .idle x
    · cases h
      exact .fill x o hx
    · cases h
      exact .empty x _ o hx
    · cases h
      exact .empty x _ o hx
    · cases h
      exact .empty x _ o hx

theorem close_cases {x : ℕ}
    (h : step s (.close x) = some (t, e)) : Step s (.close x) t e := by
  dsimp only [step] at h
  split at h
  · cases h
  · rename_i o hx
    split at h
    · cases h
      exact .threw _ (by simp) _
    · rename_i z hz
      obtain ⟨i, hi, -, rfl⟩ := Zmq.zmqClose_ok hz
      rw [hi] at h
      cases h
      exact .closeSocket x o i hx hi

/-- nor does this one -/
theorem destroySocket_cases (hs : Sound s) {x : ℕ}
    (h : step s (.destroySocket x) = some (t, e)) : Step s (.destroySocket x) t e := by
  dsimp only [step] at h
  split at h
  · cases h
  · rename_i o hx
    split at h
    · rename_i ho
      cases h
      exact .destroyNull x o hx ho
    · rename_i ho
      obtain ⟨i, hi⟩ := Option.ne_none_iff_exists'.mp ho
      have hopen : s.zmq.Open i :=
        hs.handles x i (by unfold State.handle; rw [hx]; exact hi)
      rw [hi, Zmq.zmqClose_open hopen] at h
      cases h
      exact .destroyOpen x o i hx hi

/-- **No destructor aborts**: what it closes or terminates is there. -/
theorem step_cases {l : Label} (hs : Sound s) (h : step s l = some (t, e)) : Step s l t e := by
  cases l with
  | constructContext k refused => exact constructContext_cases h
  | moveConstructContext this source => exact moveConstructContext_cases h
  | moveAssignContext this source => exact moveAssignContext_cases h
  | terminate k calls => exact terminate_cases hs h
  | destroyContext k calls => exact destroyContext_cases hs h
  | constructSocket x k type refused => exact constructSocket_cases h
  | moveConstructSocket this source => exact moveConstructSocket_cases h
  | moveAssignSocket this source => exact moveAssignSocket_cases h
  | receive x r => exact receive_cases h
  | close x => exact close_cases h
  | destroySocket x => exact destroySocket_cases hs h

end

/-! ## who has what -/

namespace State

variable (s : State)

theorem handle_putSocket (x : ℕ) (o : Option SocketObject) :
    (s.putSocket x o).handle = Function.update s.handle x (o.bind SocketObject.socket) := by
  funext y
  unfold handle putSocket
  dsimp only
  rw [Function.update_apply, Function.update_apply]
  split <;> rfl

theorem block_putSocket (x : ℕ) (o : Option SocketObject) :
    (s.putSocket x o).block = Function.update s.block x (o.bind SocketObject.recvBuffer) := by
  funext y
  unfold block putSocket
  dsimp only
  rw [Function.update_apply, Function.update_apply]
  split <;> rfl

theorem context_putContext (k : ℕ) (context : Option (Option ℕ)) :
    (s.putContext k context).context = Function.update s.context k context.join := by
  funext j
  unfold State.context putContext
  dsimp only
  rw [Function.update_apply, Function.update_apply]
  split <;> rfl

theorem handle_of {x : ℕ} {o : SocketObject} (hx : s.sockets x = some o) :
    s.handle x = o.socket := by
  unfold handle
  rw [hx]
  rfl

theorem handle_of_none {x : ℕ} (hx : s.sockets x = none) : s.handle x = none := by
  unfold handle
  rw [hx]
  rfl

theorem block_of {x : ℕ} {o : SocketObject} (hx : s.sockets x = some o) :
    s.block x = o.recvBuffer := by
  unfold block
  rw [hx]
  rfl

theorem block_of_none {x : ℕ} (hx : s.sockets x = none) : s.block x = none := by
  unfold block
  rw [hx]
  rfl

theorem context_of {k : ℕ} {context : Option (Option ℕ)} (hk : s.contexts k = context) :
    s.context k = context.join := by
  unfold State.context
  rw [hk]

/-- a move is a transfer of the handle -/
theorem handle_move {this source : ℕ} {b : SocketObject} (hs : s.sockets source = some b) :
    ((s.putSocket this (some b.moveConstruct.1)).putSocket source (some b.moveConstruct.2)).handle
      = Lib.Handles.transfer s.handle this source := by
  rw [handle_putSocket, handle_putSocket]
  unfold Lib.Handles.transfer
  rw [s.handle_of hs]
  rfl

theorem handle_swap {this source : ℕ} {a b : SocketObject} (ht : s.sockets this = some a)
    (hs : s.sockets source = some b) :
    ((s.putSocket this (some (a.moveAssign b).1)).putSocket source (some (a.moveAssign b).2)).handle
      = Lib.Handles.exchange s.handle this source := by
  rw [handle_putSocket, handle_putSocket, Lib.Handles.exchange_eq, s.handle_of ht, s.handle_of hs]
  rfl

theorem context_move {this source : ℕ} {context : Option ℕ}
    (hs : s.contexts source = some context) :
    ((s.putContext this (some context)).putContext source (some none)).context
      = Lib.Handles.transfer s.context this source := by
  rw [context_putContext, context_putContext]
  unfold Lib.Handles.transfer
  rw [s.context_of hs]
  rfl

theorem context_swap {this source : ℕ} {a b : Option ℕ} (ht : s.contexts this = some a)
    (hs : s.contexts source = some b) :
    ((s.putContext this (some b)).putContext source (some a)).context
      = Lib.Handles.exchange s.context this source := by
  rw [context_putContext, context_putContext, Lib.Handles.exchange_eq, s.context_of ht,
    s.context_of hs]

/-- a move and an assignment alike leave the source without its block -/
theorem block_move {this source : ℕ} {b : SocketObject} (type : SocketType) (i j : Option ℕ)
    (hs : s.sockets source = some b) :
    ((s.putSocket this (some ⟨i, type, b.recvBuffer⟩)).putSocket source (some ⟨j, type, none⟩)).block
      = Lib.Handles.transfer s.block this source := by
  rw [block_putSocket, block_putSocket]
  unfold Lib.Handles.transfer
  rw [s.block_of hs]
  rfl

end State

/-! ## the handles -/

theorem socketMarks : Lib.Marks Event.opened Event.closed :=
  ⟨fun _ _ h => by cases h; rfl, fun _ _ h => by cases h; rfl, by simp⟩

theorem contextMarks : Lib.Marks Event.created Event.destroyed :=
  ⟨fun _ _ h => by cases h; rfl, fun _ _ h => by cases h; rfl, by simp⟩

/-- what concerns sockets: their owners, and what has happened to them -/
structure Sockets (s : State) (tr : List Event) : Prop where
  owned : Owned s.handle s.zmq.Open
  ledger : Lib.Ledger .opened .closed tr s.zmq.nextSocket s.zmq.Open

structure Contexts (s : State) (tr : List Event) : Prop where
  owned : Owned s.context s.zmq.Running
  ledger : Lib.Ledger .created .destroyed tr s.zmq.nextContext s.zmq.Running

structure Inv (s : State) (tr : List Event) : Prop where
  sockets : Sockets s tr
  contexts : Contexts s tr
  /-- an open socket has its context -/
  nested : ∀ h c type, s.zmq.sockets h = some (c, type) → s.zmq.Running c
  safe : .aborted ∉ tr

theorem Inv.sound {s : State} {tr : List Event} (h : Inv s tr) : Sound s where
  handles x i hx := (h.sockets.owned.held_iff i).mp ⟨x, hx⟩
  contexts k c hk := (h.contexts.owned.held_iff c).mp ⟨k, hk⟩

theorem Zmq.open_addSocket (z : Zmq) (c : ℕ) (type : SocketType) :
    (z.addSocket c type).Open = fun h => z.Open h ∨ h = z.nextSocket := by
  funext h
  unfold Open addSocket
  by_cases hh : h = z.nextSocket
  · simp [hh]
  · simp [hh]

theorem Zmq.open_dropSocket (z : Zmq) (i : ℕ) :
    (z.dropSocket i).Open = fun h => z.Open h ∧ h ≠ i := by
  funext h
  unfold Open dropSocket
  by_cases hh : h = i
  · simp [hh]
  · simp [hh]

theorem Zmq.running_addContext (z : Zmq) :
    z.addContext.Running = fun c => z.Running c ∨ c = z.nextContext := by
  funext c
  unfold Running addContext
  by_cases hc : c = z.nextContext
  · simp [hc]
  · simp [hc]

theorem Zmq.running_dropContext (z : Zmq) (i : ℕ) :
    (z.dropContext i).Running = fun c => z.Running c ∧ c ≠ i := by
  funext c
  unfold Running dropContext
  by_cases hc : c = i
  · simp [hc]
  · simp [hc]

/-- events of neither sockets nor contexts -/
def Event.Foreign : Event → Prop
  | .filled _ | .freed _ | .threw _ => True
  | _ => False

theorem foreign_freedOf (block : Option ℕ) : ∀ e ∈ freedOf block, e.Foreign := by
  intro e he
  unfold freedOf at he
  obtain ⟨b, -, rfl⟩ := List.mem_map.mp he
  trivial

theorem foreign_sockets {es : List Event} (h : ∀ e ∈ es, e.Foreign) :
    ∀ e ∈ es, (∀ k, e ≠ .opened k) ∧ ∀ k, e ≠ .closed k := by
  intro e he
  constructor
  · rintro k rfl
    exact h _ he
  · rintro k rfl
    exact h _ he

theorem foreign_contexts {es : List Event} (h : ∀ e ∈ es, e.Foreign) :
    ∀ e ∈ es, (∀ k, e ≠ .created k) ∧ ∀ k, e ≠ .destroyed k := by
  intro e he
  constructor
  · rintro k rfl
    exact h _ he
  · rintro k rfl
    exact h _ he

/-- a buffer is filled or emptied -/
theorem handle_recvBuffer {s : State} {x : ℕ} {o : SocketObject} (hx : s.sockets x = some o)
    (block : Option ℕ) :
    (s.putSocket x (some { o with recvBuffer := block })).handle = s.handle := by
  rw [State.handle_putSocket]
  show Function.update s.handle x o.socket = _
  rw [← s.handle_of hx, Function.update_eq_self]

theorem Sockets.step {s t : State} {tr e : List Event} {l : Label} (h : Sockets s tr)
    (hstep : Step s l t e) : Sockets t (tr ++ e) := by
  cases hstep with
  | threw l hl e => exact ⟨h.owned, h.ledger.other (by simp) (by simp)⟩
  | idle x => rwa [List.append_nil]
  | createContext k refused hk => exact ⟨h.owned, h.ledger.other (by simp) (by simp)⟩
  | moveContext this source context ht hs =>
    rw [List.append_nil]
    exact ⟨h.owned, h.ledger⟩
  | swapContext this source a b ht hs =>
    rw [List.append_nil]
    exact ⟨h.owned, h.ledger⟩
  | endContext l hl k c after hafter hk huse => exact ⟨h.owned, h.ledger.other (by simp) (by simp)⟩
  | forgetContext k calls hk =>
    rw [List.append_nil]
    exact ⟨h.owned, h.ledger⟩
  | openSocket x k type refused c hx hk hc =>
    have hnone := s.handle_of_none hx
    refine ⟨?_, ?_⟩
    · rw [State.handle_putSocket]
      show Owned (Function.update s.handle x (some s.zmq.nextSocket)) (s.zmq.addSocket c type).Open
      rw [Zmq.open_addSocket]
      exact h.owned.acquire hnone h.ledger.not_live_next
    · show Lib.Ledger _ _ _ (s.zmq.nextSocket + 1) (s.zmq.addSocket c type).Open
      rw [Zmq.open_addSocket]
      exact h.ledger.birth socketMarks
  | moveSocket this source b ht hs =>
    rw [List.append_nil]
    refine ⟨?_, h.ledger⟩
    rw [s.handle_move hs]
    exact h.owned.transfer (s.handle_of_none ht) source
  | swapSocket this source a b ht hs =>
    rw [List.append_nil]
    refine ⟨?_, h.ledger⟩
    rw [s.handle_swap ht hs]
    exact h.owned.exchange this source
  | fill x o hx =>
    refine ⟨?_, ?_⟩
    · rw [handle_recvBuffer (s := { s with nextBlock := s.nextBlock + 1 }) hx]
      exact h.owned
    · rw [← List.append_assoc]
      exact (h.ledger.others (foreign_sockets (foreign_freedOf _))).other (by simp) (by simp)
  | empty x r o hx =>
    refine ⟨?_, h.ledger.others (foreign_sockets (foreign_freedOf _))⟩
    rw [handle_recvBuffer hx]
    exact h.owned
  | closeSocket x o i hx ho =>
    have hi : s.handle x = some i := (s.handle_of hx).trans ho
    have hopen : s.zmq.Open i := (h.owned.held_iff i).mp ⟨x, hi⟩
    refine ⟨?_, ?_⟩
    · rw [State.handle_putSocket]
      show Owned (Function.update s.handle x none) (s.zmq.dropSocket i).Open
      rw [Zmq.open_dropSocket]
      exact h.owned.release hi
    · show Lib.Ledger _ _ _ s.zmq.nextSocket (s.zmq.dropSocket i).Open
      rw [Zmq.open_dropSocket]
      exact h.ledger.death socketMarks hopen
  | destroyNull x o hx ho =>
    refine ⟨?_, h.ledger.others (foreign_sockets (foreign_freedOf _))⟩
    rw [State.handle_putSocket]
    exact h.owned.release_none ((s.handle_of hx).trans ho)
  | destroyOpen x o i hx ho =>
    have hi : s.handle x = some i := (s.handle_of hx).trans ho
    have hopen : s.zmq.Open i := (h.owned.held_iff i).mp ⟨x, hi⟩
    refine ⟨?_, ?_⟩
    · rw [State.handle_putSocket]
      show Owned (Function.update s.handle x none) (s.zmq.dropSocket i).Open
      rw [Zmq.open_dropSocket]
      exact h.owned.release hi
    · show Lib.Ledger _ _ _ s.zmq.nextSocket (s.zmq.dropSocket i).Open
      rw [Zmq.open_dropSocket, ← List.append_assoc]
      exact (h.ledger.others (foreign_sockets (foreign_freedOf _))).death socketMarks hopen

theorem Contexts.step {s t : State} {tr e : List Event} {l : Label} (h : Contexts s tr)
    (hstep : Step s l t e) : Contexts t (tr ++ e) := by
  cases hstep with
  | threw l hl e => exact ⟨h.owned, h.ledger.other (by simp) (by simp)⟩
  | idle x => rwa [List.append_nil]
  | createContext k refused hk =>
    have hnone : s.context k = none := s.context_of hk
    refine ⟨?_, ?_⟩
    · rw [State.context_putContext]
      show Owned (Function.update s.context k (some s.zmq.nextContext)) s.zmq.addContext.Running
      rw [Zmq.running_addContext]
      exact h.owned.acquire hnone h.ledger.not_live_next
    · show Lib.Ledger _ _ _ (s.zmq.nextContext + 1) s.zmq.addContext.Running
      rw [Zmq.running_addContext]
      exact h.ledger.birth contextMarks
  | moveContext this source context ht hs =>
    rw [List.append_nil]
    refine ⟨?_, h.ledger⟩
    rw [s.context_move hs]
    exact h.owned.transfer (s.context_of ht) source
  | swapContext this source a b ht hs =>
    rw [List.append_nil]
    refine ⟨?_, h.ledger⟩
    rw [s.context_swap ht hs]
    exact h.owned.exchange this source
  | endContext l hl k c after hafter hk huse =>
    have hc : s.context k = some c := s.context_of hk
    have hrun : s.zmq.Running c := (h.owned.held_iff c).mp ⟨k, hc⟩
    refine ⟨?_, ?_⟩
    · rw [State.context_putContext, hafter]
      show Owned (Function.update s.context k none) (s.zmq.dropContext c).Running
      rw [Zmq.running_dropContext]
      exact h.owned.release hc
    · show Lib.Ledger _ _ _ s.zmq.nextContext (s.zmq.dropContext c).Running
      rw [Zmq.running_dropContext]
      exact h.ledger.death contextMarks hrun
  | forgetContext k calls hk =>
    rw [List.append_nil]
    refine ⟨?_, h.ledger⟩
    rw [State.context_putContext]
    exact h.owned.release_none (s.context_of hk)
  | openSocket x k type refused c hx hk hc => exact ⟨h.owned, h.ledger.other (by simp) (by simp)⟩
  | moveSocket this source b ht hs =>
    rw [List.append_nil]
    exact ⟨h.owned, h.ledger⟩
  | swapSocket this source a b ht hs =>
    rw [List.append_nil]
    exact ⟨h.owned, h.ledger⟩
  | fill x o hx =>
    rw [← List.append_assoc]
    exact ⟨h.owned,
      (h.ledger.others (foreign_contexts (foreign_freedOf _))).other (by simp) (by simp)⟩
  | empty x r o hx => exact ⟨h.owned, h.ledger.others (foreign_contexts (foreign_freedOf _))⟩
  | closeSocket x o i hx ho => exact ⟨h.owned, h.ledger.other (by simp) (by simp)⟩
  | destroyNull x o hx ho => exact ⟨h.owned, h.ledger.others (foreign_contexts (foreign_freedOf _))⟩
  | destroyOpen x o i hx ho =>
    rw [← List.append_assoc]
    exact ⟨h.owned,
      (h.ledger.others (foreign_contexts (foreign_freedOf _))).other (by simp) (by simp)⟩

/-! ## runs -/

theorem nested_step {s t : State} {tr e : List Event} {l : Label} (h : Inv s tr)
    (hstep : Step s l t e) :
    ∀ i c type, t.zmq.sockets i = some (c, type) → t.zmq.Running c := by
  intro i c type hi
  cases hstep with
  | createContext k refused hk =>
    show s.zmq.addContext.Running c
    rw [Zmq.running_addContext]
    exact .inl (h.nested i c type hi)
  | endContext l hl k d after hafter hk huse =>
    show (s.zmq.dropContext d).Running c
    rw [Zmq.running_dropContext]
    refine ⟨h.nested i c type hi, ?_⟩
    rintro rfl
    have hopen : s.zmq.Open i := fun hnone => by
      rw [show s.zmq.sockets i = some (c, type) from hi] at hnone
      cases hnone
    exact Zmq.not_inUse huse (h.sockets.ledger.lt_of_live hopen) hi
  | openSocket x k type' refused d hx hk hd =>
    have hi : Function.update s.zmq.sockets s.zmq.nextSocket (some (d, type')) i = some (c, type) := hi
    rw [Function.update_apply] at hi
    split at hi
    · cases hi
      exact hd
    · exact h.nested i c type hi
  | closeSocket x o j hx ho =>
    have hi : Function.update s.zmq.sockets j none i = some (c, type) := hi
    rw [Function.update_apply] at hi
    split at hi
    · cases hi
    · exact h.nested i c type hi
  | destroyOpen x o j hx ho =>
    have hi : Function.update s.zmq.sockets j none i = some (c, type) := hi
    rw [Function.update_apply] at hi
    split at hi
    · cases hi
    · exact h.nested i c type hi
  | _ => exact h.nested i c type hi

theorem not_aborted {s t : State} {l : Label} {e : List Event} (hstep : Step s l t e) :
    .aborted ∉ e := by
  have hfreed : ∀ block, Event.aborted ∉ freedOf block := fun block h => foreign_freedOf block _ h
  cases hstep <;> simp [hfreed]

theorem inv_init : Inv {} [] where
  sockets := by
    have hopen : (State.zmq {}).Open = fun _ => False := by
      funext h
      simp [Zmq.Open]
    exact ⟨hopen ▸ Owned.init, hopen ▸ Lib.Ledger.init⟩
  contexts := by
    have hrun : (State.zmq {}).Running = fun _ => False := by
      funext c
      simp [Zmq.Running]
    exact ⟨hrun ▸ Owned.init, hrun ▸ Lib.Ledger.init⟩
  nested _ _ _ h := by cases h
  safe := by simp

theorem Inv.step {s t : State} {tr e : List Event} {l : Label} (h : Inv s tr)
    (hs : machine.step s l = some (t, e)) : Inv t (tr ++ e) := by
  have hstep : Step s l t e := step_cases h.sound hs
  refine ⟨h.sockets.step hstep, h.contexts.step hstep, nested_step h hstep, ?_⟩
  rw [List.mem_append, not_or]
  exact ⟨h.safe, not_aborted hstep⟩

/-- The handles that have been opened and not closed are those that an object has, none is had by
two, and none is closed twice. -/
structure Accounted (own : ℕ → Option ℕ) (born died : ℕ → Event) (tr : List Event) : Prop where
  exclusive : Exclusive own
  held_iff : ∀ h, Held own h ↔ born h ∈ tr ∧ died h ∉ tr
  once : ∀ h, tr.count (died h) ≤ tr.count (born h) ∧ tr.count (born h) ≤ 1

theorem accounted {own : ℕ → Option ℕ} {born died : ℕ → Event} {tr : List Event} {next : ℕ}
    {live : ℕ → Prop} (ho : Owned own live) (hl : Lib.Ledger born died tr next live) :
    Accounted own born died tr where
  exclusive := ho.exclusive
  held_iff h := by rw [ho.held_iff, hl.live_iff, hl.mem_born_iff]
  once h := by
    have hcount := hl.died_count h
    rw [hl.born_count]
    by_cases hh : h < next
    · rw [if_pos hh]
      exact ⟨hcount, le_refl 1⟩
    · rw [if_neg hh, List.count_eq_zero_of_not_mem fun hm => hh (hl.died_old h hm)]
      exact ⟨le_refl 0, Nat.zero_le 1⟩

/-- **Every handle has one owner**, and is closed once: in every run of constructions, moves,
receives, `close`, `terminate` and destructions, of sockets and of contexts.  A socket that is open
has a context that some object owns, and no destructor fails its assertion or throws. -/
theorem every_handle_has_an_owner {ls : List Label} {t : State} {es : List Event}
    (hr : machine.exec {} ls = some (t, es)) :
    Accounted t.handle .opened .closed es ∧ Accounted t.context .created .destroyed es ∧
      (∀ h c type, t.zmq.sockets h = some (c, type) → Held t.context c) ∧ .aborted ∉ es := by
  have hinv : Inv t ([] ++ es) := machine.exec_always Inv
    (fun _ _ _ _ _ hinv hs => hinv.step hs) [] inv_init hr
  rw [List.nil_append] at hinv
  exact ⟨accounted hinv.sockets.owned hinv.sockets.ledger,
    accounted hinv.contexts.owned hinv.contexts.ledger,
    fun h c type hh => (hinv.contexts.owned.held_iff c).mpr (hinv.nested h c type hh), hinv.safe⟩

/-- one assignment, a `close`, and the rest left to the destructors -/
def someCalls : List Label :=
  [.constructContext 0 none, .constructSocket 0 0 .push none, .constructSocket 1 0 .pull none,
    .moveAssignSocket 0 1, .close 0, .destroySocket 0, .destroySocket 1, .destroyContext 0 [true, false]]

def someEvents : List Event :=
  [.created 0, .opened 0, .opened 1, .closed 1, .closed 0, .destroyed 0]

theorem someCalls_run : ∃ t, machine.exec {} someCalls = some (t, someEvents) := ⟨_, rfl⟩

theorem every_handle_has_an_owner_assigned :
    ∃ t, machine.exec {} someCalls = some (t, someEvents) ∧
      Accounted t.handle .opened .closed someEvents := by
  obtain ⟨t, ht⟩ := someCalls_run
  exact ⟨t, ht, (every_handle_has_an_owner ht).1⟩

/-! ## `type()` -/

/-- the handle of an object with its `_type` -/
def State.typed (s : State) (x : ℕ) : Option (ℕ × SocketType) :=
  (s.sockets x).bind fun o => o.socket.map (·, o.type)

/-- `type()` is what the handle was opened as -/
def TypesMatch (s : State) : Prop :=
  ∀ x h type, s.typed x = some (h, type) → (s.zmq.sockets h).map Prod.snd = some type

/-- `_type = source._type` meets an object that has no handle, or one of the same type -/
def KeepsTypes (s : State) : Label → Prop
  | .moveAssignSocket this source => ∀ a b, s.sockets this = some a → s.sockets source = some b →
      a.socket ≠ none → a.type = b.type
  | _ => True

theorem typed_putSocket (s : State) (x : ℕ) (o : Option SocketObject) :
    (s.putSocket x o).typed
      = Function.update s.typed x (o.bind fun o => o.socket.map (·, o.type)) := by
  funext y
  unfold State.typed State.putSocket
  dsimp only
  rw [Function.update_apply, Function.update_apply]
  split <;> rfl

theorem handle_of_typed {s : State} {x h : ℕ} {type : SocketType} (hx : s.typed x = some (h, type)) :
    s.handle x = some h := by
  unfold State.typed at hx
  unfold State.handle
  cases ho : s.sockets x with
  | none =>
    rw [ho] at hx
    cases hx
  | some o =>
    rw [ho] at hx
    obtain ⟨i, hi, heq⟩ := Option.map_eq_some_iff.mp (show o.socket.map (·, o.type) = _ from hx)
    cases heq
    exact hi

theorem keepsTypes_of_ne {s : State} {l : Label} (hl : ∀ this source, l ≠ .moveAssignSocket this source) :
    KeepsTypes s l := by
  cases l with
  | moveAssignSocket this source => exact absurd rfl (hl this source)
  | _ => trivial

/-- what the handle of an object was opened as -/
def OpenedAs (z : Zmq) (o : Option SocketObject) : Prop :=
  ∀ h type, (o.bind fun o => o.socket.map (·, o.type)) = some (h, type) →
    (z.sockets h).map Prod.snd = some type

theorem TypesMatch.openedAs {s : State} (hm : TypesMatch s) {x : ℕ} {o : SocketObject}
    (hx : s.sockets x = some o) : OpenedAs s.zmq (some o) := by
  intro h type ho
  refine hm x h type ?_
  unfold State.typed
  rw [hx]
  exact ho

theorem TypesMatch.putSocket {s : State} (hm : TypesMatch s) {o : Option SocketObject}
    (ho : OpenedAs s.zmq o) (x : ℕ) : TypesMatch (s.putSocket x o) := by
  intro y h type hy
  rw [typed_putSocket, Function.update_apply] at hy
  split at hy
  · exact ho h type hy
  · exact hm y h type hy

/-- a handle that is new -/
theorem TypesMatch.addSocket {s : State} {tr : List Event} (hm : TypesMatch s) (hinv : Inv s tr)
    (c : ℕ) (type : SocketType) : TypesMatch { s with zmq := s.zmq.addSocket c type } := by
  intro y h type' hy
  have hy : s.typed y = some (h, type') := hy
  have hopen := (hinv.sockets.owned.held_iff h).mp ⟨y, handle_of_typed hy⟩
  show (Function.update s.zmq.sockets s.zmq.nextSocket (some (c, type)) h).map Prod.snd = _
  rw [Function.update_of_ne (Nat.ne_of_lt (hinv.sockets.ledger.lt_of_live hopen))]
  exact hm y h type' hy

/-- a handle that closes, and the object that had it -/
theorem TypesMatch.dropSocket {s : State} {tr : List Event} (hm : TypesMatch s) (hinv : Inv s tr)
    {x i : ℕ} (hx : s.handle x = some i) {o : Option SocketObject}
    (ho : o.bind SocketObject.socket = none) :
    TypesMatch ({ s with zmq := s.zmq.dropSocket i }.putSocket x o) := by
  intro y h type hy
  have hnone : (o.bind fun o => o.socket.map (·, o.type)) = none := by
    cases o with
    | none => rfl
    | some o =>
      show o.socket.map _ = none
      rw [show o.socket = none from ho]
      rfl
  rw [typed_putSocket, hnone, Function.update_apply] at hy
  split at hy
  · cases hy
  · rename_i hyx
    have hy : s.typed y = some (h, type) := hy
    have hne : h ≠ i := by
      rintro rfl
      exact hyx (hinv.sockets.owned.exclusive (handle_of_typed hy) hx)
    show (Function.update s.zmq.sockets i none h).map Prod.snd = _
    rw [Function.update_of_ne hne]
    exact hm y h type hy

/-- an assignment swaps the handles, and the source keeps its type -/
theorem TypesMatch.swap_iff {s : State} (hm : TypesMatch s) {this source : ℕ} {a b : SocketObject}
    (ht : s.sockets this = some a) (hs : s.sockets source = some b) :
    TypesMatch ((s.putSocket this (some (a.moveAssign b).1)).putSocket source
        (some (a.moveAssign b).2)) ↔
      (a.socket ≠ none → a.type = b.type) := by
  constructor
  · intro hm' hne
    obtain ⟨h, hh⟩ := Option.ne_none_iff_exists'.mp hne
    have hbefore : (s.zmq.sockets h).map Prod.snd = some a.type := by
      refine hm.openedAs ht h a.type ?_
      show a.socket.map _ = _
      rw [hh]
      rfl
    have hafter : (s.zmq.sockets h).map Prod.snd = some b.type := by
      refine hm' source h b.type ?_
      rw [typed_putSocket, Function.update_self]
      show a.socket.map _ = _
      rw [hh]
      rfl
    exact Option.some.inj (hbefore.symm.trans hafter)
  · intro hkeeps
    refine (hm.putSocket ?_ this).putSocket ?_ source
    · exact fun h type ho => hm.openedAs hs h type ho
    · -- the source, with what the target had
      intro h type ho
      have ho : a.socket.map (·, b.type) = some (h, type) := ho
      obtain ⟨i, hi, heq⟩ := Option.map_eq_some_iff.mp ho
      cases heq
      refine hm.openedAs ht h b.type ?_
      show a.socket.map _ = _
      rw [hi, ← hkeeps (by rw [hi]; exact Option.some_ne_none h)]
      rfl

theorem typesMatch_step {s t : State} {tr e : List Event} {l : Label} (hinv : Inv s tr)
    (hm : TypesMatch s) (hstep : Step s l t e) : TypesMatch t ↔ KeepsTypes s l := by
  cases hstep with
  | threw l hl e => exact iff_of_true hm (keepsTypes_of_ne hl)
  | idle x => exact iff_of_true hm trivial
  | createContext k refused hk => exact iff_of_true hm trivial
  | moveContext this source context ht hs => exact iff_of_true hm trivial
  | swapContext this source a b ht hs => exact iff_of_true hm trivial
  | endContext l hl k c after hafter hk huse => exact iff_of_true hm (keepsTypes_of_ne hl)
  | forgetContext k calls hk => exact iff_of_true hm trivial
  | openSocket x k type refused c hx hk hc =>
    refine iff_of_true ((hm.addSocket hinv c type).putSocket ?_ x) trivial
    intro h type' ho
    cases ho
    show (Function.update s.zmq.sockets s.zmq.nextSocket (some (c, type)) _).map Prod.snd = _
    rw [Function.update_self]
    rfl
  | moveSocket this source b ht hs =>
    refine iff_of_true ((hm.putSocket ?_ this).putSocket ?_ source) trivial
    · exact fun h type ho => hm.openedAs hs h type ho
    · intro h type ho
      cases ho
  | swapSocket this source a b ht hs =>
    rw [hm.swap_iff ht hs]
    constructor
    · intro hkeeps a' b' ha' hb'
      cases ht.symm.trans ha'
      cases hs.symm.trans hb'
      exact hkeeps
    · exact fun hkeeps => hkeeps a b ht hs
  | fill x o hx =>
    refine iff_of_true (TypesMatch.putSocket (s := { s with nextBlock := s.nextBlock + 1 }) hm ?_ x)
      trivial
    exact fun h type ho => hm.openedAs hx h type ho
  | empty x r o hx =>
    refine iff_of_true (hm.putSocket ?_ x) trivial
    exact fun h type ho => hm.openedAs hx h type ho
  | closeSocket x o i hx ho =>
    exact iff_of_true (hm.dropSocket hinv ((s.handle_of hx).trans ho) rfl) trivial
  | destroyNull x o hx ho =>
    refine iff_of_true (hm.putSocket ?_ x) trivial
    intro h type hnone
    cases hnone
  | destroyOpen x o i hx ho =>
    exact iff_of_true (hm.dropSocket hinv ((s.handle_of hx).trans ho) rfl) trivial

/-- **`type()` is the type of the handle** in every state of a run, iff no move assignment gives an
object that has a handle the type of another one: the handles are swapped, `_type` is not. -/
theorem types_match_iff {ls : List Label} {t : State} {es : List Event}
    (hr : machine.exec {} ls = some (t, es)) :
    machine.Throughout (fun s _ => TypesMatch s) {} ls ↔ machine.Along KeepsTypes {} ls :=
  machine.throughout_iff_along Inv (fun s _ => TypesMatch s)
    (fun _ _ _ _ _ hinv _ hs => hinv.step hs)
    (fun _ _ _ _ _ hinv hm _ hs => typesMatch_step hinv hm (step_cases hinv.sound hs))
    [] inv_init (fun _ _ _ h => by cases h) (machine.along_of_forall (fun _ _ => trivial) _ _) hr

/-- the assignment leaves the object at 1 a push socket of type pull -/
theorem types_match_assigned :
    ¬ machine.Throughout (fun s _ => TypesMatch s) {} someCalls := by
  obtain ⟨t, ht⟩ := someCalls_run
  rw [types_match_iff ht]
  intro h
  have h1 := (h.2 _ _ rfl).2 _ _ rfl
  have h2 := (h1.2 _ _ rfl).1 _ _ rfl rfl (by simp)
  cases h2

/-! ## the blocks of `_recv_buffer` -/

theorem blockMarks : Lib.Marks Event.filled Event.freed :=
  ⟨fun _ _ h => by cases h; rfl, fun _ _ h => by cases h; rfl, by simp⟩

/-- allocated and not released -/
def LiveBlock (tr : List Event) (b : ℕ) : Prop := .filled b ∈ tr ∧ .freed b ∉ tr

/-- The buffers hold live blocks, each in one buffer.  It says nothing of live blocks that no buffer
holds. -/
structure Blocks (own : ℕ → Option ℕ) (tr : List Event) (next : ℕ) : Prop where
  exclusive : Exclusive own
  ledger : Lib.Ledger .filled .freed tr next (LiveBlock tr)
  live : ∀ b, Held own b → LiveBlock tr b

/-- every live block is held -/
def Kept (own : ℕ → Option ℕ) (tr : List Event) : Prop := ∀ b, LiveBlock tr b → Held own b

namespace Blocks

variable {own : ℕ → Option ℕ} {tr : List Event} {next : ℕ}

theorem free (h : Blocks own tr next) {x : ℕ} {block : Option ℕ} (hx : own x = block) :
    Blocks (Function.update own x none) (tr ++ freedOf block) next ∧
      (Kept own tr → Kept (Function.update own x none) (tr ++ freedOf block)) := by
  cases block with
  | none =>
    rw [← hx, Function.update_eq_self, hx]
    show Blocks own (tr ++ []) next ∧ (_ → Kept own (tr ++ []))
    rw [List.append_nil]
    exact ⟨h, id⟩
  | some c =>
    have hdeath := h.ledger.death blockMarks (h.live c ⟨x, hx⟩)
    have hlive : ∀ b, LiveBlock (tr ++ freedOf (some c)) b ↔ LiveBlock tr b ∧ b ≠ c := fun b =>
      (hdeath.by_trace.live_iff b).trans (hdeath.live_iff b).symm
    refine ⟨⟨h.exclusive.release x, hdeath.by_trace, fun b hb => ?_⟩, fun hk b hb => ?_⟩
    · rw [Lib.Handles.held_release h.exclusive] at hb
      exact (hlive b).mpr ⟨h.live b hb.1, fun heq => hb.2 (heq ▸ hx)⟩
    · obtain ⟨hb, hne⟩ := (hlive b).mp hb
      rw [Lib.Handles.held_release h.exclusive]
      exact ⟨hk b hb, fun heq => hne (Option.some.inj (heq.symm.trans hx))⟩

theorem fill (h : Blocks own tr next) {x : ℕ} (hx : own x = none) :
    Blocks (Function.update own x (some next)) (tr ++ [.filled next]) (next + 1) ∧
      (Kept own tr → Kept (Function.update own x (some next)) (tr ++ [.filled next])) := by
  have hbirth := h.ledger.birth blockMarks
  have hlive : ∀ b, LiveBlock (tr ++ [.filled next]) b ↔ LiveBlock tr b ∨ b = next := fun b =>
    (hbirth.by_trace.live_iff b).trans (hbirth.live_iff b).symm
  have hfresh : ¬ Held own next := fun hheld => h.ledger.not_live_next (h.live next hheld)
  refine ⟨⟨h.exclusive.acquire x hfresh, hbirth.by_trace, fun b hb => ?_⟩, fun hk b hb => ?_⟩
  · rw [Lib.Handles.held_acquire hx] at hb
    exact (hlive b).mpr (hb.imp_left (h.live b))
  · rw [Lib.Handles.held_acquire hx]
    exact ((hlive b).mp hb).imp_left (hk b)

/-- a move, after which every block is held iff the target had none -/
theorem transfer (h : Blocks own tr next) (dst src : ℕ) :
    Blocks (Lib.Handles.transfer own dst src) tr next ∧
      (Kept own tr → (Kept (Lib.Handles.transfer own dst src) tr ↔ own dst = none)) := by
  refine ⟨⟨h.exclusive.transfer dst src, h.ledger,
    fun b hb => h.live b (Lib.Handles.held_of_transfer hb)⟩, fun hk => ⟨fun hkept => ?_, ?_⟩⟩
  · cases hd : own dst with
    | none => rfl
    | some c =>
      exact absurd (hkept c (h.live c ⟨dst, hd⟩)) (Lib.Handles.lost_of_transfer h.exclusive hd src)
  · intro hd b hb
    exact (Lib.Handles.held_transfer hd b).mpr (hk b hb)

theorem others (h : Blocks own tr next) {es : List Event}
    (he : ∀ e ∈ es, (∀ b, e ≠ .filled b) ∧ ∀ b, e ≠ .freed b) :
    Blocks own (tr ++ es) next ∧ (Kept own tr → Kept own (tr ++ es)) := by
  have hledger := h.ledger.others he
  have hlive : ∀ b, LiveBlock (tr ++ es) b ↔ LiveBlock tr b := fun b =>
    (hledger.by_trace.live_iff b).trans (hledger.live_iff b).symm
  exact ⟨⟨h.exclusive, hledger.by_trace, fun b hb => (hlive b).mpr (h.live b hb)⟩,
    fun hk b hb => hk b ((hlive b).mp hb)⟩

end Blocks

/-- the assignment meets an empty `_recv_buffer` -/
def MeetsEmptyBuffer (s : State) : Label → Prop
  | .moveAssignSocket this _ => s.block this = none
  | _ => True

theorem meetsEmptyBuffer_of_ne {s : State} {l : Label}
    (hl : ∀ this source, l ≠ .moveAssignSocket this source) : MeetsEmptyBuffer s l := by
  cases l with
  | moveAssignSocket this source => exact absurd rfl (hl this source)
  | _ => trivial

/-- a step that keeps what is kept -/
theorem iff_of_keeps {own own' : ℕ → Option ℕ} {tr tr' : List Event} {next' : ℕ} {p : Prop}
    (hp : p) (h : Blocks own' tr' next' ∧ (Kept own tr → Kept own' tr')) :
    Blocks own' tr' next' ∧ (Kept own tr → (Kept own' tr' ↔ p)) :=
  ⟨h.1, fun hk => iff_of_true (h.2 hk) hp⟩

theorem blocks_step {s t : State} {tr e : List Event} {l : Label}
    (h : Blocks s.block tr s.nextBlock) (hstep : Step s l t e) :
    Blocks t.block (tr ++ e) t.nextBlock ∧
      (Kept s.block tr → (Kept t.block (tr ++ e) ↔ MeetsEmptyBuffer s l)) := by
  cases hstep with
  | threw l hl e => exact iff_of_keeps (meetsEmptyBuffer_of_ne hl) (h.others (by simp))
  | idle x => exact iff_of_keeps trivial (h.others (by simp))
  | createContext k refused hk => exact iff_of_keeps trivial (h.others (by simp))
  | moveContext this source context ht hs => exact iff_of_keeps trivial (h.others (by simp))
  | swapContext this source a b ht hs => exact iff_of_keeps trivial (h.others (by simp))
  | endContext l hl k c after hafter hk huse =>
    exact iff_of_keeps (meetsEmptyBuffer_of_ne hl) (h.others (by simp))
  | forgetContext k calls hk => exact iff_of_keeps trivial (h.others (by simp))
  | openSocket x k type refused c hx hk hc =>
    refine iff_of_keeps trivial ?_
    have hblock : ({ s with zmq := s.zmq.addSocket c type }.putSocket x
        (some ⟨some s.zmq.nextSocket, type, none⟩)).block = s.block := by
      rw [State.block_putSocket]
      show Function.update s.block x none = _
      rw [← s.block_of_none hx, Function.update_eq_self]
    rw [hblock]
    exact h.others (by simp)
  | moveSocket this source b ht hs =>
    refine iff_of_keeps trivial ?_
    rw [List.append_nil]
    unfold SocketObject.moveConstruct
    rw [s.block_move _ _ _ hs]
    have hmove := h.transfer this source
    exact ⟨hmove.1, fun hk => (hmove.2 hk).mpr (s.block_of_none ht)⟩
  | swapSocket this source a b ht hs =>
    rw [List.append_nil]
    unfold SocketObject.moveAssign
    rw [s.block_move _ _ _ hs]
    exact h.transfer this source
  | fill x o hx =>
    refine iff_of_keeps trivial ?_
    have hfree := h.free (s.block_of hx)
    have hfill := hfree.1.fill (Function.update_self x none s.block)
    rw [Function.update_idem] at hfill
    rw [State.block_putSocket, ← List.append_assoc]
    exact ⟨hfill.1, fun hk => hfill.2 (hfree.2 hk)⟩
  | empty x r o hx =>
    refine iff_of_keeps (by cases r <;> trivial) ?_
    rw [State.block_putSocket]
    exact h.free (s.block_of hx)
  | closeSocket x o i hx ho =>
    refine iff_of_keeps trivial ?_
    have hblock : ({ s with zmq := s.zmq.dropSocket i }.putSocket x
        (some { o with socket := none })).block = s.block := by
      rw [State.block_putSocket]
      show Function.update s.block x o.recvBuffer = _
      rw [← s.block_of hx, Function.update_eq_self]
    rw [hblock]
    exact h.others (by simp)
  | destroyNull x o hx ho =>
    refine iff_of_keeps trivial ?_
    rw [State.block_putSocket]
    exact h.free (s.block_of hx)
  | destroyOpen x o i hx ho =>
    refine iff_of_keeps trivial ?_
    have hfree := h.free (s.block_of hx)
    have hclose := hfree.1.others (fun e (he : e ∈ [Event.closed i]) => by
      rw [List.mem_singleton.mp he]
      exact ⟨by simp, by simp⟩)
    rw [State.block_putSocket, ← List.append_assoc]
    exact ⟨hclose.1, fun hk => hclose.2 (hfree.2 hk)⟩

theorem blocks_init : Blocks (State.block {}) [] 0 where
  exclusive _ _ _ hx _ := by cases hx
  ledger := (Lib.Ledger.init).by_trace
  live b hb := by
    obtain ⟨x, hx⟩ := hb
    cases hx

/-- **No message block is lost** in any state of a run, iff no move assignment meets a socket whose
`_recv_buffer` holds one: `zmq_msg_init` forgets it.  An assignment to itself is no exception. -/
theorem no_block_lost_iff {ls : List Label} {t : State} {es : List Event}
    (hr : machine.exec {} ls = some (t, es)) :
    machine.Throughout (fun s tr => Kept s.block tr) {} ls ↔ machine.Along MeetsEmptyBuffer {} ls :=
  machine.throughout_iff_along
    (fun s tr => Inv s tr ∧ Blocks s.block tr s.nextBlock) (fun s tr => Kept s.block tr)
    (fun _ _ _ _ _ hinv _ hs =>
      ⟨hinv.1.step hs, (blocks_step hinv.2 (step_cases hinv.1.sound hs)).1⟩)
    (fun _ _ _ _ _ hinv hk _ hs => (blocks_step hinv.2 (step_cases hinv.1.sound hs)).2 hk)
    [] ⟨inv_init, blocks_init⟩ (fun _ hb => by cases hb.1)
    (machine.along_of_forall (fun _ _ => trivial) _ _) hr

/-- a large message stays in the buffer, which the assignment then initialises -/
def losingCalls : List Label :=
  [.constructContext 0 none, .constructSocket 0 0 .pull none, .constructSocket 1 0 .pull none,
    .receive 0 (.kept true), .moveAssignSocket 0 1]

theorem losingCalls_run :
    ∃ t, machine.exec {} losingCalls = some (t, [.created 0, .opened 0, .opened 1, .filled 0]) :=
  ⟨_, rfl⟩

theorem no_block_lost_assigned :
    ¬ machine.Throughout (fun s tr => Kept s.block tr) {} losingCalls := by
  obtain ⟨t, ht⟩ := losingCalls_run
  rw [no_block_lost_iff ht]
  intro h
  have h1 := ((h.2 _ _ rfl).2 _ _ rfl).2 _ _ rfl
  have h2 := (h1.2 _ _ rfl).1
  cases h2

end Lifetime
end Zmqpp
