import ZmqppPty.Client.Toggle
import ZmqppPty.Lib.Attempts

/-!
# The command line client as a program (client/options.cpp, client/main.cpp)

What the command line has `main` do before its loop, and what holds of the loop whatever the type of
the socket.  Of the command line the environment chooses what the parser of the options library has
stored, and whether it has thrown; of libzmq, which call it refuses.

* `processCommandLine`, `startup`   from the command line to the head of the loop;
* `Accepts`, `planned`              the command lines that lead there, and the calls on the way;
* `startup_reading_iff`             when the loop is reached, and which calls have been made then;
* `Steady`, `Moves`                 the loop at its head, and one iteration of it;
* `never_aborts`                    no assertion fails, whatever the command line;
* `one_round`                       a request client has one request answered, and a reply client
                                    answers none.
-/

namespace Zmqpp
namespace Client

open Lib (attempts Granted)

/-! ## the command line -/

inductive ParseError where
  | tooManyPositional
  | unknownOption (name : Bytes)
  | other (what : Bytes)

/-- `boost::program_options::variables_map`: what has been stored for the options that are read -/
structure VariablesMap where
  type : Option Bytes := none
  bind : Option (List Bytes) := none
  connect : Option (List Bytes) := none
  help : Bool := false
  version : Bool := false
  annotate : Bool := false
  detailed : Bool := false
  singlepart : Bool := false
  verbose : Bool := false

def socketTypeOptions : List (Bytes × SocketType) :=
  [(ascii "push", .push), (ascii "pull", .pull),
    (ascii "pub", .publish), (ascii "publish", .publish),
    (ascii "sub", .subscribe), (ascii "subscribe", .subscribe),
    (ascii "req", .request), (ascii "request", .request),
    (ascii "rep", .reply), (ascii "reply", .reply)]

/-- `socket_types[name]`; a name that is not there is added with the first of all types -/
def socketTypeOf (name : Bytes) : SocketType := (socketTypeOptions.lookup name).getD .pair

/-- all that follows the `try`; `error` is what it has caught -/
def processCommandLine (error : Option ParseError) (vm : VariablesMap) : ClientOptions where
  showUsage := error.isSome
    || vm.type.any (fun name => (socketTypeOptions.lookup name).isNone)
    || (vm.type.isNone || vm.help || (vm.connect.isNone && vm.bind.isNone))
  showVersion := vm.version
  showHelp := vm.help
  type := (vm.type.map socketTypeOf).getD .pair
  binds := vm.bind.getD []
  connects := vm.connect.getD []
  singlepart := vm.singlepart
  annotate := vm.annotate
  verbose := vm.verbose || vm.detailed

/-! ## up to the loop -/

/-- the calls of libzmq that may be refused -/
inductive Call where
  | ctxNew
  | socket (type : SocketType)
  | subscribe (topic : Bytes)
  | bind (endpoint : Bytes)
  | connect (endpoint : Bytes)
deriving DecidableEq

inductive Begun where
  /-- `return EXIT_FAILURE` -/
  | failed
  /-- "Unsupported socket type" -/
  | unsupported
  /-- a `zmq_internal_exception` has left `main` -/
  | threw (error : Errno)
  /-- at the head of the loop -/
  | reading (s : State)

structure Surroundings where
  /-- why the last of these calls is refused -/
  refuse : List Call → Option Errno
  socket : Handle
  fileno : Fd
  stdin : Stdin

/-- the context and the socket -/
def socketCalls (type : SocketType) : List Call :=
  [.ctxNew, .socket type] ++ if type = .subscribe then [.subscribe []] else []

/-- the socket is made, bound and connected -/
def openSocket (refuse : List Call → Option Errno) (options : ClientOptions) (s : State) :
    List Call × Begun :=
  match attempts refuse [] (socketCalls options.type) with
  | (calls, some e) => (calls, .threw e)
  | (calls, none) =>
    -- the exceptions of these two are caught
    match attempts refuse calls (options.binds.map .bind) with
    | (calls, some _) => (calls, .failed)
    | (calls, none) =>
      match attempts refuse calls (options.connects.map .connect) with
      | (calls, some _) => (calls, .failed)
      | (calls, none) => (calls, .reading s)

/-- `main` up to the loop, and the calls it has made -/
def startup (error : Option ParseError) (vm : VariablesMap) (env : Surroundings) :
    List Call × Begun :=
  let options := processCommandLine error vm
  if options.showVersion then ([], .failed)
  else if options.showUsage || options.showHelp then ([], .failed)
  else
    match options.type.flags with
    | none => ([], .unsupported)
    | some _ =>
      match start options.type options.singlepart env.socket env.fileno env.stdin with
      | none => ([], .failed)
      | some s => openSocket env.refuse options s

/-- a command line that asks for a socket of that type -/
structure Accepts (error : Option ParseError) (vm : VariablesMap) (type : SocketType) : Prop where
  parsed : error = none
  version : vm.version = false
  help : vm.help = false
  type : ∃ name, vm.type = some name ∧ socketTypeOptions.lookup name = some type
  endpoint : vm.bind ≠ none ∨ vm.connect ≠ none

/-- and stdin is there if that type has to read it -/
structure Asks (error : Option ParseError) (vm : VariablesMap) (env : Surroundings)
    (type : SocketType) (s : State) : Prop where
  accepts : Accepts error vm type
  starts : start type vm.singlepart env.socket env.fileno env.stdin = some s

/-- the calls it asks for -/
def planned (vm : VariablesMap) (type : SocketType) : List Call :=
  socketCalls type ++ (vm.bind.getD []).map .bind ++ (vm.connect.getD []).map .connect

theorem flags_of_lookup {name : Bytes} {type : SocketType}
    (h : socketTypeOptions.lookup name = some type) : type.flags ≠ none := by
  have hall : ∀ entry ∈ socketTypeOptions, entry.2.flags ≠ none := by decide
  obtain ⟨before, after, hsplit, -⟩ := List.lookup_eq_some_iff.mp h
  refine hall (name, type) ?_
  rw [hsplit]
  exact List.mem_append_right before List.mem_cons_self

/-- what is shown instead -/
theorem accepts_iff (error : Option ParseError) (vm : VariablesMap) :
    ((processCommandLine error vm).showVersion = false ∧
      ((processCommandLine error vm).showUsage || (processCommandLine error vm).showHelp) = false) ↔
      Accepts error vm (processCommandLine error vm).type := by
  unfold processCommandLine
  dsimp only
  simp only [Bool.or_eq_false_iff, Bool.and_eq_false_iff, Option.isSome_eq_false_iff,
    Option.isNone_eq_false_iff]
  constructor
  · rintro ⟨hversion, ⟨⟨herror, hname⟩, ⟨htype, hhelp⟩, hends⟩, -⟩
    obtain ⟨name, hsome⟩ := Option.isSome_iff_exists.mp htype
    rw [hsome] at hname ⊢
    obtain ⟨type, hlookup⟩ : ∃ type, socketTypeOptions.lookup name = some type := by
      cases hl : socketTypeOptions.lookup name with
      | none => simp [hl] at hname
      | some type => exact ⟨type, rfl⟩
    refine ⟨Option.isNone_iff_eq_none.mp herror, hversion, hhelp, ⟨name, hsome, ?_⟩, ?_⟩
    · show _ = some ((socketTypeOptions.lookup name).getD .pair)
      rw [hlookup]
      rfl
    · rcases hends with hconnect | hbind
      · exact Or.inr (Option.isSome_iff_ne_none.mp hconnect)
      · exact Or.inl (Option.isSome_iff_ne_none.mp hbind)
  · rintro ⟨herror, hversion, hhelp, ⟨name, hsome, hlookup⟩, hends⟩
    refine ⟨hversion, ⟨⟨?_, ?_⟩, ⟨?_, hhelp⟩, ?_⟩, hhelp⟩
    · rw [herror]
      rfl
    · rw [hsome]
      simp [hlookup]
    · rw [hsome]
      rfl
    · rcases hends with hbind | hconnect
      · exact Or.inr (Option.isSome_iff_ne_none.mpr hbind)
      · exact Or.inl (Option.isSome_iff_ne_none.mpr hconnect)

theorem Accepts.type_eq {error : Option ParseError} {vm : VariablesMap} {type : SocketType}
    (h : Accepts error vm type) : (processCommandLine error vm).type = type := by
  obtain ⟨name, hsome, hlookup⟩ := h.type
  show (vm.type.map socketTypeOf).getD .pair = type
  rw [hsome]
  show (socketTypeOptions.lookup name).getD .pair = type
  rw [hlookup]
  rfl

/-- a command line that is not accepted ends the program -/
theorem startup_rejected {error : Option ParseError} {vm : VariablesMap}
    (h : ∀ type, ¬ Accepts error vm type) (env : Surroundings) :
    startup error vm env = ([], .failed) := by
  have hno := mt (accepts_iff error vm).mp (h _)
  rw [not_and] at hno
  unfold startup
  dsimp only
  split
  · rfl
  · rename_i hversion
    rw [if_pos (Bool.eq_true_of_not_eq_false (hno (Bool.eq_false_of_not_eq_true hversion)))]

theorem startup_accepted {error : Option ParseError} {vm : VariablesMap} {type : SocketType}
    (h : Accepts error vm type) (env : Surroundings) :
    startup error vm env =
      match start type vm.singlepart env.socket env.fileno env.stdin with
      | none => ([], .failed)
      | some s => openSocket env.refuse (processCommandLine error vm) s := by
  obtain ⟨name, -, hlookup⟩ := h.type
  obtain ⟨flags, hflags⟩ := Option.ne_none_iff_exists'.mp (flags_of_lookup hlookup)
  obtain ⟨hversion, husage⟩ := (accepts_iff error vm).mpr (h.type_eq.symm ▸ h)
  unfold startup
  dsimp only
  rw [if_neg (Bool.eq_false_iff.mp hversion), if_neg (Bool.eq_false_iff.mp husage), h.type_eq,
    hflags]
  rfl

/-- **The calls are made in order until one is refused.** -/
theorem openSocket_eq (refuse : List Call → Option Errno) (options : ClientOptions) (s : State) :
    (openSocket refuse options s).1 = (attempts refuse [] (socketCalls options.type ++
        options.binds.map .bind ++ options.connects.map .connect)).1 ∧
      (openSocket refuse options s).2 ≠ .unsupported ∧
      ∀ t, (openSocket refuse options s).2 = .reading t ↔
        t = s ∧ (attempts refuse [] (socketCalls options.type ++
          options.binds.map .bind ++ options.connects.map .connect)).2 = none := by
  rw [Lib.attempts_append, Lib.attempts_append]
  unfold openSocket
  rcases attempts refuse [] (socketCalls options.type) with ⟨calls, _ | e⟩
  · dsimp only
    rw [if_pos rfl]
    rcases attempts refuse calls (options.binds.map .bind) with ⟨calls, _ | e⟩
    · dsimp only
      rw [if_pos rfl]
      rcases attempts refuse calls (options.connects.map .connect) with ⟨calls, _ | e⟩
      · refine ⟨rfl, nofun, fun t => ?_⟩
        rw [Begun.reading.injEq, eq_comm]
        simp
      · simp
    · simp
  · simp

theorem openSocket_planned {error : Option ParseError} {vm : VariablesMap} {type : SocketType}
    (h : Accepts error vm type) (refuse : List Call → Option Errno) (s : State) :
    (openSocket refuse (processCommandLine error vm) s).1
        = (attempts refuse [] (planned vm type)).1 ∧
      (openSocket refuse (processCommandLine error vm) s).2 ≠ .unsupported ∧
      ∀ t, (openSocket refuse (processCommandLine error vm) s).2 = .reading t ↔
        t = s ∧ (attempts refuse [] (planned vm type)).2 = none := by
  have hplanned : socketCalls (processCommandLine error vm).type ++
      (processCommandLine error vm).binds.map .bind ++
      (processCommandLine error vm).connects.map .connect = planned vm type := by
    rw [h.type_eq]
    rfl
  have hopen := openSocket_eq refuse (processCommandLine error vm) s
  rwa [hplanned] at hopen

/-- Where the command line asks for a socket of that type, and stdin is there if it has to be, the
planned calls are made up to the first one that is refused; otherwise none is. -/
theorem startup_calls (error : Option ParseError) (vm : VariablesMap) (env : Surroundings) :
    (startup error vm env).2 ≠ .unsupported ∧
      (∀ type s, Asks error vm env type s →
        (startup error vm env).1 = (attempts env.refuse [] (planned vm type)).1) ∧
      ((∀ type s, ¬ Asks error vm env type s) → (startup error vm env).1 = []) := by
  by_cases hvalid : ∃ type, Accepts error vm type
  · obtain ⟨type, h⟩ := hvalid
    rw [startup_accepted h]
    cases hstart : start type vm.singlepart env.socket env.fileno env.stdin with
    | none =>
      refine ⟨nofun, ?_, fun _ => rfl⟩
      intro type' s hasks
      obtain rfl : type = type' := h.type_eq.symm.trans hasks.accepts.type_eq
      have hs := hasks.starts
      rw [hstart] at hs
      cases hs
    | some s =>
      obtain ⟨hcalls, hsupported, -⟩ := openSocket_planned h env.refuse s
      refine ⟨hsupported, ?_, fun hno => absurd ⟨h, hstart⟩ (hno type s)⟩
      intro type' s' hasks
      obtain rfl : type = type' := h.type_eq.symm.trans hasks.accepts.type_eq
      exact hcalls
  · rw [startup_rejected (not_exists.mp hvalid)]
    exact ⟨nofun, fun type s hasks => absurd ⟨type, hasks.accepts⟩ hvalid, fun _ => rfl⟩

theorem startup_reading {error : Option ParseError} {vm : VariablesMap} {env : Surroundings}
    {calls : List Call} {s : State} :
    startup error vm env = (calls, .reading s) ↔
      ∃ type, Accepts error vm type ∧ calls = planned vm type ∧
        start type vm.singlepart env.socket env.fileno env.stdin = some s ∧
        Granted env.refuse [] (planned vm type) := by
  by_cases hvalid : ∃ type, Accepts error vm type
  · obtain ⟨type, h⟩ := hvalid
    have hunique : ∀ type', Accepts error vm type' → type' = type :=
      fun type' h' => h'.type_eq.symm.trans h.type_eq
    rw [startup_accepted h]
    cases hstart : start type vm.singlepart env.socket env.fileno env.stdin with
    | none =>
      refine ⟨nofun, ?_⟩
      rintro ⟨type', h', -, hs, -⟩
      rw [hunique type' h', hstart] at hs
      cases hs
    | some s' =>
      obtain ⟨hcalls, -, hreading⟩ := openSocket_planned h env.refuse s'
      dsimp only
      rw [Prod.ext_iff, hreading, Lib.attempts_none_iff]
      constructor
      · rintro ⟨rfl, rfl, hgranted⟩
        have hall := Lib.attempts_all (Lib.attempts_none_iff.mpr hgranted)
        exact ⟨type, h, hcalls.trans hall, hstart, hgranted⟩
      · rintro ⟨type', h', rfl, hs, hgranted⟩
        obtain rfl := hunique type' h'
        have hall := Lib.attempts_all (Lib.attempts_none_iff.mpr hgranted)
        exact ⟨hcalls.trans hall, Option.some.inj (hs.symm.trans hstart), hgranted⟩
  · rw [startup_rejected (not_exists.mp hvalid)]
    refine ⟨nofun, ?_⟩
    rintro ⟨type, h, -⟩
    exact absurd ⟨type, h⟩ hvalid

/-- **The loop is reached iff** the command line was read without an error, asks for neither help
nor the version and for at least one endpoint, names one of the types, stdin is there if the type
sends, and libzmq refuses no call.  Where it asks for all that, the calls are made in one order up
to the first one that is refused; otherwise none is, and the type is never one that the loop does
not support. -/
theorem startup_reading_iff (error : Option ParseError) (vm : VariablesMap) (env : Surroundings) :
    (startup error vm env).2 ≠ .unsupported ∧
      (∀ type s, Asks error vm env type s →
        (startup error vm env).1 = (attempts env.refuse [] (planned vm type)).1) ∧
      ((∀ type s, ¬ Asks error vm env type s) → (startup error vm env).1 = []) ∧
      ∀ calls s, startup error vm env = (calls, .reading s) ↔
        ∃ type, Asks error vm env type s ∧ calls = planned vm type ∧
          Granted env.refuse [] (planned vm type) := by
  obtain ⟨hsupported, hcalls, hnone⟩ := startup_calls error vm env
  refine ⟨hsupported, hcalls, hnone, fun calls s => ?_⟩
  rw [startup_reading]
  constructor
  · rintro ⟨type, haccepts, hplanned, hstarts, hgranted⟩
    exact ⟨type, ⟨haccepts, hstarts⟩, hplanned, hgranted⟩
  · rintro ⟨type, hasks, hplanned, hgranted⟩
    exact ⟨type, hasks.accepts, hplanned, hasks.starts, hgranted⟩

/-! ## one iteration of the loop -/

/-- the event is of a message -/
def Event.exchanged : Event → Bool
  | .sent _ | .dropped _ | .received _ => true
  | .polled _ _ | .exiting => false

/-- the messages that are sent, dropped and received, in order -/
def exchange (es : List Event) : List Event := es.filter Event.exchanged

theorem exchange_append (es es' : List Event) :
    exchange (es ++ es') = exchange es ++ exchange es' :=
  List.filter_append ..

/-- the loop at its head, for any type of socket -/
structure Steady (s : State) : Prop where
  wired : s.Wired
  flags : s.canSend = !s.canRecv
  /-- stdin is read iff something may be sent, now or later -/
  standardin : 0 ≤ s.standardin ↔ (s.canSend || s.toggles) = true
  message : s.message = []

theorem Steady.polled {s : State} (h : Steady s) (env : Iteration) : Steady (s.polled env) :=
  ⟨h.wired.polled env, h.flags, h.standardin, h.message⟩

/-- what an iteration may do -/
inductive Moves (s t : State) (e : List Event) : Prop
  | leaves (hpc : t.pc ≠ .reading) (ha : t.pc ≠ .aborted) (he : exchange e = [])
  | stays (hpc : t.pc = .reading) (hsteady : Steady t) (htoggles : t.toggles = s.toggles)
      (hflags : t.canSend = s.canSend) (he : exchange e = [])
  | sends (ev : Event) (hev : ev.Sending) (hsend : s.canSend = true) (hpc : t.pc = .reading)
      (hsteady : Steady t) (htoggles : t.toggles = s.toggles) (hflags : t.canSend = !s.toggles)
      (he : exchange e = [ev])
  | receives (lines : List Bytes) (hrecv : s.canRecv = true) (hpc : t.pc = .reading)
      (hsteady : Steady t) (htoggles : t.toggles = false) (hflags : t.canSend = false)
      (hs : s.toggles = false) (he : exchange e = [.received lines])
  | ends (lines : List Bytes) (hrecv : s.canRecv = true) (hpc : t.pc = .left)
      (hs : s.toggles = true) (he : exchange e = [.received lines])

/-- only the flags of the state before it matter -/
theorem Moves.congr {s s' t : State} {e : List Event} (h : Moves s t e)
    (hsend : s'.canSend = s.canSend) (hrecv : s'.canRecv = s.canRecv)
    (htoggles : s'.toggles = s.toggles) : Moves s' t e := by
  cases h with
  | leaves hpc ha he => exact Moves.leaves hpc ha he
  | stays hpc hsteady ht hflags he =>
    exact Moves.stays hpc hsteady (ht.trans htoggles.symm) (hflags.trans hsend.symm) he
  | sends ev hev hs hpc hsteady ht hflags he =>
    refine Moves.sends ev hev (hsend.trans hs) hpc hsteady (ht.trans htoggles.symm) ?_ he
    rw [htoggles, hflags]
  | receives lines hr hpc hsteady ht hflags hs he =>
    exact Moves.receives lines (hrecv.trans hr) hpc hsteady ht hflags (htoggles.trans hs) he
  | ends lines hr hpc hs he =>
    exact Moves.ends lines (hrecv.trans hr) hpc (htoggles.trans hs) he

/-- a poll is no message -/
theorem Moves.polled {s t : State} {e : List Event} (h : Moves s t e) (a b : Short) :
    Moves s t (.polled a b :: e) := by
  cases h with
  | leaves hpc ha he => exact Moves.leaves hpc ha he
  | stays hpc hsteady htoggles hflags he => exact Moves.stays hpc hsteady htoggles hflags he
  | sends ev hev hsend hpc hsteady htoggles hflags he =>
    exact Moves.sends ev hev hsend hpc hsteady htoggles hflags he
  | receives lines hrecv hpc hsteady htoggles hflags hs he =>
    exact Moves.receives lines hrecv hpc hsteady htoggles hflags hs he
  | ends lines hrecv hpc hs he => exact Moves.ends lines hrecv hpc hs he

/-- the sends of a message -/
theorem trySend_moves (s : State) (env : Iteration) :
    (∃ pc, pc ≠ .reading ∧ pc ≠ .aborted ∧ s.trySend env = ({ s with pc := pc }, [])) ∨
      ∃ ev, ev.Sending ∧ s.trySend env = ({ s with message := [] }, [ev]) := by
  unfold State.trySend
  split
  · exact Or.inl ⟨.threw, nofun, nofun, rfl⟩
  · exact Or.inr ⟨.sent s.message, trivial, rfl⟩
  · split
    · exact Or.inl ⟨.threw, nofun, nofun, rfl⟩
    · exact Or.inr ⟨.sent s.message, trivial, rfl⟩
    · exact Or.inr ⟨.dropped s.message, trivial, rfl⟩

theorem exchange_sending {ev : Event} (h : ev.Sending) : exchange [ev] = [ev] := by
  cases ev with
  | sent _ => rfl
  | dropped _ => rfl
  | polled _ _ => exact h.elim
  | received _ => exact h.elim
  | exiting => exact h.elim

/-- a message of the input -/
theorem sendMessage_moves {s : State} (h : Steady { s with message := [] }) (hpc : s.pc = .reading)
    (hsend : s.canSend = true) (env : Iteration) :
    Moves s (s.sendMessage env).1 (s.sendMessage env).2 := by
  unfold State.sendMessage
  split
  · rename_i hm
    exact Moves.stays hpc ⟨h.wired, h.flags, h.standardin, hm⟩ rfl rfl rfl
  · rcases trySend_moves s env with ⟨pc, hleft, ha, htry⟩ | ⟨ev, hev, htry⟩
    · rw [htry]
      dsimp only
      rw [decide_eq_false hleft, Bool.false_and, if_neg Bool.false_ne_true]
      exact Moves.leaves hleft ha rfl
    · rw [htry]
      dsimp only
      by_cases htoggles : s.toggles = true
      · have hstd : 0 ≤ s.standardin := h.standardin.mpr (by rw [hsend]; rfl)
        rw [if_pos (by simp [hpc, htoggles])]
        refine Moves.sends ev hev hsend hpc ⟨h.wired, rfl, ?_, rfl⟩ rfl ?_ (exchange_sending hev)
        · exact iff_of_true hstd htoggles
        · rw [htoggles]
          rfl
      · rw [if_neg (by simp [htoggles])]
        refine Moves.sends ev hev hsend hpc h rfl ?_ (exchange_sending hev)
        rw [Bool.eq_false_of_not_eq_true htoggles]
        exact hsend

/-- data on stdin -/
theorem stdinBlock_moves {s : State} (h : Steady s) (hpc : s.pc = .reading)
    (hsend : s.canSend = true) (env : Iteration) :
    Moves s (s.stdinBlock env).1 (s.stdinBlock env).2 := by
  unfold State.stdinBlock
  rw [if_pos hsend]
  split
  · exact Moves.leaves nofun nofun rfl
  · rw [if_pos h.message]
    split
    · rename_i stdin _ parts stdin' _
      have hmoves := @sendMessage_moves { s with stdin := stdin', message := parts }
        ⟨h.wired, h.flags, h.standardin, rfl⟩ hpc hsend env
      exact hmoves.congr rfl rfl rfl
    · exact Moves.leaves nofun nofun rfl

/-- the test of stdin, in an iteration that has received nothing -/
theorem stdinBranch_moves {s : State} (h : Steady s) (hpc : s.pc = .reading)
    (hin : 0 ≤ s.standardin → ∃ b, s.stdinInput = .ok b ∧ (b = true → s.canSend = true))
    (env : Iteration) : Moves s (s.stdinBranch env).1 (s.stdinBranch env).2 := by
  unfold State.stdinBranch
  split
  · rename_i hstd
    obtain ⟨b, hb, hsend⟩ := hin hstd
    rw [hb]
    cases b with
    | true => exact stdinBlock_moves h hpc (hsend rfl) env
    | false =>
      dsimp only
      split
      · exact Moves.leaves nofun nofun rfl
      · exact Moves.stays hpc h rfl rfl rfl
  · exact Moves.stays hpc h rfl rfl rfl

/-- a message on the socket -/
theorem received_moves {s : State} (h : Steady s) (hpc : s.pc = .reading)
    (hin : 0 ≤ s.standardin → ∃ b, s.stdinInput = .ok b ∧ (b = true → s.canSend = true))
    (hrecv : s.canRecv = true) (hsocket : s.socketInput = .ok true) (env : Iteration) :
    Moves s (s.dispatch env).1 (s.dispatch env).2 := by
  cases hreceived : env.received with
  | error x =>
    rw [dispatch_threw hsocket hrecv hreceived]
    exact Moves.leaves nofun nofun rfl
  | ok lines =>
    have hsend : s.canSend = false := by rw [h.flags, hrecv]; rfl
    cases htoggles : s.toggles with
    | true =>
      have hstd : 0 ≤ s.standardin := h.standardin.mpr (by rw [htoggles, Bool.or_true])
      obtain ⟨b, hb, hcan⟩ := hin hstd
      have hnone : b = false := by
        cases b with
        | false => rfl
        | true => rw [hcan rfl] at hsend; cases hsend
      subst hnone
      rw [dispatch_message ⟨h.wired, htoggles, hstd, fun _ => h.flags⟩ hb hsocket hpc hrecv
        hreceived]
      exact Moves.ends lines hrecv rfl htoggles rfl
    | false =>
      have hstd : ¬ 0 ≤ s.standardin := by
        rw [h.standardin, hsend, htoggles]
        exact Bool.false_ne_true
      have hreceive : s.receiveBranch env = (s, [.received lines]) := by
        unfold State.receiveBranch
        rw [hsocket]
        dsimp only
        rw [if_pos hrecv, hreceived]
        dsimp only
        rw [if_neg (by rw [htoggles]; exact Bool.false_ne_true)]
      have hdispatch : s.dispatch env
          = (s, [.polled s.socketMask s.stdinMask, .received lines]) := by
        unfold State.dispatch
        rw [hreceive]
        dsimp only
        rw [if_pos hpc]
        unfold State.stdinBranch
        rw [if_neg hstd]
        rfl
      rw [hdispatch]
      exact Moves.receives lines hrecv hpc h htoggles hsend htoggles rfl

/-- **One iteration**, whatever the type of the socket and whatever becomes of the messages. -/
theorem Steady.iterate {s t : State} {env : Iteration} {e : List Event} (h : Steady s)
    (hpc : s.pc = .reading) (hlegal : s.LegalPoll env) (hs : s.iterate env = (t, e)) :
    Moves s t e := by
  obtain ⟨b, hb, hrecv⟩ := h.wired.socketInput hlegal
  rw [h.wired.iterate] at hs
  cases hp : (s.prepared.poll env.zmqPoll).2 with
  | error x =>
    rw [hp] at hs
    obtain ⟨rfl, rfl⟩ := Prod.mk.inj hs
    exact Moves.leaves nofun nofun rfl
  | ok reports =>
    rw [hp] at hs
    cases reports with
    | false =>
      obtain ⟨rfl, rfl⟩ := Prod.mk.inj hs
      exact Moves.stays hpc (h.polled env) rfl rfl rfl
    | true =>
      have hin : 0 ≤ (s.polled env).standardin → _ := fun hstd => h.wired.stdinInput hlegal hstd
      have hdispatch : (s.polled env).dispatch env = (t, e) := hs
      cases b with
      | true =>
        have hmoves := received_moves (h.polled env) hpc hin (hrecv rfl) hb env
        rw [hdispatch] at hmoves
        exact hmoves.congr rfl rfl rfl
      | false =>
        have hmoves := stdinBranch_moves (h.polled env) hpc hin env
        rw [State.dispatch_silent hb hpc] at hdispatch
        obtain ⟨rfl, rfl⟩ := Prod.mk.inj hdispatch
        exact (hmoves.polled _ _).congr rfl rfl rfl

/-! ## runs -/

/-- **The loop begins as it goes on.** -/
theorem start_steady {type : SocketType} {singlepart : Bool} {socket : Handle} {fileno : Fd}
    {stdin : Stdin} {s : State} (h : start type singlepart socket fileno stdin = some s) :
    Steady s ∧ s.pc = .reading ∧
      type.flags = some ⟨s.canSend, s.canRecv, s.toggles⟩ := by
  obtain ⟨flags, hflags⟩ : ∃ flags, type.flags = some flags := by
    unfold start at h
    cases hf : type.flags with
    | none =>
      rw [hf] at h
      cases h
    | some flags => exact ⟨flags, rfl⟩
  have hopposite : flags.canSend = !flags.canRecv := by
    cases type <;> cases hflags <;> rfl
  by_cases hsends : (flags.canSend || flags.toggles) = true
  · have hwired := start_wired hflags hsends h
    obtain ⟨hfd, rfl⟩ := start_eq hflags hsends h
    exact ⟨⟨hwired, hopposite, iff_of_true hfd hsends, rfl⟩, rfl, hflags⟩
  · have hnone := Bool.eq_false_of_not_eq_true hsends
    unfold start at h
    rw [hflags] at h
    dsimp only at h
    rw [hnone, Bool.false_and, if_neg Bool.false_ne_true, if_neg Bool.false_ne_true] at h
    obtain rfl := Option.some.inj h
    have hstd : ¬ 0 ≤ (-1 : Fd) := by decide
    refine ⟨⟨⟨_, Poller.Represents.init.add (k := .sock socket) pollIn rfl, ?_, ?_⟩, hopposite,
      iff_of_false hstd hsends, rfl⟩, rfl, hflags⟩
    · rw [Function.update_self]
      exact Option.some_ne_none _
    · exact fun hpos => absurd hpos hstd

/-- the loop is at its head, or it was left and no assertion has failed -/
def Sound (s : State) : Prop := s.pc ≠ .aborted ∧ (s.pc = .reading → Steady s)

theorem Sound.step {s t : State} {env : Iteration} {e : List Event} (h : Sound s)
    (hlegal : s.LegalPoll env) (hs : machine.step s env = some (t, e)) : Sound t := by
  obtain ⟨hpc, hit⟩ := step_iterate hs
  cases (h.2 hpc).iterate hpc hlegal hit with
  | leaves hpc ha he => exact ⟨ha, fun hr => absurd hr hpc⟩
  | stays hpc hsteady htoggles hflags he => exact ⟨by rw [hpc]; exact nofun, fun _ => hsteady⟩
  | sends ev hev hsend hpc hsteady htoggles hflags he =>
    exact ⟨by rw [hpc]; exact nofun, fun _ => hsteady⟩
  | receives lines hrecv hpc hsteady htoggles hflags hs he =>
    exact ⟨by rw [hpc]; exact nofun, fun _ => hsteady⟩
  | ends lines hrecv hpc hs he => exact ⟨by rw [hpc]; exact nofun, by rw [hpc]; exact nofun⟩

/-- **No assertion fails**: whatever the command line, the input, what libzmq delivers and how the
sends come out, as long as a poll reports only what it was asked for. -/
theorem never_aborts (error : Option ParseError) (vm : VariablesMap) (env : Surroundings)
    (calls : List Call) (s t : State) (ls : List Iteration) (es : List Event)
    (hbegun : startup error vm env = (calls, .reading s))
    (hlegal : machine.Along State.LegalPoll s ls) (hr : machine.exec s ls = some (t, es)) :
    t.pc ≠ .aborted := by
  obtain ⟨type, -, -, hstart, -⟩ := startup_reading.mp hbegun
  obtain ⟨hsteady, hpc, -⟩ := start_steady hstart
  have hsound : Sound s := ⟨by rw [hpc]; exact nofun, fun _ => hsteady⟩
  have hrun := Lib.Machine.exec_state Sound (fun _ _ _ _ h hok hs => h.step hok hs) hsound hlegal hr
  exact hrun.1

/-- the messages of a socket that toggles; `request` if it sends first -/
def Round (request : Bool) (es : List Event) : Prop :=
  ∃ ev lines, ev.Sending ∧
    exchange es <+: (if request then [ev] else []) ++ [.received lines]

/-- how far it has come -/
inductive InRound (request : Bool) (s : State) (es : List Event) : Prop
  | begins (hflags : s.canSend = request) (he : exchange es = [])
  | waits (hflags : s.canSend = false) (hrequest : request = true) (ev : Event) (hev : ev.Sending)
      (he : exchange es = [ev])

theorem InRound.round {request : Bool} {s : State} {es : List Event} (h : InRound request s es) :
    Round request es := by
  cases h with
  | begins hflags he =>
    refine ⟨.sent [], [], trivial, ?_⟩
    rw [he]
    exact List.nil_prefix
  | waits hflags hrequest ev hev he =>
    refine ⟨ev, [], hev, ?_⟩
    rw [he, hrequest]
    exact List.prefix_append [ev] _

structure Toggled (request : Bool) (s : State) (es : List Event) : Prop where
  round : Round request es
  reading : s.pc = .reading → Steady s ∧ s.toggles = true ∧ InRound request s es

theorem Toggled.step {request : Bool} {s t : State} {es e : List Event} {env : Iteration}
    (h : Toggled request s es) (hlegal : s.LegalPoll env)
    (hs : machine.step s env = some (t, e)) : Toggled request t (es ++ e) := by
  obtain ⟨hpc, hit⟩ := step_iterate hs
  obtain ⟨hsteady, htoggles, hround⟩ := h.reading hpc
  have hsame : exchange e = [] → exchange (es ++ e) = exchange es := by
    intro he
    rw [exchange_append, he, List.append_nil]
  cases hsteady.iterate hpc hlegal hit with
  | leaves hpc' ha he =>
    refine ⟨?_, fun hr => absurd hr hpc'⟩
    unfold Round
    rw [hsame he]
    exact h.round
  | stays hpc' hsteady' ht hflags he =>
    have hround' : InRound request t (es ++ e) := by
      cases hround with
      | begins hf hx => exact .begins (hflags.trans hf) ((hsame he).trans hx)
      | waits hf hrequest ev hev hx =>
        exact .waits (hflags.trans hf) hrequest ev hev ((hsame he).trans hx)
    exact ⟨hround'.round, fun _ => ⟨hsteady', ht.trans htoggles, hround'⟩⟩
  | sends ev hev hsend hpc' hsteady' ht hflags he =>
    cases hround with
    | begins hf hx =>
      have hround' : InRound request t (es ++ e) := by
        refine .waits (by rw [hflags, htoggles]; rfl) (hf.symm.trans hsend) ev hev ?_
        rw [exchange_append, hx, he]
        rfl
      exact ⟨hround'.round, fun _ => ⟨hsteady', ht.trans htoggles, hround'⟩⟩
    | waits hf hrequest ev' hev' hx =>
      rw [hsend] at hf
      cases hf
  | receives lines hrecv hpc' hsteady' ht hflags hs he =>
    rw [htoggles] at hs
    cases hs
  | ends lines hrecv hpc' hs he =>
    refine ⟨?_, fun hr => by rw [hpc'] at hr; cases hr⟩
    have hcannot : s.canSend = false := by rw [hsteady.flags, hrecv]; rfl
    cases hround with
    | begins hf hx =>
      refine ⟨.sent [], lines, trivial, ?_⟩
      rw [exchange_append, hx, he, ← hf, hcannot]
      exact List.prefix_rfl
    | waits hf hrequest ev hev hx =>
      refine ⟨ev, lines, hev, ?_⟩
      rw [exchange_append, hx, he, hrequest]
      exact List.prefix_rfl

/-- **A request client has one request answered, and a reply client answers none.**  The first sends
or drops one message and then receives one, the other receives one; that ends their loops. -/
theorem one_round (error : Option ParseError) (vm : VariablesMap) (env : Surroundings)
    (calls : List Call) (s t : State) (ls : List Iteration) (es : List Event) (type : SocketType)
    (haccepts : Accepts error vm type) (hbegun : startup error vm env = (calls, .reading s))
    (hlegal : machine.Along State.LegalPoll s ls) (hr : machine.exec s ls = some (t, es)) :
    (type = .request → ∃ ev lines, ev.Sending ∧ exchange es <+: [ev, .received lines]) ∧
      (type = .reply → ∃ lines, exchange es <+: [.received lines]) := by
  obtain ⟨type', h', -, hstart, -⟩ := startup_reading.mp hbegun
  obtain rfl : type = type' := haccepts.type_eq.symm.trans h'.type_eq
  obtain ⟨hsteady, hpc, hflags⟩ := start_steady hstart
  have hrun : s.toggles = true → Toggled s.canSend t ([] ++ es) := fun htoggles =>
    Lib.Machine.exec_inv (Toggled s.canSend) (fun _ _ _ _ _ h hok hs => h.step hok hs) []
      ⟨(InRound.begins rfl rfl).round, fun _ => ⟨hsteady, htoggles, .begins rfl rfl⟩⟩ hlegal hr
  rw [List.nil_append] at hrun
  constructor
  · rintro rfl
    obtain ⟨hsend, -, htoggles⟩ := Flags.mk.inj (Option.some.inj hflags)
    obtain ⟨ev, lines, hev, hround⟩ := (hrun htoggles.symm).round
    rw [← hsend] at hround
    exact ⟨ev, lines, hev, hround⟩
  · rintro rfl
    obtain ⟨hsend, -, htoggles⟩ := Flags.mk.inj (Option.some.inj hflags)
    obtain ⟨_, lines, -, hround⟩ := (hrun htoggles.symm).round
    rw [← hsend] at hround
    exact ⟨lines, hround⟩

/-- `rep -b inproc://a`, where libzmq refuses nothing -/
def replyLine : VariablesMap where
  type := some (ascii "rep")
  bind := some [ascii "inproc://a"]

def obliging : Surroundings where
  refuse _ := none
  socket := 7
  fileno := 0
  stdin := {}

theorem replyLine_accepted : Accepts none replyLine .reply :=
  ⟨rfl, rfl, rfl, ⟨_, rfl, by decide⟩, Or.inl (Option.some_ne_none _)⟩

theorem replyLine_begun : startup none replyLine obliging
    = ([.ctxNew, .socket .reply, .bind (ascii "inproc://a")], .reading (toggleLoop false {})) :=
  startup_reading.mpr ⟨.reply, replyLine_accepted, rfl, rfl, fun _ _ _ => rfl⟩

theorem firstRequest_legal :
    machine.Along State.LegalPoll (toggleLoop false {}) [firstRequest] :=
  ⟨(start_wired rfl rfl (start_reply {})).answer_legal (by decide) (by decide) (by decide),
    fun _ _ _ => trivial⟩

theorem never_aborts_reply :
    ∃ t es, machine.exec (toggleLoop false {}) [firstRequest] = some (t, es) ∧
      t.pc ≠ .aborted :=
  ⟨_, _, rfl, never_aborts none replyLine obliging _ _ _ _ _ replyLine_begun firstRequest_legal rfl⟩

/-- the request that comes in is the only message -/
theorem one_round_reply :
    ∃ t es lines, machine.exec (toggleLoop false {}) [firstRequest] = some (t, es) ∧
      exchange es <+: [.received lines] := by
  obtain ⟨lines, hround⟩ := (one_round none replyLine obliging _ _ _ _ _ .reply replyLine_accepted
    replyLine_begun firstRequest_legal rfl).2 rfl
  exact ⟨_, _, lines, rfl, hround⟩

end Client
end Zmqpp
