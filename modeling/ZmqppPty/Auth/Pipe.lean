import ZmqppPty.Lib.Machine
import ZmqppPty.Auth.Basic

/-!
# The command protocol of the authenticator (auth.cpp, actor.cpp)

The caller of the API and the ZAP server loop, joined by the two directions of the actor's pipe.
The machine starts when the constructor has returned: the first signal is consumed, both sockets
are in the poller.  A ZAP request comes from libzmq when the server receives it.

* `step`             call and return on one side, the loop and its exits on the other;
* `Calm`             no interrupt of `zmq_poll` or of the receive of a request, no request that
                     makes `zap_request` throw: the steps on which the loop is left only after
                     TERMINATE;
* `Inv`              at most one command is on its way, and a caller that waits is answered only
                     after its own command;
* `commands_synchronous`   in every run of such steps a call returns with its command applied.
-/

namespace Zmqpp
namespace Auth

inductive Caller where
  | idle
  | waiting (c : Command)
  /-- the destructor has run -/
  | gone
deriving DecidableEq

inductive Server where
  /-- at the condition of the loop -/
  | head
  /-- `zap_handler` has input, and the pipe if `pipe` -/
  | zap (pipe : Bool)
  /-- the pipe has input -/
  | command
  /-- the final signal is sent -/
  | done
  /-- an assertion has failed -/
  | aborted
deriving DecidableEq

structure System where
  caller : Caller := .idle
  toServer : List Command := []
  toCaller : List Signal := []
  server : Server := .head
  auth : Auth := {}

inductive Label where
  | call (c : Command)
  /-- `wait()` returns -/
  | ret
  /-- `zmq_poll` reports input -/
  | poll (zap pipe : Bool)
  /-- `zmq_poll` fails with `EINTR` -/
  | interrupt
  /-- `terminated` is seen -/
  | leave
  | authenticate (msg : List Bytes)
  /-- the receive of a request is interrupted before its first frame -/
  | interruptReceive
  | handle (interrupted : Bool)

inductive Event where
  | called (c : Command)
  | returned (c : Command)
  | applied (c : Command)
  | decided (msg reply : List Bytes)

namespace System

/-- `actor::start_routine` sends the final signal -/
def finish (s : System) (sig : Signal) : System :=
  { s with toCaller := s.toCaller ++ [sig], server := .done }

/-- what follows the test of `zap_handler` -/
def afterZap (s : System) (pipe : Bool) : System :=
  { s with server := if pipe then .command else .head }

/-- an exception leaves the routine, a failed assertion ends the process -/
def fail (s : System) : Failure → System
  | .threw _ => s.finish .ko
  | .assertFailed => { s with server := .aborted }

end System

variable (zmqZ85Encode : Bytes → Option Bytes)

def step (s : System) (l : Label) : Option (System × List Event) :=
  if s.server = .aborted then none
  else match l with
  | .call c =>
    match s.caller with
    | .idle => some ({ s with caller := .waiting c, toServer := s.toServer ++ [c] }, [.called c])
    | _ => none
  | .ret =>
    match s.caller, s.toCaller with
    | .waiting c, _ :: rest =>
      some ({ s with caller := if c = .terminate then .gone else .idle, toCaller := rest },
        [.returned c])
    | _, _ => none
  | .poll zap pipe =>
    if s.server = .head ∧ s.auth.terminated = false ∧ (zap || pipe) ∧ (pipe → s.toServer ≠ []) then
      some (if zap then { s with server := .zap pipe } else s.afterZap pipe, [])
    else none
  | .interrupt =>
    if s.server = .head ∧ s.auth.terminated = false then some (s.finish .ok, []) else none
  | .leave =>
    if s.server = .head ∧ s.auth.terminated = true then some (s.finish .ok, []) else none
  | .authenticate msg =>
    match s.server with
    | .zap pipe =>
      if msg = [] then none
      else match authenticate zmqZ85Encode s.auth msg with
      | .ok reply => some (s.afterZap pipe, [.decided msg reply])
      | .error e => some (s.fail e, [])
    | _ => none
  | .interruptReceive =>
    match s.server with
    -- the reply `500` answers no request: the socket refuses it, and the exception ends the routine
    | .zap _ => some (s.finish .ko, [])
    | _ => none
  | .handle interrupted =>
    match s.server, s.toServer with
    | .command, c :: rest =>
      if interrupted then some ({ s with server := .head }, [])
      else match s.auth.handleCommand c.message with
      | .ok (a, sigs) =>
        some ({ s with auth := a, toServer := rest, toCaller := s.toCaller ++ sigs,
                       server := .head }, [.applied c])
      | .error e => some ({ s with toServer := rest }.fail e, [])
    | _, _ => none

def machine : Lib.Machine System Label Event := ⟨step zmqZ85Encode⟩

def calledBy : Event → Option Command
  | .called c => some c
  | _ => none

def appliedBy : Event → Option Command
  | .applied c => some c
  | _ => none

/-- the commands sent so far -/
def calls (tr : List Event) : List Command := tr.filterMap calledBy

/-- the commands applied so far -/
def applied (tr : List Event) : List Command := tr.filterMap appliedBy

/-- when a call returns, the commands applied are the ones called, its own the last; and every
decision is the one of an authenticator that has processed the commands applied -/
def Synchronous (pre : List Event) : Event → Prop
  | .returned c => applied pre = calls pre ∧ (calls pre).getLast? = some c
  | .decided msg reply => authenticate zmqZ85Encode (processed (applied pre)) msg = .ok reply
  | _ => True

/-- neither a `zmq_poll` nor, before it has begun, the receive of a request is interrupted, and no
request makes `zap_request` throw -/
def Calm (_ : System) : Label → Prop
  | .interrupt | .interruptReceive => False
  | .authenticate msg => ∀ e, zapRequest zmqZ85Encode msg ≠ .error (.threw e)
  | _ => True

/-! ## the invariant -/

/-- the loop runs and was not asked to end -/
def Open (s : System) : Prop := s.auth.terminated = false ∧ s.server ≠ .done

/-- what is in the pipe, by what the caller does -/
def InPipe (s : System) (called : List Command) : Prop :=
  match s.caller with
  | .idle => Open s ∧ s.toServer = [] ∧ s.toCaller = []
  | .waiting c => called.getLast? = some c ∧
      ((Open s ∧ s.toServer = [c] ∧ s.toCaller = []) ∨
       (s.toServer = [] ∧ s.toCaller ≠ [] ∧
          (c ≠ .terminate → Open s ∧ s.toCaller.length = 1)))
  | .gone => s.toServer = []

structure Inv (s : System) (tr : List Event) : Prop where
  auth : s.auth = processed (applied tr)
  sent : calls tr = applied tr ++ s.toServer
  inPipe : InPipe s (calls tr)

theorem effect_terminated (a : Auth) {c : Command} (h : c ≠ .terminate) :
    (a.effect c).terminated = a.terminated := by
  cases c with
  | curve key => unfold effect; dsimp only; split <;> rfl
  | terminate => exact absurd rfl h
  | _ => rfl

theorem inv_init : Inv {} [] := ⟨rfl, rfl, ⟨rfl, by simp⟩, rfl, rfl⟩

/-- a move of the server inside the loop keeps the invariant -/
theorem inv_server {s : System} {tr : List Event} (h : Inv s tr) {pc : Server}
    (hpc : pc ≠ .done) : Inv { s with server := pc } tr := by
  refine ⟨h.auth, h.sent, ?_⟩
  have hp := h.inPipe
  unfold InPipe at hp ⊢
  dsimp only
  cases hc : s.caller with
  | idle =>
    rw [hc] at hp
    exact ⟨⟨hp.1.1, hpc⟩, hp.2⟩
  | waiting c =>
    rw [hc] at hp
    refine ⟨hp.1, ?_⟩
    rcases hp.2 with hq | hq
    · exact Or.inl ⟨⟨hq.1.1, hpc⟩, hq.2⟩
    · exact Or.inr ⟨hq.1, hq.2.1, fun ht => ⟨⟨(hq.2.2 ht).1.1, hpc⟩, (hq.2.2 ht).2⟩⟩
  | gone =>
    rw [hc] at hp
    exact hp

theorem inv_afterZap {s : System} {tr : List Event} (h : Inv s tr) (pipe : Bool) :
    Inv (s.afterZap pipe) tr := by
  apply inv_server h
  cases pipe <;> decide

/-- an event that is neither a call nor an application changes nothing for the invariant -/
theorem inv_event {s : System} {tr : List Event} (h : Inv s tr) {e : Event}
    (hc : calledBy e = none) (ha : appliedBy e = none) : Inv s (tr ++ [e]) := by
  have hcalls : calls (tr ++ [e]) = calls tr := by simp [calls, hc]
  have happlied : applied (tr ++ [e]) = applied tr := by simp [applied, ha]
  refine ⟨?_, ?_, ?_⟩
  · rw [happlied]; exact h.auth
  · rw [hcalls, happlied]; exact h.sent
  · rw [hcalls]; exact h.inPipe

theorem inv_call {s : System} {tr : List Event} (h : Inv s tr) (hc : s.caller = .idle)
    (c : Command) :
    Inv { s with caller := .waiting c, toServer := s.toServer ++ [c] } (tr ++ [.called c]) := by
  have hp := h.inPipe
  unfold InPipe at hp
  rw [hc] at hp
  have hcalls : calls (tr ++ [.called c]) = calls tr ++ [c] := by simp [calls, calledBy]
  have happlied : applied (tr ++ [.called c]) = applied tr := by simp [applied, appliedBy]
  refine ⟨?_, ?_, ?_⟩
  · rw [happlied]; exact h.auth
  · rw [hcalls, happlied, h.sent, List.append_assoc]
  · refine ⟨by rw [hcalls, List.getLast?_concat], Or.inl ⟨hp.1, ?_, hp.2.2⟩⟩
    rw [hp.2.1, List.nil_append]

/-- a caller that can return has had its command applied -/
theorem ret_applied {s : System} {tr : List Event} (h : Inv s tr) {c : Command}
    (hc : s.caller = .waiting c) (hs : s.toCaller ≠ []) :
    s.toServer = [] ∧ (calls tr).getLast? = some c ∧
      (c ≠ .terminate → Open s ∧ s.toCaller.length = 1) := by
  have hp := h.inPipe
  unfold InPipe at hp
  rw [hc] at hp
  obtain ⟨hlast, hq | hq⟩ := hp
  · exact absurd hq.2.2 hs
  · exact ⟨hq.1, hlast, hq.2.2⟩

theorem inv_ret {s : System} {tr : List Event} (h : Inv s tr) {c : Command} {sig : Signal}
    {rest : List Signal} (hc : s.caller = .waiting c) (hs : s.toCaller = sig :: rest) :
    Inv { s with caller := if c = .terminate then .gone else .idle, toCaller := rest } tr := by
  obtain ⟨hserver, -, hopen⟩ := ret_applied h hc (by rw [hs]; exact List.cons_ne_nil _ _)
  refine ⟨h.auth, h.sent, ?_⟩
  by_cases ht : c = .terminate
  · rw [if_pos ht]
    exact hserver
  · rw [if_neg ht]
    have hlen := (hopen ht).2
    rw [hs, List.length_cons] at hlen
    have hrest : rest = [] := List.length_eq_zero_iff.mp (by omega)
    exact ⟨(hopen ht).1, hserver, hrest⟩

theorem inv_leave {s : System} {tr : List Event} (h : Inv s tr) (ht : s.auth.terminated = true) :
    Inv (s.finish .ok) tr := by
  have hno : ¬ Open s := fun ho => by rw [ho.1] at ht; cases ht
  refine ⟨h.auth, h.sent, ?_⟩
  have hp := h.inPipe
  unfold InPipe at hp ⊢
  unfold System.finish
  dsimp only
  cases hc : s.caller with
  | idle =>
    rw [hc] at hp
    exact absurd hp.1 hno
  | waiting c =>
    rw [hc] at hp
    refine ⟨hp.1, ?_⟩
    rcases hp.2 with hq | hq
    · exact absurd hq.1 hno
    · exact Or.inr ⟨hq.1, by simp, fun hne => absurd (hq.2.2 hne).1 hno⟩
  | gone =>
    rw [hc] at hp
    exact hp

theorem inv_handle {s : System} {tr : List Event} (h : Inv s tr) {c : Command}
    {rest : List Command} (hs : s.toServer = c :: rest) :
    Inv { s with auth := s.auth.effect c, toServer := rest, toCaller := s.toCaller ++ [.ok],
                 server := .head } (tr ++ [.applied c]) := by
  have hcalls : calls (tr ++ [.applied c]) = calls tr := by simp [calls, calledBy]
  have happlied : applied (tr ++ [.applied c]) = applied tr ++ [c] := by
    simp [applied, appliedBy]
  refine ⟨?_, ?_, ?_⟩
  · rw [happlied, processed_concat, h.auth]
  · rw [hcalls, happlied, h.sent, hs, List.append_assoc, List.singleton_append]
  · rw [hcalls]
    have hp := h.inPipe
    unfold InPipe at hp ⊢
    dsimp only
    cases hc : s.caller with
    | idle => rw [hc] at hp; rw [hp.2.1] at hs; cases hs
    | gone => rw [hc] at hp; rw [show s.toServer = [] from hp] at hs; cases hs
    | waiting c' =>
      rw [hc] at hp
      refine ⟨hp.1, Or.inr ?_⟩
      rcases hp.2 with hq | hq
      · rw [hq.2.1, List.cons.injEq] at hs
        obtain ⟨rfl, rfl⟩ := hs
        refine ⟨rfl, by simp, fun hne => ⟨⟨?_, by simp⟩, by simp [hq.2.2]⟩⟩
        show (s.auth.effect c').terminated = false
        rw [effect_terminated _ hne]
        exact hq.1.1
      · rw [hq.1] at hs
        cases hs

/-- `authenticate` throws only what `zap_request` throws -/
theorem authenticate_error {a : Auth} {msg : List Bytes} {e : Failure}
    (h : authenticate zmqZ85Encode a msg = .error e) :
    zapRequest zmqZ85Encode msg = .error e := by
  unfold authenticate at h
  cases hr : zapRequest zmqZ85Encode msg with
  | error e' =>
    rw [hr] at h
    cases h
    rfl
  | ok r =>
    rw [hr] at h
    change (if r.version = [] then _ else _) = _ at h
    by_cases hv : r.version = []
    · rw [if_pos hv] at h; cases h
    · rw [if_neg hv] at h
      by_cases hd : (a.verdict r).1 = true
      · rw [if_pos hd] at h; cases h
      · rw [if_neg hd] at h; cases h

/-! ## the runs -/

theorem step_inv {s t : System} {tr e : List Event} {l : Label} (h : Inv s tr)
    (hcalm : Calm zmqZ85Encode s l) (hs : step zmqZ85Encode s l = some (t, e)) :
    Inv t (tr ++ e) ∧ (Lib.EachAfter (Synchronous zmqZ85Encode) tr →
      Lib.EachAfter (Synchronous zmqZ85Encode) (tr ++ e)) := by
  unfold step at hs
  split at hs
  · cases hs
  · cases l with
    | call c =>
      dsimp only at hs
      split at hs
      · rename_i hc
        cases hs
        exact ⟨inv_call h hc c, fun htr => Lib.eachAfter_concat htr trivial⟩
      · cases hs
    | ret =>
      dsimp only at hs
      split at hs
      · rename_i c sig rest hc hsig
        cases hs
        have hret := ret_applied h hc (by rw [hsig]; exact List.cons_ne_nil _ _)
        refine ⟨inv_event (inv_ret h hc hsig) rfl rfl, fun htr => Lib.eachAfter_concat htr ?_⟩
        refine ⟨?_, hret.2.1⟩
        rw [h.sent, hret.1, List.append_nil]
      · cases hs
    | poll zap pipe =>
      dsimp only at hs
      split at hs
      · cases hs
        rw [List.append_nil]
        refine ⟨?_, id⟩
        cases zap with
        | true => exact inv_server h (fun hdone => Server.noConfusion hdone)
        | false => exact inv_afterZap h pipe
      · cases hs
    | interrupt => exact absurd hcalm id
    | leave =>
      dsimp only at hs
      split at hs
      · rename_i ht
        cases hs
        rw [List.append_nil]
        exact ⟨inv_leave h ht.2, id⟩
      · cases hs
    | authenticate msg =>
      dsimp only at hs
      split at hs
      · rename_i pipe hserver
        split at hs
        · cases hs
        · split at hs
          · rename_i reply hreply
            cases hs
            refine ⟨inv_event (inv_afterZap h pipe) rfl rfl, fun htr =>
              Lib.eachAfter_concat htr ?_⟩
            show authenticate zmqZ85Encode (processed (applied tr)) msg = .ok reply
            rw [← h.auth]
            exact hreply
          · rename_i err herr
            cases hs
            rw [List.append_nil]
            refine ⟨?_, id⟩
            cases err with
            | threw x => exact absurd (authenticate_error zmqZ85Encode herr) (hcalm x)
            | assertFailed => exact inv_server h (by decide)
      · cases hs
    | interruptReceive => exact absurd hcalm id
    | handle interrupted =>
      dsimp only at hs
      split at hs
      · rename_i c rest _ hq
        split at hs
        · cases hs
          rw [List.append_nil]
          exact ⟨inv_server h (by decide), id⟩
        · rw [handleCommand_message] at hs
          cases hs
          exact ⟨inv_handle h hq, fun htr => Lib.eachAfter_concat htr trivial⟩
      · cases hs

/-- an address is allowed while the server is in `zmq_poll` -/
def allowRun : List Label :=
  [.call (.allow (ascii "10.0.0.1")), .poll false true, .handle false, .ret]

end Auth
end Zmqpp
