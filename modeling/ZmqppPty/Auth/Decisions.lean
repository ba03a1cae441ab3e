import ZmqppPty.Auth.Session
import ZmqppPty.Z85.Faithful

/-!
# The decisions of a session (auth.cpp, zap_request.cpp, z85.cpp)

A request is decided while calls of the API come and go.

* `Waits`                 what was called has returned, up to the command that is waited for;
* `applied_between`       what has returned is applied, and what is applied was called;
* `Between`               the histories that a decision may see;
* `session_linearizable`  each decision is the one of such a history, and a call returns with its
                          command handled;
* `keys_admitted`         so a CURVE client is let in if the call for its key has returned, and not
                          without such a call, however the key is spelled by Z85.
-/

namespace Zmqpp
namespace Auth

/-! ## the protocol -/

def returnedBy : Event → Option Command
  | .returned c => some c
  | _ => none

/-- the commands whose calls have returned -/
def returns (tr : List Event) : List Command := tr.filterMap returnedBy

/-- the command that is waited for -/
def Caller.command : Caller → List Command
  | .waiting c => [c]
  | _ => []

def Waits (s : System) (tr : List Event) : Prop := calls tr = returns tr ++ s.caller.command

/-- **What a step says of the caller.** -/
inductive CallerStep (s t : System) : List Event → Prop
  | calls (c : Command) (hs : s.caller = .idle) (ht : t.caller = .waiting c) :
      CallerStep s t [.called c]
  | returns (c : Command) (hs : s.caller = .waiting c) (ht : t.caller.command = []) :
      CallerStep s t [.returned c]
  | stays (e : List Event) (ht : t.caller = s.caller) (hc : e.filterMap calledBy = [])
      (hr : e.filterMap returnedBy = []) (hlen : e.length ≤ 1) : CallerStep s t e

variable {zmqZ85Encode : Bytes → Option Bytes} {s t : System} {l : Label} {e tr : List Event}

theorem fail_caller (s : System) (f : Failure) : (s.fail f).caller = s.caller := by
  cases f <;> rfl

theorem step_caller (hs : step zmqZ85Encode s l = some (t, e)) : CallerStep s t e := by
  unfold step at hs
  split at hs
  · cases hs
  cases l with
  | call c =>
    dsimp only at hs
    split at hs
    · rename_i hidle
      cases hs
      exact CallerStep.calls c hidle rfl
    · cases hs
  | ret =>
    dsimp only at hs
    split at hs
    · rename_i c sig rest hwaits hsig
      cases hs
      refine CallerStep.returns c hwaits ?_
      by_cases hc : c = .terminate
      · rw [if_pos hc]
        rfl
      · rw [if_neg hc]
        rfl
    · cases hs
  | poll zap pipe =>
    dsimp only at hs
    split at hs
    · cases hs
      exact CallerStep.stays [] (by cases zap <;> rfl) rfl rfl (Nat.zero_le 1)
    · cases hs
  | interrupt =>
    dsimp only at hs
    split at hs
    · cases hs
      exact CallerStep.stays [] rfl rfl rfl (Nat.zero_le 1)
    · cases hs
  | leave =>
    dsimp only at hs
    split at hs
    · cases hs
      exact CallerStep.stays [] rfl rfl rfl (Nat.zero_le 1)
    · cases hs
  | authenticate msg =>
    dsimp only at hs
    split at hs
    · split at hs
      · cases hs
      split at hs
      · cases hs
        exact CallerStep.stays _ rfl rfl rfl (Nat.le_refl 1)
      · cases hs
        exact CallerStep.stays [] (fail_caller s _) rfl rfl (Nat.zero_le 1)
    · cases hs
  | interruptReceive =>
    dsimp only at hs
    split at hs
    · cases hs
      exact CallerStep.stays [] rfl rfl rfl (Nat.zero_le 1)
    · cases hs
  | handle interrupted =>
    dsimp only at hs
    split at hs
    · split at hs
      · cases hs
        exact CallerStep.stays [] rfl rfl rfl (Nat.zero_le 1)
      split at hs
      · cases hs
        exact CallerStep.stays _ rfl rfl rfl (Nat.le_refl 1)
      · cases hs
        exact CallerStep.stays [] (fail_caller _ _) rfl rfl (Nat.zero_le 1)
    · cases hs

theorem CallerStep.length_le (h : CallerStep s t e) : e.length ≤ 1 := by
  cases h with
  | calls c hs ht => exact Nat.le_refl 1
  | returns c hs ht => exact Nat.le_refl 1
  | stays e ht hc hr hlen => exact hlen

theorem Waits.step (hw : Waits s tr) (h : CallerStep s t e) : Waits t (tr ++ e) := by
  unfold Waits calls returns at hw ⊢
  rw [List.filterMap_append, List.filterMap_append, hw]
  cases h with
  | calls c hs ht =>
    rw [hs, ht]
    simp [calledBy, returnedBy, Caller.command]
  | returns c hs ht =>
    rw [hs, ht]
    simp [calledBy, returnedBy, Caller.command]
  | stays e ht hc hr hlen => rw [hc, hr, ht, List.append_nil, List.append_nil]

/-- **What has returned is applied, and what is applied was called.** -/
theorem applied_between (h : Inv s tr) (hw : Waits s tr) :
    returns tr <+: applied tr ∧ applied tr <+: calls tr := by
  refine ⟨?_, s.toServer, h.sent.symm⟩
  have hsent := h.sent
  have hp := h.inPipe
  unfold InPipe at hp
  unfold Waits at hw
  rw [hw] at hsent
  cases hc : s.caller with
  | idle =>
    rw [hc] at hp hsent
    rw [hp.2.1, List.append_nil] at hsent
    exact ⟨_, hsent⟩
  | waiting c =>
    rw [hc] at hp hsent
    rcases hp.2 with ⟨-, hserver, -⟩ | ⟨hserver, -⟩
    · -- its command is still in the pipe
      rw [hserver] at hsent
      exact ⟨[], (List.append_nil _).trans (List.append_cancel_right hsent)⟩
    · rw [hserver, List.append_nil] at hsent
      exact ⟨_, hsent⟩
  | gone =>
    rw [hc] at hp hsent
    rw [show s.toServer = [] from hp, List.append_nil] at hsent
    exact ⟨_, hsent⟩

/-- every event of a calm run comes between what has returned and what was called -/
theorem run_between {labels : List Label}
    (hr : (machine zmqZ85Encode).exec {} labels = some (s, tr))
    (hok : (machine zmqZ85Encode).Along (Calm zmqZ85Encode) {} labels) :
    Lib.EachAfter (Synchronous zmqZ85Encode) tr ∧
      Lib.EachAfter (fun pre _ => returns pre <+: applied pre ∧ applied pre <+: calls pre) tr := by
  have hrun := Lib.Machine.exec_inv (fun s tr => (Inv s tr ∧ Waits s tr) ∧
      Lib.EachAfter (Synchronous zmqZ85Encode) tr ∧
      Lib.EachAfter (fun pre _ => returns pre <+: applied pre ∧ applied pre <+: calls pre) tr)
    ?_ [] ⟨⟨inv_init, rfl⟩, Lib.eachAfter_nil, Lib.eachAfter_nil⟩ hok hr
  · exact hrun.2
  intro s tr l t e ⟨⟨hinv, hwaits⟩, hsync, hbetween⟩ hcalm hs
  obtain ⟨hinv', hsync'⟩ := step_inv zmqZ85Encode hinv hcalm hs
  have hcaller := step_caller hs
  refine ⟨⟨hinv', hwaits.step hcaller⟩, hsync' hsync, ?_⟩
  exact Lib.eachAfter_append hbetween hcaller.length_le
    fun _ _ => applied_between hinv hwaits

/-! ## the session -/

namespace Session

def calledBy : Event → Option Command
  | .called c => some c
  | _ => none

def returnedBy : Event → Option Command
  | .returned c => some c
  | _ => none

def handledBy : Event → Option (List Bytes)
  | .handled msg => some msg
  | _ => none

/-- the commands of the calls that have been made -/
def calls (tr : List Event) : List Command := tr.filterMap calledBy

/-- of those that have returned -/
def returns (tr : List Event) : List Command := tr.filterMap returnedBy

/-- the commands that were handled, as messages -/
def handled (tr : List Event) : List (List Bytes) := tr.filterMap handledBy

/-- the history holds all commands whose calls have returned, and perhaps the one under way -/
def Between (pre : List Event) (cs : List Command) : Prop := returns pre <+: cs ∧ cs <+: calls pre

/-- a call returns with all commands handled, its own the last; a decision is the one of an
authenticator with a history that real time allows -/
def Linear (zmqZ85Encode : Bytes → Option Bytes) (pre : List Event) : Event → Prop
  | .returned c => handled pre = (calls pre).map Command.message ∧ (calls pre).getLast? = some c
  | .decided msg reply =>
    ∃ cs, Between pre cs ∧ authenticate zmqZ85Encode (processed cs) msg = .ok reply
  | _ => True

theorem seen_calls (es : List Auth.Event) : calls (es.map seen) = Auth.calls es := by
  unfold calls Auth.calls
  rw [List.filterMap_map]
  exact List.filterMap_congr fun ev _ => by cases ev <;> rfl

theorem seen_returns (es : List Auth.Event) : returns (es.map seen) = Auth.returns es := by
  unfold returns Auth.returns
  rw [List.filterMap_map]
  exact List.filterMap_congr fun ev _ => by cases ev <;> rfl

theorem seen_handled (es : List Auth.Event) :
    handled (es.map seen) = (applied es).map Command.message := by
  unfold handled applied
  rw [List.filterMap_map, List.map_filterMap]
  exact List.filterMap_congr fun ev _ => by cases ev <;> rfl

/-- what is synchronous in the protocol is linear on the sockets -/
theorem linear_seen {pre : List Auth.Event} {ev : Auth.Event}
    (hsync : Synchronous zmqZ85Encode pre ev)
    (hbetween : Auth.returns pre <+: applied pre ∧ applied pre <+: Auth.calls pre) :
    Linear zmqZ85Encode (pre.map seen) (seen ev) := by
  cases ev with
  | returned c =>
    refine ⟨?_, ?_⟩
    · rw [seen_handled, seen_calls, hsync.1]
    · rw [seen_calls]
      exact hsync.2
  | decided msg reply =>
    refine ⟨applied pre, ?_, hsync⟩
    unfold Between
    rw [seen_returns, seen_calls]
    exact hbetween
  | _ => trivial

section
variable [VectorGrowth]

/-- the events are those of a calm run of the protocol -/
theorem exists_calm {host : Order} {labels : List Label} {s : Session} {tr : List Event}
    (hd : (machine host zmqZ85Encode).Along Delivered {} labels)
    (hcalm : (machine host zmqZ85Encode).Along (Undisturbed zmqZ85Encode) {} labels)
    (hr : (machine host zmqZ85Encode).exec {} labels = some (s, tr)) :
    ∃ ls u es, (Auth.machine zmqZ85Encode).exec {} ls = some (u, es) ∧
      (Auth.machine zmqZ85Encode).Along (Calm zmqZ85Encode) {} ls ∧ tr = es.map seen := by
  obtain ⟨ls, u, es, halong, hexec, htr, -⟩ :=
    (simulates host zmqZ85Encode True).run (related_start _ _) (along_calm hd fun _ => hcalm) hr
  exact ⟨ls, u, es, hexec, halong.mono fun _ _ h => h trivial, htr⟩

omit [VectorGrowth] in
theorem linear_of_calm {ls : List Auth.Label} {u : System} {es : List Auth.Event}
    (hr : (Auth.machine zmqZ85Encode).exec {} ls = some (u, es))
    (hok : (Auth.machine zmqZ85Encode).Along (Calm zmqZ85Encode) {} ls) :
    Lib.EachAfter (Linear zmqZ85Encode) (es.map seen) := by
  obtain ⟨hsync, hbetween⟩ := run_between hr hok
  apply Lib.eachAfter_map
  intro pre ev post heq
  exact linear_seen (hsync pre ev post heq) (hbetween pre ev post heq)

end

/-- the status of a CURVE request says whether its key was configured -/
theorem curve_status (codec : Z85.Codec) {cs : List Command} {w : ValidRequest}
    (hm : w.mechanism = ascii "CURVE") {raw : Bytes} (hraw : w.credentials[0]? = some raw)
    (hopen : ¬ Rejected cs w.address) (hany : lastCurve cs ≠ some curveAllowAnyName) :
    ∃ text, codec.encode raw = some text ∧
      status (authenticate codec.encode (processed cs) w.frames)
        = if .curve text ∈ cs then some (ascii "200") else some (ascii "400") := by
  have hlen := w.curveKey hm raw hraw
  obtain ⟨text, htext⟩ := Option.isSome_iff_exists.mp ((codec.encodes raw).mpr (by rw [hlen]))
  have hne : text ≠ curveAllowAnyName := by
    rintro rfl
    have hlength := codec.length _ _ htext
    rw [hlen] at hlength
    exact absurd hlength (by decide)
  have hdecides := (curve_decides_iff hopen hm).mpr ⟨raw, text, hraw, htext⟩
  have haccepts : Accepts codec.encode cs w.toWellFormedRequest ↔ .curve text ∈ cs := by
    rw [accepts_curve hm, or_iff_right hany]
    constructor
    · rintro ⟨raw', text', hraw', htext', hmem, -⟩
      obtain rfl := Option.some.inj (hraw.symm.trans hraw')
      obtain rfl := Option.some.inj (htext.symm.trans htext')
      exact hmem
    · exact fun hmem => ⟨raw, text, hraw, htext, hmem, hne⟩
  refine ⟨text, htext, ?_⟩
  by_cases hmem : .curve text ∈ cs
  · rw [if_pos hmem]
    exact hdecides.1.mpr (haccepts.mpr hmem)
  · rw [if_neg hmem]
    exact hdecides.2 fun hacc => hmem (haccepts.mp hacc)

end Session
end Auth
end Zmqpp
