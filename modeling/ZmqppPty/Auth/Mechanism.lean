import ZmqppPty.Auth.Basic

/-!
# The mechanism check of the authenticator

For an address that the lists do not reject the mechanism alone should decide.

* `WellFormedRequest`      a ZAP request with the frames its mechanism needs;
* `Accepts`                what the mechanisms accept, said of the commands processed;
* `zapRequest_plain` …     what is read of a request of each mechanism;
* `status_of_request`      the status is decided by `checkMechanism`;
* `mechanism_decides_iff`  the mechanism decides iff it is a known one or no address rule was given
                           (and the key of a CURVE request can be encoded).  For other mechanisms
                           `allowed` stays as the address check has set it.
-/

namespace Zmqpp
namespace Auth

/-- the frames of a request after the six standard ones -/
def neededFrames (mechanism : Bytes) : ℕ :=
  if mechanism = ascii "PLAIN" then 2
  else if mechanism = ascii "CURVE" ∨ mechanism = ascii "GSSAPI" then 1
  else 0

structure WellFormedRequest where
  sequence : Bytes
  domain : Bytes
  address : Bytes
  identity : Bytes
  mechanism : Bytes
  credentials : List Bytes
  present : neededFrames mechanism ≤ credentials.length

namespace WellFormedRequest

def frames (w : WellFormedRequest) : List Bytes :=
  ascii "1.0" :: w.sequence :: w.domain :: w.address :: w.identity :: w.mechanism :: w.credentials

/-- the request as parsed, without the frames of the mechanism -/
def standard (w : WellFormedRequest) : ZapRequest :=
  { version := ascii "1.0", sequence := w.sequence, domain := w.domain, address := w.address,
    identity := w.identity, mechanism := w.mechanism }

end WellFormedRequest

variable (zmqZ85Encode : Bytes → Option Bytes)

/-- the mechanism accepts the request after these commands -/
def Accepts (cs : List Command) (w : WellFormedRequest) : Prop :=
  w.mechanism = ascii "NULL" ∨
  (w.mechanism = ascii "PLAIN" ∧ ∃ u p, w.credentials[0]? = some u ∧ w.credentials[1]? = some p ∧
    (processed cs).passwords u = some p) ∨
  (w.mechanism = ascii "CURVE" ∧ (lastCurve cs = some curveAllowAnyName ∨
    ∃ raw key, w.credentials[0]? = some raw ∧ zmqZ85Encode raw = some key ∧
      Command.curve key ∈ cs ∧ key ≠ curveAllowAnyName)) ∨
  w.mechanism = ascii "GSSAPI"

/-- the status frame of the reply, if there is a reply -/
def status : Except Failure (List Bytes) → Option Bytes
  | .ok reply => reply[2]?
  | .error _ => none

/-- the reply is 200 iff the mechanism accepts, and 400 otherwise -/
def MechanismDecides (cs : List Command) (w : WellFormedRequest) : Prop :=
  (status (authenticate zmqZ85Encode (processed cs) w.frames) = some (ascii "200") ↔
    Accepts zmqZ85Encode cs w) ∧
  (¬ Accepts zmqZ85Encode cs w →
    status (authenticate zmqZ85Encode (processed cs) w.frames) = some (ascii "400"))

def knownMechanisms : List Bytes := [ascii "NULL", ascii "PLAIN", ascii "CURVE", ascii "GSSAPI"]

/-- the key frame of the request can be encoded -/
def KeyEncodable (w : WellFormedRequest) : Prop :=
  ∃ raw key, w.credentials[0]? = some raw ∧ zmqZ85Encode raw = some key

/-! ## reading a request -/

theorem zapRequest_frames (w : WellFormedRequest) :
    zapRequest zmqZ85Encode w.frames =
      if w.mechanism = ascii "PLAIN" then do
        let username ← getPart w.credentials 0
        let password ← getPart w.credentials 1
        return { w.standard with username := username, password := password }
      else if w.mechanism = ascii "CURVE" then do
        let key ← getPart w.credentials 0
        let clientKey ← z85Encode zmqZ85Encode key
        return { w.standard with clientKey := clientKey }
      else if w.mechanism = ascii "GSSAPI" then do
        let principal ← getPart w.credentials 0
        return { w.standard with principal := principal }
      else return w.standard := rfl

theorem getPart_ok {msg : List Bytes} {part : ℕ} {b : Bytes} (h : msg[part]? = some b) :
    getPart msg part = .ok b := by
  unfold getPart
  rw [h]

theorem zapRequest_plain {w : WellFormedRequest} (hm : w.mechanism = ascii "PLAIN") :
    ∃ u p, w.credentials[0]? = some u ∧ w.credentials[1]? = some p ∧
      zapRequest zmqZ85Encode w.frames
        = .ok { w.standard with username := u, password := p } := by
  have hlen := w.present
  unfold neededFrames at hlen
  rw [if_pos hm] at hlen
  refine ⟨w.credentials[0], w.credentials[1], List.getElem?_eq_getElem (by omega),
    List.getElem?_eq_getElem (by omega), ?_⟩
  rw [zapRequest_frames, if_pos hm, getPart_ok (List.getElem?_eq_getElem (by omega)),
    getPart_ok (List.getElem?_eq_getElem (by omega))]
  rfl

theorem zapRequest_curve {w : WellFormedRequest} (hm : w.mechanism = ascii "CURVE") :
    ∃ raw, w.credentials[0]? = some raw ∧
      zapRequest zmqZ85Encode w.frames = match zmqZ85Encode raw with
        | none => .error (.threw (.z85 "Failed to encode to z85"))
        | some key => .ok { w.standard with clientKey := key } := by
  have hne : w.mechanism ≠ ascii "PLAIN" := by rw [hm]; decide
  have hlen := w.present
  unfold neededFrames at hlen
  rw [if_neg hne, if_pos (Or.inl hm)] at hlen
  refine ⟨w.credentials[0], List.getElem?_eq_getElem (by omega), ?_⟩
  rw [zapRequest_frames, if_neg hne, if_pos hm, getPart_ok (List.getElem?_eq_getElem (by omega))]
  show (z85Encode zmqZ85Encode w.credentials[0] >>= _) = _
  unfold z85Encode
  cases zmqZ85Encode w.credentials[0] <;> rfl

theorem zapRequest_gssapi {w : WellFormedRequest} (hm : w.mechanism = ascii "GSSAPI") :
    ∃ p, zapRequest zmqZ85Encode w.frames = .ok { w.standard with principal := p } := by
  have hne : w.mechanism ≠ ascii "PLAIN" := by rw [hm]; decide
  have hne' : w.mechanism ≠ ascii "CURVE" := by rw [hm]; decide
  have hlen := w.present
  unfold neededFrames at hlen
  rw [if_neg hne, if_pos (Or.inr hm)] at hlen
  refine ⟨w.credentials[0], ?_⟩
  rw [zapRequest_frames, if_neg hne, if_neg hne', if_pos hm,
    getPart_ok (List.getElem?_eq_getElem (by omega))]
  rfl

theorem zapRequest_other {w : WellFormedRequest} (h1 : w.mechanism ≠ ascii "PLAIN")
    (h2 : w.mechanism ≠ ascii "CURVE") (h3 : w.mechanism ≠ ascii "GSSAPI") :
    zapRequest zmqZ85Encode w.frames = .ok w.standard := by
  rw [zapRequest_frames, if_neg h1, if_neg h2, if_neg h3]
  rfl

/-! ## the status -/

/-- **For an address that is not rejected the status is decided by the mechanism check.** -/
theorem status_of_request {cs : List Command} {w : WellFormedRequest} {r : ZapRequest}
    (h : ¬ Rejected cs w.address) (hr : zapRequest zmqZ85Encode w.frames = .ok r)
    (hv : r.version = ascii "1.0") (ha : r.address = w.address) :
    status (authenticate zmqZ85Encode (processed cs) w.frames) =
      if ((processed cs).checkMechanism r ((processed cs).checkAddress w.address).1).1 = true
        then some (ascii "200") else some (ascii "400") := by
  have hd : ((processed cs).checkAddress w.address).2 = false := by
    rw [← checkAddress_denied, Bool.not_eq_true] at h
    exact h
  have hne : r.version ≠ [] := by rw [hv]; decide
  have hverdict : (processed cs).verdict r
      = (processed cs).checkMechanism r ((processed cs).checkAddress w.address).1 := by
    unfold verdict
    rw [ha]
    simp only [hd, Bool.false_eq_true, ↓reduceIte]
  rw [← hverdict]
  unfold authenticate
  rw [hr]
  show status (if r.version = [] then _ else _) = _
  rw [if_neg hne]
  split <;> rfl

/-- the mechanism decides iff its check succeeds exactly on what it accepts -/
theorem decides_iff_check {cs : List Command} {w : WellFormedRequest} {r : ZapRequest}
    (h : ¬ Rejected cs w.address) (hr : zapRequest zmqZ85Encode w.frames = .ok r)
    (hv : r.version = ascii "1.0") (ha : r.address = w.address) :
    MechanismDecides zmqZ85Encode cs w ↔
      (((processed cs).checkMechanism r ((processed cs).checkAddress w.address).1).1 = true ↔
        Accepts zmqZ85Encode cs w) := by
  unfold MechanismDecides
  rw [status_of_request zmqZ85Encode h hr hv ha]
  have hne : ascii "400" ≠ ascii "200" := by decide
  by_cases hc : ((processed cs).checkMechanism r ((processed cs).checkAddress w.address).1).1 = true
  · rw [if_pos hc]
    simp only [hc, true_iff, Option.some.injEq, hne.symm, imp_false, not_not, and_self]
  · rw [if_neg hc]
    simp [hc, hne]

/-! ## the mechanisms one by one -/

variable {zmqZ85Encode}

theorem mechanisms_distinct :
    (ascii "NULL" ≠ ascii "PLAIN" ∧ ascii "NULL" ≠ ascii "CURVE" ∧ ascii "NULL" ≠ ascii "GSSAPI") ∧
    (ascii "PLAIN" ≠ ascii "NULL" ∧ ascii "PLAIN" ≠ ascii "CURVE" ∧ ascii "PLAIN" ≠ ascii "GSSAPI") ∧
    (ascii "CURVE" ≠ ascii "NULL" ∧ ascii "CURVE" ≠ ascii "PLAIN" ∧ ascii "CURVE" ≠ ascii "GSSAPI") ∧
    (ascii "GSSAPI" ≠ ascii "NULL" ∧ ascii "GSSAPI" ≠ ascii "PLAIN" ∧
      ascii "GSSAPI" ≠ ascii "CURVE") := by decide

theorem accepts_plain {cs : List Command} {w : WellFormedRequest}
    (hm : w.mechanism = ascii "PLAIN") :
    Accepts zmqZ85Encode cs w ↔ ∃ u p, w.credentials[0]? = some u ∧ w.credentials[1]? = some p ∧
      (processed cs).passwords u = some p := by
  unfold Accepts
  simp [hm, mechanisms_distinct]

theorem accepts_curve {cs : List Command} {w : WellFormedRequest}
    (hm : w.mechanism = ascii "CURVE") :
    Accepts zmqZ85Encode cs w ↔ lastCurve cs = some curveAllowAnyName ∨
      ∃ raw key, w.credentials[0]? = some raw ∧ zmqZ85Encode raw = some key ∧
        Command.curve key ∈ cs ∧ key ≠ curveAllowAnyName := by
  unfold Accepts
  simp [hm, mechanisms_distinct]

theorem plain_decides {cs : List Command} {w : WellFormedRequest} (h : ¬ Rejected cs w.address)
    (hm : w.mechanism = ascii "PLAIN") : MechanismDecides zmqZ85Encode cs w := by
  obtain ⟨u, p, hu, hp, hr⟩ := zapRequest_plain zmqZ85Encode hm
  rw [decides_iff_check zmqZ85Encode h hr rfl rfl, accepts_plain hm, hu, hp]
  simp only [checkMechanism, WellFormedRequest.standard, hm, mechanisms_distinct.2.1.1, false_and,
    ↓reduceIte, authenticatePlain_fst]
  simp

theorem curve_decides_iff {cs : List Command} {w : WellFormedRequest}
    (h : ¬ Rejected cs w.address) (hm : w.mechanism = ascii "CURVE") :
    MechanismDecides zmqZ85Encode cs w ↔ KeyEncodable zmqZ85Encode w := by
  obtain ⟨raw, hraw, hr⟩ := zapRequest_curve zmqZ85Encode hm
  unfold KeyEncodable
  cases hz : zmqZ85Encode raw with
  | none =>
    -- the exception leaves the request without a reply, whether the key is accepted or not
    rw [hz] at hr
    have hno : status (authenticate zmqZ85Encode (processed cs) w.frames) = none := by
      unfold authenticate
      rw [hr]
      rfl
    unfold MechanismDecides
    rw [hno, hraw]
    by_cases hacc : Accepts zmqZ85Encode cs w
    · simp [hacc, hz]
    · simp [hacc, hz]
  | some key =>
    rw [hz] at hr
    rw [decides_iff_check zmqZ85Encode h hr rfl rfl, accepts_curve hm, hraw,
      ← curveAllowAny_iff]
    obtain ⟨hnull, hplain, -⟩ := mechanisms_distinct.2.2.1
    simp only [checkMechanism, WellFormedRequest.standard, hm, hnull, hplain, false_and,
      ↓reduceIte, authenticateCurve_fst, mem_clientKeys]
    simp [hz]

theorem gssapi_decides {cs : List Command} {w : WellFormedRequest} (h : ¬ Rejected cs w.address)
    (hm : w.mechanism = ascii "GSSAPI") : MechanismDecides zmqZ85Encode cs w := by
  obtain ⟨p, hr⟩ := zapRequest_gssapi zmqZ85Encode hm
  rw [decides_iff_check zmqZ85Encode h hr rfl rfl]
  obtain ⟨hnull, hplain, hcurve⟩ := mechanisms_distinct.2.2.2
  simp [checkMechanism, WellFormedRequest.standard, hm, hnull, hplain, hcurve, authenticateGssapi,
    Accepts]

theorem null_decides {cs : List Command} {w : WellFormedRequest} (h : ¬ Rejected cs w.address)
    (hm : w.mechanism = ascii "NULL") : MechanismDecides zmqZ85Encode cs w := by
  obtain ⟨hplain, hcurve, hgssapi⟩ := mechanisms_distinct.1
  have hr := zapRequest_other zmqZ85Encode (hm ▸ hplain) (hm ▸ hcurve) (hm ▸ hgssapi)
  rw [decides_iff_check zmqZ85Encode h hr rfl rfl]
  cases ((processed cs).checkAddress w.address).1 <;>
    simp [checkMechanism, WellFormedRequest.standard, hm, hplain, hcurve, hgssapi, Accepts]

/-- an unknown mechanism is answered by the address check alone -/
theorem unknown_decides_iff {cs : List Command} {w : WellFormedRequest}
    (h : ¬ Rejected cs w.address) (hm : w.mechanism ∉ knownMechanisms) :
    MechanismDecides zmqZ85Encode cs w ↔ NoAddressRule cs := by
  simp only [knownMechanisms, List.mem_cons, List.not_mem_nil, or_false, not_or] at hm
  obtain ⟨hnull, hplain, hcurve, hgssapi⟩ := hm
  have hr := zapRequest_other zmqZ85Encode hplain hcurve hgssapi
  have hacc : ¬ Accepts zmqZ85Encode cs w := by
    unfold Accepts
    simp [hnull, hplain, hcurve, hgssapi]
  rw [decides_iff_check zmqZ85Encode h hr rfl rfl]
  have hcheck : ∀ allowed, ((processed cs).checkMechanism w.standard allowed).1 = allowed := by
    intro allowed
    simp [checkMechanism, WellFormedRequest.standard, hnull, hplain, hcurve, hgssapi]
  rw [hcheck, checkAddress_allowed cs h]
  simp [hacc]

/-- **For an address that is not rejected, the mechanism decides iff it is a known one or neither
ALLOW nor DENY was processed**, and the key of a CURVE request can be encoded. -/
theorem mechanism_decides_iff (zmqZ85Encode : Bytes → Option Bytes) (cs : List Command)
    (w : WellFormedRequest) (h : ¬ Rejected cs w.address) :
    MechanismDecides zmqZ85Encode cs w ↔
      (w.mechanism ∈ knownMechanisms ∨ NoAddressRule cs) ∧
      (w.mechanism = ascii "CURVE" → KeyEncodable zmqZ85Encode w) := by
  by_cases hk : w.mechanism ∈ knownMechanisms
  · simp only [hk, true_or, true_and]
    by_cases hc : w.mechanism = ascii "CURVE"
    · simp only [hc, forall_const]
      exact curve_decides_iff h hc
    · simp only [hc, false_implies, iff_true]
      simp only [knownMechanisms, List.mem_cons, List.not_mem_nil, or_false] at hk
      rcases hk with hm | hm | hm | hm
      · exact null_decides h hm
      · exact plain_decides h hm
      · exact absurd hm hc
      · exact gssapi_decides h hm
  · have hc : w.mechanism ≠ ascii "CURVE" := by
      intro hc
      rw [hc] at hk
      exact hk (by decide)
    rw [unknown_decides_iff h hk]
    simp [hk, hc]

/-- a request without credentials from one address -/
def bareRequest (mechanism : String) (hm : neededFrames (ascii mechanism) = 0) :
    WellFormedRequest where
  sequence := ascii "1"
  domain := ascii "global"
  address := ascii "10.0.0.1"
  identity := []
  mechanism := ascii mechanism
  credentials := []
  present := Nat.le_of_eq hm

/-- a z85 encoder that fails on everything -/
def noEncoder : Bytes → Option Bytes := fun _ => none

theorem mechanism_decides_null :
    MechanismDecides noEncoder [.allow (ascii "10.0.0.1")] (bareRequest "NULL" (by decide)) :=
  (mechanism_decides_iff noEncoder [.allow (ascii "10.0.0.1")] (bareRequest "NULL" (by decide))
    (by simp [Rejected, bareRequest])).mpr ⟨Or.inl (by decide), fun h => absurd h (by decide)⟩

/-- **An address on the whitelist is accepted under an unknown mechanism.** -/
theorem unknown_mechanism_accepted :
    ¬ Rejected [.allow (ascii "10.0.0.1")] (ascii "10.0.0.1") ∧
      status (authenticate noEncoder (processed [.allow (ascii "10.0.0.1")])
        (bareRequest "ANON" (by decide)).frames) = some (ascii "200") ∧
      ¬ MechanismDecides noEncoder [.allow (ascii "10.0.0.1")]
        (bareRequest "ANON" (by decide)) := by
  have h200 : status (authenticate noEncoder (processed [.allow (ascii "10.0.0.1")])
      (bareRequest "ANON" (by decide)).frames) = some (ascii "200") := by rfl
  refine ⟨by simp [Rejected], h200, ?_⟩
  intro h
  have hacc := h.1.mp h200
  unfold Accepts at hacc
  revert hacc
  have h1 : ascii "ANON" ≠ ascii "NULL" := by decide
  have h2 : ascii "ANON" ≠ ascii "PLAIN" := by decide
  have h3 : ascii "ANON" ≠ ascii "CURVE" := by decide
  have h4 : ascii "ANON" ≠ ascii "GSSAPI" := by decide
  simp [bareRequest, h1, h2, h3, h4]

end Auth
end Zmqpp
