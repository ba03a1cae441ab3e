import ZmqppPty.Auth.Mechanism

/-!
# What a history of commands decides

Commands change the authenticator one after the other.  Here the decisions taken after a whole
history are read off the history.

* `passwordsFor`              the passwords the PLAIN commands gave a user, in order;
* `passwords_eq`              the one in force is the FIRST: `insert` keeps an existing entry;
* `latest_plain_iff`          so the latest is in force iff it and the first agree on the password;
* `Readable`                  the key of a CURVE request can be encoded, and then it is parsed;
* `ValidRequest`              a request libzmq can send: a CURVE key has 32 bytes;
* `processed_eq_of_same`      ALLOW and DENY act as two sets, in any order and number;
* `status_rejected_iff`       a rejected address is answered with 400 iff the request is readable;
* `address_rule_iff`          when the address lists decide as they should.
-/

namespace Zmqpp
namespace Auth

/-! ## the passwords -/

/-- the password a command configures for a user -/
def plainFor (username : Bytes) : Command → Option Bytes
  | .plain user pass => if user = username then some pass else none
  | _ => none

def passwordsFor (cs : List Command) (username : Bytes) : List Bytes :=
  cs.filterMap (plainFor username)

theorem insertPair_apply (m : Bytes → Option Bytes) (key value k : Bytes) :
    insertPair m key value k = (m k).or (if key = k then some value else none) := by
  unfold insertPair
  cases hm : m key with
  | some old =>
    show m k = _
    by_cases h : key = k
    · rw [← h, hm]
      rfl
    · rw [if_neg h, Option.or_none]
  | none =>
    show Function.update m key (some value) k = _
    by_cases h : key = k
    · rw [← h, Function.update_self, hm, if_pos rfl]
      rfl
    · rw [Function.update_of_ne (Ne.symm h), if_neg h, Option.or_none]

theorem passwords_effect (a : Auth) (c : Command) (username : Bytes) :
    (a.effect c).passwords username = (a.passwords username).or (plainFor username c) := by
  cases c with
  | plain user pass => exact insertPair_apply a.passwords user pass username
  | curve key =>
    unfold effect plainFor
    dsimp only
    split <;> rw [Option.or_none]
  | _ => exact Option.or_none.symm

/-- **The password in force is the first one configured.** -/
theorem passwords_eq (cs : List Command) (username : Bytes) :
    (processed cs).passwords username = (passwordsFor cs username).head? := by
  induction cs using List.reverseRecOn with
  | nil => rfl
  | append_singleton cs c ih =>
    rw [processed_concat, passwords_effect, ih]
    unfold passwordsFor
    rw [List.filterMap_append, List.head?_append]
    cases h : plainFor username c <;> simp [h]

/-- a second PLAIN command for a user is answered with `ok` and changes nothing -/
theorem plain_again (cs : List Command) {username : Bytes} (password : Bytes)
    (h : passwordsFor cs username ≠ []) :
    (processed cs).handleCommand (Command.plain username password).message
      = .ok (processed cs, [.ok]) := by
  rw [handleCommand_message]
  have hkept : insertPair (processed cs).passwords username password
      = (processed cs).passwords := by
    funext k
    rw [insertPair_apply]
    by_cases hk : username = k
    · subst hk
      rw [passwords_eq, List.head?_eq_some_head h]
      rfl
    · rw [if_neg hk, Option.or_none]
  show Except.ok ({ processed cs with
    passwords := insertPair (processed cs).passwords username password }, _) = _
  rw [hkept]

/-- the request is accepted iff the last PLAIN command for its user carried its password -/
def LatestPlainInForce (cs : List Command) (r : ZapRequest) : Prop :=
  ((processed cs).authenticatePlain r).1 = true ↔
    (passwordsFor cs r.username).getLast? = some r.password

/-- **The latest PLAIN configuration is in force for a user and a password iff the first and the
last one for that user agree on this password**: both carry it, or neither does. -/
theorem latest_plain_iff (cs : List Command) (r : ZapRequest) :
    LatestPlainInForce cs r ↔
      ((passwordsFor cs r.username).head? = some r.password ↔
        (passwordsFor cs r.username).getLast? = some r.password) := by
  unfold LatestPlainInForce
  rw [authenticatePlain_fst, passwords_eq]

/-- the password of one user configured anew -/
def reconfigured : List Command :=
  [.plain (ascii "admin") (ascii "old"), .plain (ascii "admin") (ascii "new")]

/-- **The old password is still accepted, the new one is not.** -/
theorem latest_plain_fails :
    ((processed reconfigured).authenticatePlain
        { username := ascii "admin", password := ascii "old" }).1 = true ∧
      ((processed reconfigured).authenticatePlain
        { username := ascii "admin", password := ascii "new" }).1 = false ∧
      ¬ LatestPlainInForce reconfigured
        { username := ascii "admin", password := ascii "new" } := by
  refine ⟨by decide, by decide, ?_⟩
  unfold LatestPlainInForce
  decide

/-- the histories after which the latest configuration is in force for everyone -/
theorem latest_plain_all_iff (cs : List Command) :
    (∀ r, LatestPlainInForce cs r) ↔
      ∀ username, (passwordsFor cs username).head? = (passwordsFor cs username).getLast? := by
  unfold LatestPlainInForce
  simp only [authenticatePlain_fst, passwords_eq]
  constructor
  · intro h username
    apply Option.ext
    intro p
    exact h { username := username, password := p }
  · intro h r
    rw [h]

/-! ## requests that are parsed -/

/-- the key of a CURVE request can be encoded -/
def Readable (zmqZ85Encode : Bytes → Option Bytes) (w : WellFormedRequest) : Prop :=
  w.mechanism = ascii "CURVE" → KeyEncodable zmqZ85Encode w

theorem zapRequest_readable {zmqZ85Encode : Bytes → Option Bytes} {w : WellFormedRequest}
    (h : Readable zmqZ85Encode w) :
    ∃ r, zapRequest zmqZ85Encode w.frames = .ok r ∧ r.version = ascii "1.0" ∧
      r.sequence = w.sequence ∧ r.address = w.address := by
  by_cases h1 : w.mechanism = ascii "PLAIN"
  · obtain ⟨u, p, -, -, hr⟩ := zapRequest_plain zmqZ85Encode h1
    exact ⟨_, hr, rfl, rfl, rfl⟩
  by_cases h2 : w.mechanism = ascii "CURVE"
  · obtain ⟨raw, hraw, hr⟩ := zapRequest_curve zmqZ85Encode h2
    obtain ⟨raw', key, hraw', hkey⟩ := h h2
    obtain rfl := Option.some.inj (hraw.symm.trans hraw')
    rw [hkey] at hr
    exact ⟨_, hr, rfl, rfl, rfl⟩
  by_cases h3 : w.mechanism = ascii "GSSAPI"
  · obtain ⟨p, hr⟩ := zapRequest_gssapi zmqZ85Encode h3
    exact ⟨_, hr, rfl, rfl, rfl⟩
  exact ⟨_, zapRequest_other zmqZ85Encode h1 h2 h3, rfl, rfl, rfl⟩

/-- a key that cannot be encoded makes `zap_request` throw -/
theorem zapRequest_unreadable {zmqZ85Encode : Bytes → Option Bytes} {w : WellFormedRequest}
    (h : ¬ Readable zmqZ85Encode w) :
    zapRequest zmqZ85Encode w.frames = .error (.threw (.z85 "Failed to encode to z85")) := by
  unfold Readable at h
  push Not at h
  obtain ⟨hm, hkey⟩ := h
  obtain ⟨raw, hraw, hr⟩ := zapRequest_curve zmqZ85Encode hm
  cases hz : zmqZ85Encode raw with
  | some key => exact absurd ⟨raw, key, hraw, hz⟩ hkey
  | none =>
    rw [hz] at hr
    exact hr

/-- a request of libzmq -/
structure ValidRequest extends WellFormedRequest where
  curveKey : mechanism = ascii "CURVE" → ∀ key, credentials[0]? = some key → key.length = 32

section
variable (zmqZ85Encode : Bytes → Option Bytes)

/-- `zmq_z85_encode` fails only on a size that is not a multiple of 4 -/
def EncodesWords : Prop := ∀ raw, raw.length % 4 = 0 → (zmqZ85Encode raw).isSome = true

/-- every valid request is parsed -/
theorem zapRequest_valid {zmqZ85Encode : Bytes → Option Bytes} (hz : EncodesWords zmqZ85Encode)
    (w : ValidRequest) :
    ∃ r, zapRequest zmqZ85Encode w.frames = .ok r ∧ r.version = ascii "1.0" ∧
      r.sequence = w.sequence ∧ r.address = w.address := by
  apply zapRequest_readable
  intro hm
  obtain ⟨raw, hraw, -⟩ := zapRequest_curve zmqZ85Encode hm
  obtain ⟨key, hkey⟩ := Option.isSome_iff_exists.mp (hz raw (by rw [w.curveKey hm raw hraw]))
  exact ⟨raw, key, hraw, hkey⟩

end

/-! ## the address commands -/

def isDeny : Command → Bool
  | .deny _ => true
  | _ => false

/-- an ALLOW or a DENY command -/
def isAddress : Command → Bool
  | .allow _ => true
  | .deny _ => true
  | _ => false

/-- the histories agree up to the order and the number of their ALLOW and DENY commands -/
def SameUpToAddressOrder (cs cs' : List Command) : Prop :=
  cs.filter (fun c => !isAddress c) = cs'.filter (fun c => !isAddress c) ∧
    ∀ c, isAddress c = true → (c ∈ cs ↔ c ∈ cs')

/-- the histories agree up to their DENY commands -/
def SameUpToDeny (cs cs' : List Command) : Prop :=
  cs.filter (fun c => !isDeny c) = cs'.filter (fun c => !isDeny c)

/-- everything but the two address lists -/
def rest (a : Auth) : Auth := { a with whitelist := ∅, blacklist := ∅ }

theorem eq_of_rest {a a' : Auth} (h : a.rest = a'.rest) (hw : a.whitelist = a'.whitelist)
    (hb : a.blacklist = a'.blacklist) : a = a' := by
  have ha : ∀ b : Auth, b = { b.rest with whitelist := b.whitelist, blacklist := b.blacklist } :=
    fun b => rfl
  rw [ha a, ha a', h, hw, hb]

theorem rest_effect (a : Auth) (c : Command) :
    (a.effect c).rest = if isAddress c = true then a.rest else a.rest.effect c := by
  cases c with
  | curve key =>
    show (effect a (.curve key)).rest = effect a.rest (.curve key)
    unfold effect
    dsimp only
    split <;> rfl
  | _ => rfl

/-- the address commands reach nothing but the two lists -/
theorem rest_processed (cs : List Command) :
    (processed cs).rest = processed (cs.filter fun c => !isAddress c) := by
  induction cs using List.reverseRecOn with
  | nil => rfl
  | append_singleton cs c ih =>
    rw [List.filter_append, processed_concat, rest_effect, ih]
    cases h : isAddress c with
    | true =>
      have hnone : [c].filter (fun c => !isAddress c) = [] := by simp [h]
      rw [if_pos rfl, hnone, List.append_nil]
    | false =>
      have hone : [c].filter (fun c => !isAddress c) = [c] := by simp [h]
      rw [if_neg Bool.false_ne_true, hone, processed_concat]

/-- **Order and number of the ALLOW and DENY commands leave no trace in the authenticator.** -/
theorem processed_eq_of_same {cs cs' : List Command} (h : SameUpToAddressOrder cs cs') :
    processed cs = processed cs' := by
  apply eq_of_rest
  · rw [rest_processed, rest_processed, h.1]
  · ext address
    rw [mem_whitelist, mem_whitelist]
    exact h.2 _ rfl
  · ext address
    rw [mem_blacklist, mem_blacklist]
    exact h.2 _ rfl

theorem mem_filter_not_deny (cs : List Command) {c : Command} (h : isDeny c = false) :
    c ∈ cs.filter (fun c => !isDeny c) ↔ c ∈ cs := by
  rw [List.mem_filter, h]
  exact and_iff_left rfl

theorem SameUpToDeny.allow_iff {cs cs' : List Command} (h : SameUpToDeny cs cs')
    (address : Bytes) : .allow address ∈ cs ↔ .allow address ∈ cs' := by
  rw [← mem_filter_not_deny cs rfl, h, mem_filter_not_deny cs' rfl]

theorem SameUpToDeny.rest_eq {cs cs' : List Command} (h : SameUpToDeny cs cs') :
    (processed cs).rest = (processed cs').rest := by
  have hsub : ∀ ds : List Command, (ds.filter fun c => !isDeny c).filter (fun c => !isAddress c)
      = ds.filter fun c => !isAddress c := by
    intro ds
    rw [List.filter_filter]
    congr 1
    funext c
    cases c <;> rfl
  rw [rest_processed, rest_processed, ← hsub cs, ← hsub cs', h]

/-! ## the decisions -/

/-- with a whitelist the blacklist is not read -/
theorem verdict_of_whitelist {a a' : Auth} (h : a.rest = a'.rest)
    (hw : a.whitelist = a'.whitelist) (hne : a.whitelist ≠ ∅) (r : ZapRequest) :
    a.verdict r = a'.verdict r := by
  have hmechanism : ∀ allowed, a.checkMechanism r allowed = a'.checkMechanism r allowed := by
    intro allowed
    show a.rest.checkMechanism r allowed = a'.rest.checkMechanism r allowed
    rw [h]
  have haddress : a.checkAddress r.address = a'.checkAddress r.address := by
    have hne' : a'.whitelist ≠ ∅ := by rwa [← hw]
    unfold checkAddress
    rw [if_pos hne, if_pos hne', hw]
  unfold verdict
  rw [haddress]
  simp only [hmechanism]

theorem authenticate_congr (zmqZ85Encode : Bytes → Option Bytes) {a a' : Auth}
    (h : ∀ r, a.verdict r = a'.verdict r) (msg : List Bytes) :
    authenticate zmqZ85Encode a msg = authenticate zmqZ85Encode a' msg := by
  unfold authenticate
  simp only [h]

theorem allowed_of_denied {a : Auth} {address : Bytes} (h : (a.checkAddress address).2 = true) :
    (a.checkAddress address).1 = false := by
  unfold checkAddress at h ⊢
  by_cases hw : a.whitelist ≠ ∅
  · rw [if_pos hw] at h ⊢
    by_cases hin : address ∈ a.whitelist
    · rw [if_pos hin] at h
      cases h
    · rw [if_neg hin]
  · rw [if_neg hw] at h ⊢
    by_cases hb : a.blacklist ≠ ∅
    · rw [if_pos hb] at h ⊢
      by_cases hin : address ∈ a.blacklist
      · rw [if_pos hin]
      · rw [if_neg hin] at h
        cases h
    · rw [if_neg hb]

/-- **A rejected address is answered with 400 iff the request is readable**, whatever the mechanism
and the credentials are otherwise. -/
theorem status_rejected_iff (zmqZ85Encode : Bytes → Option Bytes) {cs : List Command}
    {w : WellFormedRequest} (h : Rejected cs w.address) :
    status (authenticate zmqZ85Encode (processed cs) w.frames) = some (ascii "400") ↔
      Readable zmqZ85Encode w := by
  by_cases hreadable : Readable zmqZ85Encode w
  · refine iff_of_true ?_ hreadable
    obtain ⟨r, hr, hv, -, ha⟩ := zapRequest_readable hreadable
    have hdenied : ((processed cs).checkAddress w.address).2 = true :=
      (checkAddress_denied cs w.address).mpr h
    have hne : r.version ≠ [] := by rw [hv]; decide
    have hverdict : ((processed cs).verdict r).1 = false := by
      unfold verdict
      rw [ha]
      simp only [hdenied, ↓reduceIte]
      exact allowed_of_denied hdenied
    unfold authenticate
    rw [hr]
    show status (if r.version = [] then _ else _) = _
    rw [if_neg hne, if_neg (by rw [hverdict]; exact Bool.false_ne_true)]
    rfl
  · refine iff_of_false ?_ hreadable
    unfold authenticate
    rw [zapRequest_unreadable hreadable]
    exact nofun

/-- what the address lists decide after a history, for a request -/
structure AddressRule (zmqZ85Encode : Bytes → Option Bytes) (cs : List Command)
    (w : WellFormedRequest) : Prop where
  notAllowed : (∃ other, Command.allow other ∈ cs) → Command.allow w.address ∉ cs →
    status (authenticate zmqZ85Encode (processed cs) w.frames) = some (ascii "400")
  denyIgnored : (∃ other, Command.allow other ∈ cs) → ∀ cs', SameUpToDeny cs cs' →
    authenticate zmqZ85Encode (processed cs) w.frames
      = authenticate zmqZ85Encode (processed cs') w.frames
  denied : (¬ ∃ other, Command.allow other ∈ cs) → Command.deny w.address ∈ cs →
    status (authenticate zmqZ85Encode (processed cs) w.frames) = some (ascii "400")
  reordered : ∀ cs', SameUpToAddressOrder cs cs' →
    authenticate zmqZ85Encode (processed cs) w.frames
      = authenticate zmqZ85Encode (processed cs') w.frames

/-- **The address rule**: with ALLOW commands only the allowed addresses get past the lists and
DENY commands do nothing, without them the denied addresses are refused; order and number of the
ALLOW and DENY commands do not matter.  It holds iff a request from a rejected address is readable:
`zap_request` encodes the key before anything looks at the address. -/
theorem address_rule_iff (zmqZ85Encode : Bytes → Option Bytes) (cs : List Command)
    (w : WellFormedRequest) :
    AddressRule zmqZ85Encode cs w ↔ (Rejected cs w.address → Readable zmqZ85Encode w) := by
  constructor
  · intro hrule hrejected
    rw [← status_rejected_iff zmqZ85Encode hrejected]
    rcases hrejected with ⟨hallow, hw⟩ | ⟨hnone, hw⟩
    · exact hrule.notAllowed hallow hw
    · exact hrule.denied hnone hw
  · intro hreadable
    have h400 : Rejected cs w.address →
        status (authenticate zmqZ85Encode (processed cs) w.frames) = some (ascii "400") :=
      fun h => (status_rejected_iff zmqZ85Encode h).mpr (hreadable h)
    refine ⟨fun hallow hw => h400 (Or.inl ⟨hallow, hw⟩), ?_,
      fun hnone hw => h400 (Or.inr ⟨hnone, hw⟩), ?_⟩
    · intro hallow cs' hsame
      have hw : (processed cs).whitelist = (processed cs').whitelist := by
        ext address
        rw [mem_whitelist, mem_whitelist, hsame.allow_iff]
      exact authenticate_congr zmqZ85Encode
        (verdict_of_whitelist hsame.rest_eq hw ((whitelist_ne_empty cs).mpr hallow)) w.frames
    · intro cs' hsame
      rw [processed_eq_of_same hsame]

/-! ## an encoder -/

def z85Digits : Bytes :=
  ascii ("0123456789abcdefghijklmnopqrstuvwxyzABCDEFGHIJKLMNOPQRSTUVWXYZ" ++
    ".-:+=^!/*?&<>()[]\x7b\x7d@%$#")

def z85Word (n : ℕ) : Bytes :=
  [85 ^ 4, 85 ^ 3, 85 ^ 2, 85, 1].map fun d => z85Digits.getD (n / d % 85) 0

/-- the Z85 encoding: five digits to the base 85 for four bytes -/
def z85OfWords : Bytes → Option Bytes
  | [] => some []
  | a :: b :: c :: d :: raw =>
    (z85OfWords raw).map fun s =>
      z85Word (((a.toNat * 256 + b.toNat) * 256 + c.toNat) * 256 + d.toNat) ++ s
  | _ => none

theorem z85OfWords_encodes : EncodesWords z85OfWords := by
  intro raw
  induction raw using z85OfWords.induct with
  | case1 => exact fun _ => rfl
  | case2 a b c d raw ih =>
    intro h
    have hraw : raw.length % 4 = 0 := by
      simp only [List.length_cons] at h
      omega
    unfold z85OfWords
    rw [Option.isSome_map]
    exact ih hraw
  | case3 raw hne hnw =>
    intro h
    match raw with
    | [] => exact absurd rfl hne
    | [_] => simp at h
    | [_, _] => simp at h
    | [_, _, _] => simp at h
    | a :: b :: c :: d :: raw => exact absurd rfl (hnw a b c d raw)

example : z85OfWords [0x86, 0x4F, 0xD2, 0x6F, 0xB5, 0x59, 0xF7, 0x5B]
    = some (ascii "HelloWorld") := by decide

/-- a CURVE request with a key of one byte -/
def shortKey : WellFormedRequest where
  sequence := ascii "1"
  domain := ascii "global"
  address := ascii "10.0.0.2"
  identity := []
  mechanism := ascii "CURVE"
  credentials := [[0]]
  present := by decide

/-- **A request from a denied address is not answered** if its key cannot be encoded. -/
theorem short_key_unanswered :
    authenticate z85OfWords (processed [.deny (ascii "10.0.0.2")]) shortKey.frames
        = .error (.threw (.z85 "Failed to encode to z85")) ∧
      ¬ AddressRule z85OfWords [.deny (ascii "10.0.0.2")] shortKey := by
  have hthrows : authenticate z85OfWords (processed [.deny (ascii "10.0.0.2")]) shortKey.frames
      = .error (.threw (.z85 "Failed to encode to z85")) := by rfl
  refine ⟨hthrows, ?_⟩
  intro h
  have h400 := h.denied (by simp) (by simp [shortKey])
  rw [hthrows] at h400
  cases h400

end Auth
end Zmqpp
