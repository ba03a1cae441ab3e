import ZmqppPty.Message.Basic

/-!
# The authenticator (auth.cpp, zap_request.cpp)

Commands arrive on the actor's pipe and ZAP requests on the handler socket, both as messages, that
is as the payloads of their parts.  What is written to `std::cout` is left out.
`zmq_z85_encode` belongs to libzmq: it is a parameter, the string it writes or `none` if it fails.

* `handleCommand`      the dispatch on the command's name;
* `zapRequest`         the parsing of a request;
* `authenticate`       address check, mechanism check and reply;
* `processed`          the authenticator after a list of commands;
* `handleCommand_message`   what each command does;
* `mem_whitelist` … `curveAllowAny_iff`   the fields, read off the commands processed.
-/

namespace Zmqpp

/-- `message::get(part)` on a received message -/
def getPart (msg : List Bytes) (part : ℕ) : Except Failure Bytes :=
  match msg[part]? with
  | none => .error (.threw Message.outsideRange)
  | some b => .ok b

structure Auth where
  whitelist : Finset Bytes := ∅
  blacklist : Finset Bytes := ∅
  passwords : Bytes → Option Bytes := fun _ => none
  clientKeys : Finset Bytes := ∅
  domain : Bytes := []
  curveAllowAny : Bool := false
  terminated : Bool := false
  verbose : Bool := false

/-- `std::unordered_map::insert`: an existing entry stays -/
def insertPair (m : Bytes → Option Bytes) (key value : Bytes) : Bytes → Option Bytes :=
  match m key with
  | some _ => m
  | none => Function.update m key (some value)

/-- the calls of the API that send a command, and the destructor's -/
inductive Command where
  | allow (address : Bytes)
  | deny (address : Bytes)
  | domain (domain : Bytes)
  | plain (username password : Bytes)
  | curve (clientPublicKey : Bytes)
  | gssapi
  | verbose (verbose : Bool)
  | terminate
deriving DecidableEq

/-- the message sent for a call -/
def Command.message : Command → List Bytes
  | .allow address => [ascii "ALLOW", address]
  | .deny address => [ascii "DENY", address]
  | .domain name => [ascii "DOMAIN", name]
  | .plain username password => [ascii "PLAIN", username, password]
  | .curve key => [ascii "CURVE", key]
  | .gssapi => [ascii "GSSAPI"]
  | .verbose b => [ascii "VERBOSE", if b then ascii "true" else ascii "false"]
  | .terminate => [ascii "TERMINATE"]

/-- the key of a CURVE command -/
def Command.curveKey : Command → Option Bytes
  | .curve key => some key
  | _ => none

structure ZapRequest where
  version : Bytes := []
  sequence : Bytes := []
  domain : Bytes := []
  address : Bytes := []
  identity : Bytes := []
  mechanism : Bytes := []
  username : Bytes := []
  password : Bytes := []
  clientKey : Bytes := []
  principal : Bytes := []
deriving DecidableEq, Repr

/-- `zap_request::reply`; the default, empty metadata map serializes to no bytes -/
def ZapRequest.reply (r : ZapRequest) (statusCode statusText userId : Bytes) : List Bytes :=
  [r.version, r.sequence, statusCode, statusText, userId, []]

/-- `z85::encode` -/
def z85Encode (zmqZ85Encode : Bytes → Option Bytes) (rawData : Bytes) : Except Failure Bytes :=
  match zmqZ85Encode rawData with
  | none => .error (.threw (.z85 "Failed to encode to z85"))
  | some s => .ok s

/-- `zap_request::zap_request` on the message received, empty if the receive was interrupted -/
def zapRequest (zmqZ85Encode : Bytes → Option Bytes) (msg : List Bytes) :
    Except Failure ZapRequest := do
  if msg.length = 0 then
    return {}
  let version ← getPart msg 0
  let sequence ← getPart msg 1
  let domain ← getPart msg 2
  let address ← getPart msg 3
  let identity ← getPart msg 4
  let mechanism ← getPart msg 5
  let r : ZapRequest :=
    { version := version, sequence := sequence, domain := domain, address := address,
      identity := identity, mechanism := mechanism }
  if version ≠ ascii "1.0" then
    throw .assertFailed
  if mechanism = ascii "PLAIN" then
    let username ← getPart msg 6
    let password ← getPart msg 7
    return { r with username := username, password := password }
  else if mechanism = ascii "CURVE" then
    let key ← getPart msg 6
    let clientKey ← z85Encode zmqZ85Encode key
    return { r with clientKey := clientKey }
  else if mechanism = ascii "GSSAPI" then
    let principal ← getPart msg 6
    return { r with principal := principal }
  else
    return r

namespace Auth

def curveAllowAnyName : Bytes := ascii "CURVE_ALLOW_ANY"

/-- the authenticator after the command and the signals sent back -/
def handleCommand (a : Auth) (msg : List Bytes) : Except Failure (Auth × List Signal) := do
  if msg.length = 0 then
    return (a, [])
  let command ← getPart msg 0
  if command = ascii "ALLOW" then
    let address ← getPart msg 1
    return ({ a with whitelist := insert address a.whitelist }, [.ok])
  else if command = ascii "DENY" then
    let address ← getPart msg 1
    return ({ a with blacklist := insert address a.blacklist }, [.ok])
  else if command = ascii "DOMAIN" then
    let domain ← getPart msg 1
    return ({ a with domain := domain }, [.ok])
  else if command = ascii "PLAIN" then
    let user ← getPart msg 1
    let pass ← getPart msg 2
    return ({ a with passwords := insertPair a.passwords user pass }, [.ok])
  else if command = ascii "CURVE" then
    let key ← getPart msg 1
    if key = curveAllowAnyName then
      return ({ a with curveAllowAny := true }, [.ok])
    else
      return ({ a with curveAllowAny := false, clientKeys := insert key a.clientKeys }, [.ok])
  else if command = ascii "GSSAPI" then
    return (a, [.ok])
  else if command = ascii "VERBOSE" then
    let verbose ← getPart msg 1
    return ({ a with verbose := decide (verbose = ascii "true") }, [.ok])
  else if command = ascii "TERMINATE" then
    return ({ a with terminated := true }, [.ok])
  else
    throw .assertFailed

/-- the verdict and the user id -/
def authenticatePlain (a : Auth) (r : ZapRequest) : Bool × Bytes :=
  match a.passwords r.username with
  | some password => if password = r.password then (true, r.username) else (false, [])
  | none => (false, [])

def authenticateCurve (a : Auth) (r : ZapRequest) : Bool × Bytes :=
  if a.curveAllowAny then (true, r.clientKey)
  else if r.clientKey ∈ a.clientKeys then (true, r.clientKey)
  else (false, [])

def authenticateGssapi (_ : ZapRequest) : Bool := true

/-- the first half of `authenticate`: `allowed` and `denied` after the address lists -/
def checkAddress (a : Auth) (address : Bytes) : Bool × Bool :=
  if a.whitelist ≠ ∅ then
    if address ∈ a.whitelist then (true, false) else (false, true)
  else if a.blacklist ≠ ∅ then
    if address ∈ a.blacklist then (false, true) else (true, false)
  else (false, false)

/-- its second half: `allowed` and the user id after the mechanism, for an address not denied -/
def checkMechanism (a : Auth) (r : ZapRequest) (allowed : Bool) : Bool × Bytes :=
  if r.mechanism = ascii "NULL" ∧ allowed = false then (true, [])
  else if r.mechanism = ascii "PLAIN" then a.authenticatePlain r
  else if r.mechanism = ascii "CURVE" then a.authenticateCurve r
  else if r.mechanism = ascii "GSSAPI" then (authenticateGssapi r, [])
  else (allowed, [])

/-- whether a request is allowed, and the user id -/
def verdict (a : Auth) (request : ZapRequest) : Bool × Bytes :=
  let (allowed, denied) := a.checkAddress request.address
  if denied then (allowed, []) else a.checkMechanism request allowed

/-- the reply sent for the message received from the handler socket -/
def authenticate (zmqZ85Encode : Bytes → Option Bytes) (a : Auth) (msg : List Bytes) :
    Except Failure (List Bytes) := do
  let request ← zapRequest zmqZ85Encode msg
  if request.version = [] then
    return request.reply (ascii "500") (ascii "Internal error") []
  if (a.verdict request).1 then
    return request.reply (ascii "200") (ascii "OK") (a.verdict request).2
  else
    return request.reply (ascii "400") (ascii "No access") []

/-- a command that fails leaves the authenticator as it was -/
def process (a : Auth) (c : Command) : Auth :=
  match a.handleCommand c.message with
  | .ok (a', _) => a'
  | .error _ => a

/-- the authenticator after a list of commands -/
def processed (cs : List Command) : Auth := cs.foldl process {}

theorem authenticatePlain_fst (a : Auth) (r : ZapRequest) :
    (a.authenticatePlain r).1 = true ↔ a.passwords r.username = some r.password := by
  unfold authenticatePlain
  cases a.passwords r.username with
  | none => simp
  | some password => by_cases e : password = r.password <;> simp [e]

theorem authenticateCurve_fst (a : Auth) (r : ZapRequest) :
    (a.authenticateCurve r).1 = true ↔ a.curveAllowAny = true ∨ r.clientKey ∈ a.clientKeys := by
  unfold authenticateCurve
  by_cases h : a.curveAllowAny = true
  · simp [h]
  · by_cases hk : r.clientKey ∈ a.clientKeys <;> simp [h, hk]

/-! ## what each command does -/

/-- the effect of a command -/
def effect (a : Auth) : Command → Auth
  | .allow address => { a with whitelist := insert address a.whitelist }
  | .deny address => { a with blacklist := insert address a.blacklist }
  | .domain name => { a with domain := name }
  | .plain username password => { a with passwords := insertPair a.passwords username password }
  | .curve key =>
    if key = curveAllowAnyName then { a with curveAllowAny := true }
    else { a with curveAllowAny := false, clientKeys := insert key a.clientKeys }
  | .gssapi => a
  | .verbose b => { a with verbose := b }
  | .terminate => { a with terminated := true }

/-- **Every command of the API is carried out and answered with one `ok`.** -/
theorem handleCommand_message (a : Auth) (c : Command) :
    a.handleCommand c.message = .ok (a.effect c, [.ok]) := by
  cases c with
  | allow address => rfl
  | deny address => rfl
  | domain name => rfl
  | plain username password => rfl
  | curve key =>
    show (if key = curveAllowAnyName then _ else _) = _
    by_cases h : key = curveAllowAnyName
    · rw [if_pos h]; simp only [effect, if_pos h]; rfl
    · rw [if_neg h]; simp only [effect, if_neg h]; rfl
  | gssapi => rfl
  | verbose b => cases b <;> rfl
  | terminate => rfl

theorem process_eq (a : Auth) (c : Command) : a.process c = a.effect c := by
  unfold process
  rw [handleCommand_message]

theorem processed_concat (cs : List Command) (c : Command) :
    processed (cs ++ [c]) = (processed cs).effect c := by
  unfold processed
  rw [List.foldl_append, List.foldl_cons, List.foldl_nil, process_eq]

/-! ## the fields, read off the commands -/

/-- what some commands set, and none undoes -/
theorem processed_iff {P : Auth → Prop} {S : Command → Prop} (h0 : ¬ P {})
    (h : ∀ a c, P (a.effect c) ↔ P a ∨ S c) (cs : List Command) :
    P (processed cs) ↔ ∃ c ∈ cs, S c := by
  induction cs using List.reverseRecOn with
  | nil => simp [processed, h0]
  | append_singleton cs c ih =>
    rw [processed_concat, h, ih]
    simp only [List.mem_append, List.mem_singleton, or_and_right, exists_or, exists_eq_left]

theorem mem_whitelist (cs : List Command) (address : Bytes) :
    address ∈ (processed cs).whitelist ↔ .allow address ∈ cs := by
  have h := @processed_iff (fun a => address ∈ a.whitelist) (· = .allow address) (Finset.notMem_empty address) ?_ cs
  · simpa using h
  · intro a c
    cases c with
    | curve key => unfold effect; dsimp only; split <;> simp
    | allow other => simp [effect, or_comm, eq_comm]
    | _ => simp [effect]

theorem mem_blacklist (cs : List Command) (address : Bytes) :
    address ∈ (processed cs).blacklist ↔ .deny address ∈ cs := by
  have h := @processed_iff (fun a => address ∈ a.blacklist) (· = .deny address) (Finset.notMem_empty address) ?_ cs
  · simpa using h
  · intro a c
    cases c with
    | curve key => unfold effect; dsimp only; split <;> simp
    | deny other => simp [effect, or_comm, eq_comm]
    | _ => simp [effect]

theorem mem_clientKeys (cs : List Command) (key : Bytes) :
    key ∈ (processed cs).clientKeys ↔ .curve key ∈ cs ∧ key ≠ curveAllowAnyName := by
  have h := @processed_iff (fun a => key ∈ a.clientKeys)
    (fun c => c = .curve key ∧ key ≠ curveAllowAnyName) (Finset.notMem_empty key) ?_ cs
  · simpa using h
  · intro a c
    cases c with
    | curve other =>
      unfold effect
      dsimp only
      by_cases h : other = curveAllowAnyName
      · rw [if_pos h]
        refine (or_iff_left ?_).symm
        rintro ⟨hk, hne⟩
        rw [Command.curve.injEq] at hk
        exact hne (hk.symm.trans h)
      · rw [if_neg h, Finset.mem_insert, Command.curve.injEq]
        constructor
        · rintro (rfl | hk)
          · exact Or.inr ⟨rfl, h⟩
          · exact Or.inl hk
        · rintro (hk | ⟨rfl, -⟩)
          · exact Or.inr hk
          · exact Or.inl rfl
    | _ => simp [effect]

/-- the key of the last CURVE command -/
def lastCurve (cs : List Command) : Option Bytes := (cs.filterMap Command.curveKey).getLast?

theorem curveAllowAny_iff (cs : List Command) :
    (processed cs).curveAllowAny = true ↔ lastCurve cs = some curveAllowAnyName := by
  induction cs using List.reverseRecOn with
  | nil => simp [processed, lastCurve]
  | append_singleton cs c ih =>
    unfold lastCurve at ih ⊢
    rw [processed_concat, List.filterMap_append]
    cases c with
    | curve key =>
      simp only [effect, List.filterMap_cons, Command.curveKey, List.filterMap_nil,
        List.getLast?_concat, Option.some.injEq]
      by_cases h : key = curveAllowAnyName
      · simp [h]
      · simp [h]
    | _ => simpa [effect, Command.curveKey] using ih

/-! ## the address lists -/

/-- an address that was never allowed while some were, or denied while none was allowed -/
def Rejected (cs : List Command) (address : Bytes) : Prop :=
  ((∃ other, Command.allow other ∈ cs) ∧ Command.allow address ∉ cs) ∨
    ((¬ ∃ other, Command.allow other ∈ cs) ∧ Command.deny address ∈ cs)

/-- neither ALLOW nor DENY was processed -/
def NoAddressRule (cs : List Command) : Prop :=
  ∀ address, Command.allow address ∉ cs ∧ Command.deny address ∉ cs

theorem whitelist_ne_empty (cs : List Command) :
    (processed cs).whitelist ≠ ∅ ↔ ∃ address, Command.allow address ∈ cs := by
  rw [← Finset.nonempty_iff_ne_empty]
  exact exists_congr fun address => mem_whitelist cs address

theorem blacklist_ne_empty (cs : List Command) :
    (processed cs).blacklist ≠ ∅ ↔ ∃ address, Command.deny address ∈ cs := by
  rw [← Finset.nonempty_iff_ne_empty]
  exact exists_congr fun address => mem_blacklist cs address

theorem checkAddress_denied (cs : List Command) (address : Bytes) :
    ((processed cs).checkAddress address).2 = true ↔ Rejected cs address := by
  unfold checkAddress Rejected
  rw [← whitelist_ne_empty, ← mem_whitelist, ← mem_blacklist]
  by_cases hw : (processed cs).whitelist ≠ ∅
  · rw [if_pos hw]
    by_cases hin : address ∈ (processed cs).whitelist
    · simp [hw, hin]
    · simp [hw, hin]
  · rw [if_neg hw]
    by_cases hin : address ∈ (processed cs).blacklist
    · have hb : (processed cs).blacklist ≠ ∅ := Finset.ne_empty_of_mem hin
      simp [hw, hb, hin]
    · by_cases hb : (processed cs).blacklist ≠ ∅
      · simp [hw, hb, hin]
      · simp [hw, hb, hin]

/-- for an address that is not rejected, `allowed` says whether there is a list at all -/
theorem checkAddress_allowed (cs : List Command) {address : Bytes} (h : ¬ Rejected cs address) :
    ((processed cs).checkAddress address).1 = true ↔ ¬ NoAddressRule cs := by
  rw [← checkAddress_denied] at h
  have hrule : NoAddressRule cs ↔
      ¬ (processed cs).whitelist ≠ ∅ ∧ ¬ (processed cs).blacklist ≠ ∅ := by
    rw [whitelist_ne_empty, blacklist_ne_empty, not_exists, not_exists, ← forall_and]
    rfl
  rw [hrule]
  unfold checkAddress at h ⊢
  by_cases hw : (processed cs).whitelist ≠ ∅
  · rw [if_pos hw] at h ⊢
    split at h <;> simp_all
  · rw [if_neg hw] at h ⊢
    by_cases hb : (processed cs).blacklist ≠ ∅
    · rw [if_pos hb] at h ⊢
      split at h <;> simp_all
    · simp [hb, hw]

end Auth
end Zmqpp
