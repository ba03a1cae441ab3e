import ZmqppPty.Message.Inet

/-!
# Socket options (the `set` and `get` of socket.cpp, socket_options.hpp)

Each overload of `set` and `get` is a `switch` over the options that it knows; all others throw.  A
`set` that does not throw makes one `zmq_setsockopt`.

* `SocketOption`             the options, for a libzmq of version 4.3;
* `intCase`, `takesBool` …   the cases of the overloads of `set`, `readsInt`, … those of `get`;
* `setInt` …, `getInt` …     the overloads, `setOption` any of them on a socket;
* `Libzmq`                   the socket of libzmq behind them;
* `set_takes_iff`            which numbers each overload takes, and the block it passes on;
* `fetches_of_stored`        what is read of that block;
* `options_remembered`       over any calls, an option is fetched as the last accepted one set it.
-/

namespace Zmqpp
namespace Socket

inductive SocketOption where
  | affinity
  | identity
  | subscribe
  | unsubscribe
  | rate
  | sendBufferSize
  | receiveBufferSize
  | receiveMore
  | fileDescriptor
  | events
  | type
  | linger
  | backlog
  | reconnectInterval
  | reconnectIntervalMax
  | receiveTimeout
  | sendTimeout
  | recoveryInterval
  | maxMesssageSize
  | sendHighWaterMark
  | receiveHighWaterMark
  | multicastHops
  | ipv4Only
  | immediate
  | lastEndpoint
  | routerMandatory
  | xpubVerbose
  | tcpKeepalive
  | tcpKeepaliveIdle
  | tcpKeepaliveCount
  | tcpKeepaliveInterval
  | tcpAcceptFilter
  | ipv6
  | mechanism
  | plainPassword
  | plainServer
  | plainUsername
  | zapDomain
  | conflate
  | curvePublicKey
  | curveSecretKey
  | curveServerKey
  | curveServer
  | probeRouter
  | requestCorrelate
  | requestRelaxed
  | routerRaw
  | handshakeInterval
  | typeOfService
  | connectRid
  | ipcFilterGid
  | ipcFilterPid
  | ipcFilterUid
  | routerHandover
  | connectTimeout
  | gssapiPlaintext
  | gssapiPrincipal
  | gssapiServer
  | gssapiServicePrincipal
  | heartbeatInterval
  | heartbeatTimeout
  | heartbeatTtl
  | invertMatching
  | multicastMaxTpdu
  | socksProxy
  | streamNotify
  | tpcMaxRetransmit
  | useFd
  | vmciBufferSize
  | vmciBufferMin
  | vmciBufferMax
  | vmciConnectTimeout
  | xpubManual
  | xpubNodrop
  | xpubVerboser
  | xpubWelcomeMessage
deriving DecidableEq, Repr

/-- the groups of cases of `set(socket_option, int)` -/
inductive IntCase where
  | unsigned64
  | signed64
  | boolean
  | defaultOrBoolean
  | positive
  | integer
deriving DecidableEq, Repr

namespace SocketOption

/-! ## the cases of the overloads -/

/-- `set(socket_option, int)` -/
def intCase : SocketOption → Option IntCase
  | vmciBufferSize | vmciBufferMin | vmciBufferMax | affinity => some .unsigned64
  | maxMesssageSize => some .signed64
  | ipv4Only | immediate | routerMandatory | xpubVerbose | ipv6 | plainServer | conflate
  | curveServer | probeRouter | requestCorrelate | requestRelaxed | routerRaw | routerHandover
  | gssapiPlaintext | gssapiServer | invertMatching | streamNotify | xpubManual | xpubNodrop
  | xpubVerboser => some .boolean
  | tcpKeepalive => some .defaultOrBoolean
  | backlog | reconnectIntervalMax | sendBufferSize | recoveryInterval | receiveBufferSize
  | sendHighWaterMark | receiveHighWaterMark | multicastHops | rate => some .positive
  | reconnectInterval | linger | receiveTimeout | sendTimeout | tcpKeepaliveIdle
  | tcpKeepaliveCount | tcpKeepaliveInterval | connectTimeout | heartbeatInterval
  | heartbeatTimeout | heartbeatTtl | multicastMaxTpdu | tpcMaxRetransmit | useFd
  | vmciConnectTimeout => some .integer
  | _ => none

/-- `set(socket_option, bool)` -/
def takesBool : SocketOption → Bool
  | ipv4Only | immediate | routerMandatory | xpubVerbose | ipv6 | plainServer | conflate
  | curveServer | probeRouter | requestCorrelate | requestRelaxed | routerRaw | routerHandover
  | gssapiPlaintext | gssapiServer | invertMatching | streamNotify | xpubManual | xpubNodrop
  | xpubVerboser => true
  | _ => false

/-- `set(socket_option, uint64_t)` -/
def takesUInt64 : SocketOption → Bool
  | vmciBufferSize | vmciBufferMin | vmciBufferMax | affinity => true
  | _ => false

/-- `set(socket_option, int64_t)` -/
def takesInt64 : SocketOption → Bool
  | maxMesssageSize => true
  | _ => false

/-- `set(socket_option, char const*, size_t)` -/
def takesText : SocketOption → Bool
  | identity | subscribe | unsubscribe | tcpAcceptFilter | plainPassword | plainUsername
  | zapDomain | curvePublicKey | curveSecretKey | curveServerKey | gssapiPrincipal
  | gssapiServicePrincipal | socksProxy | xpubWelcomeMessage => true
  | _ => false

/-- `get(socket_option, int&)` -/
def readsInt : SocketOption → Bool
  | type | linger | backlog | reconnectInterval | reconnectIntervalMax | receiveTimeout
  | sendTimeout | fileDescriptor | events | receiveMore | sendBufferSize | receiveBufferSize
  | rate | recoveryInterval | sendHighWaterMark | receiveHighWaterMark | multicastHops | ipv4Only
  | immediate | tcpKeepalive | tcpKeepaliveIdle | tcpKeepaliveCount | tcpKeepaliveInterval | ipv6
  | plainServer | mechanism | connectTimeout | gssapiPlaintext | gssapiServer | invertMatching
  | multicastMaxTpdu | streamNotify | tpcMaxRetransmit | useFd | vmciConnectTimeout | xpubManual
  | xpubNodrop => true
  | _ => false

/-- `get(socket_option, bool&)` -/
def readsBool : SocketOption → Bool
  | receiveMore | ipv4Only | immediate | ipv6 | plainServer | gssapiPlaintext | gssapiServer
  | invertMatching | streamNotify | xpubManual | xpubNodrop | xpubVerboser => true
  | _ => false

/-- `get(socket_option, uint64_t&)` -/
def readsUInt64 : SocketOption → Bool
  | vmciBufferSize | vmciBufferMin | vmciBufferMax | affinity => true
  | _ => false

/-- `get(socket_option, int64_t&)` -/
def readsInt64 : SocketOption → Bool
  | maxMesssageSize => true
  | _ => false

/-- `get(socket_option, std::string&)`, but for the identity -/
def readsString : SocketOption → Bool
  | lastEndpoint | plainPassword | plainUsername | zapDomain | curvePublicKey | curveSecretKey
  | curveServerKey | gssapiPrincipal | gssapiServicePrincipal | socksProxy => true
  | _ => false

theorem takesUInt64_iff (o : SocketOption) : o.takesUInt64 = true ↔ o.intCase = some .unsigned64 := by
  cases o <;> decide

theorem takesInt64_iff (o : SocketOption) : o.takesInt64 = true ↔ o.intCase = some .signed64 := by
  cases o <;> decide

theorem takesBool_iff (o : SocketOption) : o.takesBool = true ↔ o.intCase = some .boolean := by
  cases o <;> decide

end SocketOption

/-- the numbers that the cases of an integer option take -/
def IntCase.Admits : IntCase → ℤ → Prop
  | .unsigned64, n | .signed64, n | .positive, n => 0 ≤ n
  | .boolean, n => n = 0 ∨ n = 1
  | .defaultOrBoolean, n => -1 ≤ n ∧ n ≤ 1
  | .integer, _ => True

/-- the size of the option in libzmq -/
def IntCase.width : IntCase → ℕ
  | .unsigned64 | .signed64 => 8
  | .boolean | .defaultOrBoolean | .positive | .integer => 4

/-! ## the overloads of `set` -/

/-- a value, of the type that selects the overload -/
inductive SetValue where
  | int (value : Int32)
  | bool (value : Bool)
  | uint64 (value : UInt64)
  | int64 (value : Int64)
  | text (value : Bytes)
deriving DecidableEq

section Overloads

variable (host : Order)

def storeInt (value : Int32) : Bytes := host.store 4 value.toUInt32.toNat

/-- Each is the block given to `zmq_setsockopt`, or what is thrown before the call. -/
def setUInt64 (option : SocketOption) (value : UInt64) : Except Exn Bytes :=
  if option.takesUInt64 then .ok (host.store 8 value.toNat)
  else .error (.exception
    "attempting to set a non unsigned 64 bit integer option with a unsigned 64 bit integer value")

def setInt64 (option : SocketOption) (value : Int64) : Except Exn Bytes :=
  if option.takesInt64 then
    if value < 0 then
      .error (.exception
        "attempting to set a positive only 64 bit integer option with a negative 64bit integer")
    else .ok (host.store 8 value.toUInt64.toNat)
  else .error (.exception
    "attempting to set a non 64 bit integer option with a 64 bit integer value")

def setBool (option : SocketOption) (value : Bool) : Except Exn Bytes :=
  if option.takesBool then .ok (storeInt host (if value then 1 else 0))
  else .error (.exception "attempting to set a non boolean option with a boolean value")

def setInt (option : SocketOption) (value : Int32) : Except Exn Bytes :=
  match option.intCase with
  | some .unsigned64 =>
    if value < 0 then
      .error (.exception
        "attempting to set an unsigned 64 bit integer option with a negative integer")
    else setUInt64 host option value.toInt64.toUInt64
  | some .signed64 => setInt64 host option value.toInt64
  | some .boolean =>
    if value = 0 then setBool host option false
    else if value = 1 then setBool host option true
    else .error (.exception "attempting to set a boolean option with a non 0 or 1 integer")
  | some .defaultOrBoolean =>
    if value < -1 ∨ value > 1 then
      .error (.exception
        "attempting to set a default or boolean option with a non -1, 0 or 1 integer")
    else .ok (storeInt host value)
  | some .positive =>
    if value < 0 then
      .error (.exception
        "attempting to set a positive only integer option with a negative integer")
    else .ok (storeInt host value)
  | some .integer => .ok (storeInt host value)
  | none => .error (.exception
      "attempting to set a non signed integer option with a signed integer value")

def setText (option : SocketOption) (value : Bytes) : Except Exn Bytes :=
  if option.takesText then .ok value
  else .error (.exception "attempting to set a non string option with a string value")

def SetValue.block (option : SocketOption) : SetValue → Except Exn Bytes
  | .int value => setInt host option value
  | .bool value => setBool host option value
  | .uint64 value => setUInt64 host option value
  | .int64 value => setInt64 host option value
  | .text value => setText option value

end Overloads

/-! ## what an overload takes -/

namespace SetValue

/-- the number passed, with `false` and `true` for 0 and 1 -/
def number : SetValue → Option ℤ
  | .int value => some value.toInt
  | .bool value => some (if value then 1 else 0)
  | .uint64 value => some value.toNat
  | .int64 value => some value.toInt
  | .text _ => none

/-- the cases of `set(socket_option, int)` that the overload shares -/
def Knows : SetValue → IntCase → Prop
  | .int _, _ => True
  | .bool _, c => c = .boolean
  | .uint64 _, c => c = .unsigned64
  | .int64 _, c => c = .signed64
  | .text _, _ => False

end SetValue

/-- the number in two's complement -/
def storeNumber (host : Order) (width : ℕ) (n : ℤ) : Bytes :=
  host.store width (n % 256 ^ width).toNat

theorem storeInt_eq (host : Order) (value : Int32) :
    storeInt host value = storeNumber host 4 value.toInt := by
  have h : value.toUInt32.toNat = (value.toInt % 256 ^ 4).toNat := by
    have := value.toBitVec.toInt_eq_toNat_bmod
    show value.toBitVec.toNat = (value.toBitVec.toInt % 256 ^ 4).toNat
    have hlt := value.toBitVec.isLt
    rw [BitVec.toInt_eq_toNat_cond]
    split <;> omega
  unfold storeInt storeNumber
  rw [h]

theorem store_toNat (host : Order) (value : UInt64) :
    host.store 8 value.toNat = storeNumber host 8 value.toNat := by
  have h : ((value.toNat : ℤ) % 256 ^ 8).toNat = value.toNat := by
    have := value.toNat_lt
    omega
  unfold storeNumber
  rw [h]

theorem store_toUInt64 (host : Order) (value : Int64) :
    host.store 8 value.toUInt64.toNat = storeNumber host 8 value.toInt := by
  have h : value.toUInt64.toNat = (value.toInt % 256 ^ 8).toNat := by
    show value.toBitVec.toNat = (value.toBitVec.toInt % 256 ^ 8).toNat
    have hlt := value.toBitVec.isLt
    rw [BitVec.toInt_eq_toNat_cond]
    split <;> omega
  unfold storeNumber
  rw [h]

theorem toUInt64_toNat {value : Int64} (h : 0 ≤ value.toInt) :
    (value.toUInt64.toNat : ℤ) = value.toInt := by
  have hcond : value.toInt = _ := value.toBitVec.toInt_eq_toNat_cond
  have hlt := value.toBitVec.isLt
  show (value.toBitVec.toNat : ℤ) = _
  split at hcond <;> omega

theorem ite_error_right {α ε : Type} {p : Prop} [Decidable p] {x : Except ε α} {e : ε} {a : α} :
    (if p then x else .error e) = .ok a ↔ p ∧ x = .ok a := by
  by_cases h : p
  · rw [if_pos h]
    exact (and_iff_right h).symm
  · rw [if_neg h]
    simp [h]

theorem ite_error_left {α ε : Type} {p : Prop} [Decidable p] {x : Except ε α} {e : ε} {a : α} :
    (if p then .error e else x) = .ok a ↔ ¬ p ∧ x = .ok a := by
  rw [← ite_not, ite_error_right]

theorem ok_eq_ok {a b : Bytes} : (Except.ok a : Except Exn Bytes) = .ok b ↔ b = a := by
  rw [Except.ok.injEq, eq_comm]

section

variable (host : Order) {o : SocketOption} {b : Bytes}

theorem setUInt64_iff (value : UInt64) :
    setUInt64 host o value = .ok b ↔
      o.intCase = some .unsigned64 ∧ b = storeNumber host 8 value.toNat := by
  unfold setUInt64
  rw [ite_error_right, ok_eq_ok, SocketOption.takesUInt64_iff, store_toNat]

theorem setInt64_iff (value : Int64) :
    setInt64 host o value = .ok b ↔
      o.intCase = some .signed64 ∧ 0 ≤ value.toInt ∧ b = storeNumber host 8 value.toInt := by
  have hneg : ¬ value < 0 ↔ 0 ≤ value.toInt := by
    rw [Int64.lt_iff_toInt_lt, not_lt]
    rfl
  unfold setInt64
  rw [ite_error_right, ite_error_left, ok_eq_ok, SocketOption.takesInt64_iff, hneg, store_toUInt64]

theorem setBool_iff (value : Bool) :
    setBool host o value = .ok b ↔
      o.intCase = some .boolean ∧ b = storeNumber host 4 (if value then 1 else 0) := by
  have h : storeInt host (if value then 1 else 0) = storeNumber host 4 (if value then 1 else 0) := by
    cases value <;> exact storeInt_eq host _
  unfold setBool
  rw [ite_error_right, ok_eq_ok, SocketOption.takesBool_iff, h]

/-- `set(socket_option, int)`: the cases that go on to another overload ask what that one asks -/
theorem setInt_iff (value : Int32) :
    setInt host o value = .ok b ↔
      ∃ c, o.intCase = some c ∧ c.Admits value.toInt ∧ b = storeNumber host c.width value.toInt := by
  have hneg : ¬ value < 0 ↔ 0 ≤ value.toInt := by
    rw [Int32.lt_iff_toInt_lt, not_lt]
    rfl
  unfold setInt
  cases hc : o.intCase with
  | none => simp
  | some c =>
    simp only [Option.some.injEq, exists_eq_left']
    cases c with
    | unsigned64 =>
      simp only [ite_error_left, setUInt64_iff, hc, hneg, true_and]
      show 0 ≤ value.toInt ∧ _ ↔ 0 ≤ value.toInt ∧ _
      refine and_congr_right fun hv => ?_
      rw [toUInt64_toNat (by rwa [Int32.toInt_toInt64]), Int32.toInt_toInt64]
      rfl
    | signed64 =>
      simp only [setInt64_iff, hc, true_and, Int32.toInt_toInt64]
      rfl
    | boolean =>
      by_cases h0 : value = 0
      · have hn : value.toInt = 0 := congrArg Int32.toInt h0
        rw [if_pos h0, setBool_iff, hn]
        exact ⟨fun h => ⟨.inl rfl, h.2⟩, fun h => ⟨hc, h.2⟩⟩
      · by_cases h1 : value = 1
        · have hn : value.toInt = 1 := congrArg Int32.toInt h1
          rw [if_neg h0, if_pos h1, setBool_iff, hn]
          exact ⟨fun h => ⟨.inr rfl, h.2⟩, fun h => ⟨hc, h.2⟩⟩
        · rw [if_neg h0, if_neg h1]
          constructor
          · intro h
            cases h
          · rintro ⟨h | h, -⟩
            · exact absurd (Int32.toInt_inj.mp h) h0
            · exact absurd (Int32.toInt_inj.mp h) h1
    | defaultOrBoolean =>
      have hout : ¬ (value < -1 ∨ value > 1) ↔ -1 ≤ value.toInt ∧ value.toInt ≤ 1 := by
        rw [not_or, gt_iff_lt, Int32.lt_iff_toInt_lt, Int32.lt_iff_toInt_lt, not_lt, not_lt]
        rfl
      simp only [ite_error_left, hout, ok_eq_ok, storeInt_eq]
      rfl
    | positive =>
      simp only [ite_error_left, hneg, ok_eq_ok, storeInt_eq]
      rfl
    | integer =>
      simp only [ok_eq_ok, storeInt_eq]
      rw [show IntCase.integer.Admits value.toInt = True from rfl, true_and]
      rfl

theorem setText_iff (value : Bytes) : setText o value = .ok b ↔ o.takesText = true ∧ b = value := by
  unfold setText
  rw [ite_error_right, ok_eq_ok]

/-- **What the overloads of `set` take.**  A number goes through an overload exactly where the
overload knows the option and the option admits the number, and the block is the number in the
option's own size: it does not depend on the type that the number was passed in. -/
theorem set_takes_iff {v : SetValue} {n : ℤ} (hv : v.number = some n) (option : SocketOption)
    (block : Bytes) :
    v.block host option = .ok block ↔
      ∃ c, option.intCase = some c ∧ v.Knows c ∧ c.Admits n ∧ block = storeNumber host c.width n := by
  cases v with
  | int value =>
    cases hv
    refine (setInt_iff host value).trans (exists_congr fun c => and_congr_right fun _ => ?_)
    rw [show (SetValue.int value).Knows c = True from rfl, true_and]
  | bool value =>
    cases hv
    refine (setBool_iff host value).trans ⟨fun h => ⟨_, h.1, rfl, ?_, h.2⟩, ?_⟩
    · cases value with
      | false => exact .inl rfl
      | true => exact .inr rfl
    · rintro ⟨c, hc, rfl, -, hb⟩
      exact ⟨hc, hb⟩
  | uint64 value =>
    cases hv
    refine (setUInt64_iff host value).trans ⟨fun h => ⟨_, h.1, rfl, Int.natCast_nonneg _, h.2⟩, ?_⟩
    rintro ⟨c, hc, rfl, -, hb⟩
    exact ⟨hc, hb⟩
  | int64 value =>
    cases hv
    refine (setInt64_iff host value).trans ⟨fun h => ⟨_, h.1, rfl, h.2.1, h.2.2⟩, ?_⟩
    rintro ⟨c, hc, rfl, ha, hb⟩
    exact ⟨hc, ha, hb⟩
  | text value => cases hv

theorem set_takes_affinity :
    (SetValue.int 7).block .littleEndian .affinity = .ok [7, 0, 0, 0, 0, 0, 0, 0] :=
  (set_takes_iff .littleEndian (n := 7) rfl .affinity _).mpr
    ⟨.unsigned64, rfl, trivial, (by decide : (0 : ℤ) ≤ 7), by decide⟩

end

/-! ## the overloads of `get` -/

/-- the socket of libzmq behind the options; a call that fails leaves it as it was -/
structure Libzmq (σ : Type) where
  /-- `zmq_setsockopt` -/
  setsockopt : σ → SocketOption → Bytes → Except Errno σ
  /-- `zmq_getsockopt`: what it writes at the front of a buffer of this size -/
  getsockopt : σ → SocketOption → ℕ → Except Errno Bytes

def maxSocketOptionBufferSize : ℕ := 256

/-- a buffer after a write at its front -/
def overlay (bytes buffer : Bytes) : Bytes := bytes ++ buffer.drop bytes.length

/-- the text at `buffer.data()`, unless it runs on behind the buffer -/
def textIn (buffer : Bytes) : Option Bytes :=
  if 0 ∈ buffer then some (buffer.takeWhile (· ≠ 0)) else none

section Overloads

variable (host : Order) {σ : Type} (z : Libzmq σ) (s : σ) (option : SocketOption)

def loadInt (bytes : Bytes) : Int32 := (UInt32.ofNat (host.load bytes)).toInt32

def setOption (v : SetValue) : Except Exn σ :=
  match v.block host option with
  | .error e => .error e
  | .ok block =>
    match z.setsockopt s option block with
    | .error e => .error (.zmqInternal e)
    | .ok s => .ok s

def getInt (value : Int32) : Except Failure Int32 :=
  if option.readsInt then
    match z.getsockopt s option 4 with
    | .error e => .error (.threw (.zmqInternal e))
    | .ok bytes =>
      if bytes.length ≤ 4 then .ok (loadInt host (overlay bytes (storeInt host value)))
      else .error .assertFailed
  else .error (.threw (.exception "attempting to get a non integer option with an integer value"))

def getBool : Except Exn Bool :=
  if option.readsBool then
    match z.getsockopt s option 4 with
    | .error e => .error (.zmqInternal e)
    | .ok bytes => .ok (loadInt host (overlay bytes (storeInt host 0)) = 1)
  else .error (.exception "attempting to get a non boolean option with a boolean value")

def getUInt64 (value : UInt64) : Except Exn UInt64 :=
  if option.readsUInt64 then
    match z.getsockopt s option 8 with
    | .error e => .error (.zmqInternal e)
    | .ok bytes => .ok (UInt64.ofNat (host.load (overlay bytes (host.store 8 value.toNat))))
  else .error (.exception
    "attempting to get a non unsigned 64 bit integer option with an unsigned 64 bit integer value")

def getInt64 (value : Int64) : Except Exn Int64 :=
  if option.readsInt64 then
    match z.getsockopt s option 8 with
    | .error e => .error (.zmqInternal e)
    | .ok bytes =>
      .ok (UInt64.ofNat (host.load (overlay bytes (host.store 8 value.toUInt64.toNat)))).toInt64
  else .error (.exception
    "attempting to get a non 64 bit integer option with an 64 bit integer value")

/-- The `buffer` is static, it has what the last call of any socket left there.  A result of `none`
reads behind it. -/
def getString (buffer : Bytes) : Except Exn (Option Bytes) × Bytes :=
  if option = .identity then
    match z.getsockopt s option maxSocketOptionBufferSize with
    | .error e => (.error (.zmqInternal e), buffer)
    | .ok bytes => (.ok (some ((overlay bytes buffer).take bytes.length)), overlay bytes buffer)
  else if option.readsString then
    match z.getsockopt s option maxSocketOptionBufferSize with
    | .error e => (.error (.zmqInternal e), buffer)
    | .ok bytes => (.ok (textIn (overlay bytes buffer)), overlay bytes buffer)
  else (.error (.exception "attempting to get a non string option with a string value"), buffer)

/-- calls of `set` on one socket, and those of them that do not throw -/
def setAll : σ → List (SocketOption × SetValue) → σ × List (SocketOption × SetValue)
  | s, [] => (s, [])
  | s, c :: calls =>
    match setOption host z s c.1 c.2 with
    | .error _ => setAll s calls
    | .ok s => ((setAll s calls).1, c :: (setAll s calls).2)

end Overloads

/-! ## what a socket remembers -/

namespace Libzmq

variable {σ : Type} (z : Libzmq σ)

/-- `zmq_getsockopt` keeps to the buffer and gives what the last `zmq_setsockopt` of the option got,
texts other than the identity with a zero at the end. -/
structure Remembers (o : SocketOption) : Prop where
  fits : ∀ s n bytes, z.getsockopt s o n = .ok bytes → bytes.length ≤ n
  fetched : ∀ s block s' n bytes, z.setsockopt s o block = .ok s' →
    z.getsockopt s' o n = .ok bytes → bytes = if o.readsString then block ++ [0] else block

/-- setting `p` does not show in `o` -/
def LeavesAlone (p o : SocketOption) : Prop :=
  ∀ s block s', z.setsockopt s p block = .ok s' → ∀ n, z.getsockopt s' o n = z.getsockopt s o n

/-- what is fetched of `o` is what this block was set to -/
def Stored (s : σ) (o : SocketOption) (block : Bytes) : Prop :=
  ∀ n bytes, z.getsockopt s o n = .ok bytes →
    bytes.length ≤ n ∧ bytes = if o.readsString then block ++ [0] else block

end Libzmq

/-- the value of the last call for the option -/
def lastOf (o : SocketOption) : List (SocketOption × SetValue) → Option SetValue
  | [] => none
  | c :: calls => (lastOf o calls).or (if c.1 = o then some c.2 else none)

/-- the overloads of `get` give what `v` passed, or throw -/
structure Fetches (host : Order) {σ : Type} (z : Libzmq σ) (s : σ) (o : SocketOption)
    (v : SetValue) : Prop where
  int : ∀ value n, getInt host z s o value = .ok n → v.number = some n.toInt
  asserted : ∀ value, getInt host z s o value ≠ .error .assertFailed
  bool : ∀ b, getBool host z s o = .ok b → v.number = some (if b then 1 else 0)
  uint64 : ∀ value n, getUInt64 host z s o value = .ok n → v.number = some (n.toNat : ℤ)
  int64 : ∀ value n, getInt64 host z s o value = .ok n → v.number = some n.toInt
  string : ∀ buffer text, (getString z s o buffer).1 = .ok text → ∃ value, v = .text value ∧
    text = some (if o = .identity then value else value.takeWhile (· ≠ 0))

theorem setOption_ok {host : Order} {σ : Type} {z : Libzmq σ} {s s' : σ} {o : SocketOption}
    {v : SetValue} (h : setOption host z s o v = .ok s') :
    ∃ block, v.block host o = .ok block ∧ z.setsockopt s o block = .ok s' := by
  unfold setOption at h
  cases hb : v.block host o with
  | error e =>
    rw [hb] at h
    cases h
  | ok block =>
    rw [hb] at h
    dsimp only at h
    cases hs : z.setsockopt s o block with
    | error e =>
      rw [hs] at h
      cases h
    | ok s₁ =>
      rw [hs] at h
      cases h
      exact ⟨block, rfl, hs⟩

/-- the block that an accepted call leaves behind, over later calls for other options -/
theorem setAll_stored (host : Order) {σ : Type} {z : Libzmq σ} {o : SocketOption}
    (hz : z.Remembers o) {calls : List (SocketOption × SetValue)}
    (hother : ∀ c ∈ calls, c.1 ≠ o → z.LeavesAlone c.1 o) (s : σ) :
    (lastOf o (setAll host z s calls).2 = none →
      ∀ n, z.getsockopt (setAll host z s calls).1 o n = z.getsockopt s o n) ∧
    ∀ v, lastOf o (setAll host z s calls).2 = some v →
      ∃ block, v.block host o = .ok block ∧ z.Stored (setAll host z s calls).1 o block := by
  induction calls generalizing s with
  | nil => exact ⟨fun _ _ => rfl, fun _ hv => by cases hv⟩
  | cons c calls ih =>
    have ih := ih fun c hc => hother c (List.mem_cons_of_mem _ hc)
    conv => unfold setAll
    cases hset : setOption host z s c.1 c.2 with
    | error e => exact ih s
    | ok s₁ =>
      obtain ⟨hnone, hsome⟩ := ih s₁
      obtain ⟨block, hb, hs⟩ := setOption_ok hset
      by_cases hc : c.1 = o
      · rw [hc] at hb hs
        constructor
        · intro h
          dsimp only [lastOf] at h
          rw [if_pos hc] at h
          cases hl : lastOf o (setAll host z s₁ calls).2 <;> rw [hl] at h <;> cases h
        · intro v hv
          dsimp only [lastOf] at hv
          rw [if_pos hc] at hv
          cases hl : lastOf o (setAll host z s₁ calls).2 with
          | none =>
            rw [hl] at hv
            cases hv
            refine ⟨block, hb, fun n bytes h => ?_⟩
            rw [hnone hl] at h
            exact ⟨hz.fits _ _ _ h, hz.fetched _ _ _ _ _ hs h⟩
          | some w =>
            rw [hl] at hv
            cases hv
            exact hsome _ hl
      · have hrest : lastOf o (c :: (setAll host z s₁ calls).2)
            = lastOf o (setAll host z s₁ calls).2 := by
          dsimp only [lastOf]
          rw [if_neg hc, Option.or_none]
        constructor
        · intro h n
          rw [hrest] at h
          exact (hnone h n).trans (hother c List.mem_cons_self hc _ _ _ hs n)
        · intro v hv
          rw [hrest] at hv
          exact hsome v hv

/-! ## what is read of a block -/

theorem load_storeNumber (host : Order) (width : ℕ) (n : ℤ) :
    host.load (storeNumber host width n) = (n % 256 ^ width).toNat := by
  have hpos : (0 : ℤ) < 256 ^ width := by positivity
  have hlt : (n % 256 ^ width).toNat < 256 ^ width := by
    have h := Int.emod_lt_of_pos n hpos
    have h0 := Int.emod_nonneg n hpos.ne'
    zify
    rwa [Int.toNat_of_nonneg h0]
  have h := Lib.numberOf_bytesOf width (n % 256 ^ width).toNat
  rw [Nat.mod_eq_of_lt hlt] at h
  cases host with
  | bigEndian => exact h
  | littleEndian =>
    show Lib.numberOf (Lib.bytesOf _ _).reverse.reverse = _
    rw [List.reverse_reverse, h]

theorem storeNumber_length (host : Order) (width : ℕ) (n : ℤ) :
    (storeNumber host width n).length = width := Lib.store_length _ _ _

theorem overlay_of_length {bytes buffer : Bytes} (h : buffer.length ≤ bytes.length) :
    overlay bytes buffer = bytes := by
  unfold overlay
  rw [List.drop_eq_nil_of_le h, List.append_nil]

theorem loadInt_storeNumber (host : Order) {n : ℤ} (h : -2 ^ 31 ≤ n ∧ n < 2 ^ 31) :
    (loadInt host (storeNumber host 4 n)).toInt = n := by
  unfold loadInt
  rw [load_storeNumber]
  show (BitVec.ofNat 32 (n % 256 ^ 4).toNat).toInt = n
  rw [BitVec.toInt_eq_toNat_cond, BitVec.toNat_ofNat]
  split <;> omega

theorem loadUInt64_storeNumber (host : Order) {n : ℤ} (h : 0 ≤ n ∧ n < 2 ^ 64) :
    ((UInt64.ofNat (host.load (storeNumber host 8 n))).toNat : ℤ) = n := by
  rw [load_storeNumber]
  show (((n % 256 ^ 8).toNat % 2 ^ 64 : ℕ) : ℤ) = n
  omega

theorem loadInt64_storeNumber (host : Order) {n : ℤ} (h : 0 ≤ n ∧ n < 2 ^ 63) :
    (UInt64.ofNat (host.load (storeNumber host 8 n))).toInt64.toInt = n := by
  rw [load_storeNumber]
  show (BitVec.ofNat 64 (n % 256 ^ 8).toNat).toInt = n
  rw [BitVec.toInt_eq_toNat_cond, BitVec.toNat_ofNat]
  split <;> omega

namespace SocketOption

theorem width_of_readsInt {o : SocketOption} (h : o.readsInt = true) :
    o.takesText = false ∧ o.readsString = false ∧ ∀ c ∈ o.intCase, c.width = 4 := by
  revert h
  cases o <;> decide

theorem case_of_readsBool {o : SocketOption} (h : o.readsBool = true) :
    o.takesText = false ∧ o.readsString = false ∧ ∀ c ∈ o.intCase, c = .boolean := by
  revert h
  cases o <;> decide

theorem case_of_readsUInt64 {o : SocketOption} (h : o.readsUInt64 = true) :
    o.takesText = false ∧ o.readsString = false ∧ ∀ c ∈ o.intCase, c = .unsigned64 := by
  revert h
  cases o <;> decide

theorem case_of_readsInt64 {o : SocketOption} (h : o.readsInt64 = true) :
    o.takesText = false ∧ o.readsString = false ∧ ∀ c ∈ o.intCase, c = .signed64 := by
  revert h
  cases o <;> decide

theorem intCase_of_readsString {o : SocketOption} (h : o.readsString = true ∨ o = .identity) :
    o.intCase = none := by
  revert h
  cases o <;> decide

end SocketOption

section

variable {host : Order} {σ : Type} {z : Libzmq σ} {s : σ} {o : SocketOption} {v : SetValue}
  {block : Bytes}

/-- a block of an option that takes no text is a number -/
theorem number_of_block (h : v.block host o = .ok block) (ho : o.takesText = false) :
    ∃ n c, v.number = some n ∧ o.intCase = some c ∧ v.Knows c ∧ c.Admits n ∧
      block = storeNumber host c.width n := by
  cases hn : v.number with
  | none =>
    cases v with
    | text value =>
      rw [((setText_iff value).mp h).1] at ho
      cases ho
    | _ => cases hn
  | some n =>
    obtain ⟨c, hc⟩ := (set_takes_iff host hn o block).mp h
    exact ⟨n, c, rfl, hc⟩

theorem text_of_block (h : v.block host o = .ok block) (ho : o.intCase = none) :
    v = .text block := by
  cases hn : v.number with
  | none =>
    cases v with
    | text value => rw [((setText_iff value).mp h).2]
    | _ => cases hn
  | some n =>
    obtain ⟨c, hc, -⟩ := (set_takes_iff host hn o block).mp h
    rw [ho] at hc
    cases hc

/-- the numbers that the type of the value has -/
theorem number_range {n : ℤ} {c : IntCase} (hn : v.number = some n) (hk : v.Knows c)
    (ha : c.Admits n) :
    (c.width = 4 → -2 ^ 31 ≤ n ∧ n < 2 ^ 31) ∧ (c = .unsigned64 → 0 ≤ n ∧ n < 2 ^ 64) ∧
      (c = .signed64 → 0 ≤ n ∧ n < 2 ^ 63) := by
  cases v with
  | int value =>
    cases hn
    have hlt := value.toInt_lt
    have hge := value.le_toInt
    refine ⟨fun _ => ⟨hge, hlt⟩, fun h => ?_, fun h => ?_⟩ <;> subst h
    · exact ⟨ha, by omega⟩
    · exact ⟨ha, by omega⟩
  | bool value =>
    cases hn
    cases hk
    refine ⟨fun _ => ?_, (by cases ·), (by cases ·)⟩
    cases value <;> decide
  | uint64 value =>
    cases hn
    cases hk
    have hlt := value.toNat_lt
    exact ⟨(by cases ·), fun _ => ⟨ha, by omega⟩, (by cases ·)⟩
  | int64 value =>
    cases hn
    cases hk
    exact ⟨(by cases ·), (by cases ·), fun _ => ⟨ha, value.toInt_lt⟩⟩
  | text value => cases hn

/-- what is written to the object of a `get` with the size of the option -/
theorem overlay_of_stored (hv : v.block host o = .ok block) (hs : z.Stored s o block)
    (hta : o.takesText = false) (hst : o.readsString = false) {size : ℕ} {bytes : Bytes}
    (hb : z.getsockopt s o size = .ok bytes) :
    ∃ n c, v.number = some n ∧ o.intCase = some c ∧ v.Knows c ∧ c.Admits n ∧ c.width ≤ size ∧
      ∀ buffer, buffer.length ≤ c.width → overlay bytes buffer = storeNumber host c.width n := by
  obtain ⟨n, c, hn, hc, hk, ha, rfl⟩ := number_of_block hv hta
  obtain ⟨hle, hbytes⟩ := hs _ _ hb
  rw [hst, if_neg (by decide)] at hbytes
  subst hbytes
  rw [storeNumber_length] at hle
  refine ⟨n, c, hn, hc, hk, ha, hle, fun buffer hbuf => overlay_of_length ?_⟩
  rwa [storeNumber_length]

theorem getInt_ok {value n : Int32} (h : getInt host z s o value = .ok n) :
    o.readsInt = true ∧ ∃ bytes, z.getsockopt s o 4 = .ok bytes ∧
      n = loadInt host (overlay bytes (storeInt host value)) := by
  unfold getInt at h
  rw [ite_error_right] at h
  refine ⟨h.1, ?_⟩
  cases hb : z.getsockopt s o 4 <;> simp only [hb, ite_error_right] at h
  · cases h.2
  · exact ⟨_, rfl, (Except.ok.inj h.2.2).symm⟩

theorem getBool_ok {b : Bool} (h : getBool host z s o = .ok b) :
    o.readsBool = true ∧ ∃ bytes, z.getsockopt s o 4 = .ok bytes ∧
      b = decide (loadInt host (overlay bytes (storeInt host 0)) = 1) := by
  unfold getBool at h
  rw [ite_error_right] at h
  refine ⟨h.1, ?_⟩
  cases hb : z.getsockopt s o 4 <;> simp only [hb] at h
  · cases h.2
  · exact ⟨_, rfl, (Except.ok.inj h.2).symm⟩

theorem getUInt64_ok {value n : UInt64} (h : getUInt64 host z s o value = .ok n) :
    o.readsUInt64 = true ∧ ∃ bytes, z.getsockopt s o 8 = .ok bytes ∧
      n = UInt64.ofNat (host.load (overlay bytes (host.store 8 value.toNat))) := by
  unfold getUInt64 at h
  rw [ite_error_right] at h
  refine ⟨h.1, ?_⟩
  cases hb : z.getsockopt s o 8 <;> simp only [hb] at h
  · cases h.2
  · exact ⟨_, rfl, (Except.ok.inj h.2).symm⟩

theorem getInt64_ok {value n : Int64} (h : getInt64 host z s o value = .ok n) :
    o.readsInt64 = true ∧ ∃ bytes, z.getsockopt s o 8 = .ok bytes ∧
      n = (UInt64.ofNat (host.load (overlay bytes (host.store 8 value.toUInt64.toNat)))).toInt64 := by
  unfold getInt64 at h
  rw [ite_error_right] at h
  refine ⟨h.1, ?_⟩
  cases hb : z.getsockopt s o 8 <;> simp only [hb] at h
  · cases h.2
  · exact ⟨_, rfl, (Except.ok.inj h.2).symm⟩

theorem getString_ok {buffer : Bytes} {text : Option Bytes}
    (h : (getString z s o buffer).1 = .ok text) :
    (o.readsString = true ∨ o = .identity) ∧
      ∃ bytes, z.getsockopt s o maxSocketOptionBufferSize = .ok bytes ∧
        text = if o = .identity then some ((overlay bytes buffer).take bytes.length)
          else textIn (overlay bytes buffer) := by
  unfold getString at h
  by_cases hid : o = .identity
  · rw [if_pos hid] at h
    cases hb : z.getsockopt s o maxSocketOptionBufferSize <;> simp only [hb] at h
    · cases h
    · exact ⟨.inr hid, _, rfl, by rw [if_pos hid]; exact (Except.ok.inj h).symm⟩
  · rw [if_neg hid] at h
    by_cases ho : o.readsString = true
    · rw [if_pos ho] at h
      cases hb : z.getsockopt s o maxSocketOptionBufferSize <;> simp only [hb] at h
      · cases h
      · exact ⟨.inl ho, _, rfl, by rw [if_neg hid]; exact (Except.ok.inj h).symm⟩
    · rw [if_neg ho] at h
      cases h

theorem storeInt_length (value : Int32) : (storeInt host value).length = 4 :=
  Lib.store_length _ _ _

theorem takeWhile_zero (text rest : Bytes) :
    (text ++ 0 :: rest).takeWhile (· ≠ 0) = text.takeWhile (· ≠ 0) := by
  induction text with
  | nil => rfl
  | cons b text ih =>
    rw [List.cons_append, List.takeWhile_cons, List.takeWhile_cons, ih]

/-- a block with its zero is read up to the first zero, whatever was in the buffer -/
theorem textIn_overlay (block buffer : Bytes) :
    textIn (overlay (block ++ [0]) buffer) = some (block.takeWhile (· ≠ 0)) := by
  have heq : overlay (block ++ [0]) buffer = block ++ 0 :: buffer.drop (block.length + 1) := by
    unfold overlay
    rw [List.append_assoc, List.length_append]
    rfl
  unfold textIn
  rw [heq, if_pos (List.mem_append_right _ List.mem_cons_self), takeWhile_zero]

/-- **What an accepted block is read as.** -/
theorem fetches_of_stored (hv : v.block host o = .ok block) (hs : z.Stored s o block) :
    Fetches host z s o v where
  int value n h := by
    obtain ⟨ho, bytes, hb, rfl⟩ := getInt_ok h
    obtain ⟨hta, hst, hw⟩ := SocketOption.width_of_readsInt ho
    obtain ⟨k, c, hn, hc, hk, ha, -, hover⟩ := overlay_of_stored hv hs hta hst hb
    have hw := hw c hc
    rw [hw] at hover
    rw [hover _ (storeInt_length value).le, loadInt_storeNumber host ((number_range hn hk ha).1 hw),
      hn]
  asserted value h := by
    unfold getInt at h
    split at h
    · cases hb : z.getsockopt s o 4 with
      | error e =>
        rw [hb] at h
        cases h
      | ok bytes =>
        rw [hb] at h
        dsimp only at h
        rw [if_pos (hs _ _ hb).1] at h
        cases h
    · cases h
  bool b h := by
    obtain ⟨ho, bytes, hb, rfl⟩ := getBool_ok h
    obtain ⟨hta, hst, hw⟩ := SocketOption.case_of_readsBool ho
    obtain ⟨k, c, hn, hc, hk, ha, -, hover⟩ := overlay_of_stored hv hs hta hst hb
    cases hw c hc
    have hload := loadInt_storeNumber host ((number_range hn hk ha).1 rfl)
    rw [hover _ (storeInt_length 0).le, hn]
    rcases ha with rfl | rfl
    · have h0 : loadInt host (storeNumber host 4 0) = 0 := Int32.toInt_inj.mp hload
      rw [show IntCase.boolean.width = 4 from rfl, h0]
      rfl
    · have h1 : loadInt host (storeNumber host 4 1) = 1 := Int32.toInt_inj.mp hload
      rw [show IntCase.boolean.width = 4 from rfl, h1]
      rfl
  uint64 value n h := by
    obtain ⟨ho, bytes, hb, rfl⟩ := getUInt64_ok h
    obtain ⟨hta, hst, hw⟩ := SocketOption.case_of_readsUInt64 ho
    obtain ⟨k, c, hn, hc, hk, ha, -, hover⟩ := overlay_of_stored hv hs hta hst hb
    cases hw c hc
    have hlen : (host.store 8 value.toNat).length = 8 := Lib.store_length _ _ _
    rw [hover _ hlen.le, hn]
    exact congrArg some (loadUInt64_storeNumber host ((number_range hn hk ha).2.1 rfl)).symm
  int64 value n h := by
    obtain ⟨ho, bytes, hb, rfl⟩ := getInt64_ok h
    obtain ⟨hta, hst, hw⟩ := SocketOption.case_of_readsInt64 ho
    obtain ⟨k, c, hn, hc, hk, ha, -, hover⟩ := overlay_of_stored hv hs hta hst hb
    cases hw c hc
    have hlen : (host.store 8 value.toUInt64.toNat).length = 8 := Lib.store_length _ _ _
    rw [hover _ hlen.le, hn]
    exact congrArg some (loadInt64_storeNumber host ((number_range hn hk ha).2.2 rfl)).symm
  string buffer text h := by
    obtain ⟨ho, bytes, hb, rfl⟩ := getString_ok h
    cases text_of_block hv (SocketOption.intCase_of_readsString ho)
    obtain ⟨-, hbytes⟩ := hs _ _ hb
    refine ⟨block, rfl, ?_⟩
    by_cases hid : o = .identity
    · subst hid
      rw [if_neg (by decide)] at hbytes
      subst hbytes
      rw [if_pos rfl, if_pos rfl]
      exact congrArg some List.take_left
    · rw [if_neg hid, if_neg hid]
      rw [if_pos (ho.resolve_right hid)] at hbytes
      subst hbytes
      exact textIn_overlay block buffer

/-- **Options are remembered.**  After any calls of `set` through any overloads, some of which may
throw, an option that libzmq keeps is fetched as the number or the text that the last accepted call
for it passed, texts other than the identity up to their first zero; without one as before. -/
theorem options_remembered (host : Order) {σ : Type} {z : Libzmq σ} {o : SocketOption}
    (hz : z.Remembers o) (calls : List (SocketOption × SetValue))
    (hother : ∀ c ∈ calls, c.1 ≠ o → z.LeavesAlone c.1 o) (s : σ) :
    (∀ v, lastOf o (setAll host z s calls).2 = some v →
      Fetches host z (setAll host z s calls).1 o v) ∧
    (lastOf o (setAll host z s calls).2 = none →
      ∀ n, z.getsockopt (setAll host z s calls).1 o n = z.getsockopt s o n) := by
  obtain ⟨hnone, hsome⟩ := setAll_stored host hz hother s
  refine ⟨fun v hv => ?_, hnone⟩
  obtain ⟨block, hb, hs⟩ := hsome v hv
  exact fetches_of_stored hb hs

end

/-- a libzmq that has set options only -/
def tableLibzmq : Libzmq (List (SocketOption × Bytes)) where
  setsockopt s o block := .ok ((o, block) :: s)
  getsockopt s o n :=
    match s.lookup o with
    | none => .error (.other 22)
    | some block =>
      let bytes := if o.readsString then block ++ [0] else block
      if bytes.length ≤ n then .ok bytes else .error (.other 22)

theorem tableLibzmq_remembers (o : SocketOption) : tableLibzmq.Remembers o where
  fits s n bytes h := by
    unfold tableLibzmq at h
    dsimp only at h
    split at h
    · cases h
    · rw [ite_error_right] at h
      cases h.2
      exact h.1
  fetched s block s' n bytes hs h := by
    cases hs
    unfold tableLibzmq at h
    simp only [List.lookup_cons_self, ite_error_right] at h
    exact (Except.ok.inj h.2).symm

theorem tableLibzmq_leavesAlone {p o : SocketOption} (hpo : p ≠ o) :
    tableLibzmq.LeavesAlone p o := by
  intro s block s' hs n
  cases hs
  have hne : (o == p) = false := beq_eq_false_iff_ne.mpr hpo.symm
  unfold tableLibzmq
  simp only [List.lookup_cons, hne]

/-- the linger of 0 stays: the boolean overload does not know the option -/
def someCalls : List (SocketOption × SetValue) :=
  [(.linger, .int 5), (.affinity, .int 7), (.linger, .int 0), (.linger, .bool true),
    (.identity, .text [1, 0, 2])]

theorem options_remembered_linger :
    Fetches .littleEndian tableLibzmq (setAll .littleEndian tableLibzmq [] someCalls).1
      .linger (.int 0) ∧
    getInt .littleEndian tableLibzmq (setAll .littleEndian tableLibzmq [] someCalls).1
      .linger (-1) = .ok 0 :=
  ⟨(options_remembered .littleEndian (tableLibzmq_remembers _) someCalls
    (fun _ _ h => tableLibzmq_leavesAlone h) []).1 _ rfl, by decide⟩

end Socket
end Zmqpp
