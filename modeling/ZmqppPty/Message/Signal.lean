import ZmqppPty.Message.Stream

/-!
# Signals (signal.hpp, message::is_signal)

A signal is a 64 bit integer whose upper seven bytes are a fixed header.

* `Signal.value`                    the enumerators;
* `isSignal`, `getSignal`           as the source tests and reads a message;
* `signalOf`                        what both come to, said of the parts on the wire;
* `isSignal_eq`, `getSignal_eq`     that they do;
* `signalOf_frames`                 a message built from a signal is that signal;
* `SpellsSignal`                    the bytes of a signal, which is what `signalOf_eq_some` says.
-/

namespace Zmqpp

open Lib (bytesOf numberOf)

namespace Signal

def header : Int64 := 0x0077665544332211

def value : Signal → Int64
  | .ok => (header <<< 8) ||| 0x00
  | .ko => (header <<< 8) ||| 0x01
  | .stop => (header <<< 8) ||| 0x02

theorem value_header (sig : Signal) : sig.value >>> 8 = header := by
  cases sig <;> decide

theorem ok_ne_ko : Signal.ok.value ≠ Signal.ko.value := by decide

end Signal

namespace Message

variable (host : Order)

/-- `get(signal &, size_t)` -/
def getSignal (m : Message) (part : ℕ) : Except Failure Int64 := do
  let data ← m.dataOfSize 8 part
  return (host.htonll (host.loadUInt64 data)).toInt64

/-- `parts() == 1 && size(0) == sizeof(signal)`, then the header -/
def isSignal (m : Message) : Except Failure Bool :=
  if m.count = 1 then
    match m.size 0 with
    | .error e => .error (.threw e)
    | .ok size =>
      if size = 8 then (m.getSignal host 0).map fun s => decide (s >>> (8 : Int64) = Signal.header)
      else .ok false
  else .ok false

theorem getValue_signal (m : Message) (part : ℕ) :
    m.getValue host .signal part = (m.getSignal host part).map Value.signal := by
  show (m.dataOfSize 8 part >>= _) = _
  unfold getSignal
  cases m.dataOfSize 8 part <;> rfl

end Message

/-! ## on the wire -/

/-- the 64 bit integer of eight bytes in network order -/
def wordOf (part : Bytes) : Int64 := (UInt64.ofNat (numberOf part)).toInt64

/-- the signal that a message with these parts is -/
def signalOf : List Bytes → Option Int64
  | [part] =>
    if part.length = 8 ∧ wordOf part >>> 8 = Signal.header then some (wordOf part) else none
  | _ => none

/-- the parts of `message(signal)` -/
def signalFrames (sig : Int64) : List Bytes := [(Value.signal sig).wireFormat]

/-- the parts of the message that `socket::send(signal)` sends -/
def Signal.frames (sig : Signal) : List Bytes := signalFrames sig.value

/-- eight bytes are the wire format of the signal they stand for -/
theorem wireFormat_wordOf {part : Bytes} (h : part.length = 8) :
    (Value.signal (wordOf part)).wireFormat = part := by
  have hlt : numberOf part < 2 ^ 64 := by
    have := Lib.numberOf_lt part
    rw [h] at this
    exact this
  have hnum : (wordOf part).toUInt64.toNat = numberOf part := UInt64.toNat_ofNat_of_lt hlt
  have hbytes := Lib.bytesOf_numberOf part
  rw [h] at hbytes
  rw [Message.wireFormat_signal, hnum, hbytes]

theorem wordOf_wireFormat (sig : Int64) : wordOf (Value.signal sig).wireFormat = sig := by
  have hnum : numberOf (bytesOf 8 sig.toUInt64.toNat) = sig.toUInt64.toNat :=
    Order.numberOf_bytesOf_of_lt sig.toUInt64.toNat_lt
  rw [Message.wireFormat_signal]
  unfold wordOf
  rw [hnum, UInt64.ofNat_toNat]
  rfl

/-- **A message built from a signal is read as that signal.** -/
theorem signalOf_frames {sig : Int64} (h : sig >>> 8 = Signal.header) :
    signalOf (signalFrames sig) = some sig := by
  have hlen : (Value.signal sig).wireFormat.length = 8 := Lib.bytesOf_length 8 _
  show (if _ then some (wordOf (Value.signal sig).wireFormat) else none) = _
  rw [wordOf_wireFormat, if_pos ⟨hlen, h⟩]

theorem Signal.signalOf_frames (sig : Signal) : signalOf sig.frames = some sig.value :=
  Zmqpp.signalOf_frames sig.value_header

/-! ## the bytes of a signal -/

/-- the signal with this last byte, `(header << 8) | b` -/
def Signal.ofByte (b : UInt8) : Int64 := (header <<< 8) ||| b.toUInt64.toInt64

/-- the bytes of the header, the most significant first -/
def signalHeader : Bytes := [0x77, 0x66, 0x55, 0x44, 0x33, 0x22, 0x11]

/-- one part of eight bytes, the header and the last byte of the signal -/
def SpellsSignal (parts : List Bytes) (sig : Int64) : Prop :=
  ∃ b : UInt8, parts = [signalHeader ++ [b]] ∧ sig = Signal.ofByte b

theorem shiftRight_header {x : UInt64} :
    x.toInt64 >>> 8 = Signal.header ↔ x.toNat / 256 = 0x0077665544332211 := by
  have hbits : (x.toInt64 >>> 8).toBitVec = x.toBitVec.sshiftRight 8 := rfl
  have hheader : Signal.header.toBitVec = 0x0077665544332211#64 := rfl
  have hnat : x.toBitVec.toNat = x.toNat := rfl
  rw [← Int64.toBitVec_inj, hbits, hheader]
  by_cases hmsb : x.toBitVec.msb = true
  · -- a negative number stays one
    constructor
    · intro h
      have hm := congrArg BitVec.msb h
      rw [BitVec.msb_sshiftRight, hmsb] at hm
      exact absurd hm (by decide)
    · intro h
      rw [BitVec.msb_eq_decide, decide_eq_true_iff, hnat] at hmsb
      omega
  · rw [Bool.not_eq_true] at hmsb
    rw [BitVec.sshiftRight_eq_of_msb_false hmsb, ← BitVec.toNat_inj, BitVec.toNat_ushiftRight,
      hnat, Nat.shiftRight_eq_div_pow]
    rfl

theorem wordOf_signalHeader (b : UInt8) : wordOf (signalHeader ++ [b]) = Signal.ofByte b := by
  have h : ∀ i : Fin 256, wordOf (signalHeader ++ [UInt8.ofFin i]) = Signal.ofByte (UInt8.ofFin i) := by
    decide +kernel
  exact h b.toFin

/-- the arithmetic shift leaves the header iff the first seven bytes are the header's -/
theorem wordOf_header {part : Bytes} {b : UInt8} (h : part.length = 7) :
    wordOf (part ++ [b]) >>> 8 = Signal.header ↔ part = signalHeader := by
  have hlt := Lib.numberOf_lt part
  have hb : b.toNat < 256 := b.toNat_lt
  rw [h] at hlt
  have hsize : 256 * numberOf part + b.toNat < 2 ^ 64 := by omega
  have hnat : (UInt64.ofNat (256 * numberOf part + b.toNat)).toNat
      = 256 * numberOf part + b.toNat := UInt64.toNat_ofNat_of_lt hsize
  have hdiv : (256 * numberOf part + b.toNat) / 256 = numberOf part := by omega
  unfold wordOf
  rw [Lib.numberOf_concat, shiftRight_header, hnat, hdiv]
  constructor
  · intro hnum
    have hbytes := Lib.bytesOf_numberOf part
    rw [h, hnum] at hbytes
    rw [← hbytes]
    decide
  · intro hpart
    rw [hpart]
    decide

/-- **A message is a signal iff its only part spells one.** -/
theorem signalOf_eq_some {parts : List Bytes} {sig : Int64} :
    signalOf parts = some sig ↔ SpellsSignal parts sig := by
  constructor
  · intro h
    match parts with
    | [] | _ :: _ :: _ => cases h
    | [part] =>
      have h' : (if part.length = 8 ∧ wordOf part >>> 8 = Signal.header
        then some (wordOf part) else none) = some sig := h
      split at h'
      · rename_i hc
        obtain ⟨hlen, hhead⟩ := hc
        rcases List.eq_nil_or_concat part with rfl | ⟨front, b, rfl⟩
        · cases hlen
        · rw [List.concat_eq_append] at hlen hhead h'
          have hfront : front.length = 7 := by
            rw [List.length_append, List.length_singleton] at hlen
            omega
          rw [wordOf_header hfront] at hhead
          refine ⟨b, by rw [List.concat_eq_append, hhead], ?_⟩
          rw [← Option.some.inj h', hhead, wordOf_signalHeader]
      · cases h'
  · rintro ⟨b, rfl, rfl⟩
    show (if _ then some (wordOf (signalHeader ++ [b])) else none) = _
    rw [if_pos ⟨rfl, (wordOf_header rfl).mpr rfl⟩, wordOf_signalHeader]

namespace Message

variable (host : Order)

theorem signal_payloads [VectorGrowth] (sig : Int64) :
    (streamOut host {} (.signal sig)).1.payloads = signalFrames sig := by
  rw [streamOut_eq, addRaw_payloads]
  rfl

theorem getSignal_eq {m : Message} {part : Bytes} (h : m.payloads = [part])
    (hlen : part.length = 8) : m.getSignal host 0 = .ok (wordOf part) := by
  have hpart : m.payloads[0]? = some (Value.signal (wordOf part)).wireFormat := by
    rw [h, wireFormat_wordOf hlen]
    rfl
  have hget := getValue_wireFormat host hpart
  rw [show (Value.signal (wordOf part)).type = .signal from rfl, getValue_signal] at hget
  cases hs : m.getSignal host 0 with
  | error f =>
    rw [hs] at hget
    cases hget
  | ok sig =>
    rw [hs] at hget
    cases hget
    rfl

/-- **The test of a message only depends on its parts**, and it neither throws nor aborts. -/
theorem isSignal_eq (m : Message) : m.isSignal host = .ok (signalOf m.payloads).isSome := by
  have hcount : m.payloads.length = m.count := m.payloads_length
  unfold isSignal
  match hp : m.payloads with
  | [] =>
    rw [hp] at hcount
    rw [if_neg (by rw [← hcount]; decide)]
    rfl
  | _ :: _ :: _ =>
    rw [hp] at hcount
    rw [if_neg (by rw [← hcount, List.length_cons, List.length_cons]; omega)]
    rfl
  | [part] =>
    have hpart : m.payloads[0]? = some part := by rw [hp]; rfl
    have hone : m.count = 1 := by rw [← hcount, hp]; rfl
    rw [if_pos hone, (get_of_payloads hpart).2]
    dsimp only
    by_cases hlen : part.length = 8
    · rw [if_pos hlen, getSignal_eq host hp hlen]
      show Except.ok (decide (wordOf part >>> 8 = Signal.header))
        = .ok (if part.length = 8 ∧ wordOf part >>> 8 = Signal.header
            then some (wordOf part) else none).isSome
      by_cases hhead : wordOf part >>> 8 = Signal.header
      · rw [if_pos ⟨hlen, hhead⟩, decide_eq_true hhead]
        rfl
      · rw [if_neg fun h => hhead h.2, decide_eq_false hhead]
        rfl
    · have hnone : signalOf [part] = none := if_neg fun h => hlen h.1
      rw [if_neg hlen, hnone]
      rfl

/-- and the signal that is read is the one of the parts -/
theorem getSignal_of_signalOf {m : Message} {sig : Int64} (h : signalOf m.payloads = some sig) :
    m.getSignal host 0 = .ok sig := by
  match hp : m.payloads with
  | [] | _ :: _ :: _ =>
    rw [hp] at h
    cases h
  | [part] =>
    rw [hp] at h
    have h' : (if part.length = 8 ∧ wordOf part >>> 8 = Signal.header
      then some (wordOf part) else none) = some sig := h
    split at h'
    · rename_i hc
      rw [getSignal_eq host hp hc.1]
      exact congrArg Except.ok (Option.some.inj h')
    · cases h'

end Message
end Zmqpp
