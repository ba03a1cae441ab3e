import Mathlib.Tactic

/-!
# Byte strings, error numbers, exceptions and signals

`std::string` is used by the source as a string of arbitrary bytes; the model keeps it one.
-/

namespace Zmqpp

abbrev Bytes := List UInt8

/-- the bytes of a string literal of the source -/
def ascii (s : String) : Bytes := s.toList.map (fun c => c.toNat.toUInt8)

/-- a property of all bytes -/
theorem forall_byte {p : UInt8 → Prop} (h : ∀ i : Fin 256, p (UInt8.ofFin i)) (b : UInt8) : p b :=
  h b.toFin

/-- the values of `zmq_errno()` the source tells apart -/
inductive Errno where
  | eagain
  | eintr
  | other (code : ℕ)
deriving DecidableEq, Repr

/-- what the source throws -/
inductive Exn where
  | exception (what : String)
  | zmqInternal (error : Errno)
  | invalidArgument (what : String)
  | z85 (what : String)
deriving DecidableEq, Repr

/-- how a call ends that does not return: an exception leaves it, or an `assert` aborts -/
inductive Failure where
  | threw (e : Exn)
  | assertFailed
deriving DecidableEq, Repr

/-- the values of signal.hpp that actors send -/
inductive Signal where
  | ok
  | ko
  | stop
deriving DecidableEq, Repr

end Zmqpp
