import ZmqppPty.Message.Cursor

/-!
# Reads past the last part

`operator>>` moves the cursor before `get` checks the range.

* `Harmless`                a read that finds no part leaves the message alone;
* `afterReads`              the message after some reads, failed or not;
* `ReadsAppended`           a part that is appended then is what the next read returns;
* `streamIn_outside`        a read fails for want of a part iff the cursor has passed the last one;
* `failed_read_iff`         hence a failed read is never harmless, and one is enough to lose the
                            next part.
-/

namespace Zmqpp
namespace Message

variable (host : Order)

/-- `operator>>` does not change a message that has no part left for it -/
def Harmless (m : Message) (type : ValueType) : Prop :=
  (m.streamIn host type).2 = .error (.threw outsideRange) → (m.streamIn host type).1 = m

/-- the message after reads at these types -/
def afterReads (m : Message) (types : List ValueType) : Message :=
  types.foldl (fun m type => (m.streamIn host type).1) m

/-- after these reads and an `operator<<`, `operator>>` returns what has been appended -/
def ReadsAppended [VectorGrowth] (m : Message) (types : List ValueType) (v : Value) : Prop :=
  (((m.afterReads host types).streamOut host v).1.streamIn host v.type).2 = .ok v.readBack

variable {host}

theorem dataOfSize_inside {m : Message} {size part : ℕ} (h : part < m.count) :
    m.dataOfSize size part ≠ .error (.threw outsideRange) := by
  have hlen : part < m.payloads.length := by rwa [payloads_length]
  obtain ⟨hget, hsize⟩ := get_of_payloads (List.getElem?_eq_getElem hlen)
  unfold dataOfSize
  rw [hsize, hget]
  dsimp only
  split
  · nofun
  · nofun

/-- where there is a part, only its size can be wrong -/
theorem getValue_inside {m : Message} {part : ℕ} (type : ValueType) (h : part < m.count) :
    m.getValue host type part ≠ .error (.threw outsideRange) := by
  have hlen : part < m.payloads.length := by rwa [payloads_length]
  obtain ⟨hget, -⟩ := get_of_payloads (List.getElem?_eq_getElem hlen)
  -- the numbers are made of the data, which is there unless the assertion has failed
  have hdata {size : ℕ} (f : Bytes → Value) :
      (do let data ← m.dataOfSize size part; return f data : Except Failure Value)
        ≠ .error (.threw outsideRange) := by
    intro herror
    cases hd : m.dataOfSize size part with
    | ok data =>
      rw [hd] at herror
      cases herror
    | error e =>
      rw [hd] at herror
      cases herror
      exact dataOfSize_inside h hd
  cases type with
  | string =>
    unfold getValue
    rw [hget]
    nofun
  | _ => exact hdata _

theorem streamIn_outside {m : Message} (type : ValueType) :
    (m.streamIn host type).2 = .error (.threw outsideRange) ↔ m.count ≤ m.readCursor := by
  constructor
  · intro h
    by_contra hlt
    exact getValue_inside type (Nat.lt_of_not_le hlt) h
  · exact fun h => getValue_error type h

theorem streamIn_ne (m : Message) (type : ValueType) : (m.streamIn host type).1 ≠ m := by
  intro h
  have hcursor : m.readCursor + 1 = m.readCursor := congrArg readCursor h
  omega

theorem afterReads_eq (m : Message) (types : List ValueType) :
    m.afterReads host types = { m with readCursor := m.readCursor + types.length } := by
  induction types generalizing m with
  | nil => rfl
  | cons type types ih =>
    show (m.streamIn host type).1.afterReads host types = _
    rw [ih]
    show (⟨m.parts, m.readCursor + 1 + types.length⟩ : Message) = _
    rw [List.length_cons, Nat.add_assoc, Nat.add_comm 1]

/-- the reads of a fully read message all fail -/
theorem reads_fail {m : Message} (h : m.readCursor = m.count) (types : List ValueType)
    (type : ValueType) :
    ((m.afterReads host types).streamIn host type).2 = .error (.threw outsideRange) := by
  rw [streamIn_outside, afterReads_eq]
  show m.count ≤ m.readCursor + types.length
  omega

theorem harmless_iff (m : Message) (type : ValueType) :
    Harmless host m type ↔ m.readCursor < m.count := by
  unfold Harmless
  rw [streamIn_outside]
  constructor
  · intro h
    by_contra hle
    exact streamIn_ne m type (h (Nat.le_of_not_lt hle))
  · intro hlt hle
    omega

section
variable [VectorGrowth]

theorem readsAppended_iff {m : Message} (h : m.readCursor = m.count) (types : List ValueType)
    (v : Value) : ReadsAppended host m types v ↔ types = [] := by
  have hparts : ((m.afterReads host types).streamOut host v).1.payloads
      = m.payloads ++ [v.wireFormat] := by
    rw [streamOut_eq, addRaw_payloads, afterReads_eq]
    rfl
  have hcursor : ((m.afterReads host types).streamOut host v).1.readCursor
      = m.count + types.length := by
    rw [streamOut_eq, afterReads_eq, ← h]
    rfl
  constructor
  · intro hread
    by_contra hne
    -- the cursor has passed the new part already
    have hpos := List.length_pos_of_ne_nil hne
    have hout : (((m.afterReads host types).streamOut host v).1.streamIn host v.type).2
        = .error (.threw outsideRange) := by
      rw [streamIn_outside, hcursor, ← payloads_length, hparts, List.length_append,
        payloads_length, List.length_singleton]
      omega
    cases hout.symm.trans hread
  · intro hnil
    subst hnil
    have hpart : ((m.afterReads host []).streamOut host v).1.payloads[
        ((m.afterReads host []).streamOut host v).1.readCursor]? = some v.wireFormat := by
      rw [hcursor, hparts, List.length_nil, Nat.add_zero, ← payloads_length]
      exact List.getElem?_concat_length ..
    exact getValue_wireFormat host hpart

/-- **A read that finds no part has moved the cursor**, so it leaves the message alone iff a part is
left; and what is appended to a fully read message is returned by the next read iff no read has
failed in the meantime. -/
theorem failed_read_iff (host : Order) :
    (∀ (m : Message) (type : ValueType), Harmless host m type ↔ m.readCursor < m.count) ∧
    (∀ (m : Message), m.readCursor = m.count → ∀ (types : List ValueType) (v : Value),
      ReadsAppended host m types v ↔ types = []) :=
  ⟨harmless_iff, fun _ h types v => readsAppended_iff h types v⟩

end

/-- a string is appended to an empty message -/
theorem failed_read_first :
    letI : VectorGrowth := ⟨fun n => n + 1⟩
    ReadsAppended .littleEndian {} [] (.string (ascii "a")) ∧
      ¬ Harmless .littleEndian {} .string := by
  let _ : VectorGrowth := ⟨fun n => n + 1⟩
  obtain ⟨hharmless, hreads⟩ := failed_read_iff .littleEndian
  refine ⟨(hreads {} rfl [] _).mpr rfl, ?_⟩
  rw [hharmless]
  decide

/-- **A failed read hides the next part**: the cursor stands at 1 when "a" becomes part 0. -/
theorem appended_part_skipped :
    letI : VectorGrowth := ⟨fun n => n + 1⟩
    (streamIn .littleEndian {} .string).2 = .error (.threw outsideRange) ∧
      (streamIn .littleEndian {} .string).1.readCursor = 1 ∧
      ¬ Harmless .littleEndian {} .string ∧
      ¬ ReadsAppended .littleEndian {} [.string] (.string (ascii "a")) := by
  refine ⟨rfl, rfl, fun h => ?_, fun h => ?_⟩
  · cases h rfl
  · cases h

end Message
end Zmqpp
