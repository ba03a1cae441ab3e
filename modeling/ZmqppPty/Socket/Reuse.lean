import ZmqppPty.Message.Cursor
import ZmqppPty.Socket.Receive

/-!
# Receiving into a message that has been used

* `ReadsReceived`         `operator>>` reads the strings that have been received, in order;
* `streamInAll_short`     as many reads as there are parts fail behind the start;
* `reads_received_iff`    after a receive they succeed iff the message had parts, which the receive
                          discards together with the read cursor, or a cursor at the start.
-/

namespace Zmqpp

namespace Message

variable {host : Order}

/-- reads that leave the range of the parts fail -/
theorem streamInAll_short {m : Message} {types : List ValueType} (hne : types ≠ [])
    (h : m.count < m.readCursor + types.length) : ∃ f, m.streamInAll host types = .error f := by
  induction types generalizing m with
  | nil => exact absurd rfl hne
  | cons type types ih =>
    rw [List.length_cons] at h
    cases hv : m.getValue host type m.readCursor with
    | error f => exact ⟨f, streamInAll_cons_error host hv⟩
    | ok v =>
      by_cases hnil : types = []
      · -- the last of the reads would have to be one behind the last part
        rw [hnil] at h
        rw [getValue_error type (Nat.le_of_lt_succ h)] at hv
        cases hv
      · obtain ⟨f, hf⟩ := ih (m := { m with readCursor := m.readCursor + 1 }) hnil
          (show m.count < m.readCursor + 1 + types.length by omega)
        refine ⟨f, ?_⟩
        rw [streamInAll_cons host hv, hf]
        rfl

/-- the strings from the start on -/
theorem streamInAll_strings {m : Message} (h : m.readCursor = 0) :
    m.streamInAll host (List.replicate m.count .string) = .ok (m.payloads.map Value.string) := by
  have hwire : m.payloads = (m.payloads.map Value.string).map Value.wireFormat := by
    rw [List.map_map]
    exact (List.map_id _).symm
  have hdrop : (m.payloads.map Value.string).drop m.readCursor = m.payloads.map Value.string := by
    rw [h]
    rfl
  have hread := streamInAll_drop host hwire hdrop
  have htypes : (m.payloads.map Value.string).map Value.type = List.replicate m.count .string := by
    rw [List.map_map, ← payloads_length]
    exact List.map_const' ..
  have hback : (m.payloads.map Value.string).map Value.readBack = m.payloads.map Value.string := by
    rw [List.map_map]
    rfl
  rw [htypes, hback] at hread
  exact hread

end Message

namespace Socket

/-- `operator>>` reads exactly the parts that the receive has taken from the socket -/
def ReadsReceived (host : Order) (s : Inbox) (run : RecvRun) : Prop :=
  ∃ front last, s.queue = front ++ last :: run.inbox.queue ∧ (∀ f ∈ front, f.more = true) ∧
    last.more = false ∧
    run.message.streamInAll host (List.replicate run.message.count .string)
      = .ok ((front ++ [last]).map fun f => .string f.payload)

section
variable [VectorGrowth]

/-- **A received message reads from its start iff the receive had parts to discard or the cursor
stood at the start**: a cursor that has outlived its parts is not reset. -/
theorem reads_received_iff (host : Order) (dont_block : Bool) (schedule : List Attempt) (s : Inbox)
    (m : Message) (run : RecvRun) (h : receive dont_block schedule s m = some run)
    (ht : run.outcome = .ok true) :
    ReadsReceived host s run ↔ 0 < m.count ∨ m.readCursor = 0 := by
  obtain ⟨front, last, hqueue, hfront, hlast, hpay⟩ := receive_of_true h ht
  have hcursor := receive_readCursor h
  constructor
  · intro hreads
    obtain ⟨front', last', -, -, -, hread⟩ := hreads
    by_contra hno
    obtain ⟨hcount, hpos⟩ := not_or.mp hno
    rw [if_neg hcount] at hcursor
    have hparts : run.message.count = front.length + 1 := by
      rw [← Message.payloads_length, hpay, List.length_map, List.length_append]
      rfl
    have hne : List.replicate run.message.count ValueType.string ≠ [] := by
      rw [hparts]
      exact List.cons_ne_nil _ _
    have hshort : run.message.count < run.message.readCursor
        + (List.replicate run.message.count ValueType.string).length := by
      rw [List.length_replicate]
      omega
    obtain ⟨f, hf⟩ := @Message.streamInAll_short host _ _ hne hshort
    rw [hf] at hread
    cases hread
  · intro hstart
    have hzero : run.message.readCursor = 0 := by
      rw [hcursor]
      split
      · rfl
      · rename_i hcount
        exact hstart.resolve_left hcount
    refine ⟨front, last, hqueue, hfront, hlast, ?_⟩
    rw [Message.streamInAll_strings hzero, hpay, List.map_map]
    rfl

end

/-- one frame -/
def oneMessage : Inbox := { queue := [⟨⟨ascii "a", none⟩, false⟩] }

/-- a message with parts is received into -/
theorem reads_received_used :
    ∃ run, @receive byOne false [.runs] oneMessage threeParts = some run ∧
      ReadsReceived .littleEndian oneMessage run := by
  refine ⟨_, rfl, ?_⟩
  exact (@reads_received_iff byOne .littleEndian false [.runs] oneMessage threeParts _ rfl rfl).mpr
    (Or.inl (by decide))

/-- **A part is read and popped**, and the received part cannot be read: the cursor stands behind
it. -/
theorem received_part_unreadable :
    ∃ (m : Message) (run : RecvRun), (@Cursors.machine byOne .littleEndian).exec []
        [.construct, .streamOut 0 (.bool true), .streamIn 0 .bool, .popBack 0] = some ([m], []) ∧
      @receive byOne false [.runs] oneMessage m = some run ∧ run.outcome = .ok true ∧
      run.message.payloads = [ascii "a"] ∧
      run.message.streamInAll .littleEndian [.string] = .error (.threw Message.outsideRange) ∧
      ¬ ReadsReceived .littleEndian oneMessage run := by
  refine ⟨⟨⟨[], 1⟩, 1⟩, _, rfl, rfl, rfl, rfl, rfl, ?_⟩
  intro h
  obtain ⟨front, last, -, -, -, hread⟩ := h
  cases hread

end Socket
end Zmqpp
