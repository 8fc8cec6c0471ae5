/-
A refused operation leaves the buffer as it was.

An operation of several steps (a flush and a run of bytes, text and its zero,
the bits of a field) makes sure of all of them before the first, so none after
it is refused: for the writes that is in their equations, for a bit field it is
`takeBits_refused`. Reading or writing a message is several operations for its
caller, and the ones before the refused one are done.
-/
import PacketWire.Proofs.Buffer.Reachable

namespace PacketWire.Buffer

/-- The operation reads or writes the fields of a message, one after another. -/
def Operation.IsMessage : Operation → Prop
  | readMessage _ | writeMessage _ => True
  | _ => False

/-- A bit taken is one bit less to take. -/
theorem availableBits_of_readBit {b b' : Buffer} {bit : Bool} (h : readBit.run b = .ok bit b') :
    b'.availableBits + 1 = b.availableBits := by
  rw [readBit_run] at h
  split at h
  next bit rest hu =>
    cases h
    simp only [availableBits, remaining, hu, List.length_cons]
    omega
  next hu =>
    split at h
    · cases h
    split at h
    · cases h
    · cases h
      simp only [availableBits, remaining, hu, List.length_tail, Bits.length_ofByte, List.length_nil]
      omega

theorem availableBits_of_readBit_refused {b b' : Buffer} {cause : CodecError}
    (h : readBit.run b = .error (.refused cause) b') : b.availableBits = 0 := by
  rw [readBit_run] at h
  split at h
  · cases h
  next hu =>
    split at h
    next hw =>
      simp only [availableBits, remaining, hu, List.length_nil]
      omega
    · split at h <;> cases h

/-- Taking bits is refused only where there are fewer. -/
theorem takeBits_refused : ∀ {count : Nat} {b b' : Buffer} {cause : CodecError},
    (takeBits count).run b = .error (.refused cause) b' → b.availableBits < count
  | 0, _, _, _, h => by cases h
  | count + 1, b, b', cause, h => by
    rw [takeBits_succ_run] at h
    split at h
    next e b₁ hbit =>
      cases h
      rw [availableBits_of_readBit_refused hbit]
      exact Nat.succ_pos count
    next bit b₁ hbit =>
      split at h
      next e b₂ hrest =>
        cases h
        have hlt := takeBits_refused hrest
        have hone := availableBits_of_readBit hbit
        omega
      · cases h

/-! ## Results that a refusal does not change -/

/-- If the result is a refusal, the buffer is the one at the start. -/
def Kept {α : Type} (b : Buffer) (r : EStateM.Result Failure Buffer α) : Prop :=
  ∀ cause b', r = .error (.refused cause) b' → b' = b

theorem Kept.ok {α : Type} {b b' : Buffer} {a : α} : Kept b (.ok a b') := fun _ _ h => by
  cases h

theorem Kept.overrun {α : Type} {b b' : Buffer} :
    Kept b (.error .overrun b' : EStateM.Result Failure Buffer α) := fun _ _ h => by
  cases h

theorem Kept.refused {α : Type} {b : Buffer} {cause : CodecError} :
    Kept b (.error (.refused cause) b : EStateM.Result Failure Buffer α) := fun _ _ h => by
  cases h
  rfl

theorem Kept.ite {α : Type} {b : Buffer} {c : Prop} [Decidable c]
    {x y : EStateM.Result Failure Buffer α} (hx : Kept b x) (hy : Kept b y) :
    Kept b (if c then x else y) := by
  split
  · exact hx
  · exact hy

theorem Kept.map {α β : Type} {f : α → β} {m : BufferM α} {b : Buffer} (h : Kept b (m.run b)) :
    Kept b ((f <$> m).run b) := fun cause b' hrun => h cause b' (run_map_error.mp hrun)

/-! ## Operations -/

theorem kept_append (src : List UInt8) (b : Buffer) : Kept b ((append src).run b) := by
  rw [append_run]
  exact .ite .refused (.ite .refused .ok)

theorem kept_writeAt (pos : Nat) (src : List UInt8) (b : Buffer) : Kept b ((writeAt pos src).run b) := by
  rw [writeAt_run]
  exact .ite .refused (.ite .refused .ok)

theorem kept_decoded {raw : List UInt8} {b b' : Buffer} :
    Kept b (match Text.Utf8.decode? raw with
      | some text => .ok text b'
      | none => .error (.refused (.invalidValue "string" (Text.Utf8.lossy raw))) b) := by
  split
  · exact .ok
  · exact .refused

theorem kept_readBit (b : Buffer) : Kept b (readBit.run b) := by
  rw [readBit_run]
  split
  · exact .ok
  · refine .ite .refused ?_
    split
    · exact .overrun
    · exact .ok

theorem kept_readBits (count : Nat) (b : Buffer) : Kept b ((readBits count).run b) := by
  rw [readBits_run]
  refine .ite .refused (.ite .overrun ?_)
  split
  · exact .refused
  next havail =>
    split
    · exact .ok
    next e b₁ hbits =>
      intro cause b' h
      cases h
      exact absurd (takeBits_refused hbits) havail

/-- A refused operation leaves the buffer as it was: bytes, cursors, bits in
flight, room and ceiling. -/
theorem eq_of_refused {b : Buffer} (reachable : Reachable b) {op : Operation}
    (single : ¬ op.IsMessage) {cause : CodecError} {b' : Buffer}
    (refused : op.run.run b = .error (.refused cause) b') : b' = b := by
  have hp := reachable.wellFormed.pending_lt
  suffices Kept b (op.run.run b) from this cause b' refused
  cases op with
  | readMessage _ => exact absurd trivial single
  | writeMessage _ => exact absurd trivial single
  | append src => exact .map (kept_append src b)
  | appendBuffer source =>
    refine .map ?_
    rw [appendBuffer_run]
    exact .ite .ok (.ite .overrun (kept_append _ b))
  | write t value =>
    refine .map ?_
    rw [write_eq]
    exact kept_append _ b
  | writeString text =>
    refine .map ?_
    rw [writeString_run]
    exact .ite .ok (kept_append _ b)
  | writeTerminated text =>
    refine .map ?_
    rw [writeTerminated_run]
    exact .ite .refused (.ite .ok .ok)
  | writeGuid guid => exact .map (kept_append _ b)
  | writeBit bit =>
    refine .map ?_
    rw [writeBit_run]
    exact .ite .overrun (.ite .refused .ok)
  | writeBits value count =>
    refine .map ?_
    rw [writeBits_run _ _ hp]
    exact .ite .refused (.ite .refused .ok)
  | flushBits =>
    refine .map ?_
    rw [flushBits_run]
    exact .ite .refused .ok
  | writeAt pos src => exact .map (kept_writeAt pos src b)
  | put pos t value =>
    refine .map ?_
    rw [put_eq]
    exact kept_writeAt pos _ b
  | putBits pos value count =>
    refine .map ?_
    rw [putBits_run]
    exact .ite .refused (.ite .refused .ok)
  | read t =>
    refine .map ?_
    rw [read_run]
    exact .ite .refused (.ite .overrun (.ite .ok .refused))
  | readBytes len =>
    refine .map ?_
    rw [readBytes_run]
    exact .ite .refused (.ite .overrun .ok)
  | skip len =>
    refine .map ?_
    rw [skip_run]
    exact .ite .refused (.ite .overrun .ok)
  | readString len =>
    refine .map ?_
    rw [readString_run]
    exact .ite .refused (.ite .overrun kept_decoded)
  | readTerminated =>
    refine .map ?_
    rw [readTerminated_run]
    exact .ite .refused (.ite .overrun (.ite kept_decoded .refused))
  | readTerminatedBytes =>
    refine .map ?_
    rw [readTerminatedBytes_run]
    exact .ite .refused (.ite .overrun (.ite .ok .refused))
  | readGuid =>
    refine .map ?_
    rw [readGuid_run]
    exact .ite .refused (.ite .overrun .ok)
  | readBit => exact .map (kept_readBit b)
  | readBits count => exact .map (kept_readBits count b)
  | dropUnread => exact .map .ok
  | setReadPos pos =>
    refine .map ?_
    rw [setReadPos_run]
    exact .ite .refused .ok
  | setWritePos pos =>
    refine .map ?_
    rw [setWritePos_run]
    exact .ite .refused (.ite .refused .ok)
  | reserve total => exact .map .ok
  | clear => exact .map .ok

/-- A byte and a pending bit under a ceiling of three bytes. -/
def nearlyFull : Buffer := (Operation.writeBit true).after ((Operation.append [7]).after (.withLimit 0 3))

/-- Text that would fit without its zero and the pending bit's byte. -/
theorem eq_of_refused_nearlyFull :
    (Operation.writeTerminated "ab").run.run nearlyFull =
        .error (.refused (.capacityExceeded 5 3)) nearlyFull ∧
      ∀ cause b', (Operation.writeTerminated "ab").run.run nearlyFull = .error (.refused cause) b' →
        b' = nearlyFull := by
  have hbytes : Text.Utf8.encode "ab" = [97, 98] := by decide
  have hrun : (Operation.writeTerminated "ab").run.run nearlyFull =
      .error (.refused (.capacityExceeded 5 3)) nearlyFull := by
    rw [Operation.run, run_map_error, writeTerminated_run, hbytes]
    rfl
  have hreach : Reachable nearlyFull := .step _ (.step _ (.made (.fresh (.withLimit 0 3))))
  have hsingle : ¬ (Operation.writeTerminated "ab").IsMessage := id
  exact ⟨hrun, fun _ _ h => eq_of_refused hreach hsingle h⟩

end PacketWire.Buffer
