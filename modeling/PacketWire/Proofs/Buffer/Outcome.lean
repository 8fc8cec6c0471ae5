/-
How an operation on a buffer ends: sequences of operations step by step, and
the checks that the operations begin with. What the operations themselves end
with is in `Writing` and `Reading`, an equation for each. A property that goes
over from parts to sequences (`Sequential`) goes over to what is made of them.
-/
import PacketWire.Buffer.Operation

namespace PacketWire.Buffer

/-! ## Running -/

@[simp] theorem run_refuse {α : Type} (cause : CodecError) (b : Buffer) :
    (refuse cause : BufferM α).run b = .error (.refused cause) b := rfl

@[simp] theorem run_overrun {α : Type} (b : Buffer) :
    (throw .overrun : BufferM α).run b = .error .overrun b := rfl

@[simp] theorem run_map {α β : Type} (f : α → β) (m : BufferM α) (b : Buffer) :
    (f <$> m).run b = match m.run b with
      | .ok a b' => .ok (f a) b'
      | .error e b' => .error e b' := by
  simp only [Functor.map, EStateM.map, EStateM.run]
  cases m b <;> rfl

theorem run_bind_ok {α β : Type} {m : BufferM α} {f : α → BufferM β} {b b' : Buffer} {y : β} :
    (m >>= f).run b = .ok y b' ↔ ∃ a b₁, m.run b = .ok a b₁ ∧ (f a).run b₁ = .ok y b' := by
  rw [EStateM.run_bind]
  constructor
  · intro h
    split at h
    · exact ⟨_, _, by assumption, h⟩
    · cases h
  · rintro ⟨a, b₁, hm, hf⟩
    rw [hm]
    exact hf

theorem run_bind_of_ok {α β : Type} {m : BufferM α} {f : α → BufferM β} {b b' : Buffer} {a : α}
    (h : m.run b = .ok a b') : (m >>= f).run b = (f a).run b' := by
  rw [EStateM.run_bind, h]

theorem run_bind_of_error {α β : Type} {m : BufferM α} {f : α → BufferM β} {b b' : Buffer}
    {e : Failure} (h : m.run b = .error e b') : (m >>= f).run b = .error e b' := by
  rw [EStateM.run_bind, h]

theorem run_map_ok {α β : Type} {f : α → β} {m : BufferM α} {b b' : Buffer} {y : β} :
    (f <$> m).run b = .ok y b' ↔ ∃ a, m.run b = .ok a b' ∧ f a = y := by
  rw [run_map]
  constructor
  · intro h
    split at h
    next a b₁ hm =>
      cases h
      exact ⟨a, hm, rfl⟩
    · cases h
  · rintro ⟨a, hm, rfl⟩
    rw [hm]

theorem run_map_error {α β : Type} {f : α → β} {m : BufferM α} {b b' : Buffer} {e : Failure} :
    (f <$> m).run b = .error e b' ↔ m.run b = .error e b' := by
  rw [run_map]
  cases m.run b <;> simp

/-! ## Checks -/

theorem checkBitCount_run (count : Nat) (b : Buffer) :
    (checkBitCount count).run b =
      if count = 0 ∨ 64 < count then .error (.refused (.bitCount count)) b else .ok () b := by
  unfold checkBitCount
  split <;> rfl

theorem checkLimit_run (extra : Nat) (b : Buffer) :
    (checkLimit extra).run b =
      if b.limit < b.wpos + extra then
        .error (.refused (.capacityExceeded (b.wpos + extra) b.limit)) b
      else .ok () b := by
  simp only [checkLimit, EStateM.run_bind, EStateM.run_get]
  split <;> rfl

theorem checkReadable_run (len : Nat) (b : Buffer) :
    (checkReadable len).run b =
      if b.wpos < b.rpos + len then .error (.refused (.position b.rpos b.wpos len)) b
      else .ok () b := by
  simp only [checkReadable, EStateM.run_bind, EStateM.run_get]
  split <;> rfl

/-! ## Steps that have a range -/

theorem demand_of {range : Prop} [Decidable range] (h : range) : demand range = pure () := if_pos h

theorem demand_run (range : Prop) [Decidable range] (b : Buffer) :
    (demand range).run b = if range then .ok () b else .error .overrun b := by
  unfold demand
  split <;> rfl

theorem subtract_of_le {m n : Nat} (h : n ≤ m) : subtract m n = pure (m - n) := by
  rw [subtract, demand_of h, pure_bind]

theorem subtract_run (m n : Nat) (b : Buffer) :
    (subtract m n).run b = if m < n then .error .overrun b else .ok (m - n) b := by
  by_cases h : n ≤ m
  · rw [subtract_of_le h, if_neg (Nat.not_lt.mpr h)]
    rfl
  · simp [subtract, demand_run, h, Nat.not_le.mp h]

theorem bitOfWord_of_lt {place : Nat} (h : place < 64) (word : UInt64) :
    bitOfWord word place = pure (word.toNat.testBit place) := by
  rw [bitOfWord, demand_of h, pure_bind]

theorem wordOfBit_of_lt {place : Nat} (h : place < 64) (bit : Bool) :
    wordOfBit bit place = pure (if bit then 1 <<< UInt64.ofNat place else 0) := by
  rw [wordOfBit, demand_of fun _ => h, pure_bind]

/-- No scalar is longer than the longest. -/
theorem spell_eq (t : ScalarType) (value : t.Value) : spell t value = pure (t.encode value) := by
  have hsize : t.size ≤ ScalarType.maxSize := by cases t <;> decide
  rw [spell, demand_of hsize, pure_bind]

theorem write_eq (t : ScalarType) (value : t.Value) : write t value = append (t.encode value) := by
  rw [write, spell_eq, pure_bind]

/-- What holds of appending bytes holds of writing a scalar. -/
theorem write_of_append {P : BufferM Unit → Prop} (run : ∀ src, P (append src)) (t : ScalarType)
    (value : t.Value) : P (write t value) := by
  rw [write_eq]
  exact run _

theorem put_eq (pos : Nat) (t : ScalarType) (value : t.Value) :
    put pos t value = writeAt pos (t.encode value) := by
  rw [put, spell_eq, pure_bind]

/-! ## Properties of sequences -/

/-- A sequence of operations has the property if its parts have it. -/
structure Sequential (P : ∀ {α : Type}, BufferM α → Prop) : Prop where
  pure : ∀ {α : Type} (a : α), P (Pure.pure a : BufferM α)
  bind : ∀ {α β : Type} {m : BufferM α} {f : α → BufferM β}, P m → (∀ a, P (f a)) → P (m >>= f)

namespace Sequential

variable {P : ∀ {α : Type}, BufferM α → Prop}

theorem map (h : Sequential P) {α β : Type} {f : α → β} {m : BufferM α} (hm : P m) : P (f <$> m) := by
  rw [map_eq_pure_bind]
  exact h.bind hm fun _ => h.pure _

theorem forM_writeBit (h : Sequential P) (writes : ∀ bit, P (writeBit bit)) :
    ∀ bits : List Bool, P (bits.forM writeBit)
  | [] => h.pure _
  | bit :: bits => h.bind (writes bit) fun _ => h.forM_writeBit writes bits

/-- What byte runs, scalars and a bit are read with is read of every message. -/
theorem readMessage (h : Sequential P) (bytes : ∀ len, P (readBytes len)) (scalar : ∀ t, P (read t))
    (bit : P readBit) (drop : P (modify dropUnread)) : ∀ opcode : Opcode, P (Message.read opcode) := by
  have hguid : P Guid.read := h.bind (bytes _) fun _ => h.pure _
  have hmask : P NodeMask.read := h.bind (bytes _) fun _ => h.pure _
  intro opcode
  cases opcode with
  | client op =>
    refine h.map ?_
    cases op with
    | taxiNodeStatusQuery => exact h.bind hguid fun _ => h.pure _
    | enableTaxiNode => exact h.bind hguid fun _ => h.pure _
    | taxiQueryAvailableNodes => exact h.bind hguid fun _ => h.pure _
    | activateTaxi =>
      exact h.bind hguid fun _ => h.bind (scalar .u32) fun _ => h.bind (scalar .u32) fun _ =>
        h.bind (scalar .u32) fun _ => h.pure _
    | taxiRequestEarlyLanding => exact h.pure _
  | server op =>
    refine h.map ?_
    cases op with
    | taxiNodeStatus => exact h.bind (scalar .u8) fun _ => h.bind hguid fun _ => h.pure _
    | showTaxiNodes =>
      have hmasks : ∀ window, P (do
          let canLand ← NodeMask.read
          let canUse ← NodeMask.read
          return ServerMessage.showTaxiNodes window canLand canUse) :=
        fun window => h.bind hmask fun _ => h.bind hmask fun _ => h.pure _
      have hwindow : P MapWindow.read := h.bind hguid fun _ => h.bind (scalar .i32) fun _ => h.pure _
      refine h.bind bit fun hasWindow => h.bind drop fun _ => ?_
      cases hasWindow with
      | false => exact h.bind (h.pure _) hmasks
      | true => exact h.bind (h.map hwindow) hmasks
    | newTaxiPath => exact h.bind (scalar .i32) fun _ => h.pure _
    | activateTaxiReply => exact h.bind (scalar .u8) fun _ => h.pure _

theorem writeMessage (h : Sequential P) (run : ∀ src, P (append src)) (bit : ∀ bit, P (writeBit bit))
    (flush : P flushBits) : ∀ message : ServerMessage, P message.write
  | .taxiNodeStatus _ _ => h.bind (write_of_append run _ _) fun _ => run _
  | .showTaxiNodes window canLand canUse => by
    have hmasks : P (do canLand.write; canUse.write) := h.bind (run _) fun _ => run _
    refine h.bind (bit _) fun _ => h.bind flush fun _ => ?_
    cases window with
    | none => exact hmasks
    | some window => exact h.bind (run _) fun _ => h.bind (write_of_append run _ _) fun _ => hmasks
  | .newTaxiPath _ => write_of_append run _ _
  | .activateTaxiReply _ => write_of_append run _ _

end Sequential

end PacketWire.Buffer
