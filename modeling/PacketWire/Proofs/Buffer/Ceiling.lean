/-
The ceiling of a buffer.

The stored bytes never pass it (`Reachable.wellFormed`). A write looks ahead to
where it would take the write cursor, the byte of pending bits included
(`Operation.target?`): it is refused exactly if that is past the ceiling, with
that cursor as the size, and otherwise the cursor comes to stand there.
-/
import PacketWire.Proofs.Buffer.Reachable

namespace PacketWire.Buffer

open Text

/-- Where a run stored behind the pending bits' byte ends; a run of no bytes is not stored. -/
def target? (b : Buffer) (len : Nat) : Option Nat :=
  if len = 0 then none else some (b.wpos + b.flushSize + len)

namespace Operation

/-- A write at the write cursor. -/
def IsWrite : Operation → Prop
  | append _ | appendBuffer _ | write .. | writeString _ | writeTerminated _ | writeGuid _
  | writeBit _ | writeBits .. | flushBits => True
  | _ => False

/-- Where a write takes the write cursor, if it gets to storing bytes. A bit
field of up to sixty-four bits looks ahead also if it fills no byte; a single
bit only if it does. -/
def target? : Operation → Buffer → Option Nat
  | append src, b => b.target? src.length
  | appendBuffer source, b => if source.size < source.wpos then none else b.target? source.wpos
  | write t _, b => b.target? t.size
  | writeString text, b => b.target? (Utf8.encode text).length
  | writeTerminated text, b => b.target? ((Utf8.encode text).length + 1)
  | writeGuid _, b => b.target? Guid.size
  | writeBit _, b => if b.pending.length + 1 < 8 then none else some (b.wpos + 1)
  | writeBits _ count, b =>
    if count = 0 ∨ 64 < count then none else some (b.wpos + (b.pending.length + count) / 8)
  | flushBits, b => if b.pending = [] then none else some (b.wpos + 1)
  | _, _ => none

end Operation

/-! ## Results under a ceiling -/

/-- The result of a write that would take the write cursor to `target`: refused
exactly if that is past the ceiling, and else the cursor stands there. -/
structure Bounded {α : Type} (b : Buffer) (target : Option Nat) (r : EStateM.Result Failure Buffer α) :
    Prop where
  refused_iff : ∀ size limit b', r = .error (.refused (.capacityExceeded size limit)) b' ↔
    target = some size ∧ b.limit < size ∧ limit = b.limit ∧ b' = b
  reached : ∀ stop, target = some stop → stop ≤ b.limit → ∃ a b', r = .ok a b' ∧ b'.wpos = stop

theorem Bounded.checked {α : Type} {b b' : Buffer} {stop : Nat} {a : α} (h : b'.wpos = stop) :
    Bounded b (some stop)
      (if b.limit < stop then .error (.refused (.capacityExceeded stop b.limit)) b else .ok a b') := by
  constructor
  · intro size limit b''
    split
    next hlt =>
      constructor
      · intro h
        cases h
        exact ⟨rfl, hlt, rfl, rfl⟩
      · rintro ⟨⟨⟩, -, rfl, rfl⟩
        rfl
    next hle =>
      refine iff_of_false (by simp) ?_
      rintro ⟨⟨⟩, hlt, -⟩
      exact hle hlt
  · rintro _ ⟨⟩ hle
    exact ⟨a, b', if_neg (Nat.not_lt.mpr hle), h⟩

/-- A write that gets to storing nothing is not refused for the ceiling. -/
theorem Bounded.none {α : Type} {b : Buffer} {r : EStateM.Result Failure Buffer α}
    (h : ∀ size limit b', r ≠ .error (.refused (.capacityExceeded size limit)) b') : Bounded b none r :=
  ⟨fun size limit b' => iff_of_false (h size limit b') (by simp), by simp⟩

theorem Bounded.map {α β : Type} {f : α → β} {m : BufferM α} {b : Buffer} {target : Option Nat}
    (h : Bounded b target (m.run b)) : Bounded b target ((f <$> m).run b) := by
  constructor
  · intro size limit b'
    rw [run_map_error]
    exact h.refused_iff size limit b'
  · intro stop hstop hle
    obtain ⟨a, b', hrun, hw⟩ := h.reached stop hstop hle
    exact ⟨f a, b', run_map_ok.mpr ⟨a, hrun, rfl⟩, hw⟩

/-! ## Writes -/

theorem append_bounded (src : List UInt8) (b : Buffer) :
    Bounded b (b.target? src.length) ((append src).run b) := by
  rw [append_run, target?]
  by_cases hs : src = []
  · subst hs
    exact .none (by simp)
  · have hlen : src.length ≠ 0 := mt List.length_eq_zero_iff.mp hs
    rw [if_neg hs, if_neg hlen, Nat.add_assoc]
    exact .checked (by simp [Nat.add_assoc])

theorem appendBuffer_bounded (source b : Buffer) :
    Bounded b (if source.size < source.wpos then none else b.target? source.wpos)
      ((appendBuffer source).run b) := by
  rw [appendBuffer_run]
  by_cases hzero : source.wpos = 0
  · simp only [hzero, Nat.not_lt_zero, if_false, if_true, target?]
    exact .none (by simp)
  · rw [if_neg hzero]
    split
    · exact .none (by simp)
    next hle =>
      have hlen : (source.contents.take source.wpos).length = source.wpos :=
        List.length_take_of_le (Nat.not_lt.mp hle)
      have happend := append_bounded (source.contents.take source.wpos) b
      rwa [hlen] at happend

theorem writeString_bounded (text : String) (b : Buffer) :
    Bounded b (b.target? (Utf8.encode text).length) ((writeString text).run b) := by
  rw [writeString_run]
  split
  next htext =>
    have hlen : (Utf8.encode text).length = 0 := by rw [Utf8.encode_eq_nil_iff.mpr htext, List.length_nil]
    rw [target?, if_pos hlen]
    exact .none (by simp)
  · exact append_bounded _ b

theorem writeTerminated_bounded (text : String) (b : Buffer) :
    Bounded b (b.target? ((Utf8.encode text).length + 1)) ((writeTerminated text).run b) := by
  have hsum : b.wpos + b.flushSize + ((Utf8.encode text).length + 1) =
      b.wpos + (b.flushSize + (Utf8.encode text).length + 1) := by omega
  rw [writeTerminated_run, target?, if_neg (Nat.succ_ne_zero _), hsum]
  by_cases htext : text = ""
  · have hlen : (Utf8.encode text).length = 0 := by rw [Utf8.encode_eq_nil_iff.mpr htext, List.length_nil]
    simp only [if_pos htext, hlen]
    exact .checked (by simp [Nat.add_assoc])
  · simp only [if_neg htext]
    exact .checked (by simp [Nat.add_assoc])

theorem flushBits_bounded (b : Buffer) :
    Bounded b (if b.pending = [] then none else some (b.wpos + 1)) (flushBits.run b) := by
  rw [flushBits_run]
  by_cases hp : b.pending = []
  · simp only [hp, ne_eq, not_true_eq_false, false_and, if_false, if_true]
    exact .none (by simp)
  · simp only [hp, ne_eq, not_false_eq_true, true_and, if_false]
    exact .checked (by rw [wpos_flushed, flushSize_of_ne hp])

theorem writeBit_bounded (bit : Bool) {b : Buffer} (hp : b.pending.length < 8) :
    Bounded b (if b.pending.length + 1 < 8 then none else some (b.wpos + 1)) ((writeBit bit).run b) := by
  rw [writeBit_run_of_lt hp]
  by_cases hfull : b.pending.length + 1 < 8
  · rw [if_pos hfull, if_neg (by omega)]
    exact .none (by simp)
  · simp only [hfull, Nat.not_lt.mp hfull, true_and, if_false]
    exact .checked (by rw [pushBit, if_neg hfull, wpos_placeBits])

/-- Bits move the write cursor by as many, pending bits counted. -/
theorem bitWritePos_pushBits : ∀ (bits : List Bool) {b : Buffer}, b.pending.length < 8 →
    (b.pushBits bits).bitWritePos = b.bitWritePos + bits.length ∧ (b.pushBits bits).pending.length < 8
  | [], _, hp => ⟨rfl, hp⟩
  | bit :: bits, b, hp => by
    have hbit := bitWritePos_pushBit hp bit
    obtain ⟨hrest, hlt⟩ := bitWritePos_pushBits bits (b := b.pushBit bit) (pending_pushBit_lt bit)
    rw [hbit] at hrest
    refine ⟨hrest.trans ?_, hlt⟩
    rw [List.length_cons]
    omega

theorem wpos_pushBits {b : Buffer} (hp : b.pending.length < 8) (bits : List Bool) :
    (b.pushBits bits).wpos = b.wpos + (b.pending.length + bits.length) / 8 := by
  obtain ⟨hpos, hlt⟩ := bitWritePos_pushBits bits hp
  unfold bitWritePos at hpos
  omega

theorem writeBits_bounded (value : UInt64) (count : Nat) {b : Buffer} (hp : b.pending.length < 8) :
    Bounded b (if count = 0 ∨ 64 < count then none else some (b.wpos + (b.pending.length + count) / 8))
      ((writeBits value count).run b) := by
  rw [writeBits_run _ _ hp]
  by_cases hcount : count = 0 ∨ 64 < count
  · simp only [hcount, if_true]
    exact .none (by simp)
  · simp only [hcount, if_false]
    exact .checked (by rw [wpos_pushBits hp, Bits.length_ofNat])

theorem Operation.bounded {op : Operation} (write : op.IsWrite) {b : Buffer} (hp : b.pending.length < 8) :
    Bounded b (op.target? b) (op.run.run b) := by
  cases op <;> try exact write.elim
  case append src => exact (append_bounded src b).map
  case appendBuffer source => exact (appendBuffer_bounded source b).map
  case write t value =>
    have h := append_bounded (t.encode value) b
    rw [ScalarType.length_encode, ← write_eq] at h
    exact h.map
  case writeString text => exact (writeString_bounded text b).map
  case writeTerminated text => exact (writeTerminated_bounded text b).map
  case writeGuid guid =>
    have h := append_bounded guid.encode b
    rw [Guid.length_encode] at h
    exact h.map
  case writeBit bit => exact (writeBit_bounded bit hp).map
  case writeBits value count => exact (writeBits_bounded value count hp).map
  case flushBits => exact (flushBits_bounded b).map

/-- The stored bytes keep to the ceiling. A write is refused for it exactly if
it would take the write cursor past it; the size it reports is that cursor, and
the buffer is as it was. A write that is not refused for it takes the cursor there. -/
theorem capacityExceeded_iff {b : Buffer} (reachable : Reachable b) (op : Operation) (write : op.IsWrite) :
    b.size ≤ b.limit ∧
      (∀ size limit b', op.run.run b = .error (.refused (.capacityExceeded size limit)) b' ↔
        op.target? b = some size ∧ b.limit < size ∧ limit = b.limit ∧ b' = b) ∧
      ∀ stop, op.target? b = some stop → stop ≤ b.limit →
        ∃ answer b', op.run.run b = .ok answer b' ∧ b'.wpos = stop := by
  have hb := reachable.wellFormed
  have hop := op.bounded write hb.pending_lt
  exact ⟨hb.size_le_limit, hop.refused_iff, hop.reached⟩

/-- Two stored bytes under a ceiling of three, and three bits pending. -/
def halfByteLeft : Buffer :=
  (Operation.writeBits 5 3).after ((Operation.append [7, 9]).after (.withLimit 0 3))

/-- Five bits more fill the last byte under the ceiling, thirteen more fill two;
a byte behind the pending bits passes it too. -/
theorem capacityExceeded_iff_halfByteLeft :
    Reachable halfByteLeft ∧
      (∃ answer b', (Operation.writeBits 0 5).run.run halfByteLeft = .ok answer b' ∧ b'.wpos = 3) ∧
      (Operation.writeBits 0 13).run.run halfByteLeft =
        .error (.refused (.capacityExceeded 4 3)) halfByteLeft ∧
      (Operation.append [1]).run.run halfByteLeft =
        .error (.refused (.capacityExceeded 4 3)) halfByteLeft := by
  have hreach : Reachable halfByteLeft := .step _ (.step _ (.made (.fresh (.withLimit 0 3))))
  refine ⟨hreach, ?_, ?_, ?_⟩
  · exact (capacityExceeded_iff hreach (.writeBits 0 5) trivial).2.2 3 rfl (by decide)
  · exact ((capacityExceeded_iff hreach (.writeBits 0 13) trivial).2.1 4 3 _).mpr
      ⟨rfl, by decide, rfl, rfl⟩
  · exact ((capacityExceeded_iff hreach (.append [1]) trivial).2.1 4 3 _).mpr
      ⟨rfl, by decide, rfl, rfl⟩

end PacketWire.Buffer
