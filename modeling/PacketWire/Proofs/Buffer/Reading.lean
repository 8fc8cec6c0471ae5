/-
How each read ends, as an equation: the causes it is refused for in the order
they are looked at, and the buffer and the value that it gives otherwise. A
slice that would end past the stored bytes aborts, which no read does while the
write cursor stands inside them.
-/
import Mathlib.Data.List.TakeWhile
import PacketWire.Proofs.Bits
import PacketWire.Proofs.Buffer.Outcome

namespace PacketWire.Buffer

open Text

/-- The stored bytes from `start` on, `len` of them. -/
def bytesAt (b : Buffer) (start len : Nat) : List UInt8 := (b.contents.drop start).take len

/-- The buffer after a byte-aligned read of `len` bytes. -/
def passed (b : Buffer) (len : Nat) : Buffer := { b with rpos := b.rpos + len, unread := [] }

/-- The stored bytes between the cursors. -/
def between (b : Buffer) : List UInt8 := b.bytesAt b.rpos b.remaining

theorem length_bytesAt {b : Buffer} {start len : Nat} (h : start + len ≤ b.size) :
    (b.bytesAt start len).length = len := by
  simp only [bytesAt, List.length_take, List.length_drop]
  unfold size at h
  omega

/-! ## Bytes -/

theorem advance_run (len : Nat) (b : Buffer) : (advance len).run b = .ok () (b.passed len) := rfl

theorem slice_run {start stop : Nat} (h : start ≤ stop) (b : Buffer) :
    (slice start stop).run b =
      if b.size < stop then .error .overrun b else .ok (b.bytesAt start (stop - start)) b := by
  simp only [slice, EStateM.run_bind, EStateM.run_get, demand_run, h, true_and]
  by_cases hs : b.size < stop
  · rw [if_pos hs, if_neg (Nat.not_le.mpr hs)]
  · rw [if_neg hs, if_pos (Nat.not_lt.mp hs)]
    rfl

theorem peek_run (len : Nat) (b : Buffer) :
    (peek len).run b =
      if b.wpos < b.rpos + len then .error (.refused (.position b.rpos b.wpos len)) b
      else if b.size < b.rpos + len then .error .overrun b
      else .ok (b.bytesAt b.rpos len) b := by
  simp only [peek, EStateM.run_bind, EStateM.run_get, checkReadable_run]
  by_cases h : b.wpos < b.rpos + len <;> simp [h, slice_run (Nat.le_add_right _ _)]

theorem readBytes_run (len : Nat) (b : Buffer) :
    (readBytes len).run b =
      if b.wpos < b.rpos + len then .error (.refused (.position b.rpos b.wpos len)) b
      else if b.size < b.rpos + len then .error .overrun (b.passed len)
      else .ok (b.bytesAt b.rpos len) (b.passed len) := by
  simp only [readBytes, EStateM.run_bind, EStateM.run_get, checkReadable_run]
  by_cases h : b.wpos < b.rpos + len
  · simp [h]
  · simp only [h, if_false, advance_run, slice_run (Nat.le_add_right _ _), Nat.add_sub_cancel_left]
    rfl

theorem skip_run (len : Nat) (b : Buffer) :
    (skip len).run b =
      if b.wpos < b.rpos + len then .error (.refused (.position b.rpos b.wpos len)) b
      else if b.size < b.rpos + len then .error .overrun (b.passed len)
      else .ok () (b.passed len) := by
  simp only [skip, EStateM.run_bind, readBytes_run]
  by_cases h : b.wpos < b.rpos + len
  · simp [h]
  · by_cases hs : b.size < b.rpos + len <;> simp [h, hs]

/-- A read that looks at `len` bytes, and succeeds, finds them before the write
cursor and among those stored. -/
theorem fits_of_ok {α : Type} {b b' b₁ b₂ : Buffer} {len : Nat} {e₁ e₂ : Failure} {a : α}
    {r : EStateM.Result Failure Buffer α}
    (h : (if b.wpos < b.rpos + len then .error e₁ b₁
      else if b.size < b.rpos + len then .error e₂ b₂ else r) = .ok a b') :
    b.rpos + len ≤ b.wpos ∧ (b.bytesAt b.rpos len).length = len ∧ r = .ok a b' := by
  split at h
  · cases h
  next hle =>
  split at h
  · cases h
  next hsize => exact ⟨Nat.not_lt.mp hle, length_bytesAt (Nat.not_lt.mp hsize), h⟩

theorem read_run (t : ScalarType) (b : Buffer) :
    (read t).run b =
      if b.wpos < b.rpos + t.size then .error (.refused (.position b.rpos b.wpos t.size)) b
      else if b.size < b.rpos + t.size then .error .overrun b
      else if t.isValid (t.decode (b.bytesAt b.rpos t.size)) then
        .ok (t.decode (b.bytesAt b.rpos t.size)) (b.passed t.size)
      else .error (.refused (.invalidValue t.name
        (t.invalidText (t.decode (b.bytesAt b.rpos t.size))))) b := by
  simp only [read, EStateM.run_bind, peek_run]
  by_cases h : b.wpos < b.rpos + t.size
  · simp [h]
  · by_cases hs : b.size < b.rpos + t.size
    · simp [h, hs]
    · by_cases hv : t.isValid (t.decode (b.bytesAt b.rpos t.size)) <;> simp [h, hs, hv, advance_run]

theorem readGuid_run (b : Buffer) :
    Guid.read.run b =
      if b.wpos < b.rpos + Guid.size then
        .error (.refused (.position b.rpos b.wpos Guid.size)) b
      else if b.size < b.rpos + Guid.size then .error .overrun (b.passed Guid.size)
      else .ok (Guid.decode (b.bytesAt b.rpos Guid.size)) (b.passed Guid.size) := by
  simp only [Guid.read, EStateM.run_bind, readBytes_run]
  by_cases h : b.wpos < b.rpos + Guid.size
  · simp [h]
  · by_cases hs : b.size < b.rpos + Guid.size <;> simp [h, hs]

/-! ## Text -/

theorem decodeText_run (raw : List UInt8) (b : Buffer) :
    (decodeText raw).run b = match Utf8.decode? raw with
      | some text => .ok text b
      | none => .error (.refused (.invalidValue "string" (Utf8.lossy raw))) b := by
  unfold decodeText
  split <;> simp [*]

theorem readString_run (len : Nat) (b : Buffer) :
    (readString len).run b =
      if b.wpos < b.rpos + len then .error (.refused (.position b.rpos b.wpos len)) b
      else if b.size < b.rpos + len then .error .overrun b
      else match Utf8.decode? (b.bytesAt b.rpos len) with
        | some text => .ok text (b.passed len)
        | none =>
          .error (.refused (.invalidValue "string" (Utf8.lossy (b.bytesAt b.rpos len)))) b := by
  simp only [readString, EStateM.run_bind, peek_run]
  by_cases h : b.wpos < b.rpos + len
  · simp [h]
  · by_cases hs : b.size < b.rpos + len
    · simp [h, hs]
    · simp only [h, hs, if_false, decodeText_run]
      cases Utf8.decode? (b.bytesAt b.rpos len) <;> simp [advance_run]

/-- Only a run without a zero is all in front of its first zero. -/
theorem length_takeWhile_ne_zero {run : List UInt8} :
    (run.takeWhile (· != 0)).length = run.length ↔ 0 ∉ run := by
  have hself : (run.takeWhile (· != 0)).length = run.length ↔ run.takeWhile (· != 0) = run :=
    ⟨(List.takeWhile_prefix _).eq_of_length, congrArg _⟩
  rw [hself, List.takeWhile_eq_self_iff]
  simp only [bne_iff_ne, ne_eq]
  exact ⟨fun h hz => h 0 hz rfl, fun h x hx hx0 => h (hx0 ▸ hx)⟩

/-- A run up to its first zero, and the zero. -/
theorem take_terminated : ∀ {run : List UInt8}, 0 ∈ run →
    run.take ((run.takeWhile (· != 0)).length + 1) = run.takeWhile (· != 0) ++ [0]
  | x :: run, h => by
    by_cases hx : x = 0
    · subst hx
      rfl
    · have hrest : 0 ∈ run := (List.mem_cons.mp h).resolve_left (Ne.symm hx)
      have hkeep : (x :: run).takeWhile (· != 0) = x :: run.takeWhile (· != 0) := by simp [hx]
      rw [hkeep, List.length_cons, List.take_succ_cons, take_terminated hrest, List.cons_append]

theorem findTerminator_run (b : Buffer) :
    findTerminator.run b =
      if b.wpos ≤ b.rpos then .error (.refused (.position b.rpos b.wpos 1)) b
      else if b.size < b.wpos then .error .overrun b
      else if 0 ∈ b.between then .ok (b.rpos + (b.between.takeWhile (· != 0)).length) b
      else .error (.refused (.position b.wpos b.wpos 1)) b := by
  simp only [findTerminator, EStateM.run_bind, EStateM.run_get]
  by_cases h : b.wpos ≤ b.rpos
  · simp [h]
  · have hb : b.bytesAt b.rpos (b.wpos - b.rpos) = b.between := rfl
    simp only [h, if_false, EStateM.run_bind, slice_run (Nat.le_of_not_le h)]
    by_cases hs : b.size < b.wpos
    · simp only [hs, if_true]
    · simp only [hs, if_false, hb, length_takeWhile_ne_zero]
      by_cases hz : 0 ∈ b.between <;> simp [hz]

/-- The run up to the first zero is the first of what lies between the cursors. -/
theorem bytesAt_terminator (b : Buffer) :
    b.bytesAt b.rpos (b.between.takeWhile (· != 0)).length = b.between.takeWhile (· != 0) := by
  have hprefix : b.between.takeWhile (· != 0) <+: b.contents.drop b.rpos :=
    (List.takeWhile_prefix _).trans (List.take_prefix _ _)
  exact (List.prefix_iff_eq_take.mp hprefix).symm

/-- The bytes up to a zero and the zero lie between the cursors. -/
theorem terminated_le {b : Buffer} (hz : 0 ∈ b.between) :
    ¬ b.wpos < b.rpos + ((b.between.takeWhile (· != 0)).length + 1) := by
  have hne := mt length_takeWhile_ne_zero.mp (not_not.mpr hz)
  have hle := (List.takeWhile_sublist (l := b.between) (· != 0)).length_le
  have hlen : b.between.length ≤ b.wpos - b.rpos := List.length_take_le ..
  omega

theorem peekTerminated_run (b : Buffer) :
    peekTerminated.run b =
      if b.wpos ≤ b.rpos then .error (.refused (.position b.rpos b.wpos 1)) b
      else if b.size < b.wpos then .error .overrun b
      else if 0 ∈ b.between then .ok (b.between.takeWhile (· != 0)) b
      else .error (.refused (.position b.wpos b.wpos 1)) b := by
  simp only [peekTerminated, EStateM.run_bind, EStateM.run_get, findTerminator_run]
  by_cases h : b.wpos ≤ b.rpos
  · simp [h]
  · by_cases hs : b.size < b.wpos
    · simp [h, hs]
    · by_cases hz : 0 ∈ b.between
      · have hle := terminated_le hz
        have hstored : ¬ b.size < b.rpos + (b.between.takeWhile (· != 0)).length := by omega
        simp only [h, hs, hz, if_false, if_true, slice_run (Nat.le_add_right _ _), hstored,
          Nat.add_sub_cancel_left, bytesAt_terminator]
      · simp [h, hs, hz]

theorem readTerminatedBytes_run (b : Buffer) :
    readTerminatedBytes.run b =
      if b.wpos ≤ b.rpos then .error (.refused (.position b.rpos b.wpos 1)) b
      else if b.size < b.wpos then .error .overrun b
      else if 0 ∈ b.between then
        .ok (b.between.takeWhile (· != 0)) (b.passed ((b.between.takeWhile (· != 0)).length + 1))
      else .error (.refused (.position b.wpos b.wpos 1)) b := by
  simp only [readTerminatedBytes, EStateM.run_bind, peekTerminated_run]
  by_cases h : b.wpos ≤ b.rpos
  · simp [h]
  · by_cases hs : b.size < b.wpos
    · simp [h, hs]
    · by_cases hz : 0 ∈ b.between <;> simp [h, hs, hz, advance_run]

theorem readTerminated_run (b : Buffer) :
    readTerminated.run b =
      if b.wpos ≤ b.rpos then .error (.refused (.position b.rpos b.wpos 1)) b
      else if b.size < b.wpos then .error .overrun b
      else if 0 ∈ b.between then
        match Utf8.decode? (b.between.takeWhile (· != 0)) with
        | some text => .ok text (b.passed ((b.between.takeWhile (· != 0)).length + 1))
        | none => .error (.refused (.invalidValue "string"
            (Utf8.lossy (b.between.takeWhile (· != 0))))) b
      else .error (.refused (.position b.wpos b.wpos 1)) b := by
  simp only [readTerminated, EStateM.run_bind, peekTerminated_run]
  by_cases h : b.wpos ≤ b.rpos
  · simp [h]
  · by_cases hs : b.size < b.wpos
    · simp [h, hs]
    · by_cases hz : 0 ∈ b.between
      · simp only [h, hs, hz, if_false, if_true, decodeText_run]
        cases Utf8.decode? (b.between.takeWhile (· != 0)) <;> simp [advance_run]
      · simp [h, hs, hz]

/-! ## Bits -/

/-- The first bit of a byte stands highest, the eighth at its foot. -/
theorem placeOfBit_of_mem {n : Nat} (hone : 1 ≤ n) (hmax : n ≤ 8) : placeOfBit n = pure (8 - n) := by
  have hshift : 8 - n < 8 := by omega
  rw [placeOfBit, subtract_of_le hmax, pure_bind, demand_of hshift, pure_bind]

theorem readBit_run (b : Buffer) :
    readBit.run b = match b.unread with
      | bit :: rest => .ok bit { b with unread := rest }
      | [] =>
        if b.wpos < b.rpos + 1 then .error (.refused (.position b.rpos b.wpos 1)) b
        else match b.contents[b.rpos]? with
          | none => .error .overrun b
          | some byte =>
            .ok (byte.toNat.testBit 7)
              { b with rpos := b.rpos + 1, unread := (Bits.ofByte byte).tail } := by
  simp only [readBit, EStateM.run_bind, EStateM.run_get]
  cases hunread : b.unread with
  | cons bit rest =>
    have hplace : placeOfBit (b.taken + 1) = pure (8 - (b.taken + 1)) := by
      refine placeOfBit_of_mem (Nat.le_add_left 1 _) ?_
      rw [taken, hunread, List.length_cons]
      omega
    rw [hplace]
    rfl
  | nil =>
    simp only [EStateM.run_bind, checkReadable_run]
    by_cases h : b.wpos < b.rpos + 1
    · simp [h]
    · simp only [h, if_false]
      cases b.contents[b.rpos]? <;> rfl

/-- Takes `count` bits in turn, as they are. -/
def takeBits : Nat → BufferM (List Bool)
  | 0 => pure []
  | count + 1 => do
    let bit ← readBit
    let rest ← takeBits count
    return bit :: rest

theorem Sequential.takeBits {P : ∀ {α : Type}, BufferM α → Prop} (h : Sequential P) (bit : P readBit) :
    ∀ count : Nat, P (takeBits count)
  | 0 => h.pure _
  | count + 1 => h.bind bit fun _ => h.bind (h.takeBits bit count) fun _ => h.pure _

theorem Sequential.readWord {P : ∀ {α : Type}, BufferM α → Prop} (h : Sequential P) (bit : P readBit)
    (demands : ∀ (range : Prop) [Decidable range], P (demand range)) : ∀ count : Nat, P (readWord count)
  | 0 => h.pure _
  | count + 1 => h.bind bit fun _ => h.bind (h.bind (demands _) fun _ => h.pure _) fun _ =>
    h.bind (h.readWord bit demands count) fun _ => h.pure _

theorem takeBits_succ_run (count : Nat) (b : Buffer) :
    (takeBits (count + 1)).run b = match readBit.run b with
      | .error e b' => .error e b'
      | .ok bit b₁ => match (takeBits count).run b₁ with
        | .error e b' => .error e b'
        | .ok bits b' => .ok (bit :: bits) b' := by
  simp only [takeBits, EStateM.run_bind, EStateM.run_pure]
  cases readBit.run b with
  | error e b' => rfl
  | ok bit b₁ => cases h : (takeBits count).run b₁ <;> simp [h]

theorem length_of_takeBits : ∀ {count : Nat} {b b' : Buffer} {bits : List Bool},
    (takeBits count).run b = .ok bits b' → bits.length = count
  | 0, _, _, _, h => by
    cases h
    rfl
  | count + 1, b, b', bits, h => by
    obtain ⟨bit, b₁, -, hrest⟩ := run_bind_ok.mp h
    obtain ⟨rest, b₂, htaken, hcons⟩ := run_bind_ok.mp hrest
    cases hcons
    rw [List.length_cons, length_of_takeBits htaken]

/-- Sixty-four bits at most find their places in a word. -/
theorem readWord_run : ∀ {count : Nat}, count ≤ 64 → ∀ b : Buffer,
    (readWord count).run b = match (takeBits count).run b with
      | .ok bits b' => .ok (UInt64.ofNat (Bits.toNat bits)) b'
      | .error e b' => .error e b'
  | 0, _, _ => rfl
  | count + 1, h, b => by
    simp only [readWord, wordOfBit_of_lt h, pure_bind, EStateM.run_bind, takeBits_succ_run]
    cases readBit.run b with
    | error e b₁ => rfl
    | ok bit b₁ =>
      simp only [readWord_run (Nat.le_of_succ_le h) b₁]
      cases hrest : (takeBits count).run b₁ with
      | error e b₂ => rfl
      | ok rest b₂ =>
        obtain rfl := length_of_takeBits hrest
        simp only [EStateM.run_pure, Bits.word_cons bit h]

theorem readBits_run (count : Nat) (b : Buffer) :
    (readBits count).run b =
      if count = 0 ∨ 64 < count then .error (.refused (.bitCount count)) b
      else if b.wpos < b.rpos then .error .overrun b
      else if b.availableBits < count then
        .error (.refused (.position b.rpos b.wpos
          (b.remaining + (count - b.availableBits + 7) / 8))) b
      else match (takeBits count).run b with
        | .ok bits b' => .ok (UInt64.ofNat (Bits.toNat bits)) b'
        | .error e b' => .error e b' := by
  simp only [readBits, EStateM.run_bind, checkBitCount_run]
  by_cases hcount : count = 0 ∨ 64 < count
  · simp [hcount]
  · simp only [hcount, if_false, EStateM.run_get, subtract_run]
    by_cases hr : b.wpos < b.rpos
    · simp only [hr, if_true]
    · by_cases ha : b.availableBits < count
      · have hmissing : ¬ count < b.availableBits := Nat.lt_asymm ha
        simp [hr, ha, subtract_run, hmissing, remaining]
      · simp only [hr, ha, if_false]
        exact readWord_run (by omega) b

theorem readBits_run_of_le {b : Buffer} (h : b.rpos ≤ b.wpos) (count : Nat) :
    (readBits count).run b =
      if count = 0 ∨ 64 < count then .error (.refused (.bitCount count)) b
      else if b.availableBits < count then
        .error (.refused (.position b.rpos b.wpos
          (b.remaining + (count - b.availableBits + 7) / 8))) b
      else match (takeBits count).run b with
        | .ok bits b' => .ok (UInt64.ofNat (Bits.toNat bits)) b'
        | .error e b' => .error e b' := by
  rw [readBits_run, if_neg (Nat.not_lt.mpr h)]

/-! ## The read cursor -/

theorem setReadPos_run (pos : Nat) (b : Buffer) :
    (setReadPos pos).run b =
      if b.wpos < pos then .error (.refused (.position pos b.wpos 0)) b
      else .ok () { b with rpos := pos, unread := [] } := by
  simp only [setReadPos, EStateM.run_bind, EStateM.run_get]
  by_cases h : b.wpos < pos <;> simp [h]

end PacketWire.Buffer
