/-
Text is read as the bytes it is made of.

There are two reads for a run of text, one that takes its bytes as they are and one
that makes sure that they are text. They end alike: with the same bytes, the same
buffer left and the same refusal, but that bytes that are no text are refused by the
second alone, which then leaves the buffer (`Validates`). Where terminated text stops
is `FirstZero`, the first zero between the cursors, whatever is stored behind them.
-/
import PacketWire.Proofs.Buffer.Stream
import PacketWire.Proofs.Mending

namespace PacketWire.Buffer

open Text

/-- How a read of text ends, given how a read of the same bytes as they are does. -/
structure Validates (text : BufferM String) (raw : BufferM (List UInt8)) (b : Buffer) : Prop where
  /-- Text is read exactly where bytes are that are well-formed. -/
  succeeds_iff : (∃ s b', text.run b = .ok s b') ↔
    ∃ bytes b', raw.run b = .ok bytes b' ∧ Utf8.WellFormed bytes
  /-- The bytes are those of the text, and the buffer left is the same. -/
  bytes : ∀ s b', text.run b = .ok s b' → raw.run b = .ok (Utf8.encode s) b'
  /-- Bytes that are not well-formed are shown as the one text that they mend to, and nothing is taken. -/
  invalid : ∀ bytes b', raw.run b = .ok bytes b' → ¬ Utf8.WellFormed bytes →
    ∃ shown : String, (∀ mended, Utf8.Mended bytes mended ↔ mended = shown.toList) ∧
      text.run b = .error (.refused (.invalidValue "string" shown)) b
  /-- Where there are no such bytes, both are refused for it, and nothing is taken. -/
  short : ∀ e left, raw.run b = .error e left →
    ∃ pos valueSize, e = .refused (.position pos b.wpos valueSize) ∧ left = b ∧ text.run b = .error e b

/-- The first of the zeros between the cursors is at `stop`. -/
structure FirstZero (b : Buffer) (stop : Nat) : Prop where
  rpos_le : b.rpos ≤ stop
  lt_wpos : stop < b.wpos
  zero : b.contents[stop]? = some 0
  first : ∀ i, b.rpos ≤ i → i < stop → b.contents[i]? ≠ some 0

/-! ## Reads of text as reads of bytes -/

/-- What a run of bytes that was read is as text. -/
def validated (b : Buffer) : EStateM.Result Failure Buffer (List UInt8) → EStateM.Result Failure Buffer String
  | .ok bytes b' => match Utf8.decode? bytes with
    | some s => .ok s b'
    | none => .error (.refused (.invalidValue "string" (Utf8.lossy bytes))) b
  | .error e b' => .error e b'

theorem validated_eq_ok {b b' : Buffer} {s : String} {r : EStateM.Result Failure Buffer (List UInt8)} :
    validated b r = .ok s b' ↔ r = .ok (Utf8.encode s) b' := by
  cases r with
  | error e left => simp [validated]
  | ok bytes left =>
    simp only [validated]
    cases h : Utf8.decode? bytes with
    | none =>
      have hbad := Utf8.decode?_eq_none_iff.mp h
      refine iff_of_false (by simp) fun hok => ?_
      cases hok
      exact hbad ⟨s, rfl⟩
    | some t =>
      have ht := Utf8.encode_of_decode? h
      subst ht
      constructor
      · rintro ⟨⟩
        rfl
      · intro hok
        obtain ⟨hs, rfl⟩ : Utf8.encode t = Utf8.encode s ∧ left = b' := by simpa using hok
        rw [Utf8.encode_injective hs]

theorem validates_of_eq {text : BufferM String} {raw : BufferM (List UInt8)} {b : Buffer}
    (h : text.run b = validated b (raw.run b))
    (hshort : ∀ e left, raw.run b = .error e left →
      ∃ pos valueSize, e = .refused (.position pos b.wpos valueSize) ∧ left = b) : Validates text raw b where
  succeeds_iff := by
    simp only [h, validated_eq_ok]
    constructor
    · rintro ⟨s, b', hraw⟩
      exact ⟨_, b', hraw, s, rfl⟩
    · rintro ⟨_, b', hraw, s, rfl⟩
      exact ⟨s, b', hraw⟩
  bytes s b' hs := by
    rwa [h, validated_eq_ok] at hs
  invalid bytes b' hraw hbad := by
    refine ⟨Utf8.lossy bytes, fun _ => Utf8.mended_iff, ?_⟩
    rw [h, hraw, validated, Utf8.decode?_eq_none_iff.mpr hbad]
  short e left hraw := by
    obtain ⟨pos, valueSize, rfl, rfl⟩ := hshort e left hraw
    exact ⟨pos, valueSize, rfl, rfl, by rw [h, hraw, validated]⟩

theorem readString_validates {b : Buffer} (ho : b.Ordered) (len : Nat) :
    Validates (readString len) (readBytes len) b := by
  have hw := ho.wpos_le
  have hraw := readBytes_run len b
  by_cases hshort : b.wpos < b.rpos + len
  · rw [if_pos hshort] at hraw
    refine validates_of_eq ?_ fun e left h => ?_
    · rw [hraw, readString_run, if_pos hshort, validated]
    · rw [hraw] at h
      cases h
      exact ⟨_, _, rfl, rfl⟩
  · rw [if_neg hshort, if_neg (by omega)] at hraw
    refine validates_of_eq ?_ fun e left h => ?_
    · rw [hraw, readString_run, if_neg hshort, if_neg (by omega)]
      rfl
    · rw [hraw] at h
      cases h

/-! ## Terminated text -/

/-- Terminated text is all refused alike: for the place where its zero could still have been. -/
theorem readTerminatedBytes_eq {b : Buffer} (ho : b.Ordered) :
    readTerminatedBytes.run b =
      if 0 ∈ b.between then
        .ok (b.between.takeWhile (· != 0)) (b.passed ((b.between.takeWhile (· != 0)).length + 1))
      else .error (.refused (.position b.wpos b.wpos 1)) b := by
  have hr := ho.rpos_le
  rw [readTerminatedBytes_run]
  split
  next hnone =>
    have hempty : b.between = [] := List.eq_nil_of_length_eq_zero (by rw [length_between ho, remaining]; omega)
    have hend : b.rpos = b.wpos := by omega
    rw [hempty, if_neg List.not_mem_nil, hend]
  next => rw [if_neg (Nat.not_lt.mpr ho.wpos_le)]

theorem readTerminated_eq (b : Buffer) :
    readTerminated.run b = validated b (readTerminatedBytes.run b) := by
  rw [readTerminated_run, readTerminatedBytes_run]
  split_ifs <;> rfl

theorem readTerminated_validates {b : Buffer} (ho : b.Ordered) :
    Validates readTerminated readTerminatedBytes b := by
  refine validates_of_eq (readTerminated_eq b) fun e left h => ?_
  rw [readTerminatedBytes_eq ho] at h
  split at h
  · cases h
  · cases h
    exact ⟨_, _, rfl, rfl⟩

theorem findIdx_zero_iff {run : List UInt8} {i : Nat} (h : i < run.length) :
    run.findIdx (· == 0) = i ↔ run[i]? = some 0 ∧ ∀ j < i, run[j]? ≠ some 0 := by
  rw [List.findIdx_eq h, List.getElem?_eq_getElem h]
  refine and_congr (by simp) (forall₂_congr fun j hj => ?_)
  rw [List.getElem?_eq_getElem (Nat.lt_trans hj h)]
  simp

/-- The bytes in front of a run's first zero. -/
theorem takeWhile_ne_zero (run : List UInt8) : run.takeWhile (· != 0) = run.take (run.findIdx (· == 0)) := by
  have hnot : (fun x : UInt8 => !(x != 0)) = (· == 0) := by
    funext x
    simp [bne]
  rw [List.takeWhile_eq_take_findIdx_not, hnot]

theorem firstZero_iff {b : Buffer} (ho : b.Ordered) {stop : Nat} :
    b.FirstZero stop ↔ 0 ∈ b.between ∧ stop = b.rpos + b.between.findIdx (· == 0) := by
  have hlen := length_between ho
  have hstored : ∀ {i}, i < b.remaining → b.between[i]? = b.contents[b.rpos + i]? := fun {i} hi => by
    rw [between, bytesAt, List.getElem?_take_of_lt hi, List.getElem?_drop]
  constructor
  · rintro ⟨hr, hw, hzero, hfirst⟩
    obtain ⟨i, rfl⟩ := Nat.exists_eq_add_of_le hr
    have hi : i < b.remaining := by unfold remaining; omega
    have hat : b.between[i]? = some 0 := by rw [hstored hi, hzero]
    have hfound := (findIdx_zero_iff (by rw [hlen]; exact hi)).mpr ⟨hat, fun j hj => by
      rw [hstored (by omega)]
      exact hfirst _ (by omega) (by omega)⟩
    exact ⟨List.mem_of_getElem? hat, by rw [hfound]⟩
  · rintro ⟨hzero, rfl⟩
    have hlt : b.between.findIdx (· == 0) < b.between.length := List.findIdx_lt_length.mpr ⟨0, hzero, rfl⟩
    obtain ⟨hat, hfirst⟩ := (findIdx_zero_iff hlt).mp rfl
    rw [hlen] at hlt
    refine ⟨Nat.le_add_right .., by unfold remaining at hlt; omega, by rw [← hstored hlt, hat], fun i hr hi => ?_⟩
    obtain ⟨j, rfl⟩ := Nat.exists_eq_add_of_le hr
    rw [← hstored (by omega)]
    exact hfirst j (by omega)

/-- Terminated bytes go up to the first zero, and it is taken with them. -/
theorem readTerminatedBytes_ok_iff {b b' : Buffer} (ho : b.Ordered) {raw : List UInt8} :
    readTerminatedBytes.run b = .ok raw b' ↔ ∃ stop, b.FirstZero stop ∧
      raw = b.bytesAt b.rpos (stop - b.rpos) ∧ b' = { b with rpos := stop + 1, unread := [] } := by
  have hle : b.between.findIdx (· == 0) ≤ b.remaining := by
    rw [← length_between ho]
    exact List.findIdx_le_length
  have hraw : b.between.takeWhile (· != 0) = b.bytesAt b.rpos (b.between.findIdx (· == 0)) := by
    rw [takeWhile_ne_zero]
    generalize b.between.findIdx (· == 0) = n at hle
    rw [between, bytesAt, List.take_take, Nat.min_eq_left hle, bytesAt]
  have hcount : (b.between.takeWhile (· != 0)).length = b.between.findIdx (· == 0) := by
    rw [takeWhile_ne_zero, List.length_take_of_le List.findIdx_le_length]
  simp only [readTerminatedBytes_eq ho, firstZero_iff ho]
  split
  next hzero =>
    rw [hcount, hraw]
    constructor
    · intro h
      cases h
      exact ⟨_, ⟨hzero, rfl⟩, by rw [Nat.add_sub_cancel_left], rfl⟩
    · rintro ⟨_, ⟨-, rfl⟩, rfl, rfl⟩
      rw [Nat.add_sub_cancel_left]
      rfl
  next hnone => simp [hnone]

/-- Where no zero is between the cursors, both reads of terminated text are refused. -/
theorem readTerminated_refused {b : Buffer} (ho : b.Ordered) (hnone : ¬ ∃ stop, b.FirstZero stop) :
    readTerminatedBytes.run b = .error (.refused (.position b.wpos b.wpos 1)) b ∧
      readTerminated.run b = .error (.refused (.position b.wpos b.wpos 1)) b := by
  have hfree : 0 ∉ b.between := fun hzero => hnone ⟨_, (firstZero_iff ho).mpr ⟨hzero, rfl⟩⟩
  have hraw : readTerminatedBytes.run b = .error (.refused (.position b.wpos b.wpos 1)) b := by
    rw [readTerminatedBytes_eq ho, if_neg hfree]
  exact ⟨hraw, by rw [readTerminated_eq, hraw, validated]⟩

/-! ## Both kinds of text -/

/-- Whatever was read or is begun, and whatever is stored behind the write cursor:
text of a length, and text up to a zero, is read exactly where the bytes are and are
well-formed, as the text that they are, and leaves what the bytes leave. Terminated
bytes are those up to the first zero between the cursors, which is taken too. -/
theorem texts_validated {b : Buffer} (reachable : Reachable b) (inside : b.wpos ≤ b.size) :
    (∀ len, Validates (readString len) (readBytes len) b) ∧
      Validates readTerminated readTerminatedBytes b ∧
      (∀ raw b', readTerminatedBytes.run b = .ok raw b' ↔ ∃ stop, b.FirstZero stop ∧
        raw = b.bytesAt b.rpos (stop - b.rpos) ∧ b' = { b with rpos := stop + 1, unread := [] }) ∧
      ((¬ ∃ stop, b.FirstZero stop) →
        readTerminatedBytes.run b = .error (.refused (.position b.wpos b.wpos 1)) b ∧
          readTerminated.run b = .error (.refused (.position b.wpos b.wpos 1)) b) :=
  have ho : b.Ordered := ⟨reachable.wellFormed.rpos_le, inside⟩
  ⟨readString_validates ho, readTerminated_validates ho, fun _ _ => readTerminatedBytes_ok_iff ho,
    readTerminated_refused ho⟩

/-- A byte begun, text with a zero, a byte that is no text, and a zero behind the write cursor. -/
def begunLine : Buffer :=
  (Operation.setWritePos 5).after
    (Operation.readBit.after ((Operation.append [1, 0xC3, 0xA9, 0, 0xC3, 0]).after .empty))

/-- The text is read and its zero with it, half a character is refused, and then there
is no zero left to be found. -/
theorem texts_validated_begunLine :
    Reachable begunLine ∧ begunLine.wpos ≤ begunLine.size ∧
      readTerminated.run begunLine = .ok "é" (begunLine.passed 3) ∧
      (∃ shown : String, (∀ mended, Utf8.Mended [0xC3] mended ↔ mended = shown.toList) ∧
        (readString 1).run begunLine = .error (.refused (.invalidValue "string" shown)) begunLine) ∧
      readTerminated.run (begunLine.passed 3) = .error (.refused (.position 5 5 1)) (begunLine.passed 3) := by
  have hreach : Reachable begunLine := .step _ (.step _ (.step _ (.made (.fresh .empty))))
  have hinside : begunLine.wpos ≤ begunLine.size := by decide
  obtain ⟨hstrings, hterminated, -⟩ := texts_validated hreach hinside
  have hraw : readTerminatedBytes.run begunLine = .ok [0xC3, 0xA9] (begunLine.passed 3) := rfl
  obtain ⟨s, b', hs⟩ := hterminated.succeeds_iff.mpr ⟨_, _, hraw, "é", by decide⟩
  obtain ⟨hbytes, rfl⟩ : [0xC3, 0xA9] = Utf8.encode s ∧ begunLine.passed 3 = b' := by
    simpa [hraw] using hterminated.bytes s b' hs
  have hse : s = "é" := Utf8.encode_injective (hbytes.symm.trans (by decide))
  have hhalf : (readBytes 1).run begunLine = .ok [0xC3] (begunLine.passed 1) := rfl
  have hbad : ¬ Utf8.WellFormed [0xC3] := Utf8.decode?_eq_none_iff.mp (by decide +kernel)
  have hleft : Reachable (begunLine.passed 3) := .step Operation.readTerminatedBytes hreach
  have hnone : ¬ ∃ stop, (begunLine.passed 3).FirstZero stop := by
    rintro ⟨stop, hstop⟩
    have hle : 4 ≤ stop := hstop.rpos_le
    have hlt : stop < 5 := hstop.lt_wpos
    obtain rfl : stop = 4 := by omega
    exact absurd hstop.zero (by decide)
  obtain ⟨-, -, -, hrefused⟩ := texts_validated hleft (by decide)
  exact ⟨hreach, hinside, hse ▸ hs, (hstrings 1).invalid _ _ hhalf hbad, (hrefused hnone).2⟩

end PacketWire.Buffer
