/-
A patch at the read cursor, and the bits that are read after it.

A reader takes a byte from the store when it begins it, and what is left of it is
then its own. A patch goes to the store, so the reader finds it from the next byte on
(`take_readable_patched`). A field that is patched where the reader stands, and then
read, is what was patched only if no byte is begun or the patch leaves the rest of
that byte as it was (`readBits_patched_iff`).
-/
import PacketWire.Proofs.Buffer.BitFields
import PacketWire.Proofs.Buffer.Patching

namespace PacketWire.Buffer

/-- The read cursor in bits, behind those that were read of a byte begun. -/
def bitReadPos (b : Buffer) : Nat := 8 * b.rpos - b.unread.length

variable {b : Buffer} {value : UInt64}

theorem ofBytes_between (b : Buffer) :
    Bits.ofBytes b.between = ((Bits.ofBytes b.contents).drop (8 * b.rpos)).take (8 * b.remaining) := by
  rw [between, bytesAt, Bits.ofBytes_take, Bits.ofBytes_drop]

/-- Of the field, a reader finds the bits behind the byte begun; of that byte it has
what was there when it began it. -/
theorem take_readable_patched (begun : b.unread ≠ [] → 0 < b.rpos) (hu : b.unread.length < 8)
    (inside : b.wpos ≤ b.size) {count : Nat} (fits : b.bitReadPos + count ≤ 8 * b.wpos) :
    (b.patched b.bitReadPos value count).readable.take count =
      b.unread.take count ++ (lowBits value count).drop b.unread.length := by
  have hle : b.unread.length ≤ 8 * b.rpos := by
    by_cases hnil : b.unread = []
    · rw [hnil]
      exact Nat.zero_le _
    · have := begun hnil
      omega
  have hpos : b.bitReadPos + b.unread.length = 8 * b.rpos := Nat.sub_add_cancel hle
  have hstored : b.bitReadPos + count ≤ 8 * b.size := by omega
  have hstart : b.bitReadPos ≤ (Bits.ofBytes b.contents).length := by
    rw [Bits.length_ofBytes, ← size]
    omega
  have hnext := take_drop_overwrite hstart (lowBits value count) b.unread.length
  rw [hpos, length_lowBits] at hnext
  have hbetween : Bits.ofBytes (b.patched b.bitReadPos value count).between =
      ((overwrite (Bits.ofBytes b.contents) b.bitReadPos (lowBits value count)).drop (8 * b.rpos)).take
        (8 * b.remaining) := by
    rw [ofBytes_between, ofBytes_contents_patched hstored, ofNat_eq_lowBits]
    rfl
  have hremaining : count - b.unread.length ≤ 8 * b.remaining := by
    unfold remaining
    omega
  rw [readable, List.take_append, hbetween, List.take_take]
  show b.unread.take count ++ List.take (min (count - b.unread.length) _) _ = _
  rw [Nat.min_eq_left hremaining, hnext]

/-- A field that is patched where the read cursor stands, and then read, comes back
with the bits that were left of the byte begun as they were, and the rest as patched. -/
theorem readBits_patched (reachable : Reachable b) (inside : b.wpos ≤ b.size) (value : UInt64) (count : Nat)
    (hone : 1 ≤ count) (hmax : count ≤ 64) (fits : b.bitReadPos + count ≤ 8 * b.wpos) :
    ∃ v b₁ b', (putBits b.bitReadPos value count).run b = .ok () b₁ ∧ (readBits count).run b₁ = .ok v b' ∧
      v.toNat = Bits.toNat (b.unread.take count ++ (lowBits value count).drop b.unread.length) := by
  have wellFormed := reachable.wellFormed
  have hr := wellFormed.rpos_le
  have hstored : b.bitReadPos + count ≤ 8 * b.size := by omega
  have ho : (b.patched b.bitReadPos value count).Ordered := ⟨hr, by
    rw [size_patched hstored]
    exact inside⟩
  have hleft : count ≤ (b.patched b.bitReadPos value count).readable.length := by
    have havailable : (b.patched b.bitReadPos value count).availableBits = b.availableBits := rfl
    rw [length_readable ho, havailable, availableBits, remaining]
    unfold bitReadPos at fits
    omega
  obtain ⟨v, b', hrun, hv, -⟩ := readBits_front ho wellFormed.unread_lt hone hmax hleft
  rw [take_readable_patched wellFormed.begun wellFormed.unread_lt inside fits] at hv
  exact ⟨v, _, b', putBits_run_of_le hone hmax hstored, hrun, hv⟩

/-- Whatever a buffer went through, unless its write cursor stands past the stored
bytes. A field that is patched where the read cursor stands is read with the bits of
the byte begun as they were. So it is the value that was patched exactly if the
patch left those bits as they were, as it does if no byte is begun. -/
theorem readBits_patched_iff (reachable : Reachable b) (inside : b.wpos ≤ b.size) (value : UInt64) (count : Nat)
    (hone : 1 ≤ count) (hmax : count ≤ 64) (fits : b.bitReadPos + count ≤ 8 * b.wpos) :
    ∃ v b₁ b', (putBits b.bitReadPos value count).run b = .ok () b₁ ∧ (readBits count).run b₁ = .ok v b' ∧
      v.toNat = Bits.toNat (b.unread.take count ++ (lowBits value count).drop b.unread.length) ∧
      (v.toNat = value.toNat % 2 ^ count ↔
        b.unread.take count = (lowBits value count).take b.unread.length) := by
  obtain ⟨v, b₁, b', hput, hread, hv⟩ := readBits_patched reachable inside value count hone hmax fits
  refine ⟨v, b₁, b', hput, hread, hv, ?_⟩
  have hvalue : value.toNat % 2 ^ count =
      Bits.toNat ((lowBits value count).take b.unread.length ++ (lowBits value count).drop b.unread.length) := by
    rw [List.take_append_drop, ← ofNat_eq_lowBits, Bits.toNat_ofNat]
  have hkept : (b.unread.take count).length = ((lowBits value count).take b.unread.length).length := by
    rw [List.length_take, List.length_take, length_lowBits, Nat.min_comm]
  rw [hv, hvalue, Bits.toNat_inj (by rw [List.length_append, List.length_append, hkept])]
  exact List.append_left_inj _

/-- Five bits of the byte begun and all of the next are patched. The five come back
as they were; only a value that has them so comes back itself. -/
theorem readBits_patched_iff_begunByte :
    Reachable begunByte ∧ begunByte.bitReadPos = 3 ∧ begunByte.unread.length = 5 ∧
      (∃ v b₁ b', (putBits 3 0x1FFF 13).run begunByte = .ok () b₁ ∧ (readBits 13).run b₁ = .ok v b' ∧
        v.toNat = 0x05FF) ∧
      ∃ v b₁ b', (putBits 3 0x0512 13).run begunByte = .ok () b₁ ∧ (readBits 13).run b₁ = .ok v b' ∧
        v.toNat = 0x0512 := by
  have hreach : Reachable begunByte := .step _ (.made (.ofBytes [0xA5, 0xC3] rfl))
  have hpatch := fun value =>
    readBits_patched_iff hreach (by decide) value 13 (by decide) (by decide) (by decide)
  refine ⟨hreach, by decide, by decide, ?_, ?_⟩
  · obtain ⟨v, b₁, b', hput, hread, hv, -⟩ := hpatch 0x1FFF
    exact ⟨v, b₁, b', hput, hread, hv.trans (by decide)⟩
  · obtain ⟨v, b₁, b', hput, hread, -, hiff⟩ := hpatch 0x0512
    exact ⟨v, b₁, b', hput, hread, (hiff.mpr (by decide)).trans (by decide)⟩

/-- Thirteen set bits are patched in at the read cursor, and stored, but others are read. -/
theorem readBits_misses_patch :
    Reachable begunByte ∧ begunByte.wpos ≤ begunByte.size ∧ begunByte.bitReadPos + 13 ≤ 8 * begunByte.wpos ∧
      ∃ v b₁ b', (putBits begunByte.bitReadPos 0x1FFF 13).run begunByte = .ok () b₁ ∧ b₁.contents = [0xBF, 0xFF] ∧
        (readBits 13).run b₁ = .ok v b' ∧ v.toNat ≠ (0x1FFF : UInt64).toNat % 2 ^ 13 := by
  have hreach : Reachable begunByte := .step _ (.made (.ofBytes [0xA5, 0xC3] rfl))
  obtain ⟨v, b₁, b', hput, hread, hv⟩ :=
    readBits_patched hreach (by decide) 0x1FFF 13 (by decide) (by decide) (by decide)
  obtain ⟨-, -, -, rfl⟩ := eq_patched_of_ok hput
  exact ⟨hreach, by decide, by decide, v, _, b', hput, by decide, hread, by rw [hv]; decide⟩

end PacketWire.Buffer
