/-
What a patch of bits changes.

A patch goes over the bytes that hold a bit of the field (`Bits.patch`). Bit by
bit, the field is the value's low bits then, and every other bit of the store is
what it was, also in the two bytes that the field shares with its neighbours
(`putBits_replaces`).
-/
import PacketWire.Proofs.Buffer.Writing

namespace PacketWire.Buffer

/-- Bit `i` of the stored bytes. The top bit of the first byte is bit zero. -/
def bitAt (b : Buffer) (i : Nat) : Option Bool :=
  b.contents[i / 8]?.map fun byte => byte.toNat.testBit (7 - i % 8)

theorem getElem?_ofBytes_contents (b : Buffer) (i : Nat) : (Bits.ofBytes b.contents)[i]? = b.bitAt i :=
  Bits.getElem?_ofBytes b.contents i

/-- The buffer with the `count` stored bits from `pos` on replaced by the low bits of `value`. -/
def patched (b : Buffer) (pos : Nat) (value : UInt64) (count : Nat) : Buffer :=
  { b with contents := Bits.patch b.contents pos (Bits.ofNat count value.toNat) }

variable {b : Buffer} {pos count : Nat} {value : UInt64}

theorem ofBytes_contents_patched (h : pos + count ≤ 8 * b.size) :
    Bits.ofBytes (b.patched pos value count).contents =
      overwrite (Bits.ofBytes b.contents) pos (Bits.ofNat count value.toNat) :=
  Bits.ofBytes_patch (by rwa [Bits.length_ofNat])

/-- Bits that lie in the store are patched. -/
theorem putBits_run_of_le (hone : 1 ≤ count) (hmax : count ≤ 64) (h : pos + count ≤ 8 * b.size) :
    (putBits pos value count).run b = .ok () (b.patched pos value count) := by
  rw [putBits_run, if_neg (by omega), if_neg (by omega)]
  rfl

/-- A patch was made only of a field that has its size and lies in the store. -/
theorem eq_patched_of_ok {b' : Buffer} (h : (putBits pos value count).run b = .ok () b') :
    1 ≤ count ∧ count ≤ 64 ∧ pos + count ≤ 8 * b.size ∧ b' = b.patched pos value count := by
  rw [putBits_run] at h
  split at h
  · cases h
  next hcount =>
  split at h
  · cases h
  next hfits =>
    cases h
    exact ⟨by omega, by omega, by omega, rfl⟩

theorem bitAt_patched_inside (h : pos + count ≤ 8 * b.size) {i : Nat} (hi : i < count) :
    (b.patched pos value count).bitAt (pos + i) = some (value.toNat.testBit (count - 1 - i)) := by
  have hstart : pos ≤ (Bits.ofBytes b.contents).length := by rw [Bits.length_ofBytes]; unfold size at h; omega
  have hfield : i < (Bits.ofNat count value.toNat).length := by rwa [Bits.length_ofNat]
  rw [← getElem?_ofBytes_contents, ofBytes_contents_patched h, getElem?_overwrite_add hstart hfield,
    Bits.getElem?_ofNat _ _ hi]

theorem bitAt_patched_outside (h : pos + count ≤ 8 * b.size) {i : Nat} (hi : i < pos ∨ pos + count ≤ i) :
    (b.patched pos value count).bitAt i = b.bitAt i := by
  have hstart : pos ≤ (Bits.ofBytes b.contents).length := by rw [Bits.length_ofBytes]; unfold size at h; omega
  rw [← getElem?_ofBytes_contents, ofBytes_contents_patched h, ← getElem?_ofBytes_contents]
  rcases hi with hi | hi
  · exact getElem?_overwrite_of_lt hstart hi
  · exact getElem?_overwrite_of_le hstart (by rwa [Bits.length_ofNat])

theorem size_patched (h : pos + count ≤ 8 * b.size) : (b.patched pos value count).size = b.size :=
  Bits.length_patch (by rwa [Bits.length_ofNat])

/-- Whatever is stored: a field is patched exactly if it has one to sixty-four bits
and ends with the store at most. Its bits are then the value's low ones, most
significant first, every bit outside it is what it was, and so is all else. -/
theorem putBits_replaces (b : Buffer) (pos : Nat) (value : UInt64) (count : Nat) :
    ((∃ b', (putBits pos value count).run b = .ok () b') ↔
      1 ≤ count ∧ count ≤ 64 ∧ pos + count ≤ 8 * b.size) ∧
    ∀ b', (putBits pos value count).run b = .ok () b' →
      (∀ i < count, b'.bitAt (pos + i) = some (value.toNat.testBit (count - 1 - i))) ∧
      (∀ i, i < pos ∨ pos + count ≤ i → b'.bitAt i = b.bitAt i) ∧
      b'.size = b.size ∧ b' = { b with contents := b'.contents } := by
  refine ⟨⟨?made, ?makes⟩, ?patch⟩
  case made =>
    rintro ⟨b', h⟩
    obtain ⟨hone, hmax, hfits, -⟩ := eq_patched_of_ok h
    exact ⟨hone, hmax, hfits⟩
  case makes =>
    rintro ⟨hone, hmax, hfits⟩
    exact ⟨_, putBits_run_of_le hone hmax hfits⟩
  case patch =>
    intro b' h
    obtain ⟨-, -, hfits, rfl⟩ := eq_patched_of_ok h
    exact ⟨fun i hi => bitAt_patched_inside hfits hi, fun i hi => bitAt_patched_outside hfits hi,
      size_patched hfits, rfl⟩

/-- Two stored bytes, all their bits set. -/
def allSet : Buffer := ⟨[0xFF, 0xFF], 0, 2, [], [], 300, 2⟩

/-- A field of seven clear bits across the two leaves the bits on both sides of it. -/
theorem putBits_replaces_allSet :
    ∃ b', (putBits 5 0 7).run allSet = .ok () b' ∧ (∀ i < 7, b'.bitAt (5 + i) = some false) ∧
      b'.bitAt 4 = some true ∧ b'.bitAt 12 = some true ∧ b'.size = 2 := by
  obtain ⟨⟨-, makes⟩, patch⟩ := putBits_replaces allSet 5 0 7
  obtain ⟨b', hrun⟩ := makes (by decide)
  obtain ⟨hinside, houtside, hsize, -⟩ := patch b' hrun
  refine ⟨b', hrun, fun i hi => ?_, houtside 4 (by decide), houtside 12 (by decide), hsize⟩
  rw [hinside i hi, UInt64.toNat_zero, Nat.zero_testBit]

end PacketWire.Buffer
