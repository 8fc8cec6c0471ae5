/-
Bit fields as streams of bits.

A field that is written is its bits, one after the other: they go behind what is
written (`writeBits_streams`). A field that is read is the number of the bits in
front of what is left to read (`readBits_streams`). Neither depends on where in a
byte the field begins, so a field is also the two that it is cut into.
-/
import PacketWire.Proofs.Buffer.Storing
import PacketWire.Proofs.Buffer.Stream

namespace PacketWire.Buffer

/-! ## Writing -/

/-- The low `count` bits of `value`, the most significant first. -/
def lowBits (value : UInt64) (count : Nat) : List Bool :=
  (List.range count).map fun i => value.toNat.testBit (count - 1 - i)

theorem length_lowBits (value : UInt64) (count : Nat) : (lowBits value count).length = count := by
  rw [lowBits, List.length_map, List.length_range]

theorem ofNat_eq_lowBits (value : UInt64) (count : Nat) : Bits.ofNat count value.toNat = lowBits value count := by
  refine List.ext_getElem? fun i => ?_
  rcases Nat.lt_or_ge i count with hi | hi
  · rw [Bits.getElem?_ofNat _ _ hi, lowBits, List.getElem?_map, List.getElem?_range hi]
    rfl
  · rw [List.getElem?_eq_none (by rwa [Bits.length_ofNat]), List.getElem?_eq_none (by rwa [length_lowBits])]

/-- A field is its high bits and its low ones. -/
theorem lowBits_add {high low : Nat} (hlow : low < 64) (value : UInt64) :
    lowBits value (high + low) = lowBits (value >>> UInt64.ofNat low) high ++ lowBits value low := by
  have hshift : (value >>> UInt64.ofNat low).toNat = value.toNat >>> low := by
    rw [UInt64.toNat_shiftRight, UInt64.toNat_ofNat_of_lt' (Nat.lt_trans hlow (by decide)), Nat.mod_eq_of_lt hlow]
  rw [← ofNat_eq_lowBits, Bits.ofNat_add, ← hshift, ofNat_eq_lowBits, ofNat_eq_lowBits]

/-- The bytes that are full when `count` bits more are written. -/
theorem bitWritePos_add_div (b : Buffer) (count : Nat) :
    (b.bitWritePos + count) / 8 = b.wpos + (b.pending.length + count) / 8 := by
  rw [bitWritePos]
  omega

/-- A field is written exactly if it has its size and the bytes it fills are under the ceiling. -/
theorem writeBits_ok_iff {b b' : Buffer} (hp : b.pending.length < 8) (value : UInt64) (count : Nat) :
    (writeBits value count).run b = .ok () b' ↔
      1 ≤ count ∧ count ≤ 64 ∧ (b.bitWritePos + count) / 8 ≤ b.limit ∧ b' = b.pushBits (lowBits value count) := by
  rw [writeBits_run _ _ hp, ofNat_eq_lowBits, bitWritePos_add_div]
  constructor
  · intro h
    split at h
    · cases h
    split at h
    · cases h
    cases h
    exact ⟨by omega, by omega, by omega, rfl⟩
  · rintro ⟨hone, hmax, hle, rfl⟩
    rw [if_neg (by omega), if_neg (by omega)]

/-- A field is written exactly if the two that it is cut into are, and it leaves what they leave. -/
theorem writeBits_add_ok_iff {b b' : Buffer} (hw : b.wpos ≤ b.size) (hp : b.pending.length < 8) (value : UInt64)
    {high low : Nat} (hhigh : 1 ≤ high) (hlow : 1 ≤ low) (hle : high + low ≤ 64) :
    (writeBits value (high + low)).run b = .ok () b' ↔
      (do writeBits (value >>> UInt64.ofNat low) high; writeBits value low).run b = .ok () b' := by
  have hfirst := wrote_pushBits (lowBits (value >>> UInt64.ofNat low) high) hw hp
  have hpos := hfirst.bitWritePos hw
  rw [length_lowBits] at hpos
  have hboth : b.pushBits (lowBits value (high + low)) =
      (b.pushBits (lowBits (value >>> UInt64.ofNat low) high)).pushBits (lowBits value low) := by
    rw [lowBits_add (by omega), pushBits, List.foldl_append]
    rfl
  rw [run_bind_ok, writeBits_ok_iff hp, hboth]
  constructor
  · rintro ⟨-, -, hroom, rfl⟩
    refine ⟨(), _, (writeBits_ok_iff hp _ _).mpr ⟨hhigh, by omega, by omega, rfl⟩, ?_⟩
    exact (writeBits_ok_iff hfirst.pending_lt _ _).mpr ⟨hlow, by omega, by rw [hpos, hfirst.limit]; omega, rfl⟩
  · rintro ⟨⟨⟩, b₁, hrun₁, hrun₂⟩
    obtain ⟨-, -, -, rfl⟩ := (writeBits_ok_iff hp _ _).mp hrun₁
    obtain ⟨-, -, hroom, rfl⟩ := (writeBits_ok_iff hfirst.pending_lt _ _).mp hrun₂
    rw [hpos, hfirst.limit] at hroom
    exact ⟨by omega, hle, by omega, rfl⟩

/-- Whatever a buffer went through, unless its write cursor stands past the
stored bytes. A field of one to sixty-four bits is written exactly if the ceiling
admits the bytes it fills. Its bits then come behind those written, the bytes
behind the write cursor and the side of the reader stay, and single bits written
in turn leave the same. Cut in two, it is written exactly if both parts are. -/
theorem writeBits_streams {b : Buffer} (reachable : Reachable b) (inside : b.wpos ≤ b.size) (value : UInt64) :
    (∀ count, 1 ≤ count → count ≤ 64 →
      ((∃ b', (writeBits value count).run b = .ok () b') ↔
        b.wpos + (b.pending.length + count) / 8 ≤ b.limit)) ∧
    (∀ count b', (writeBits value count).run b = .ok () b' →
      b'.written = b.written ++ lowBits value count ∧
      b'.bitWritePos = b.bitWritePos + count ∧ b'.pending.length < 8 ∧
      b'.contents.drop b'.wpos = b.contents.drop b'.wpos ∧
      b'.rpos = b.rpos ∧ b'.unread = b.unread ∧
      ((lowBits value count).forM writeBit).run b = .ok () b') ∧
    ∀ high low, 1 ≤ high → 1 ≤ low → high + low ≤ 64 → ∀ b',
      (writeBits value (high + low)).run b = .ok () b' ↔
        (do writeBits (value >>> UInt64.ofNat low) high; writeBits value low).run b = .ok () b' := by
  have hp := reachable.wellFormed.pending_lt
  refine ⟨?admitted, ?written, fun high low hhigh hlow hle b' =>
    writeBits_add_ok_iff inside hp value hhigh hlow hle⟩
  case admitted =>
    intro count hone hmax
    simp only [writeBits_ok_iff hp, bitWritePos_add_div, hone, hmax, true_and, exists_and_left, exists_eq, and_true]
  case written =>
    intro count b' hrun
    have hbehind := (stable_behind b).writeBits value count b ⟨le_rfl, rfl⟩
    rw [after, hrun] at hbehind
    obtain ⟨-, -, hroom, rfl⟩ := (writeBits_ok_iff hp _ _).mp hrun
    have wrote := wrote_pushBits (lowBits value count) inside hp
    have hpos := wrote.bitWritePos inside
    rw [length_lowBits] at hpos
    exact ⟨wrote.written, hpos, wrote.pending_lt, hbehind.2, wrote.rpos, wrote.unread,
      forM_writeBit_run _ hp (by rwa [length_lowBits])⟩

/-- Four stored bytes, and the write cursor back behind the first of them with three bits pending. -/
def rewound : Buffer :=
  (Operation.writeBits 5 3).after ((Operation.setWritePos 1).after
    ((Operation.append [1, 2, 3, 4]).after (.withLimit 0 4)))

/-- Nineteen bits more fill two of the bytes and leave the last as it was;
thirty-six more would pass the ceiling, of a write of four and one of thirty-two too. -/
theorem writeBits_streams_rewound :
    Reachable rewound ∧ rewound.wpos = 1 ∧ rewound.size = 4 ∧
      (∃ b', (writeBits 0x5A5A5 19).run rewound = .ok () b' ∧
        b'.written = rewound.written ++ lowBits 0x5A5A5 19 ∧ b'.contents.drop 3 = [4] ∧
        ((lowBits 0x5A5A5 19).forM writeBit).run rewound = .ok () b') ∧
      ∀ b', (do writeBits (0xFFFF >>> UInt64.ofNat 32) 4; writeBits 0xFFFF 32).run rewound ≠ .ok () b' := by
  have hreach : Reachable rewound := .step _ (.step _ (.step _ (.made (.fresh (.withLimit 0 4)))))
  obtain ⟨admitted, written, -⟩ := writeBits_streams hreach (by decide) 0x5A5A5
  obtain ⟨admitted', -, parts⟩ := writeBits_streams hreach (by decide) 0xFFFF
  refine ⟨hreach, by decide, by decide, ?_, fun b' hrun => ?_⟩
  · obtain ⟨b', hrun⟩ := (admitted 19 (by decide) (by decide)).mpr (by decide)
    obtain ⟨hwritten, hpos, hlt, hbehind, -, -, hbits⟩ := written 19 b' hrun
    have hwpos : b'.wpos = 3 := by
      have hstart : rewound.bitWritePos = 11 := by decide
      rw [hstart, bitWritePos] at hpos
      omega
    rw [hwpos] at hbehind
    exact ⟨b', hrun, hwritten, hbehind, hbits⟩
  · have hwhole := (admitted' 36 (by decide) (by decide)).mp
      ⟨b', (parts 4 32 (by decide) (by decide) (by decide) b').mpr hrun⟩
    exact absurd hwhole (by decide)

/-! ## Reading -/

/-- What was read says which buffer is left. -/
theorem Took.unique {b b₁ b₂ : Buffer} {bits : List Bool} (h₁ : Took b b₁ bits) (h₂ : Took b b₂ bits) : b₁ = b₂ := by
  have hrest : b₁.readable = b₂.readable := List.append_cancel_left (h₁.readable.symm.trans h₂.readable)
  have hw₁ : b₁.wpos = b.wpos := by rw [h₁.store]
  have hw₂ : b₂.wpos = b.wpos := by rw [h₂.store]
  -- Less than a byte of it is unread, so the number of bits left says where the cursor is.
  have hlen := congrArg List.length hrest
  rw [length_readable h₁.ordered, length_readable h₂.ordered, availableBits, availableBits, remaining,
    remaining] at hlen
  have hu₁ := h₁.unread_lt
  have hu₂ := h₂.unread_lt
  have hr₁ := h₁.ordered.rpos_le
  have hr₂ := h₂.ordered.rpos_le
  have hrpos : b₁.rpos = b₂.rpos := by omega
  have hunread : b₁.unread = b₂.unread := List.append_inj_left hrest (by omega)
  rw [h₁.store, h₂.store, hrpos, hunread]

/-- A field that is not all there is refused with the bytes past the read cursor that it asks for. -/
theorem readBits_short {b : Buffer} (ho : b.Ordered) {count : Nat} (hone : 1 ≤ count) (hmax : count ≤ 64)
    (hlt : b.readable.length < count) :
    (readBits count).run b =
      .error (.refused (.position b.rpos b.wpos ((count - b.unread.length + 7) / 8))) b := by
  rw [length_readable ho] at hlt
  have hasked : b.remaining + (count - b.availableBits + 7) / 8 = (count - b.unread.length + 7) / 8 := by
    unfold availableBits at hlt ⊢
    omega
  rw [readBits_run_of_le ho.rpos_le, if_neg (by omega), if_pos hlt, hasked]

/-- A field is the two that it is cut into. -/
theorem readBits_add {b : Buffer} (ho : b.Ordered) (hu : b.unread.length < 8) {high low : Nat} (hhigh : 1 ≤ high)
    (hlow : 1 ≤ low) (hmax : high + low ≤ 64) (hle : high + low ≤ b.readable.length) :
    ∃ v x y b₁ b', (readBits (high + low)).run b = .ok v b' ∧
      (readBits high).run b = .ok x b₁ ∧ (readBits low).run b₁ = .ok y b' ∧
      v.toNat = x.toNat * 2 ^ low + y.toNat := by
  obtain ⟨v, b', hrun, hv, took⟩ := readBits_front ho hu (by omega) hmax hle
  obtain ⟨x, b₁, hrun₁, hx, took₁⟩ := readBits_front ho hu hhigh (by omega) (by omega)
  have hrest : low ≤ b₁.readable.length := by
    rw [took₁.readable_eq_drop, List.length_drop]
    omega
  obtain ⟨y, b₂, hrun₂, hy, took₂⟩ := readBits_front took₁.ordered took₁.unread_lt hlow (by omega) hrest
  have hsplit : b.readable.take (high + low) = b.readable.take high ++ b₁.readable.take low := by
    rw [List.take_add, took₁.readable_eq_drop]
  rw [hsplit] at took
  obtain rfl : b' = b₂ := took.unique (took₁.trans took₂)
  refine ⟨v, x, y, b₁, b', hrun, hrun₁, hrun₂, ?_⟩
  rw [hv, hsplit, Bits.toNat_append, List.length_take_of_le hrest, hx, hy]

/-- Whatever a buffer went through, unless its write cursor stands past the
stored bytes. A field of one to sixty-four bits that is all left to read is the
number of the bits in front, and what follows them is left; one that is not is
refused with the bytes it asks for. Cut in two, it is the number of the two parts. -/
theorem readBits_streams {b : Buffer} (reachable : Reachable b) (inside : b.wpos ≤ b.size) :
    (∀ count, 1 ≤ count → count ≤ 64 →
      (count ≤ b.readable.length →
        ∃ v b', (readBits count).run b = .ok v b' ∧ v.toNat = Bits.toNat (b.readable.take count) ∧
          b'.readable = b.readable.drop count ∧ b' = { b with rpos := b'.rpos, unread := b'.unread }) ∧
      (b.readable.length < count → (readBits count).run b =
        .error (.refused (.position b.rpos b.wpos ((count - b.unread.length + 7) / 8))) b)) ∧
    ∀ high low, 1 ≤ high → 1 ≤ low → high + low ≤ 64 → high + low ≤ b.readable.length →
      ∃ v x y b₁ b', (readBits (high + low)).run b = .ok v b' ∧
        (readBits high).run b = .ok x b₁ ∧ (readBits low).run b₁ = .ok y b' ∧
        v.toNat = x.toNat * 2 ^ low + y.toNat := by
  have ho : b.Ordered := ⟨reachable.wellFormed.rpos_le, inside⟩
  have hu := reachable.wellFormed.unread_lt
  refine ⟨fun count hone hmax => ⟨fun hle => ?_, readBits_short ho hone hmax⟩,
    fun high low hhigh hlow hmax hle => readBits_add ho hu hhigh hlow hmax hle⟩
  obtain ⟨v, b', hrun, hv, took⟩ := readBits_front ho hu hone hmax hle
  exact ⟨v, b', hrun, hv, took.readable_eq_drop, took.store⟩

/-- Two received bytes, three bits of the first read. -/
def begunByte : Buffer := (Operation.readBits 3).after ⟨[0xA5, 0xC3], 0, 2, [], [], 2, maxPayloadSize⟩

/-- Thirteen bits are left, and are read as five and eight; fourteen would take
two bytes from the read cursor on, where one is. -/
theorem readBits_streams_begunByte :
    Reachable begunByte ∧ begunByte.readable.length = 13 ∧
      (∃ v x y b₁ b', (readBits 13).run begunByte = .ok v b' ∧
        (readBits 5).run begunByte = .ok x b₁ ∧ (readBits 8).run b₁ = .ok y b' ∧
        v.toNat = x.toNat * 2 ^ 8 + y.toNat) ∧
      (readBits 14).run begunByte = .error (.refused (.position 1 2 2)) begunByte := by
  have hreach : Reachable begunByte := .step _ (.made (.ofBytes [0xA5, 0xC3] rfl))
  obtain ⟨whole, parts⟩ := readBits_streams hreach (by decide)
  exact ⟨hreach, by decide, parts 5 8 (by decide) (by decide) (by decide) (by decide),
    (whole 14 (by decide) (by decide)).2 (by decide)⟩

end PacketWire.Buffer
