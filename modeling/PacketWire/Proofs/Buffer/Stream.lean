/-
A buffer as two streams of bits.

`written` is what lies before the write cursor, pending bits included, and
`readable` what is left before it for the reader, the rest of a byte begun
included. A write appends to the one (`Wrote`) and a read takes from the front
of the other (`Took`); the zeros that a flush pads with are bits like any
others. Bytes and cursors play no part in what is proved from these.
-/
import PacketWire.Proofs.Buffer.Reachable

namespace PacketWire.Buffer

/-- The bits before the write cursor, pending ones included. -/
def written (b : Buffer) : List Bool := Bits.ofBytes (b.contents.take b.wpos) ++ b.pending

/-- The bits that are left to read before the write cursor. -/
def readable (b : Buffer) : List Bool := b.unread ++ Bits.ofBytes b.between

/-- The zeros that fill a byte after `pos` bits. -/
def padding (pos : Nat) : List Bool := List.replicate ((8 - pos % 8) % 8) false

theorem length_padding (pos : Nat) : (padding pos).length = (8 - pos % 8) % 8 := List.length_replicate

theorem length_written {b : Buffer} (h : b.wpos ≤ b.size) : b.written.length = b.bitWritePos := by
  have htake : (b.contents.take b.wpos).length = b.wpos := List.length_take_of_le h
  rw [written, List.length_append, Bits.length_ofBytes, htake, bitWritePos]

theorem length_between {b : Buffer} (h : b.Ordered) : b.between.length = b.remaining :=
  length_bytesAt (by have := h.rpos_le; have := h.wpos_le; unfold remaining; omega)

theorem length_readable {b : Buffer} (h : b.Ordered) : b.readable.length = b.availableBits := by
  rw [readable, List.length_append, Bits.length_ofBytes, length_between h, availableBits]

/-! ## Writing -/

/-- From `b` to `b'` these bits were written, and nothing was read. -/
structure Wrote (b b' : Buffer) (bits : List Bool) : Prop where
  written : b'.written = b.written ++ bits
  wpos_le : b'.wpos ≤ b'.size
  pending_lt : b'.pending.length < 8
  rpos : b'.rpos = b.rpos
  unread : b'.unread = b.unread
  limit : b'.limit = b.limit

theorem Wrote.refl {b : Buffer} (hw : b.wpos ≤ b.size) (hp : b.pending.length < 8) : Wrote b b [] :=
  ⟨(List.append_nil _).symm, hw, hp, rfl, rfl, rfl⟩

theorem Wrote.trans {b b₁ b₂ : Buffer} {bits₁ bits₂ : List Bool} (h₁ : Wrote b b₁ bits₁)
    (h₂ : Wrote b₁ b₂ bits₂) : Wrote b b₂ (bits₁ ++ bits₂) where
  written := by rw [h₂.written, h₁.written, List.append_assoc]
  wpos_le := h₂.wpos_le
  pending_lt := h₂.pending_lt
  rpos := h₂.rpos.trans h₁.rpos
  unread := h₂.unread.trans h₁.unread
  limit := h₂.limit.trans h₁.limit

theorem Wrote.bitWritePos {b b' : Buffer} {bits : List Bool} (h : Wrote b b' bits)
    (hw : b.wpos ≤ b.size) : b'.bitWritePos = b.bitWritePos + bits.length := by
  rw [← length_written h.wpos_le, h.written, List.length_append, length_written hw]

theorem contents_place {b : Buffer} (h : b.wpos ≤ b.size) (src : List UInt8) :
    (b.place src).contents = overwrite b.contents b.wpos src := by
  rw [place, Nat.sub_eq_zero_of_le h, List.replicate_zero, List.append_nil]

theorem take_contents_place {b : Buffer} (h : b.wpos ≤ b.size) (src : List UInt8) :
    (b.place src).contents.take (b.wpos + src.length) = b.contents.take b.wpos ++ src := by
  rw [contents_place h, take_overwrite h]

theorem wrote_place {b : Buffer} (h : b.wpos ≤ b.size) (hp : b.pending = []) (src : List UInt8) :
    Wrote b (b.place src) (Bits.ofBytes src) where
  written := by
    rw [written, wpos_place, take_contents_place h, pending_place, written, hp]
    simp
  wpos_le := by rw [size_place, wpos_place]; omega
  pending_lt := by simp [hp]
  rpos := rfl
  unread := rfl
  limit := rfl

/-- Bits that are placed as a byte are written with the zeros that fill it. -/
theorem wrote_placeBits {b : Buffer} {bits : List Bool} (h : b.wpos ≤ b.size)
    (hsome : b.pending ++ bits ≠ []) (hlen : (b.pending ++ bits).length ≤ 8) :
    Wrote b (b.placeBits (b.pending ++ bits)) (bits ++ padding (b.pending.length + bits.length)) where
  written := by
    have hpos := List.length_pos_iff.mpr hsome
    have htake := take_contents_place (b := { b with pending := [] }) h [Bits.toByte (b.pending ++ bits)]
    simp only [List.length_singleton] at htake
    rw [written, wpos_placeBits, placeBits, htake, pending_place, written, Bits.ofBytes_append]
    have hbyte : Bits.ofBytes [Bits.toByte (b.pending ++ bits)] =
        (b.pending ++ bits) ++ padding (b.pending.length + bits.length) := by
      rw [List.length_append] at hpos hlen
      have hfill : (8 - (b.pending.length + bits.length) % 8) % 8 =
          8 - (b.pending.length + bits.length) := by omega
      rw [Bits.ofBytes_cons, Bits.ofBytes, List.flatMap_nil, List.append_nil,
        Bits.ofByte_toByte_pad (by simpa using hlen), padding, hfill, List.length_append]
    rw [hbyte]
    simp
  wpos_le := by rw [size_placeBits, wpos_placeBits]; omega
  pending_lt := by simp
  rpos := rfl
  unread := rfl
  limit := rfl

theorem wrote_flushed {b : Buffer} (h : b.wpos ≤ b.size) (hp : b.pending.length < 8) :
    Wrote b b.flushed (padding b.bitWritePos) := by
  have hmod : padding b.bitWritePos = padding b.pending.length := by
    unfold padding bitWritePos
    rw [Nat.mul_add_mod]
  rw [hmod]
  by_cases hnil : b.pending = []
  · rw [flushed_of_nil hnil, hnil]
    exact .refl h hp
  · have hplace : Wrote b (b.placeBits (b.pending ++ [])) ([] ++ padding (b.pending.length + 0)) :=
      wrote_placeBits h (by simpa using hnil) (by simpa using hp.le)
    simpa [flushed, hnil] using hplace

/-- The first whole byte that no pending bit reaches. -/
theorem ceil_bitWritePos {b : Buffer} (hp : b.pending.length < 8) :
    (b.bitWritePos + 7) / 8 = b.wpos + b.flushSize := by
  rw [bitWritePos]
  by_cases hnil : b.pending = []
  · rw [flushSize_of_nil hnil, hnil, List.length_nil]
    omega
  · have := List.length_pos_iff.mpr hnil
    rw [flushSize_of_ne hnil]
    omega

/-- A byte-aligned write fills the byte begun and adds its run. -/
theorem wrote_flushed_place {b : Buffer} (h : b.wpos ≤ b.size) (hp : b.pending.length < 8)
    (src : List UInt8) :
    Wrote b (b.flushed.place src) (padding b.bitWritePos ++ Bits.ofBytes src) :=
  have hflush := wrote_flushed h hp
  hflush.trans (wrote_place hflush.wpos_le (pending_flushed b) src)

theorem wrote_pushBit {b : Buffer} (h : b.wpos ≤ b.size) (hp : b.pending.length < 8) (bit : Bool) :
    Wrote b (b.pushBit bit) [bit] := by
  unfold pushBit
  split
  next hlt => exact ⟨by simp [written], h, by simpa using hlt, rfl, rfl, rfl⟩
  next hfull =>
    have hplace : Wrote b (b.placeBits (b.pending ++ [bit]))
        ([bit] ++ padding (b.pending.length + [bit].length)) :=
      wrote_placeBits h (by simp) (by simp; omega)
    have height : b.pending.length + [bit].length = 8 := by simp; omega
    rw [height] at hplace
    exact hplace

theorem wrote_pushBits : ∀ (bits : List Bool) {b : Buffer}, b.wpos ≤ b.size → b.pending.length < 8 →
    Wrote b (b.pushBits bits) bits
  | [], _, h, hp => .refl h hp
  | bit :: bits, _, h, hp =>
    have hbit := wrote_pushBit h hp bit
    hbit.trans (wrote_pushBits bits hbit.wpos_le hbit.pending_lt)

/-! ## Reading -/

/-- From `b` to `b'` these bits were read, and nothing was written. -/
structure Took (b b' : Buffer) (bits : List Bool) : Prop where
  readable : b.readable = bits ++ b'.readable
  store : b' = { b with rpos := b'.rpos, unread := b'.unread }
  ordered : b'.Ordered
  unread_lt : b'.unread.length < 8

theorem Took.refl {b : Buffer} (ho : b.Ordered) (hu : b.unread.length < 8) : Took b b [] :=
  ⟨rfl, rfl, ho, hu⟩

theorem Took.trans {b b₁ b₂ : Buffer} {bits₁ bits₂ : List Bool} (h₁ : Took b b₁ bits₁)
    (h₂ : Took b₁ b₂ bits₂) : Took b b₂ (bits₁ ++ bits₂) where
  readable := by rw [h₁.readable, h₂.readable, List.append_assoc]
  store := by rw [h₂.store, h₁.store]
  ordered := h₂.ordered
  unread_lt := h₂.unread_lt

theorem between_eq_append {b : Buffer} {len : Nat} (hle : b.rpos + len ≤ b.wpos) :
    b.between = b.bytesAt b.rpos len ++ (b.passed len).between := by
  have hlen : b.wpos - b.rpos = len + (b.wpos - (b.rpos + len)) := by omega
  simp only [between, bytesAt, passed, remaining]
  rw [hlen, List.take_add, List.drop_drop]

theorem take_between {b : Buffer} (ho : b.Ordered) {len : Nat} (hle : b.rpos + len ≤ b.wpos) :
    b.between.take len = b.bytesAt b.rpos len := by
  rw [between_eq_append hle, List.take_left' (length_bytesAt (Nat.le_trans hle ho.wpos_le))]

/-- A byte-aligned read takes the rest of a byte begun, and its own bytes. -/
theorem took_passed {b : Buffer} {len : Nat} (ho : b.Ordered) (hle : b.rpos + len ≤ b.wpos) :
    Took b (b.passed len) (b.unread ++ Bits.ofBytes (b.bytesAt b.rpos len)) where
  readable := by
    simp only [readable, between_eq_append hle, Bits.ofBytes_append, List.append_assoc]
    rfl
  store := rfl
  ordered := ⟨hle, ho.wpos_le⟩
  unread_lt := by simp [passed]

/-- What is left to read of a byte begun is as long as what would fill it. -/
theorem length_unread_eq {b : Buffer} (ho : b.Ordered) (hu : b.unread.length < 8) {pos : Nat}
    (haligned : (pos + b.readable.length) % 8 = 0) : b.unread.length = (padding pos).length := by
  rw [length_readable ho, availableBits] at haligned
  rw [length_padding]
  omega

/-- Where the zeros that fill a byte and the bits of a run come next, the byte
begun is those zeros and the run is next between the cursors. -/
theorem aligned_between {b : Buffer} (ho : b.Ordered) (hu : b.unread.length < 8) {pos : Nat}
    (haligned : (pos + b.readable.length) % 8 = 0) {run : List UInt8} {rest : List Bool}
    (h : b.readable = padding pos ++ Bits.ofBytes run ++ rest) :
    b.unread = padding pos ∧ ∃ tail, b.between = run ++ tail := by
  rw [readable, List.append_assoc] at h
  obtain ⟨hunread, hbetween⟩ := List.append_inj h (length_unread_eq ho hu haligned)
  obtain ⟨tail, htail, -⟩ := Bits.eq_append_of_ofBytes hbetween
  exact ⟨hunread, tail, htail⟩

/-- The next bit comes from the byte begun, or from a byte that is begun for it. -/
theorem readBit_took {b : Buffer} (ho : b.Ordered) (hu : b.unread.length < 8) {bit : Bool}
    {rest : List Bool} (h : b.readable = bit :: rest) :
    ∃ b', readBit.run b = .ok bit b' ∧ Took b b' [bit] := by
  rw [readBit_run]
  cases hunread : b.unread with
  | cons bit' rest' =>
    have hbit : bit' = bit := by
      rw [readable, hunread, List.cons_append] at h
      exact (List.cons.inj h).1
    subst hbit
    refine ⟨_, rfl, ?_, rfl, ⟨ho.rpos_le, ho.wpos_le⟩, ?_⟩
    · rw [readable, hunread]
      rfl
    · rw [hunread, List.length_cons] at hu
      exact Nat.lt_of_succ_lt hu
  | nil =>
    have hpos : b.rpos < b.wpos := by
      have hlen := congrArg List.length h
      rw [length_readable ho, availableBits, hunread, List.length_nil, List.length_cons] at hlen
      unfold remaining at hlen
      omega
    have hsize : b.rpos < b.contents.length := Nat.lt_of_lt_of_le hpos ho.wpos_le
    have hbyte : b.bytesAt b.rpos 1 = [b.contents[b.rpos]] := by
      rw [bytesAt, List.drop_eq_getElem_cons hsize]
      rfl
    have hsplit : b.readable = b.contents[b.rpos].toNat.testBit 7 ::
        ((Bits.ofByte b.contents[b.rpos]).tail ++ Bits.ofBytes (b.passed 1).between) := by
      have hbetween : b.between = b.bytesAt b.rpos 1 ++ (b.passed 1).between := between_eq_append hpos
      rw [readable, hbetween, hbyte, hunread, Bits.ofBytes_append]
      simp [Bits.ofBytes, Bits.ofByte, Bits.ofNat]
    obtain ⟨rfl, -⟩ := List.cons.inj (h.symm.trans hsplit)
    rw [if_neg (by omega), List.getElem?_eq_getElem hsize]
    exact ⟨_, rfl, hsplit, rfl, ⟨hpos, ho.wpos_le⟩, by simp⟩

theorem takeBits_took : ∀ (bits : List Bool) {b : Buffer} {rest : List Bool}, b.Ordered →
    b.unread.length < 8 → b.readable = bits ++ rest →
    ∃ b', (takeBits bits.length).run b = .ok bits b' ∧ Took b b' bits
  | [], b, _, ho, hu, _ => ⟨b, rfl, .refl ho hu⟩
  | bit :: bits, b, rest, ho, hu, h => by
    obtain ⟨b₁, hbit, took₁⟩ := readBit_took ho hu h
    have hnext : b₁.readable = bits ++ rest :=
      (List.cons.inj (took₁.readable.symm.trans h)).2
    obtain ⟨b₂, hbits, took₂⟩ := takeBits_took bits took₁.ordered took₁.unread_lt hnext
    refine ⟨b₂, ?_, took₁.trans took₂⟩
    rw [List.length_cons, takeBits_succ_run, hbit]
    simp only [hbits]

theorem readBits_took {b : Buffer} (ho : b.Ordered) (hu : b.unread.length < 8) {bits rest : List Bool}
    (hone : 1 ≤ bits.length) (hmax : bits.length ≤ 64) (h : b.readable = bits ++ rest) :
    ∃ b', (readBits bits.length).run b = .ok (UInt64.ofNat (Bits.toNat bits)) b' ∧ Took b b' bits := by
  obtain ⟨b', hbits, took⟩ := takeBits_took bits ho hu h
  have havail := congrArg List.length h
  rw [length_readable ho, List.length_append] at havail
  refine ⟨b', ?_, took⟩
  rw [readBits_run_of_le ho.rpos_le, if_neg (by omega), if_neg (by omega), hbits]

/-- A bit field that is there is the number of the bits in front. -/
theorem readBits_front {b : Buffer} (ho : b.Ordered) (hu : b.unread.length < 8) {count : Nat} (hone : 1 ≤ count)
    (hmax : count ≤ 64) (hle : count ≤ b.readable.length) :
    ∃ v b', (readBits count).run b = .ok v b' ∧ v.toNat = Bits.toNat (b.readable.take count) ∧
      Took b b' (b.readable.take count) := by
  have hlen : (b.readable.take count).length = count := List.length_take_of_le hle
  have hsplit : b.readable = b.readable.take count ++ b.readable.drop count :=
    (List.take_append_drop count b.readable).symm
  obtain ⟨b', hrun, took⟩ := readBits_took ho hu (by omega) (by omega) hsplit
  rw [hlen] at hrun
  exact ⟨_, b', hrun, Bits.toNat_word (by omega), took⟩

theorem Took.readable_eq_drop {b b' : Buffer} {count : Nat} (took : Took b b' (b.readable.take count)) :
    b'.readable = b.readable.drop count := by
  have hsplit := took.readable
  rw [← List.append_cancel_left_eq (b.readable.take count), ← hsplit, List.take_append_drop]

/-! ## Reading what was written -/

theorem readable_eq_written {b : Buffer} (hr : b.rpos = 0) (hu : b.unread = []) (hp : b.pending = []) :
    b.readable = b.written := by
  simp [readable, written, between, bytesAt, remaining, hr, hu, hp]

/-- Whole bytes that are written to a buffer made without any are all that is
before its write cursor, and no bits wait. -/
theorem Wrote.written_eq {b b' : Buffer} {bits : List Bool} (h : Wrote b b' bits) (made : Made b)
    (empty : b.isEmpty) (whole : bits.length % 8 = 0) : b'.written = bits ∧ b'.pending = [] := by
  obtain ⟨capacity, limit, rfl⟩ := made.eq_of_isEmpty empty
  have hwritten : b'.written = bits := h.written
  have hlen := length_written h.wpos_le
  have hlt := h.pending_lt
  rw [hwritten, Buffer.bitWritePos] at hlen
  exact ⟨hwritten, List.eq_nil_of_length_eq_zero (by omega)⟩

/-- They are what there is to read. -/
theorem Wrote.readable_eq {b b' : Buffer} {bits : List Bool} (h : Wrote b b' bits) (made : Made b)
    (empty : b.isEmpty) (whole : bits.length % 8 = 0) :
    b'.readable = bits ∧ b'.Ordered ∧ b'.unread = [] := by
  obtain ⟨hwritten, hpending⟩ := h.written_eq made empty whole
  obtain ⟨capacity, limit, rfl⟩ := made.eq_of_isEmpty empty
  have hrpos : b'.rpos = 0 := h.rpos
  have hunread : b'.unread = [] := h.unread
  refine ⟨?_, ⟨by omega, h.wpos_le⟩, hunread⟩
  rw [readable_eq_written hrpos hunread hpending, hwritten]

end PacketWire.Buffer
