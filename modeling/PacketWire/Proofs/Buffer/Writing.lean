/-
How each write ends, as an equation: the causes it is refused for in the order
they are looked at, and the buffer that it leaves otherwise.

A composite write checks the ceiling once for all that it stores. That the
checks inside it then pass is proved here (`forM_writeBit_run`, `append_run`,
`writeTerminated_run`), and that its steps are in range: the bytes that it goes
over are stored by then (`appendRaw_run`), a bit count that was admitted shifts
by less than a word (`writeBits_eq`, `putBits_run`). Only a bit that finds no
place in its byte aborts (`writeBit_run`). Nothing else has to look into a write
again.
-/
import PacketWire.Proofs.Bits
import PacketWire.Proofs.Buffer.Outcome
import PacketWire.Proofs.Value

namespace PacketWire.Buffer

open Text

/-! ## What a placed run leaves -/

/-- The buffer with `src` stored at the write cursor, over what is there, and
the cursor past it. Bytes that the cursor passed over without storing them are zeros. -/
def place (b : Buffer) (src : List UInt8) : Buffer :=
  let stop := b.wpos + src.length
  let padded := b.contents ++ List.replicate (b.wpos - b.size) 0
  { b with
    contents := overwrite padded b.wpos src
    wpos := stop
    capacity := grow b.capacity b.size stop }

/-- The buffer with `bits` stored as one byte and none pending. -/
def placeBits (b : Buffer) (bits : List Bool) : Buffer :=
  place { b with pending := [] } [Bits.toByte bits]

@[simp] theorem rpos_place (b : Buffer) (src : List UInt8) : (b.place src).rpos = b.rpos := rfl
@[simp] theorem wpos_place (b : Buffer) (src : List UInt8) :
    (b.place src).wpos = b.wpos + src.length := rfl
@[simp] theorem pending_place (b : Buffer) (src : List UInt8) : (b.place src).pending = b.pending := rfl
@[simp] theorem unread_place (b : Buffer) (src : List UInt8) : (b.place src).unread = b.unread := rfl
@[simp] theorem limit_place (b : Buffer) (src : List UInt8) : (b.place src).limit = b.limit := rfl

theorem size_place (b : Buffer) (src : List UInt8) :
    (b.place src).size = max b.size (b.wpos + src.length) := by
  have hpad : (b.contents ++ List.replicate (b.wpos - b.size) 0).length = max b.size b.wpos := by
    simp only [List.length_append, List.length_replicate, size]
    omega
  rw [size, place, length_overwrite (by rw [hpad]; exact Nat.le_max_right ..), hpad]
  omega

@[simp] theorem rpos_placeBits (b : Buffer) (bits : List Bool) : (b.placeBits bits).rpos = b.rpos := rfl
@[simp] theorem wpos_placeBits (b : Buffer) (bits : List Bool) :
    (b.placeBits bits).wpos = b.wpos + 1 := rfl
@[simp] theorem pending_placeBits (b : Buffer) (bits : List Bool) :
    (b.placeBits bits).pending = [] := rfl
@[simp] theorem unread_placeBits (b : Buffer) (bits : List Bool) :
    (b.placeBits bits).unread = b.unread := rfl
@[simp] theorem limit_placeBits (b : Buffer) (bits : List Bool) :
    (b.placeBits bits).limit = b.limit := rfl

theorem size_placeBits (b : Buffer) (bits : List Bool) :
    (b.placeBits bits).size = max b.size (b.wpos + 1) := size_place _ _

/-! ## Storing -/

theorem store_run {start stop : Nat} {src : List UInt8} {b : Buffer} (hlen : start + src.length = stop)
    (hstop : stop ≤ b.size) :
    (store start stop src).run b = .ok () { b with contents := overwrite b.contents start src } := by
  have hrange : start ≤ stop ∧ stop ≤ b.size ∧ stop - start = src.length := by omega
  simp only [store, EStateM.run_bind, EStateM.run_get, demand_run, hrange, and_self, if_true, EStateM.run_set]

theorem le_size_extend (b : Buffer) (total : Nat) : total ≤ (b.extend total).size := by
  simp only [extend, size, List.length_append, List.length_replicate]
  omega

/-- Zeros behind the run's place are all gone over. -/
theorem overwrite_extend (b : Buffer) (src : List UInt8) :
    overwrite (b.extend (b.wpos + src.length)).contents b.wpos src =
      overwrite (b.contents ++ List.replicate (b.wpos - b.size) 0) b.wpos src := by
  have hbehind : ∀ n, n ≤ b.wpos + src.length - b.size →
      (List.replicate n (0 : UInt8)).drop (b.wpos + src.length - b.contents.length) = [] :=
    fun n hn => List.drop_of_length_le (by rw [List.length_replicate]; exact hn)
  simp only [overwrite, extend, List.take_append, List.take_replicate, List.drop_append]
  rw [hbehind _ (Nat.le_refl _), hbehind _ (by omega)]
  congr 4
  unfold size
  omega

theorem appendRaw_run (src : List UInt8) (b : Buffer) : (appendRaw src).run b = .ok () (b.place src) := by
  have hstored := le_size_extend b (b.wpos + src.length)
  simp only [appendRaw, EStateM.run_bind, EStateM.run_get, EStateM.run_modify, store_run rfl hstored,
    overwrite_extend]
  rfl

theorem appendByte_run (bits : List Bool) (b : Buffer) : (appendByte bits).run b = .ok () (b.placeBits bits) := by
  simp only [appendByte, EStateM.run_bind, EStateM.run_modify, appendRaw_run]
  rfl

/-! ## Writing bits -/

/-- The buffer after a flush that the ceiling admits. -/
def flushed (b : Buffer) : Buffer := if b.pending = [] then b else b.placeBits b.pending

/-- The buffer with one bit more, as a byte if it is the eighth. -/
def pushBit (b : Buffer) (bit : Bool) : Buffer :=
  if b.pending.length + 1 < 8 then { b with pending := b.pending ++ [bit] }
  else b.placeBits (b.pending ++ [bit])

/-- The buffer with these bits more. -/
def pushBits (b : Buffer) (bits : List Bool) : Buffer := bits.foldl pushBit b

theorem flushed_of_nil {b : Buffer} (h : b.pending = []) : b.flushed = b := if_pos h

theorem flushSize_of_nil {b : Buffer} (h : b.pending = []) : b.flushSize = 0 := by simp [flushSize, h]

theorem flushSize_of_ne {b : Buffer} (h : b.pending ≠ []) : b.flushSize = 1 := by simp [flushSize, h]

@[simp] theorem pending_flushed (b : Buffer) : b.flushed.pending = [] := by
  unfold flushed
  split
  · assumption
  · rfl

@[simp] theorem rpos_flushed (b : Buffer) : b.flushed.rpos = b.rpos := by unfold flushed; split <;> rfl
@[simp] theorem unread_flushed (b : Buffer) : b.flushed.unread = b.unread := by
  unfold flushed; split <;> rfl
@[simp] theorem limit_flushed (b : Buffer) : b.flushed.limit = b.limit := by unfold flushed; split <;> rfl

@[simp] theorem wpos_flushed (b : Buffer) : b.flushed.wpos = b.wpos + b.flushSize := by
  by_cases h : b.pending = []
  · rw [flushed_of_nil h, flushSize_of_nil h, Nat.add_zero]
  · rw [flushed, if_neg h, flushSize_of_ne h, wpos_placeBits]

theorem flushBits_run (b : Buffer) :
    flushBits.run b =
      if b.pending ≠ [] ∧ b.limit < b.wpos + 1 then
        .error (.refused (.capacityExceeded (b.wpos + 1) b.limit)) b
      else .ok () b.flushed := by
  simp only [flushBits, EStateM.run_bind, EStateM.run_get, hasPendingBits, flushed]
  by_cases hp : b.pending = []
  · simp [hp]
  · by_cases hl : b.limit < b.wpos + 1 <;> simp [hp, hl, checkLimit_run, appendByte_run]

/-- A bit for which there is no place in the byte aborts. -/
theorem writeBit_run (bit : Bool) (b : Buffer) :
    (writeBit bit).run b =
      if 8 ≤ b.pending.length then .error .overrun b
      else if 8 ≤ b.pending.length + 1 ∧ b.limit < b.wpos + 1 then
        .error (.refused (.capacityExceeded (b.wpos + 1) b.limit)) b
      else .ok () (b.pushBit bit) := by
  simp only [writeBit, EStateM.run_bind, EStateM.run_get]
  rcases Nat.lt_trichotomy b.vacant 1 with hfull | hlast | hroom
  · have hpending : 8 ≤ b.pending.length := by
      unfold vacant at hfull
      omega
    simp [Nat.ne_of_lt hfull, hfull, subtract_run, hpending]
  · have hpending : b.pending.length = 7 := by
      unfold vacant at hlast
      omega
    by_cases hl : b.limit < b.wpos + 1
    · simp [hlast, hpending, hl, checkLimit_run]
    · simp [hlast, hpending, hl, checkLimit_run, subtract_run, demand_run, appendByte_run, pushBit]
  · have hpending : b.pending.length + 1 < 8 := by
      unfold vacant at hroom
      omega
    have hplace : ¬ 8 ≤ b.pending.length := by omega
    have hshift : bit → b.vacant - 1 < 8 := fun _ => by
      unfold vacant
      omega
    have hmore : b.vacant - 1 ≠ 0 := by omega
    simp [Nat.ne_of_gt hroom, Nat.le_of_lt hroom, subtract_of_le, demand_of hshift, hmore, hplace, hpending,
      Nat.not_le.mpr hpending, pushBit]

theorem writeBit_run_of_lt {b : Buffer} (h : b.pending.length < 8) (bit : Bool) :
    (writeBit bit).run b =
      if 8 ≤ b.pending.length + 1 ∧ b.limit < b.wpos + 1 then
        .error (.refused (.capacityExceeded (b.wpos + 1) b.limit)) b
      else .ok () (b.pushBit bit) := by
  rw [writeBit_run, if_neg (Nat.not_le.mpr h)]

theorem pending_pushBit_lt {b : Buffer} (bit : Bool) : (b.pushBit bit).pending.length < 8 := by
  unfold pushBit
  split
  · simpa using ‹_›
  · simp

@[simp] theorem limit_pushBit (b : Buffer) (bit : Bool) : (b.pushBit bit).limit = b.limit := by
  unfold pushBit; split <;> rfl

/-- A bit moves the write cursor by one, pending bits counted. -/
theorem bitWritePos_pushBit {b : Buffer} (h : b.pending.length < 8) (bit : Bool) :
    (b.pushBit bit).bitWritePos = b.bitWritePos + 1 := by
  unfold pushBit bitWritePos
  split
  · simp only [List.length_append, List.length_singleton]
    omega
  · simp only [wpos_placeBits, pending_placeBits, List.length_nil]
    omega

/-- Bits that complete no byte past the ceiling are all taken. -/
theorem forM_writeBit_run : ∀ (bits : List Bool) {b : Buffer}, b.pending.length < 8 →
    (b.bitWritePos + bits.length) / 8 ≤ b.limit → (bits.forM writeBit).run b = .ok () (b.pushBits bits)
  | [], _, _, _ => rfl
  | bit :: bits, b, hp, hroom => by
    have hpos := bitWritePos_pushBit hp bit
    have hbit : (writeBit bit).run b = .ok () (b.pushBit bit) := by
      rw [writeBit_run_of_lt hp, if_neg]
      simp only [List.length_cons, bitWritePos] at hroom
      omega
    have ih := forM_writeBit_run bits (b := b.pushBit bit) (pending_pushBit_lt bit)
      (by rw [hpos, limit_pushBit]; simp only [List.length_cons] at hroom; omega)
    rw [List.forM_eq_forM, List.forM_cons, run_bind_of_ok hbit, ← List.forM_eq_forM, ih]
    rfl

/-- Sixty-four bits of a word at most are found at their places. -/
theorem writeLowBits_eq (value : UInt64) : ∀ {count : Nat}, count ≤ 64 →
    writeLowBits value count = (Bits.ofNat count value.toNat).forM writeBit
  | 0, _ => rfl
  | count + 1, h => by
    rw [writeLowBits, bitOfWord_of_lt h, pure_bind, writeLowBits_eq value (Nat.le_of_succ_le h)]
    rfl

/-- A bit field is its bits in turn, once its count and the ceiling admit it. -/
theorem writeBits_eq (value : UInt64) (count : Nat) :
    writeBits value count = (do
      checkBitCount count
      let b ← get
      checkLimit ((b.pending.length + count) / 8)
      (Bits.ofNat count value.toNat).forM writeBit) := by
  by_cases hcount : count = 0 ∨ 64 < count
  · have hrefused : checkBitCount count = refuse (.bitCount count) := if_pos hcount
    rw [writeBits, hrefused]
    rfl
  · rw [writeBits, writeLowBits_eq value (by omega)]

theorem writeBits_run (value : UInt64) (count : Nat) {b : Buffer} (hp : b.pending.length < 8) :
    (writeBits value count).run b =
      if count = 0 ∨ 64 < count then .error (.refused (.bitCount count)) b
      else if b.limit < b.wpos + (b.pending.length + count) / 8 then
        .error (.refused (.capacityExceeded (b.wpos + (b.pending.length + count) / 8) b.limit)) b
      else .ok () (b.pushBits (Bits.ofNat count value.toNat)) := by
  simp only [writeBits_eq, EStateM.run_bind, checkBitCount_run]
  by_cases hcount : count = 0 ∨ 64 < count
  · simp [hcount]
  · simp only [hcount, if_false, EStateM.run_get, checkLimit_run]
    by_cases hl : b.limit < b.wpos + (b.pending.length + count) / 8
    · simp [hl]
    · simp only [hl, if_false]
      exact forM_writeBit_run _ hp (by simp only [Bits.length_ofNat, bitWritePos]; omega)

/-! ## Writing bytes -/

theorem append_run (src : List UInt8) (b : Buffer) :
    (append src).run b =
      if src = [] then .error (.refused (.zeroSizedWrite b.wpos b.size)) b
      else if b.limit < b.wpos + (b.flushSize + src.length) then
        .error (.refused (.capacityExceeded (b.wpos + (b.flushSize + src.length)) b.limit)) b
      else .ok () (b.flushed.place src) := by
  simp only [append, EStateM.run_bind, EStateM.run_get]
  by_cases hs : src = []
  · simp [hs]
  · simp only [List.isEmpty_iff, hs, if_false, EStateM.run_bind, checkLimit_run]
    by_cases hl : b.limit < b.wpos + (b.flushSize + src.length)
    · simp [hl]
    · have hflush : ¬ (b.pending ≠ [] ∧ b.limit < b.wpos + 1) := fun ⟨hp, h⟩ => by
        rw [flushSize_of_ne hp] at hl
        omega
      simp only [hl, if_false, flushBits_run, hflush, appendRaw_run]

theorem appendBuffer_run (source b : Buffer) :
    (appendBuffer source).run b =
      if source.wpos = 0 then .ok () b
      else if source.size < source.wpos then .error .overrun b
      else (append (source.contents.take source.wpos)).run b := by
  unfold appendBuffer
  split
  · rfl
  · split <;> rfl

theorem writeString_run (text : String) (b : Buffer) :
    (writeString text).run b = if text = "" then .ok () b else (append (Utf8.encode text)).run b := by
  simp only [writeString, String.isEmpty_iff]
  split <;> rfl

theorem writeTerminated_run (text : String) (b : Buffer) :
    (writeTerminated text).run b =
      if b.limit < b.wpos + (b.flushSize + (Utf8.encode text).length + 1) then
        .error (.refused (.capacityExceeded
          (b.wpos + (b.flushSize + (Utf8.encode text).length + 1)) b.limit)) b
      else if text = "" then .ok () (b.flushed.place [0])
      else .ok () ((b.flushed.place (Utf8.encode text)).place [0]) := by
  have hzero : ScalarType.u8.encode 0 = [0] := by decide
  simp only [writeTerminated, EStateM.run_bind, EStateM.run_get, checkLimit_run, write_eq, hzero,
    writeString_run]
  by_cases hl : b.limit < b.wpos + (b.flushSize + (Utf8.encode text).length + 1)
  · simp [hl]
  · simp only [hl, if_false]
    by_cases ht : text = ""
    · subst ht
      have hempty : Utf8.encode "" = [] := Utf8.encode_eq_nil_iff.mpr rfl
      simp only [hempty, List.length_nil] at hl
      simp [append_run, hl]
    · have hne : Utf8.encode text ≠ [] := mt Utf8.encode_eq_nil_iff.mp ht
      have hfirst : ¬ b.limit < b.wpos + (b.flushSize + (Utf8.encode text).length) := by omega
      have hlast : ¬ b.limit < b.wpos + b.flushSize + (Utf8.encode text).length + 1 := by omega
      have hdone : (b.flushed.place (Utf8.encode text)).pending = [] := by simp
      simp [append_run, ht, hne, hfirst, hlast, flushSize_of_nil hdone, flushed_of_nil hdone]

/-! ## The write cursor -/

theorem setWritePos_run (pos : Nat) (b : Buffer) :
    (setWritePos pos).run b =
      if pos < b.rpos ∨ b.size + b.flushSize < pos then
        .error (.refused (.position pos (b.size + b.flushSize) 0)) b
      else if b.pending ≠ [] ∧ b.limit < b.wpos + 1 then
        .error (.refused (.capacityExceeded (b.wpos + 1) b.limit)) b
      else .ok () { b.flushed with wpos := pos } := by
  simp only [setWritePos, EStateM.run_bind, EStateM.run_get]
  by_cases hpos : pos < b.rpos ∨ b.size + b.flushSize < pos
  · simp [hpos]
  · by_cases hflush : b.pending ≠ [] ∧ b.limit < b.wpos + 1
    · simp [hpos, flushBits_run, hflush]
    · simp only [hpos, if_false, flushBits_run, hflush, EStateM.run_modify, EStateM.run_bind]

/-! ## Patches -/

theorem writeAt_run (pos : Nat) (src : List UInt8) (b : Buffer) :
    (writeAt pos src).run b =
      if src = [] then .error (.refused (.zeroSizedWrite pos b.size)) b
      else if b.size < pos + src.length then
        .error (.refused (.position pos b.size src.length)) b
      else .ok () { b with contents := overwrite b.contents pos src } := by
  simp only [writeAt, EStateM.run_bind, EStateM.run_get]
  by_cases hs : src = []
  · simp [hs]
  · by_cases hl : b.size < pos + src.length
    · simp [hs, hl]
    · simp [hs, hl, store_run rfl (Nat.not_lt.mp hl)]

theorem putBit_run {pos : Nat} {b : Buffer} (h : pos < 8 * b.size) (bit : Bool) :
    (putBit pos bit).run b = .ok () { b with contents := Bits.patch b.contents pos [bit] } := by
  have hshift : 7 - pos % 8 < 8 := by omega
  have hbyte : pos / 8 < b.size := by omega
  rw [putBit, subtract_of_le (by omega), pure_bind, demand_of hshift, pure_bind]
  simp only [EStateM.run_bind, EStateM.run_get, demand_run, hbyte, if_true, EStateM.run_set]

/-- Bits replaced one after another are replaced as one run. -/
theorem putLowBits_run (value : UInt64) : ∀ {count pos : Nat} {b : Buffer}, count ≤ 64 →
    pos + count ≤ 8 * b.size →
    (putLowBits pos value count).run b =
      .ok () { b with contents := Bits.patch b.contents pos (Bits.ofNat count value.toNat) }
  | 0, pos, b, _, hfits => by
    rw [Bits.ofNat, Bits.patch_nil (Nat.le_of_add_right_le hfits)]
    rfl
  | count + 1, pos, b, hcount, hfits => by
    have hbits : pos + (Bits.ofNat (count + 1) value.toNat).length ≤ 8 * b.size := by
      rw [Bits.length_ofNat]
      exact hfits
    have hfirst : pos < 8 * b.size := by omega
    have hbit := putBit_run hfirst (value.toNat.testBit count)
    have hsize : (Bits.patch b.contents pos [value.toNat.testBit count]).length = b.size :=
      Bits.length_patch (by rw [List.length_singleton]; unfold size at hfits; omega)
    rw [putLowBits, bitOfWord_of_lt hcount, pure_bind, run_bind_of_ok hbit,
      putLowBits_run value (Nat.le_of_succ_le hcount) (by rw [size, hsize]; omega), Bits.patch_patch hbits]
    rfl

theorem putBits_run (pos : Nat) (value : UInt64) (count : Nat) (b : Buffer) :
    (putBits pos value count).run b =
      if count = 0 ∨ 64 < count then .error (.refused (.bitCount count)) b
      else if 8 * b.size < pos + count then
        .error (.refused (.position pos (8 * b.size) count)) b
      else .ok () { b with contents := Bits.patch b.contents pos (Bits.ofNat count value.toNat) } := by
  simp only [putBits, EStateM.run_bind, checkBitCount_run]
  by_cases hcount : count = 0 ∨ 64 < count
  · simp [hcount]
  · have hmax : count ≤ 64 := by omega
    by_cases hl : 8 * b.size < pos + count
    · simp [hcount, hl]
    · simp [hcount, hl, putLowBits_run value hmax (Nat.not_lt.mp hl)]

end PacketWire.Buffer
