/-
Each kind of value that travels in bytes is what its bytes decode to:
`LittleEndian.decode_encode` for numbers that fit, `ScalarType.decode_encode`
for the eleven scalars, `Guid.decode_encode` for identifiers and
`Utf8.decode?_encode` for text. The other way, bytes are those of the value that
they decode to, but for the byte of a truth value (`encode_decode_bool`).
-/
import Mathlib.Algebra.Group.Nat.Defs
import PacketWire.Guid

namespace PacketWire

/-! ## Numbers -/

namespace LittleEndian

theorem decode_encode (width n : Nat) : decode (encode width n) = n % 256 ^ width := by
  induction width generalizing n with
  | zero => simp [encode, decode, Nat.mod_one]
  | succ width ih =>
    have hb : (UInt8.ofNat (n % 256)).toNat = n % 256 := by simp
    rw [encode, decode, hb, ih, Nat.pow_succ', Nat.mod_mul]

theorem decode_lt (bytes : List UInt8) : decode bytes < 256 ^ bytes.length := by
  induction bytes with
  | nil => simp [decode]
  | cons b bytes ih =>
    have hb : b.toNat < 256 := b.toNat_lt
    rw [decode, List.length_cons, Nat.pow_succ]
    omega

theorem encode_decode (bytes : List UInt8) : encode bytes.length (decode bytes) = bytes := by
  induction bytes with
  | nil => rfl
  | cons b bytes ih =>
    have hb : b.toNat < 256 := b.toNat_lt
    have hlow : (b.toNat + 256 * decode bytes) % 256 = b.toNat := by omega
    have hrest : (b.toNat + 256 * decode bytes) / 256 = decode bytes := by omega
    rw [List.length_cons, decode, encode, hlow, hrest, UInt8.ofNat_toNat, ih]

end LittleEndian

/-! ## Scalars -/

namespace ScalarType

theorem size_pos (t : ScalarType) : 0 < t.size := by cases t <;> decide

theorem encode_ne_nil (t : ScalarType) (v : t.Value) : t.encode v ≠ [] :=
  List.ne_nil_of_length_pos (by rw [length_encode]; exact t.size_pos)

/-- A value's word fits the type's width. -/
theorem toWord_lt : ∀ (t : ScalarType) (v : t.Value), t.toWord v < 256 ^ t.size
  | u8, v => UInt8.toNat_lt v
  | u16, v => UInt16.toNat_lt v
  | u32, v => UInt32.toNat_lt v
  | u64, v => UInt64.toNat_lt v
  | i8, v => UInt8.toNat_lt (Int8.toUInt8 v)
  | i16, v => UInt16.toNat_lt (Int16.toUInt16 v)
  | i32, v => UInt32.toNat_lt (Int32.toUInt32 v)
  | i64, v => UInt64.toNat_lt (Int64.toUInt64 v)
  | f32, v => UInt32.toNat_lt (Binary32.bits v)
  | f64, v => UInt64.toNat_lt (Binary64.bits v)
  | bool, v => Nat.lt_of_lt_of_le (Bool.toNat_lt v) (by decide)

theorem ofWord_toWord : ∀ (t : ScalarType) (v : t.Value), t.ofWord (t.toWord v) = v
  | u8, v => UInt8.ofNat_toNat
  | u16, v => UInt16.ofNat_toNat
  | u32, v => UInt32.ofNat_toNat
  | u64, v => UInt64.ofNat_toNat
  | i8, v => by simp [ofWord, toWord]
  | i16, v => by simp [ofWord, toWord]
  | i32, v => by simp [ofWord, toWord]
  | i64, v => by simp [ofWord, toWord]
  | f32, v => by simp [ofWord, toWord]
  | f64, v => by simp [ofWord, toWord]
  | bool, v => by cases v <;> rfl

theorem decode_encode (t : ScalarType) (v : t.Value) : t.decode (t.encode v) = v := by
  rw [decode, encode, LittleEndian.decode_encode, Nat.mod_eq_of_lt (t.toWord_lt v), ofWord_toWord]

/-- Of every type but one the words of its width are all words of values. -/
theorem toWord_ofWord {t : ScalarType} (ht : t ≠ bool) {n : Nat} (h : n < 256 ^ t.size) :
    t.toWord (t.ofWord n) = n := by
  cases t with
  | u8 => exact UInt8.toNat_ofNat_of_lt' h
  | u16 => exact UInt16.toNat_ofNat_of_lt' h
  | u32 | f32 => exact UInt32.toNat_ofNat_of_lt' h
  | u64 | f64 => exact UInt64.toNat_ofNat_of_lt' h
  | i8 => simpa [ofWord, toWord] using UInt8.toNat_ofNat_of_lt' h
  | i16 => simpa [ofWord, toWord] using UInt16.toNat_ofNat_of_lt' h
  | i32 => simpa [ofWord, toWord] using UInt32.toNat_ofNat_of_lt' h
  | i64 => simpa [ofWord, toWord] using UInt64.toNat_ofNat_of_lt' h
  | bool => exact absurd rfl ht

theorem encode_decode {t : ScalarType} (ht : t ≠ bool) {bytes : List UInt8} (h : bytes.length = t.size) :
    t.encode (t.decode bytes) = bytes := by
  have hlt := LittleEndian.decode_lt bytes
  rw [h] at hlt
  rw [encode, decode, toWord_ofWord ht hlt, ← h, LittleEndian.encode_decode]

/-- A truth value is written as zero or one, whatever byte it was read from. -/
theorem encode_decode_bool (byte : UInt8) :
    bool.encode (bool.decode [byte]) = [if byte = 0 then 0 else 1] := by
  by_cases hbyte : byte = 0
  · rw [hbyte]
    rfl
  · have hword : byte.toNat ≠ 0 := fun h => hbyte (UInt8.toNat.inj h)
    have htrue : bool.decode [byte] = true := by simp [decode, ofWord, LittleEndian.decode, hword]
    rw [htrue, if_neg hbyte]
    rfl

end ScalarType

/-! ## Identifiers -/

namespace Guid

@[simp] theorem length_encode (g : Guid) : g.encode.length = size := by simp [encode, size]

theorem encode_ne_nil (g : Guid) : g.encode ≠ [] := List.ne_nil_of_length_pos (by rw [length_encode]; decide)

theorem decode_encode (g : Guid) : decode g.encode = g := by
  have hlow : (LittleEndian.encode 8 g.low.toNat).length = 8 := LittleEndian.length_encode 8 _
  have hword : ∀ x : UInt64, x.toNat % 256 ^ 8 = x.toNat := fun x => Nat.mod_eq_of_lt x.toNat_lt
  rw [decode, encode, List.drop_left' hlow, List.take_left' hlow]
  rw [LittleEndian.decode_encode, LittleEndian.decode_encode, hword, hword]
  rw [UInt64.ofNat_toNat, UInt64.ofNat_toNat]

theorem encode_decode {bytes : List UInt8} (h : bytes.length = size) : (decode bytes).encode = bytes := by
  have hlow : (bytes.take 8).length = 8 := List.length_take_of_le (by rw [h]; decide)
  have hhigh : (bytes.drop 8).length = 8 := by rw [List.length_drop, h]; rfl
  have hword : ∀ {half : List UInt8}, half.length = 8 →
      LittleEndian.encode 8 (UInt64.ofNat (LittleEndian.decode half)).toNat = half := by
    intro half hhalf
    have hlt := LittleEndian.decode_lt half
    rw [hhalf] at hlt
    rw [UInt64.toNat_ofNat_of_lt' hlt, ← hhalf, LittleEndian.encode_decode]
  rw [encode, decode, hword hlow, hword hhigh, List.take_append_drop]

end Guid

/-! ## Text -/

namespace Text.Utf8

theorem encode_eq_nil_iff {text : String} : encode text = [] ↔ text = "" := by
  rw [encode, Array.toList_eq_nil_iff, String.toUTF8_eq_toByteArray, ← String.toByteArray_eq_empty_iff,
    ByteArray.ext_iff]
  rfl

theorem decode?_encode (text : String) : decode? (encode text) = some text := by
  have hbytes : (⟨(encode text).toArray⟩ : ByteArray) = text.toByteArray := by simp [encode]
  rw [decode?, hbytes, String.fromUTF8?, dif_pos text.isValidUTF8]
  rfl

theorem encode_of_decode? {bytes : List UInt8} {text : String} (h : decode? bytes = some text) :
    encode text = bytes := by
  rw [decode?, String.fromUTF8?] at h
  split at h
  · cases h
    simp [encode, String.fromUTF8]
  · cases h

end Text.Utf8

end PacketWire
