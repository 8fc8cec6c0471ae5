/-
The fixed-width values that travel in a payload.

The set of scalars is closed, so it is a universe: `ScalarType` names the
eleven of them and `ScalarType.Value` says what each holds. All travel
little-endian (`ScalarType.encode`, `ScalarType.decode`). Floating-point
values are their bit patterns; only finite ones are accepted from the wire.
-/
import PacketWire.LittleEndian

namespace PacketWire

/-- A single-precision value, as its bits. -/
structure Binary32 where
  bits : UInt32
deriving DecidableEq

/-- A double-precision value, as its bits. -/
structure Binary64 where
  bits : UInt64
deriving DecidableEq

namespace Binary32

def exponent (x : Binary32) : Nat := x.bits.toNat / 0x800000 % 0x100
def fraction (x : Binary32) : Nat := x.bits.toNat % 0x800000
def isNegative (x : Binary32) : Bool := 0x80000000 ≤ x.bits.toNat

/-- Neither an infinity nor a NaN. -/
def isFinite (x : Binary32) : Bool := x.exponent != 255

end Binary32

namespace Binary64

def exponent (x : Binary64) : Nat := x.bits.toNat / 0x10000000000000 % 0x800
def fraction (x : Binary64) : Nat := x.bits.toNat % 0x10000000000000
def isNegative (x : Binary64) : Bool := 0x8000000000000000 ≤ x.bits.toNat

/-- Neither an infinity nor a NaN. -/
def isFinite (x : Binary64) : Bool := x.exponent != 2047

end Binary64

inductive ScalarType
  | u8 | u16 | u32 | u64
  | i8 | i16 | i32 | i64
  | f32 | f64
  | bool
deriving DecidableEq

namespace ScalarType

/-- What a scalar of the type holds. -/
abbrev Value : ScalarType → Type
  | u8 => UInt8
  | u16 => UInt16
  | u32 => UInt32
  | u64 => UInt64
  | i8 => Int8
  | i16 => Int16
  | i32 => Int32
  | i64 => Int64
  | f32 => Binary32
  | f64 => Binary64
  | bool => Bool

/-- The encoded width in bytes. -/
def size : ScalarType → Nat
  | u8 | i8 | bool => 1
  | u16 | i16 => 2
  | u32 | i32 | f32 => 4
  | u64 | i64 | f64 => 8

/-- The width of the longest scalar. -/
def maxSize : Nat := 8

/-- The name used in diagnostics. -/
def name : ScalarType → String
  | u8 => "u8"
  | u16 => "u16"
  | u32 => "u32"
  | u64 => "u64"
  | i8 => "i8"
  | i16 => "i16"
  | i32 => "i32"
  | i64 => "i64"
  | f32 => "float"
  | f64 => "double"
  | bool => "bool"

/-- The value as an unsigned number of the type's width: two's complement for
signed integers, the bit pattern for floating-point values. -/
def toWord : (t : ScalarType) → t.Value → Nat
  | u8, v => UInt8.toNat v
  | u16, v => UInt16.toNat v
  | u32, v => UInt32.toNat v
  | u64, v => UInt64.toNat v
  | i8, v => (Int8.toUInt8 v).toNat
  | i16, v => (Int16.toUInt16 v).toNat
  | i32, v => (Int32.toUInt32 v).toNat
  | i64, v => (Int64.toUInt64 v).toNat
  | f32, v => (Binary32.bits v).toNat
  | f64, v => (Binary64.bits v).toNat
  | bool, v => Bool.toNat v

/-- The value with this word; every word but zero is true. -/
def ofWord : (t : ScalarType) → Nat → t.Value
  | u8, n => UInt8.ofNat n
  | u16, n => UInt16.ofNat n
  | u32, n => UInt32.ofNat n
  | u64, n => UInt64.ofNat n
  | i8, n => (UInt8.ofNat n).toInt8
  | i16, n => (UInt16.ofNat n).toInt16
  | i32, n => (UInt32.ofNat n).toInt32
  | i64, n => (UInt64.ofNat n).toInt64
  | f32, n => Binary32.mk (UInt32.ofNat n)
  | f64, n => Binary64.mk (UInt64.ofNat n)
  | bool, n => n != 0

/-- The value's bytes on the wire, `t.size` of them. -/
def encode (t : ScalarType) (v : t.Value) : List UInt8 := LittleEndian.encode t.size (t.toWord v)

/-- The value that `t.size` bytes spell. -/
def decode (t : ScalarType) (bytes : List UInt8) : t.Value := t.ofWord (LittleEndian.decode bytes)

/-- Whether a decoded value is acceptable: floating-point values must be finite. -/
def isValid : (t : ScalarType) → t.Value → Bool
  | f32, v => Binary32.isFinite v
  | f64, v => Binary64.isFinite v
  | _, _ => true

/-- The text of a value that is not acceptable: an infinity with its sign, or a NaN. -/
def invalidText : (t : ScalarType) → t.Value → String
  | f32, v => nonFinite (Binary32.fraction v) (Binary32.isNegative v)
  | f64, v => nonFinite (Binary64.fraction v) (Binary64.isNegative v)
  | _, _ => ""
where
  nonFinite (fraction : Nat) (negative : Bool) : String :=
    if fraction != 0 then "NaN" else if negative then "-inf" else "inf"

@[simp] theorem length_encode (t : ScalarType) (v : t.Value) : (t.encode v).length = t.size := by
  simp [encode]

end ScalarType

end PacketWire
