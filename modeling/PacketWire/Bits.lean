/-
Bit strings, most significant bit first, and the numbers and bytes they spell.

A payload's bytes are read as one bit string (`ofBytes`): the first bit is
the top bit of the first byte. `overwrite` replaces a stretch of a string of
bits or of bytes and leaves the rest alone.
-/
namespace PacketWire

/-- `xs` with the elements from `pos` on replaced by `src`. -/
def overwrite {α : Type} (xs : List α) (pos : Nat) (src : List α) : List α :=
  xs.take pos ++ src ++ xs.drop (pos + src.length)

namespace Bits

/-- The low `width` bits of `n`. -/
def ofNat : Nat → Nat → List Bool
  | 0, _ => []
  | width + 1, n => n.testBit width :: ofNat width n

/-- The number that the bits spell. -/
def toNat (bits : List Bool) : Nat := bits.foldl (fun n bit => 2 * n + bit.toNat) 0

/-- The eight bits of a byte. -/
def ofByte (b : UInt8) : List Bool := ofNat 8 b.toNat

/-- The byte that begins with these bits, the missing ones zero. -/
def toByte (bits : List Bool) : UInt8 :=
  UInt8.ofNat (toNat (bits ++ List.replicate (8 - bits.length) false))

/-- The bits of a byte run. -/
def ofBytes (bytes : List UInt8) : List Bool := bytes.flatMap ofByte

/-- The first `count` bytes that the bits spell. -/
def toBytes (count : Nat) (bits : List Bool) : List UInt8 :=
  (List.range count).map fun i => toByte ((bits.drop (8 * i)).take 8)

/-- `bytes` with the bits from position `pos` on replaced; only the bytes that
hold one of them are touched. -/
def patch (bytes : List UInt8) (pos : Nat) (bits : List Bool) : List UInt8 :=
  let first := pos / 8
  let count := (pos % 8 + bits.length + 7) / 8
  let field := (bytes.drop first).take count
  overwrite bytes first (toBytes count (overwrite (ofBytes field) (pos % 8) bits))

/-! ## Lengths -/

@[simp] theorem length_ofNat (width n : Nat) : (ofNat width n).length = width := by
  induction width with
  | zero => rfl
  | succ width ih => simp [ofNat, ih]

@[simp] theorem length_ofByte (b : UInt8) : (ofByte b).length = 8 := length_ofNat 8 _

@[simp] theorem length_ofBytes (bytes : List UInt8) : (ofBytes bytes).length = 8 * bytes.length := by
  induction bytes with
  | nil => rfl
  | cons b bytes ih =>
    rw [ofBytes] at ih ⊢
    rw [List.flatMap_cons, List.length_append, length_ofByte, ih, List.length_cons]
    omega

end Bits

end PacketWire
