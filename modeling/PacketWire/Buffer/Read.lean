/-
Reading at the read cursor: byte runs, scalars, text and bits.

A read is refused before the cursor moves. One that has to make sense of its
bytes looks at them first (`peek`, `peekTerminated`); a run of bytes taken as
they are moves the cursor before it looks, so an overrun finds it moved. A
byte-aligned read drops what is left of a byte that was read bit by bit.
-/
import PacketWire.Buffer.Basic
import PacketWire.Scalar
import PacketWire.Text.Utf8

namespace PacketWire.Buffer

open Text

/-- The stored bytes from `start` to `stop`. -/
def slice (start stop : Nat) : BufferM (List UInt8) := do
  let b ← get
  demand (start ≤ stop ∧ stop ≤ b.size)
  return (b.contents.drop start).take (stop - start)

/-- Refuses a read of `len` bytes that would reach past the write cursor. -/
def checkReadable (len : Nat) : BufferM Unit := do
  let b ← get
  if b.wpos < b.rpos + len then
    refuse (.position b.rpos b.wpos len)

/-- The next `len` bytes, which must lie before the write cursor. -/
def peek (len : Nat) : BufferM (List UInt8) := do
  let b ← get
  checkReadable len
  slice b.rpos (b.rpos + len)

/-- Moves `len` bytes on. -/
def advance (len : Nat) : BufferM Unit :=
  modify fun b => { b with rpos := b.rpos + len, unread := [] }

/-! ## Bytes -/

/-- Takes `len` bytes as they are. -/
def readBytes (len : Nat) : BufferM (List UInt8) := do
  let b ← get
  checkReadable len
  advance len
  slice b.rpos (b.rpos + len)

/-- Passes over `len` bytes. -/
def skip (len : Nat) : BufferM Unit := do
  let _ ← readBytes len

/-- Takes one scalar; a floating-point value must be finite. -/
def read (t : ScalarType) : BufferM t.Value := do
  let raw ← peek t.size
  let value := t.decode raw
  if !t.isValid value then
    refuse (.invalidValue t.name (t.invalidText value))
  advance t.size
  return value

/-! ## Text -/

/-- The text of a byte run; one that is not well-formed is reported with its
lossy text. -/
def decodeText (raw : List UInt8) : BufferM String :=
  match Utf8.decode? raw with
  | some text => pure text
  | none => refuse (.invalidValue "string" (Utf8.lossy raw))

/-- Takes `len` bytes of text. -/
def readString (len : Nat) : BufferM String := do
  let text ← decodeText (← peek len)
  advance len
  return text

/-- Where the first zero before the write cursor stands. -/
def findTerminator : BufferM Nat := do
  let b ← get
  if b.wpos ≤ b.rpos then
    refuse (.position b.rpos b.wpos 1)
  let readable ← slice b.rpos b.wpos
  let offset := (readable.takeWhile (· != 0)).length
  if offset = readable.length then
    refuse (.position b.wpos b.wpos 1)
  return b.rpos + offset

/-- The bytes up to the first zero before the write cursor. -/
def peekTerminated : BufferM (List UInt8) := do
  let b ← get
  slice b.rpos (← findTerminator)

/-- Takes the bytes up to a zero, and the zero. -/
def readTerminatedBytes : BufferM (List UInt8) := do
  let raw ← peekTerminated
  advance (raw.length + 1)
  return raw

/-- Takes text up to a zero, and the zero. -/
def readTerminated : BufferM String := do
  let raw ← peekTerminated
  let text ← decodeText raw
  advance (raw.length + 1)
  return text

/-! ## Bits -/

/-- Drops what is left of a byte that was read bit by bit. -/
def dropUnread (b : Buffer) : Buffer := { b with unread := [] }

/-- The bits that can still be read. -/
def availableBits (b : Buffer) : Nat := b.unread.length + 8 * b.remaining

/-- The place in its byte of the bit that is the `n`th to be taken: what the byte is shifted down by. -/
def placeOfBit (n : Nat) : BufferM Nat := do
  let shift ← subtract 8 n
  demand (shift < 8)
  return shift

/-- Takes one bit, of the byte begun or of the next. -/
def readBit : BufferM Bool := do
  let b ← get
  match b.unread with
  | bit :: rest =>
    let _ ← placeOfBit (b.taken + 1)
    set { b with unread := rest }
    return bit
  | [] =>
    checkReadable 1
    match b.contents[b.rpos]? with
    | none => throw .overrun
    | some byte =>
      let shift ← placeOfBit 1
      set { b with rpos := b.rpos + 1, unread := (Bits.ofByte byte).tail }
      return byte.toNat.testBit shift

/-- Takes `count` bits in turn, each to its place in a word. -/
def readWord : Nat → BufferM UInt64
  | 0 => pure 0
  | count + 1 => do
    let high ← wordOfBit (← readBit) count
    return high ||| (← readWord count)

/-- Takes a field of `count` bits, most significant first. -/
def readBits (count : Nat) : BufferM UInt64 := do
  checkBitCount count
  let b ← get
  let left ← subtract b.wpos b.rpos
  if b.availableBits < count then
    let missing ← subtract count b.availableBits
    refuse (.position b.rpos b.wpos (left + (missing + 7) / 8))
  readWord count

/-! ## The read cursor -/

/-- Moves the read cursor anywhere up to the write cursor. -/
def setReadPos (pos : Nat) : BufferM Unit := do
  let b ← get
  if b.wpos < pos then
    refuse (.position pos b.wpos 0)
  set { b with rpos := pos, unread := [] }

end PacketWire.Buffer
