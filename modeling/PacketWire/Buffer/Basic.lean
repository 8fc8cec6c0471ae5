/-
The byte store behind one packet.

A buffer holds a run of bytes with a read cursor and a write cursor:

    [ consumed | readable | stored, to be overwritten ]
    0          rpos       wpos                        size

Bits travel between the bytes. Written bits wait in `pending` until eight of
them make a byte; the rest of a byte that was read bit by bit waits in
`unread`. A byte-aligned write flushes the one, a byte-aligned read drops the
other, so a run of bits never reaches across a byte field.

An operation is a `BufferM`. A refused one says why and leaves the buffer it
was given, since the checks come before the changes. `Failure.overrun` is the
one other way to end. Every step that has a range demands it: a slice or an
index reaches stored bytes, a shift is by less than the width, a difference
does not go below zero. One that is out of range aborts, and leaves what was
done up to then. The write cursor can come to stand one past the stored bytes,
and a slice can then reach for the missing byte.
-/
import PacketWire.Error
import PacketWire.Bits

namespace PacketWire

/-- The hard ceiling on one packet's payload, in bytes. -/
def maxPayloadSize : Nat := 100000000

/-- A packet's bytes, its cursors and its bits in flight. -/
structure Buffer where
  /-- The stored bytes. -/
  contents : List UInt8
  /-- The read cursor. -/
  rpos : Nat
  /-- The write cursor. -/
  wpos : Nat
  /-- Written bits that wait for a byte to fill, first written first; fewer than eight. -/
  pending : List Bool
  /-- What is left of the byte before the read cursor, if bits of it were read. -/
  unread : List Bool
  /-- How many bytes the store has room for. -/
  capacity : Nat
  /-- The payload ceiling of this buffer. -/
  limit : Nat
deriving DecidableEq

/-- How an operation ends without a result. -/
inductive Failure
  /-- Refused for a cause that the caller is told. -/
  | refused (cause : CodecError)
  /-- A slice, an index, a shift or a difference is out of range. -/
  | overrun
deriving DecidableEq

/-- An operation on a buffer; on failure too it says which buffer is left. -/
abbrev BufferM := EStateM Failure Buffer

namespace Buffer

/-- Ends an operation for a cause that the caller is told. -/
def refuse {α : Type} (cause : CodecError) : BufferM α := throw (.refused cause)

/-- A bit field has one to sixty-four bits. -/
def checkBitCount (count : Nat) : BufferM Unit :=
  if count = 0 ∨ 64 < count then refuse (.bitCount count) else pure ()

/-! ## Steps that have a range -/

/-- Goes on in range only. -/
def demand (range : Prop) [Decidable range] : BufferM Unit :=
  if range then pure () else throw .overrun

/-- What is left of `m` without `n`, which must not be more. -/
def subtract (m n : Nat) : BufferM Nat := do
  demand (n ≤ m)
  return m - n

/-- The bit at `place` in a word, which is shifted down by that many of its sixty-four places. -/
def bitOfWord (word : UInt64) (place : Nat) : BufferM Bool := do
  demand (place < 64)
  return word.toNat.testBit place

/-- A bit at `place` in a word: a one, shifted up by that many places, if the bit is set. -/
def wordOfBit (bit : Bool) (place : Nat) : BufferM UInt64 := do
  demand (bit → place < 64)
  return if bit then 1 <<< UInt64.ofNat place else 0

/-! ## Making one -/

/-- An empty buffer with room for `reserve` bytes, the hard ceiling at most. -/
def withCapacity (reserve : Nat) : Buffer where
  contents := []
  rpos := 0
  wpos := 0
  pending := []
  unread := []
  capacity := min reserve maxPayloadSize
  limit := maxPayloadSize

/-- An empty buffer without room. -/
def empty : Buffer := withCapacity 0

/-- An empty buffer with a ceiling of its own, which also bounds its first room. -/
def withLimit (reserve limit : Nat) : Buffer := { withCapacity (min reserve limit) with limit }

/-- Received bytes, ready for reading, under a ceiling of their own. -/
def ofBytesWithLimit (bytes : List UInt8) (limit : Nat) : Except CodecError Buffer :=
  if limit < bytes.length then .error (.capacityExceeded bytes.length limit)
  else .ok {
    contents := bytes
    rpos := 0
    wpos := bytes.length
    pending := []
    unread := []
    capacity := bytes.length
    limit }

/-- Received bytes, ready for reading. -/
def ofBytes (bytes : List UInt8) : Except CodecError Buffer := ofBytesWithLimit bytes maxPayloadSize

/-! ## Looking at one -/

/-- The number of stored bytes. -/
def size (b : Buffer) : Nat := b.contents.length

def isEmpty (b : Buffer) : Bool := b.contents.isEmpty

/-- The number of bytes between the cursors. -/
def remaining (b : Buffer) : Nat := b.wpos - b.rpos

/-- Written bits wait for a flush. -/
def hasPendingBits (b : Buffer) : Bool := !b.pending.isEmpty

/-- The bytes that a flush would add: one if bits are pending. -/
def flushSize (b : Buffer) : Nat := if b.pending.isEmpty then 0 else 1

/-- The write cursor in bits, pending ones included. -/
def bitWritePos (b : Buffer) : Nat := 8 * b.wpos + b.pending.length

/-- How many bits the pending ones lack to make a byte. -/
def vacant (b : Buffer) : Nat := 8 - b.pending.length

/-- How many bits of the last byte begun were taken; all eight if none of it is left. -/
def taken (b : Buffer) : Nat := 8 - b.unread.length

/-! ## Room -/

/-- The room that a payload of `size` bytes is given when it has to grow: a
small packet gets all it will need at once, a large one is not overcommitted. -/
def stage (size : Nat) : Nat :=
  if size < 100 then 300
  else if size < 750 then 2500
  else if size < 6000 then 10000
  else 400000

/-- The room after growing from `old` to `new` stored bytes: it is kept while
it suffices and the stage is the same, and it never shrinks. -/
def grow (capacity old new : Nat) : Nat :=
  if capacity < new ∨ stage old < stage new then max capacity (max (stage new) new) else capacity

/-- Room for `total` bytes at least. -/
def reserve (b : Buffer) (total : Nat) : Buffer := { b with capacity := max b.capacity total }

/-- All bytes, bits and cursors dropped; the room is kept. -/
def clear (b : Buffer) : Buffer :=
  { b with contents := [], rpos := 0, wpos := 0, pending := [], unread := [] }

end Buffer

end PacketWire
