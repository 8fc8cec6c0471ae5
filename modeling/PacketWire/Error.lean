/-
The causes of failure in the codec and around it, with their wording.

A `CodecError` is a cause, not a text: `message` is the one place where each
is put into words, and `isMalformedInput` says which of them are the peer's
doing rather than a misuse by the program itself.
-/
import PacketWire.Text.Hex

namespace PacketWire

open Text

inductive CodecError
  /-- The operating system refused; the text is its reason. -/
  | io (text : String)
  /-- A value of `valueSize` bytes (or bits) does not fit at `pos` in `size`. -/
  | position (pos size valueSize : Nat)
  /-- The bytes are there but are no value of the kind. -/
  | invalidValue (kind value : String)
  /-- The write, or the payload, would have `size` bytes and the ceiling is `limit`. -/
  | capacityExceeded (size limit : Nat)
  /-- There is nothing to write. -/
  | zeroSizedWrite (pos size : Nat)
  /-- A bit field has between one and sixty-four bits. -/
  | bitCount (count : Nat)
  /-- No opcode of the direction has this number. -/
  | unknownOpcode (raw : UInt32)
  /-- The packet carries another opcode than its reader expects. -/
  | unexpectedOpcode (expected actual : String)
  /-- A known message that nobody here takes. -/
  | unexpectedMessage
  /-- The configuration could not be read, written or accepted. -/
  | config (text : String)
  /-- A failure of a handler's own. -/
  | custom (text : String)
deriving DecidableEq

namespace CodecError

/-- The name of the cause, as logs and the serialized form spell it. -/
def kind : CodecError → String
  | io _ => "Io"
  | position .. => "Position"
  | invalidValue .. => "InvalidValue"
  | capacityExceeded .. => "CapacityExceeded"
  | zeroSizedWrite .. => "ZeroSizedWrite"
  | bitCount _ => "BitCount"
  | unknownOpcode _ => "UnknownOpcode"
  | unexpectedOpcode .. => "UnexpectedOpcode"
  | unexpectedMessage => "UnexpectedMessage"
  | config _ => "ConfigError"
  | custom _ => "Custom"

/-- The cause in words. -/
def message : CodecError → String
  | io text => s!"I/O error: {text}"
  | position pos size valueSize =>
    s!"Attempted to get value with size: {valueSize} in buffer (pos: {pos} size: {size})"
  | invalidValue kind value => s!"Invalid {kind} value ({value}) found in buffer"
  | capacityExceeded size limit =>
    s!"Buffer size {size} would exceed the payload ceiling of {limit} bytes"
  | zeroSizedWrite pos size =>
    s!"Attempted to put a zero-sized value in buffer (pos: {pos} size: {size})"
  | bitCount count => s!"Invalid bit count: {count} (valid range: 1-64)"
  | unknownOpcode raw => "Unknown opcode: 0x" ++ String.ofList (Hex.padded .upper 4 raw.toNat)
  | unexpectedOpcode expected actual => s!"Opcode mismatch: expected {expected}, got {actual}"
  | unexpectedMessage => "Unexpected message type"
  | config text => s!"Configuration error: {text}"
  | custom text => s!"Custom error: {text}"

/-- The peer's bytes are at fault; a transport drops such a packet and may
flag the session. Every other cause is local. -/
def isMalformedInput : CodecError → Bool
  | position .. | invalidValue .. | capacityExceeded .. | unknownOpcode _ => true
  | _ => false

end CodecError

end PacketWire
