/-
Everything that can be asked of a buffer, as data.

An `Operation` names a public operation with its arguments, `Operation.run`
performs it, and its `Answer` is what the caller gets.
-/
import PacketWire.Buffer.Patch
import PacketWire.Taxi.Schema

namespace PacketWire.Buffer

inductive Operation
  | append (src : List UInt8)
  | appendBuffer (source : Buffer)
  | write (t : ScalarType) (value : t.Value)
  | writeString (text : String)
  | writeTerminated (text : String)
  | writeGuid (guid : Guid)
  | writeMessage (message : ServerMessage)
  | writeBit (bit : Bool)
  | writeBits (value : UInt64) (count : Nat)
  | flushBits
  | writeAt (pos : Nat) (src : List UInt8)
  | put (pos : Nat) (t : ScalarType) (value : t.Value)
  | putBits (pos : Nat) (value : UInt64) (count : Nat)
  | read (t : ScalarType)
  | readBytes (len : Nat)
  | skip (len : Nat)
  | readString (len : Nat)
  | readTerminated
  | readTerminatedBytes
  | readGuid
  | readMessage (opcode : Opcode)
  | readBit
  | readBits (count : Nat)
  | dropUnread
  | setReadPos (pos : Nat)
  | setWritePos (pos : Nat)
  | reserve (total : Nat)
  | clear

/-- What an operation gives its caller. -/
inductive Answer
  | done
  | scalar (t : ScalarType) (value : t.Value)
  | bytes (raw : List UInt8)
  | text (s : String)
  | guid (g : Guid)
  | message (m : Message)
  | bit (b : Bool)
  | number (n : UInt64)

/-- Performs an operation. -/
def Operation.run : Operation → BufferM Answer
  | append src => (fun _ => .done) <$> Buffer.append src
  | appendBuffer source => (fun _ => .done) <$> Buffer.appendBuffer source
  | write t value => (fun _ => .done) <$> Buffer.write t value
  | writeString text => (fun _ => .done) <$> Buffer.writeString text
  | writeTerminated text => (fun _ => .done) <$> Buffer.writeTerminated text
  | writeGuid guid => (fun _ => .done) <$> guid.write
  | writeMessage message => (fun _ => .done) <$> message.write
  | writeBit bit => (fun _ => .done) <$> Buffer.writeBit bit
  | writeBits value count => (fun _ => .done) <$> Buffer.writeBits value count
  | flushBits => (fun _ => .done) <$> Buffer.flushBits
  | writeAt pos src => (fun _ => .done) <$> Buffer.writeAt pos src
  | put pos t value => (fun _ => .done) <$> Buffer.put pos t value
  | putBits pos value count => (fun _ => .done) <$> Buffer.putBits pos value count
  | read t => .scalar t <$> Buffer.read t
  | readBytes len => .bytes <$> Buffer.readBytes len
  | skip len => (fun _ => .done) <$> Buffer.skip len
  | readString len => .text <$> Buffer.readString len
  | readTerminated => .text <$> Buffer.readTerminated
  | readTerminatedBytes => .bytes <$> Buffer.readTerminatedBytes
  | readGuid => .guid <$> Guid.read
  | readMessage opcode => .message <$> Message.read opcode
  | readBit => .bit <$> Buffer.readBit
  | readBits count => .number <$> Buffer.readBits count
  | dropUnread => (fun _ => .done) <$> modify Buffer.dropUnread
  | setReadPos pos => (fun _ => .done) <$> Buffer.setReadPos pos
  | setWritePos pos => (fun _ => .done) <$> Buffer.setWritePos pos
  | reserve total => (fun _ => .done) <$> modify (Buffer.reserve · total)
  | clear => (fun _ => .done) <$> modify Buffer.clear

end PacketWire.Buffer
