/-
Errors as self-describing values.

The name of the cause tags what it says: a record of named fields, or a single
value; a cause that says nothing is its name alone. An operating system's
refusal does not leave the process, and none is accepted from outside.
-/
import PacketWire.Data
import PacketWire.Error

namespace PacketWire.CodecError

/-- A position or a size, which has 64 bits. -/
def size? (d : Data) (name : String) : Option Nat := d.field? name >>= Data.natural? UInt64.size

/-- A text in a field. -/
def text? (d : Data) (name : String) : Option String := d.field? name >>= Data.text?

/-- What an error says, apart from its name. -/
def content? : CodecError → Option Data
  | io _ => none
  | position pos size valueSize =>
    some (.record [("pos", .integer pos), ("size", .integer size), ("value_size", .integer valueSize)])
  | invalidValue kind value => some (.record [("kind", .text kind), ("value", .text value)])
  | capacityExceeded size limit => some (.record [("size", .integer size), ("limit", .integer limit)])
  | zeroSizedWrite pos size => some (.record [("pos", .integer pos), ("size", .integer size)])
  | bitCount count => some (.integer count)
  | unknownOpcode raw => some (.integer raw.toNat)
  | unexpectedOpcode expected actual =>
    some (.record [("expected", .text expected), ("actual", .text actual)])
  | unexpectedMessage => some .null
  | config text => some (.text text)
  | custom text => some (.text text)

/-- The error as a value, if it has that form. -/
def toData? (e : CodecError) : Option Data :=
  match e.content? with
  | none => none
  | some .null => some (.text e.kind)
  | some content => some (.record [(e.kind, content)])

/-- The error of a name with what it says. -/
def ofContent? (kind : String) (d : Data) : Option CodecError :=
  match kind with
  | "Position" => return .position (← size? d "pos") (← size? d "size") (← size? d "value_size")
  | "InvalidValue" => return .invalidValue (← text? d "kind") (← text? d "value")
  | "CapacityExceeded" => return .capacityExceeded (← size? d "size") (← size? d "limit")
  | "ZeroSizedWrite" => return .zeroSizedWrite (← size? d "pos") (← size? d "size")
  | "BitCount" => return .bitCount (← d.natural? UInt32.size)
  | "UnknownOpcode" => return .unknownOpcode (UInt32.ofNat (← d.natural? UInt32.size))
  | "UnexpectedOpcode" => return .unexpectedOpcode (← text? d "expected") (← text? d "actual")
  | "UnexpectedMessage" =>
    match d with
    | .null => some .unexpectedMessage
    | _ => none
  | "ConfigError" => return .config (← d.text?)
  | "Custom" => return .custom (← d.text?)
  | _ => none

/-- The error that a value is: a record of one tagged field, or a bare name. -/
def ofData? : Data → Option CodecError
  | .text kind => ofContent? kind .null
  | .record [(kind, content)] => ofContent? kind content
  | _ => none

end PacketWire.CodecError
