/-
Settings kept as TOML.

A document has a section for the codec and one for logging. An absent section
means the defaults; a present one has all its settings, by name in a table or
in order in an array. Keys that nobody asks for are passed over.
-/
import PacketWire.Config.Basic
import PacketWire.Config.Failure
import PacketWire.Toml.Document
import PacketWire.Toml.Quote

namespace PacketWire

open Text Toml

/-! ## Reading -/

namespace Config

/-- The settings of a section in the order of `names`, whatever its form. -/
def settings? (names : List String) : Node → Option (List Node)
  | .table _ entries => names.mapM fun name => entries.lookup name
  | .array items => if items.length < names.length then none else some (items.take names.length)
  | _ => none

def boolean? : Node → Option Bool
  | .boolean b => some b
  | _ => none

def text? : Node → Option String
  | .text s => some s
  | _ => none

def size? : Node → Option Nat
  | .integer n => if 0 ≤ n then some n.toNat else none
  | _ => none

end Config

open Config

def CodecConfig.names : List String := ["max_payload_size", "dump_inbound", "warn_on_trailing_bytes"]

def CodecConfig.ofNode? (node : Node) : Option CodecConfig := do
  match ← settings? names node with
  | [size, dump, warn] => some ⟨← size? size, ← boolean? dump, ← boolean? warn⟩
  | _ => none

def LoggingConfig.names : List String := ["app_name", "log_level", "packet_trace", "json_format"]

def LoggingConfig.ofNode? (node : Node) : Option LoggingConfig := do
  match ← settings? names node with
  | [name, level, trace, json] =>
    some ⟨← text? name, ← Level.ofText? (← text? level), ← boolean? trace, ← boolean? json⟩
  | _ => none

namespace Config

/-- A section of a document, or its default. -/
def sectionOr {α : Type} (ofNode? : Node → Option α) (default : α) : Option Node → Option α
  | none => some default
  | some node => ofNode? node

/-- The settings in a document's tree. -/
def ofEntries? (entries : Entries) : Option Config := do
  let codec ← sectionOr CodecConfig.ofNode? .default (entries.lookup "codec")
  let logging ← sectionOr LoggingConfig.ofNode? .default (entries.lookup "logging")
  some ⟨codec, logging⟩

/-- The settings in a TOML text. -/
def ofToml (text : String) : Except ConfigFailure Config :=
  match (Toml.parse? text).bind ofEntries? with
  | some config => .ok config
  | none => .error .notToml

/-- The settings in a file with this content, or in one that is not there. -/
def ofFile (content : Option (List UInt8)) : Except ConfigFailure Config :=
  match content with
  | none => .error .missingFile
  | some bytes =>
    match Utf8.decode? bytes with
    | none => .error .notText
    | some text => ofToml text

/-! ## Writing -/

/-- The settings as a TOML text, all of them and in order. -/
def toToml (c : Config) : Except ConfigFailure String :=
  if Int64.maxValue.toInt < c.codec.maxPayloadSize then .error .sizeOutOfRange
  else .ok <| "\n".intercalate [
    "[codec]",
    s!"max_payload_size = {c.codec.maxPayloadSize}",
    s!"dump_inbound = {c.codec.dumpInbound}",
    s!"warn_on_trailing_bytes = {c.codec.warnOnTrailingBytes}",
    "",
    "[logging]",
    s!"app_name = {quote c.logging.appName}",
    s!"log_level = {quote c.logging.logLevel.lowerName}",
    s!"packet_trace = {c.logging.packetTrace}",
    s!"json_format = {c.logging.jsonFormat}",
    ""]

/-- The content of a file that keeps the settings, if its directory exists. -/
def toFile (c : Config) (directoryExists : Bool) : Except ConfigFailure (List UInt8) := do
  let text ← c.toToml
  if directoryExists then return Utf8.encode text else throw .missingDirectory

/-- What a file with the default settings holds. -/
def sample : String :=
  match Config.default.toToml with
  | .ok text => text
  | .error _ => "# Failed to generate example config"

end Config

end PacketWire
