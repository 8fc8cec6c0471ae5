/-
Why a configuration could not be had or kept.
-/
import PacketWire.Error
import PacketWire.Text.Unsigned

namespace PacketWire

open Text

inductive ConfigFailure
  /-- A variable should hold a number. -/
  | badNumber (name : String) (offence : Unsigned.Malformed)
  | unknownLevel (text : String)
  | missingFile
  | notText
  | notToml
  /-- TOML's integers are signed, so a size above their range cannot be kept. -/
  | sizeOutOfRange
  | missingDirectory
deriving DecidableEq

namespace ConfigFailure

/-- What the operating system says of a path that leads nowhere. -/
def noSuchPath : String := "No such file or directory (os error 2)"

def message : ConfigFailure → String
  | badNumber name offence => s!"Invalid {name}: {offence.message}"
  | unknownLevel text => s!"Invalid log level: {text}"
  | missingFile => s!"Failed to open config file: {noSuchPath}"
  | notText => "Failed to read config file: stream did not contain valid UTF-8"
  | notToml => "Failed to parse TOML"
  | sizeOutOfRange => "Failed to serialize config: out-of-range value for u64 type"
  | missingDirectory => s!"Failed to write config file: {noSuchPath}"

/-- The failure as callers see it. -/
def toError (f : ConfigFailure) : CodecError := .config f.message

end ConfigFailure

end PacketWire
