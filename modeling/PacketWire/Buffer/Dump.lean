/-
Readable dumps of a buffer's stored bytes, for logs.

A dump is one text: a header with the number of bytes, then all of them in
decimal, as characters, or in hexadecimal rows of sixteen in two groups. A
sink that is not enabled is given nothing.
-/
import PacketWire.Buffer.Basic

namespace PacketWire.Buffer

open Text

inductive DumpForm
  | decimal
  | characters
  | hexadecimal
deriving DecidableEq

/-- Each byte in decimal, followed by a dash. -/
def decimalDump (bytes : List UInt8) : List Char :=
  bytes.flatMap fun b => (toString b.toNat).toList ++ " - ".toList

/-- A byte as a character: printable ASCII as it is, a dot for the rest. -/
def shownChar (b : UInt8) : Char :=
  if 0x20 ≤ b && b ≤ 0x7E then Char.ofNat b.toNat else '.'

/-- The two digits of each byte, each followed by a blank. -/
def hexGroup (bytes : List UInt8) : List Char :=
  bytes.flatMap fun b => Hex.ofByte .lower b ++ [' ']

/-- One row of at most sixteen bytes; a bar stands before the ninth. -/
def hexRow (row : List UInt8) : List Char :=
  hexGroup (row.take 8) ++
    (if (row.drop 8).isEmpty then [] else '|' :: ' ' :: hexGroup (row.drop 8)) ++ ['\n']

/-- The first `count` rows of sixteen bytes. -/
def rows : Nat → List UInt8 → List (List UInt8)
  | 0, _ => []
  | count + 1, bytes => bytes.take 16 :: rows count (bytes.drop 16)

/-- As many rows as hold all bytes, the last one perhaps shorter. -/
def hexDump (bytes : List UInt8) : List Char :=
  (rows ((bytes.length + 15) / 16) bytes).flatMap hexRow

/-- The dump of a buffer's stored bytes. -/
def dump (form : DumpForm) (b : Buffer) : String :=
  let body := match form with
    | .decimal => decimalDump b.contents
    | .characters => b.contents.map shownChar
    | .hexadecimal => hexDump b.contents
  s!"STORAGE_SIZE: {b.size} " ++ String.ofList body

/-- The texts that a dump gives to its sink. -/
def dumpTo (sinkEnabled : Bool) (form : DumpForm) (b : Buffer) : List String :=
  if sinkEnabled then [b.dump form] else []

end PacketWire.Buffer
