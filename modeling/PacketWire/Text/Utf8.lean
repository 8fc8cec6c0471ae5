/-
Text and its UTF-8 bytes.

`decode?` accepts exactly the well-formed byte runs. `lossy` turns any run
into text: each maximal stretch that begins a character but does not finish
it, and each byte that can begin none, becomes one replacement character.
-/
namespace PacketWire.Text.Utf8

/-- The bytes of a text. -/
def encode (text : String) : List UInt8 := text.toUTF8.data.toList

/-- The text that the bytes spell, if they are well-formed. -/
def decode? (bytes : List UInt8) : Option String := String.fromUTF8? ⟨bytes.toArray⟩

/-- A character begun and not finished: the value so far, how many bytes are
to come, and the range that the next one must lie in. -/
structure Begun where
  value : Nat
  missing : Nat
  low : UInt8
  high : UInt8

/-- What a scan has found: the characters so far, last first, and the one begun. -/
structure Scan where
  found : List Char
  begun : Option Begun

def Scan.empty : Scan := ⟨[], none⟩

/-- Marks a stretch of bytes that spells no character. -/
def replacement : Char := Char.ofNat 0xFFFD

/-- How a byte begins a character of several bytes. The ranges leave out
overlong forms, surrogates and everything above U+10FFFF. -/
def begin? (b : UInt8) : Option Begun :=
  if 0xC2 ≤ b && b ≤ 0xDF then some ⟨b.toNat - 0xC0, 1, 0x80, 0xBF⟩
  else if b == 0xE0 then some ⟨0, 2, 0xA0, 0xBF⟩
  else if b == 0xED then some ⟨0xD, 2, 0x80, 0x9F⟩
  else if 0xE1 ≤ b && b ≤ 0xEF then some ⟨b.toNat - 0xE0, 2, 0x80, 0xBF⟩
  else if b == 0xF0 then some ⟨0, 3, 0x90, 0xBF⟩
  else if 0xF1 ≤ b && b ≤ 0xF3 then some ⟨b.toNat - 0xF0, 3, 0x80, 0xBF⟩
  else if b == 0xF4 then some ⟨4, 3, 0x80, 0x8F⟩
  else none

/-- One more byte between characters. -/
def Scan.start (found : List Char) (b : UInt8) : Scan :=
  if b < 0x80 then ⟨Char.ofNat b.toNat :: found, none⟩
  else match begin? b with
    | some begun => ⟨found, some begun⟩
    | none => ⟨replacement :: found, none⟩

/-- One more byte. A byte that does not continue the character begun gives it
up and is looked at afresh. -/
def Scan.step (scan : Scan) (b : UInt8) : Scan :=
  match scan.begun with
  | none => Scan.start scan.found b
  | some ⟨value, missing, low, high⟩ =>
    if low ≤ b && b ≤ high then
      let value := 64 * value + (b.toNat - 0x80)
      if missing ≤ 1 then ⟨Char.ofNat value :: scan.found, none⟩
      else ⟨scan.found, some ⟨value, missing - 1, 0x80, 0xBF⟩⟩
    else Scan.start (replacement :: scan.found) b

/-- The characters found in all; one begun at the end is given up. -/
def Scan.finish (scan : Scan) : List Char :=
  match scan.begun with
  | none => scan.found.reverse
  | some _ => (replacement :: scan.found).reverse

/-- The text of any byte run. -/
def lossy (bytes : List UInt8) : String :=
  String.ofList (bytes.foldl Scan.step Scan.empty).finish

end PacketWire.Text.Utf8
