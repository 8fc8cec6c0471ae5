/-
Hexadecimal text: fixed-width numbers, numbers padded to a least width, and
byte runs written as two digits a byte.
-/
namespace PacketWire.Text.Hex

/-- Which letters stand for the digits above nine. -/
inductive Case
  | lower
  | upper
deriving DecidableEq

/-- The digit of `n % 16`. -/
def digit (case : Case) (n : Nat) : Char :=
  let d := n % 16
  if d < 10 then Char.ofNat (48 + d)
  else match case with
    | .lower => Char.ofNat (87 + d)
    | .upper => Char.ofNat (55 + d)

/-- The low `width` hexadecimal digits of `n`, most significant first. -/
def fixed (case : Case) : Nat → Nat → List Char
  | 0, _ => []
  | width + 1, n => fixed case width (n / 16) ++ [digit case n]

/-- The fewest digits that hold `n`; zero takes one. -/
def width (n : Nat) : Nat := n.log2 / 4 + 1

/-- All digits of `n`, padded with zeros to at least `least` of them. -/
def padded (case : Case) (least n : Nat) : List Char := fixed case (max least (width n)) n

/-- The two digits of a byte. -/
def ofByte (case : Case) (b : UInt8) : List Char := fixed case 2 b.toNat

/-- Two lowercase digits a byte, without separators. -/
def ofBytes (bytes : List UInt8) : List Char := bytes.flatMap (ofByte .lower)

end PacketWire.Text.Hex
