/-
Reading an unsigned decimal number that has to stay below a bound.

An optional plus sign and at least one digit; leading zeros count as digits.
The text is read from the left and the first offence is reported: at each
character a bad digit comes before the number growing too large.
-/
namespace PacketWire.Text.Unsigned

inductive Malformed
  | empty
  | invalidDigit
  | tooLarge
deriving DecidableEq

/-- The offence in words. -/
def Malformed.message : Malformed → String
  | empty => "cannot parse integer from empty string"
  | invalidDigit => "invalid digit found in string"
  | tooLarge => "number too large to fit in target type"

/-- The value of a decimal digit. -/
def digit? (c : Char) : Option Nat := if '0' ≤ c ∧ c ≤ '9' then some (c.toNat - 48) else none

/-- `value` continued by the digits. -/
def readDigits (bound value : Nat) : List Char → Except Malformed Nat
  | [] => .ok value
  | c :: rest =>
    match digit? c with
    | none => .error .invalidDigit
    | some d =>
      if 10 * value + d < bound then readDigits bound (10 * value + d) rest else .error .tooLarge

/-- The number below `bound` that the characters spell. -/
def ofChars (bound : Nat) : List Char → Except Malformed Nat
  | [] => .error .empty
  | ['+'] => .error .invalidDigit
  | '+' :: digits => readDigits bound 0 digits
  | digits => readDigits bound 0 digits

/-- The 64-bit number that a text spells. -/
def read64 (text : String) : Except Malformed Nat := ofChars UInt64.size text.toList

end PacketWire.Text.Unsigned
