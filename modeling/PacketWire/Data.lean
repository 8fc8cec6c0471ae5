/-
Self-describing values: the form in which errors leave the process.
-/
namespace PacketWire

inductive Data
  | null
  | boolean (b : Bool)
  | integer (n : Int)
  /-- A number that is not written as an integer, as it is spelled. -/
  | number (spelling : String)
  | text (s : String)
  | list (items : List Data)
  | record (fields : List (String × Data))
deriving Nonempty

namespace Data

/-- The text that a value is. -/
def text? : Data → Option String
  | text s => some s
  | _ => none

/-- The natural number below `bound` that a value is. -/
def natural? (bound : Nat) : Data → Option Nat
  | integer n => if 0 ≤ n ∧ n < bound then some n.toNat else none
  | _ => none

/-- A field of a record. -/
def field? (name : String) : Data → Option Data
  | record fields => fields.lookup name
  | _ => none

end Data

end PacketWire
