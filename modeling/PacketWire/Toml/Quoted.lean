/-
Strings in quotes, in the four styles of TOML.

Basic strings are written with `"` and have escapes, literal strings are
written with `'` and have none; each has a form with tripled quotes that runs
over lines. A reader is given the characters after the opening quotes, and
gives the string and the characters after the closing ones. Lines end with a
line feed alone.
-/
namespace PacketWire.Toml

/-- A blank within a line. -/
def isBlank (c : Char) : Bool := c = ' ' || c = '\t'

/-- A character that may stand within a line: a tab, or no control character. -/
def isPlain (c : Char) : Bool := c = '\t' || (0x20 ≤ c.toNat && c.toNat ≠ 0x7F)

/-- The value of a digit in bases up to sixteen, in either case. -/
def digit? (base : Nat) (c : Char) : Option Nat :=
  let value :=
    if '0' ≤ c ∧ c ≤ '9' then c.toNat - 48
    else if 'a' ≤ c ∧ c ≤ 'f' then c.toNat - 87
    else if 'A' ≤ c ∧ c ≤ 'F' then c.toNat - 55
    else 16
  if value < base then some value else none

namespace Quoted

/-- The character whose number the first `count` characters spell in
hexadecimal; surrogates are none. -/
def charOfHex? (count : Nat) (cs : List Char) : Option Char := do
  let digits := cs.take count
  if digits.length < count then none
  let n ← digits.foldlM (fun n c => (digit? 16 c).map (16 * n + ·)) 0
  if n.isValidChar then some (Char.ofNat n) else none

/-- The character that an escape spells after its backslash, and how many
characters spell it. -/
def escape? : List Char → Option (Char × Nat)
  | 'b' :: _ => some ('\x08', 1)
  | 't' :: _ => some ('\t', 1)
  | 'n' :: _ => some ('\n', 1)
  | 'f' :: _ => some ('\x0c', 1)
  | 'r' :: _ => some ('\r', 1)
  | '"' :: _ => some ('"', 1)
  | '\\' :: _ => some ('\\', 1)
  | 'u' :: rest => (charOfHex? 4 rest).map (·, 5)
  | 'U' :: rest => (charOfHex? 8 rest).map (·, 9)
  | _ => none

/-- A basic string of one line; `acc` is what was read, last first. -/
def basic (acc : List Char) (cs : List Char) : Option (String × List Char) :=
  match cs with
  | [] => none
  | '"' :: rest => some (String.ofList acc.reverse, rest)
  | '\\' :: rest =>
    match escape? rest with
    | some (c, used) => basic (c :: acc) (rest.drop used)
    | none => none
  | c :: rest => if isPlain c then basic (c :: acc) rest else none
termination_by cs.length

/-- A literal string of one line. -/
def literal (cs : List Char) : Option (String × List Char) :=
  let body := cs.takeWhile fun c => isPlain c && c ≠ '\''
  match cs.drop body.length with
  | '\'' :: rest => some (String.ofList body, rest)
  | _ => none

/-- What a backslash at the end of a line leaves out of the string: blanks up
to the end of that line, then all blanks and line ends. -/
inductive Omitting
  | nothing
  | restOfLine
  | blanks
deriving DecidableEq

/-- A string over several lines, closed by three of its quotes. Up to two more
before them belong to the string. -/
def multiline (quote : Char) (escapes : Bool) (omitting : Omitting) (acc cs : List Char) :
    Option (String × List Char) :=
  match cs with
  | [] => none
  | c :: rest =>
    if c = '\n' then
      if omitting = .nothing then multiline quote escapes .nothing ('\n' :: acc) rest
      else multiline quote escapes .blanks acc rest
    else if isBlank c && omitting ≠ .nothing then multiline quote escapes omitting acc rest
    else if omitting = .restOfLine then none
    else if c = quote then
      let run := (rest.takeWhile (· = quote)).length + 1
      if run < 3 then multiline quote escapes .nothing (c :: acc) rest
      else some (String.ofList ((List.replicate (min (run - 3) 2) quote ++ acc).reverse),
        (c :: rest).drop (min run 5))
    else if c = '\\' && escapes then
      match escape? rest with
      | some (c, used) => multiline quote escapes .nothing (c :: acc) (rest.drop used)
      | none => multiline quote escapes .restOfLine acc rest
    else if isPlain c then multiline quote escapes .nothing (c :: acc) rest
    else none
termination_by cs.length

/-- A string of any style, its opening quotes included. A line end right after
tripled quotes is not part of it. -/
def read : List Char → Option (String × List Char)
  | '"' :: '"' :: '"' :: '\n' :: rest => multiline '"' true .nothing [] rest
  | '"' :: '"' :: '"' :: rest => multiline '"' true .nothing [] rest
  | '\'' :: '\'' :: '\'' :: '\n' :: rest => multiline '\'' false .nothing [] rest
  | '\'' :: '\'' :: '\'' :: rest => multiline '\'' false .nothing [] rest
  | '"' :: rest => basic [] rest
  | '\'' :: rest => literal rest
  | _ => none

end Quoted

end PacketWire.Toml
