/-
Writing a string as TOML, in the style that needs the least escaping.

A basic string if nothing in it needs an escape, else a literal one, else one
of the two forms over several lines; a string that no style holds as it is
gets escapes.
-/
import PacketWire.Text.Hex

namespace PacketWire.Toml

open Text

/-- The length of the longest run of `c`. -/
def longestRun (c : Char) (cs : List Char) : Nat :=
  (cs.foldl (fun (longest, run) d =>
    let run := if d = c then run + 1 else 0
    (max longest run, run)) (0, 0)).1

/-- A control character that can only be written by its number; tabs and line
feeds are none. -/
def needsNumber (c : Char) : Bool :=
  (c.toNat < 0x20 && c ≠ '\t' && c ≠ '\n') || c.toNat = 0x7F

/-- A character of a basic string, quotes apart. -/
def escapeChar (multiline : Bool) : Char → List Char
  | '\x08' => ['\\', 'b']
  | '\t' => ['\\', 't']
  | '\n' => if multiline then ['\n'] else ['\\', 'n']
  | '\x0c' => ['\\', 'f']
  | '\r' => ['\\', 'r']
  | '\\' => ['\\', '\\']
  | c => if needsNumber c then '\\' :: 'u' :: Hex.fixed .upper 4 c.toNat else [c]

/-- The characters of a basic string, after `quotes` plain quotes. Over several
lines two may stand together and the third is escaped; in one line each is. -/
def escapeChars (multiline : Bool) (quotes : Nat) : List Char → List Char
  | [] => []
  | '"' :: rest =>
    if multiline && quotes < 2 then '"' :: escapeChars multiline (quotes + 1) rest
    else '\\' :: '"' :: escapeChars multiline 0 rest
  | c :: rest => escapeChar multiline c ++ escapeChars multiline 0 rest

/-- A string in quotes. -/
def quote (text : String) : String :=
  let cs := text.toList
  let numbered := cs.any needsNumber
  let lines := cs.contains '\n'
  let opening := if lines then ['\n'] else []
  let double := ['"', '"', '"']
  let single := ['\'', '\'', '\'']
  String.ofList <|
    if !numbered && !lines && !cs.contains '"' && !cs.contains '\\' then
      '"' :: escapeChars false 0 cs ++ ['"']
    else if !numbered && !lines && !cs.contains '\'' then '\'' :: cs ++ ['\'']
    else if !numbered && !cs.contains '\\' && longestRun '"' cs ≤ 2 then
      double ++ opening ++ escapeChars true 0 cs ++ double
    else if !numbered && longestRun '\'' cs ≤ 2 then single ++ opening ++ cs ++ single
    else if lines then double ++ opening ++ escapeChars true 0 cs ++ double
    else '"' :: escapeChars false 0 cs ++ ['"']

end PacketWire.Toml
