/-
Reading a TOML document.

A document is lines: blank ones and comments, `key = value`, `[path]` and
`[[path]]`. Only its tree matters here, or that it has none, so a reader gives
no reason for a refusal. Values nest fewer than eighty deep and a key has
fewer than eighty parts.
-/
import PacketWire.Toml.Literal

namespace PacketWire.Toml

/-- Arrays and inline tables nest at most so deep, and keys have at most so many parts. -/
def maxDepth : Nat := 79

/-- A reader gives what it read and the characters after it. -/
abbrev Reader (α : Type) := List Char → Option (α × List Char)

def skipBlanks (cs : List Char) : List Char := cs.dropWhile isBlank

/-! ## Keys -/

def isBareKeyChar (c : Char) : Bool := c.isAlphanum || c = '-' || c = '_'

/-- One part of a key: bare, or a string of one line. -/
def keyPart : Reader String
  | '"' :: rest => Quoted.basic [] rest
  | '\'' :: rest => Quoted.literal rest
  | cs =>
    let name := cs.takeWhile isBareKeyChar
    if name.isEmpty then none else some (String.ofList name, cs.drop name.length)

/-- A key of at most `parts` parts, with the blanks around them. -/
def key (parts : Nat) : Reader (List String) := fun cs =>
  match parts with
  | 0 => none
  | parts + 1 => do
    let (first, cs) ← keyPart (skipBlanks cs)
    match skipBlanks cs with
    | '.' :: cs => do
      let (rest, cs) ← key parts cs
      some (first :: rest, cs)
    | cs => some ([first], cs)

/-! ## Values -/

/-- Drops blanks, line ends and comments. -/
def skipLines (inComment : Bool) : List Char → List Char
  | [] => []
  | c :: rest =>
    if c = '\n' then skipLines false rest
    else if inComment then (if isPlain c then skipLines true rest else c :: rest)
    else if isBlank c then skipLines false rest
    else if c = '#' then skipLines true rest
    else c :: rest

/-- The items of an array up to its closing bracket; the last one may have a
comma too. Each item has a character at least, so `fuel` is their number. -/
def items (item : Reader Node) : (fuel : Nat) → Reader (List Node)
  | 0, _ => none
  | fuel + 1, cs =>
    match skipLines false cs with
    | ']' :: rest => some ([], rest)
    | cs => do
      let (first, cs) ← item cs
      match skipLines false cs with
      | ',' :: cs => do
        let (rest, cs) ← items item fuel cs
        some (first :: rest, cs)
      | ']' :: cs => some ([first], cs)
      | _ => none

/-- A key, an equals sign and a value. -/
def pair (item : Reader Node) : Reader (List String × Node) := fun cs => do
  let (path, cs) ← key maxDepth cs
  match cs with
  | '=' :: cs => do
    let (value, cs) ← item (skipBlanks cs)
    some ((path, value), cs)
  | _ => none

/-- The pairs of an inline table up to its closing brace, none after the last comma. -/
def pairs (item : Reader Node) : (fuel : Nat) → Entries → Reader Entries
  | 0, _, _ => none
  | fuel + 1, entries, cs => do
    let ((path, value), cs) ← pair item cs
    let entries ← assign path value entries
    match skipBlanks cs with
    | ',' :: cs => pairs item fuel entries cs
    | '}' :: cs => some (entries, cs)
    | _ => none

/-- A value with at most `depth` arrays and inline tables one inside the other;
`fuel` is the length of the document. -/
def value (fuel : Nat) : (depth : Nat) → Reader Node
  | depth, cs =>
    match cs with
    | '"' :: _ | '\'' :: _ => (Quoted.read cs).map fun (s, rest) => (.text s, rest)
    | '[' :: rest =>
      match depth with
      | 0 => none
      | depth + 1 => (items (value fuel depth) fuel rest).map fun (vs, rest) => (.array vs, rest)
    | '{' :: rest =>
      match depth with
      | 0 => none
      | depth + 1 =>
        match skipBlanks rest with
        | '}' :: rest => some (.table .inline [], rest)
        | rest =>
          (pairs (value fuel depth) fuel [] rest).map fun (entries, rest) =>
            (.table .inline entries, rest)
    | _ => Literal.read cs

/-! ## Lines -/

/-- What may end a line: blanks, a comment, and the line end or the end of the document. -/
def lineEnd (cs : List Char) : Option (List Char) :=
  let cs := match skipBlanks cs with
    | '#' :: comment => comment.dropWhile isPlain
    | cs => cs
  match cs with
  | [] => some []
  | '\n' :: rest => some rest
  | _ => none

/-- Reads the lines of a document into `root`, below the header `path`. Each
line has a character at least, so the document's length is `fuel` enough. -/
def lines (length : Nat) : (fuel : Nat) → (path : List String) → Entries → List Char → Option Entries
  | 0, _, _, _ => none
  | fuel + 1, path, root, cs =>
    match skipBlanks cs with
    | [] => some root
    | '[' :: '[' :: cs => do
      let (path, cs) ← key maxDepth cs
      let cs ← Literal.expect ']' (← Literal.expect ']' cs)
      lines length fuel path (← openTables path root) (← lineEnd cs)
    | '[' :: cs => do
      let (path, cs) ← key maxDepth cs
      let cs ← Literal.expect ']' cs
      lines length fuel path (← openTable path root) (← lineEnd cs)
    | '#' :: cs => do lines length fuel path root (← lineEnd ('#' :: cs))
    | '\n' :: cs => lines length fuel path root cs
    | cs => do
      let ((name, value), cs) ← pair (value length maxDepth) cs
      lines length fuel path (← assignUnder path name value root) (← lineEnd cs)

/-- Line ends of two characters as single line feeds; `acc` is what was read, last first. -/
def unifyLineEnds (acc : List Char) : List Char → List Char
  | [] => acc.reverse
  | '\r' :: '\n' :: rest => unifyLineEnds ('\n' :: acc) rest
  | c :: rest => unifyLineEnds (c :: acc) rest

/-- A byte order mark at the front is no part of a document. -/
def dropByteOrderMark : List Char → List Char
  | [] => []
  | c :: rest => if c.toNat = 0xFEFF then rest else c :: rest

/-- The tree of a document. -/
def parse? (text : String) : Option Entries :=
  let cs := unifyLineEnds [] (dropByteOrderMark text.toList)
  lines cs.length (cs.length + 1) [] [] cs

end PacketWire.Toml
