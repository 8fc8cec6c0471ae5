/-
The tree of a TOML document, and the three ways that a document extends it.

A table remembers how it came to be, since that decides what may still be
added: `assign` adds a key under a dotted path, `openTable` answers a `[path]`
header and `openTables` a `[[path]]` header. Each refuses to define a thing
twice, and to reopen what was closed.
-/
namespace PacketWire.Toml

/-- How a table came to be. -/
inductive TableKind
  /-- By its own header. -/
  | header
  /-- Because a longer header passes through it; its own may follow. -/
  | implied
  /-- Because a dotted key passes through it; more dotted keys may follow. -/
  | dotted
  /-- In braces; nothing may be added. -/
  | inline
deriving DecidableEq

inductive Node
  | text (s : String)
  | integer (n : Int)
  | boolean (b : Bool)
  /-- A floating-point number, as it is spelled. -/
  | float (spelling : List Char)
  /-- A date, a time or both, as it is spelled. -/
  | moment (spelling : List Char)
  | array (items : List Node)
  | table (kind : TableKind) (entries : List (String × Node))
  /-- An array of tables, one for each header; never empty. -/
  | tables (each : List (List (String × Node)))

/-- The keys of a table and what they hold. -/
abbrev Entries := List (String × Node)

/-- `entries` with `key` holding `node`, in its old place if it has one. -/
def put (key : String) (node : Node) (entries : Entries) : Entries :=
  if (entries.lookup key).isSome then
    entries.map fun (k, old) => if k = key then (k, node) else (k, old)
  else entries ++ [(key, node)]

/-- The last of several tables changed. -/
def changeLast (f : Entries → Option Entries) : List Entries → Option (List Entries)
  | [] => none
  | [last] => (f last).map ([·])
  | first :: rest => (changeLast f rest).map (first :: ·)

/-! ## Dotted keys -/

/-- Adds a key with its value at the end of a dotted path. The path makes the
tables it needs and goes on through those that dotted keys made. A table that
a longer header implied, or the last of an array of tables, may be passed
through but not added to. -/
def assign : List String → Node → Entries → Option Entries
  | [], _, _ => none
  | [key], node, entries => if (entries.lookup key).isSome then none else some (put key node entries)
  | key :: next :: path, node, entries =>
    match entries.lookup key with
    | none => do
      let made ← assign (next :: path) node []
      some (put key (.table .dotted made) entries)
    | some (.table .dotted inner) => do
      let inner ← assign (next :: path) node inner
      some (put key (.table .dotted inner) entries)
    | some (.table .implied inner) => do
      if path.isEmpty then none
      let inner ← assign (next :: path) node inner
      some (put key (.table .implied inner) entries)
    | some (.tables each) => do
      if path.isEmpty then none
      let each ← changeLast (assign (next :: path) node) each
      some (put key (.tables each) entries)
    | some _ => none

/-! ## Headers -/

/-- Changes what stands at the end of a header's path. The path implies the
tables it needs, goes into the last of an array of tables, and cannot pass a
value. -/
def changeAt (change : Option Node → Option Node) : List String → Entries → Option Entries
  | [], _ => none
  | [key], entries => do
    let node ← change (entries.lookup key)
    some (put key node entries)
  | key :: next :: path, entries =>
    match entries.lookup key with
    | none => do
      let made ← changeAt change (next :: path) []
      some (put key (.table .implied made) entries)
    | some (.table .inline _) => none
    | some (.table kind inner) => do
      let inner ← changeAt change (next :: path) inner
      some (put key (.table kind inner) entries)
    | some (.tables each) => do
      let each ← changeLast (changeAt change (next :: path)) each
      some (put key (.tables each) entries)
    | some _ => none

/-- A table of its own header: a new one, or one that was only implied. -/
def openTable : List String → Entries → Option Entries :=
  changeAt fun
    | none => some (.table .header [])
    | some (.table .implied inner) => some (.table .header inner)
    | some _ => none

/-- One more table of an array. -/
def openTables : List String → Entries → Option Entries :=
  changeAt fun
    | none => some (.tables [[]])
    | some (.tables each) => some (.tables (each ++ [[]]))
    | some _ => none

/-- Adds a key to the table that the header `path` opened; the empty path is
the document itself. -/
def assignUnder (path key : List String) (node : Node) (root : Entries) : Option Entries :=
  if path.isEmpty then assign key node root
  else changeAt (fun
    | some (.table kind inner) => (assign key node inner).map (.table kind)
    | some (.tables each) => (changeLast (assign key node) each).map .tables
    | _ => none) path root

end PacketWire.Toml
