/-
Values that are spelled without quotes: booleans, numbers, dates and times.

A literal is one run of literal characters and is read as a whole (`ofChars?`).
Integers have 64 bits and a sign. A decimal part has no leading zero, and an
underscore may stand between two digits. A floating-point number must not
exceed the range of double precision upwards. Dates exist in the calendar, and
a minute may have a leap second.
-/
import PacketWire.Toml.Node
import PacketWire.Toml.Quoted

namespace PacketWire.Toml.Literal

/-- A character that a literal may hold. -/
def isLiteralChar (c : Char) : Bool :=
  c.isAlphanum || c = '+' || c = '-' || c = '_' || c = '.' || c = ':'

/-! ## Numbers -/

/-- The values of a run of digits, in which single underscores may part digits. -/
def digits? (base : Nat) : List Char → Option (List Nat)
  | [] => none
  | [c] => (digit? base c).map ([·])
  | c :: '_' :: rest => do
    let d ← digit? base c
    let ds ← digits? base rest
    some (d :: ds)
  | c :: rest => do
    let d ← digit? base c
    let ds ← digits? base rest
    some (d :: ds)

/-- The number that digits spell. -/
def value (base : Nat) (digits : List Nat) : Nat := digits.foldl (fun n d => base * n + d) 0

/-- The digits of a decimal part: one zero, or no zero at the front. -/
def decimalPart? (cs : List Char) : Option (List Nat) := do
  let ds ← digits? 10 cs
  if ds.head? = some 0 ∧ 1 < cs.length then none else some ds

/-- A sign, if there is one, and what follows. -/
def splitSign : List Char → Bool × List Char
  | '-' :: rest => (true, rest)
  | '+' :: rest => (false, rest)
  | cs => (false, cs)

/-- An integer in any of the four bases. -/
def integer? (cs : List Char) : Option Int := do
  let n : Int ← match cs with
    | '0' :: 'x' :: ds => (digits? 16 ds).map fun ds => (value 16 ds : Int)
    | '0' :: 'o' :: ds => (digits? 8 ds).map fun ds => (value 8 ds : Int)
    | '0' :: 'b' :: ds => (digits? 2 ds).map fun ds => (value 2 ds : Int)
    | _ =>
      let (negative, ds) := splitSign cs
      (decimalPart? ds).map fun ds => if negative then -(value 10 ds : Int) else (value 10 ds : Int)
  if Int64.minValue.toInt ≤ n ∧ n ≤ Int64.maxValue.toInt then some n else none

/-- Whether the digits, times ten to the exponent, round to more than the
largest double. The number of digits settles all but the close cases, so that
no huge power is formed. -/
def overflows (digits : List Nat) (exponent : Int) : Bool :=
  let digits := digits.dropWhile (· = 0)
  let magnitude := exponent + digits.length
  if digits.isEmpty || magnitude ≤ 308 then false
  else if 309 < magnitude then true
  else
    let ceiling := Nat.pow 2 1024 - Nat.pow 2 970
    if exponent < 0 then ceiling * Nat.pow 10 exponent.natAbs ≤ value 10 digits
    else ceiling ≤ value 10 digits * Nat.pow 10 exponent.natAbs

/-- The part before a mark, and the part after it if it is there. -/
def splitAt (isMark : Char → Bool) (cs : List Char) : List Char × Option (List Char) :=
  let before := cs.takeWhile (!isMark ·)
  match cs.drop before.length with
  | [] => (before, none)
  | _ :: after => (before, some after)

/-- A floating-point number with a fraction, an exponent or both. -/
def isDecimalFloat (negative : Bool) (cs : List Char) : Bool :=
  let (mantissa, exponent) := splitAt (fun c => c = 'e' || c = 'E') cs
  let (whole, fraction) := splitAt (· = '.') mantissa
  let parts : Option (List Nat × List Nat × Int) := do
    let ds ← decimalPart? whole
    let fs ← match fraction with
      | none => some []
      | some fraction => digits? 10 fraction
    let e ← match exponent with
      | none => some 0
      | some exponent =>
        let (negative, es) := splitSign exponent
        (digits? 10 es).map fun es => if negative then -(value 10 es : Int) else (value 10 es : Int)
    some (ds, fs, e)
  match parts with
  | none => false
  | some (ds, fs, e) =>
    (fraction.isSome || exponent.isSome) &&
      (negative || !overflows (ds ++ fs) (e - fs.length))

/-- A floating-point number of any kind. -/
def isFloat (cs : List Char) : Bool :=
  let (negative, body) := splitSign cs
  body = ['i', 'n', 'f'] || body = ['n', 'a', 'n'] || isDecimalFloat negative body

/-! ## Dates and times -/

/-- The number that `count` decimal digits spell, and what follows them. -/
def digitsExactly (count : Nat) (cs : List Char) : Option (Nat × List Char) := do
  let ds ← (cs.take count).mapM (digit? 10)
  if ds.length < count then none else some (value 10 ds, cs.drop count)

/-- Passes over one character that has to be there. -/
def expect (c : Char) : List Char → Option (List Char)
  | d :: rest => if c = d then some rest else none
  | [] => none

def isLeapYear (year : Nat) : Bool := year % 4 = 0 && (year % 100 ≠ 0 || year % 400 = 0)

def daysInMonth (year month : Nat) : Nat :=
  if month = 2 then (if isLeapYear year then 29 else 28)
  else if month = 4 ∨ month = 6 ∨ month = 9 ∨ month = 11 then 30
  else 31

/-- Passes over a date. -/
def date? (cs : List Char) : Option (List Char) := do
  let (year, cs) ← digitsExactly 4 cs
  let (month, cs) ← digitsExactly 2 (← expect '-' cs)
  let (day, cs) ← digitsExactly 2 (← expect '-' cs)
  if 1 ≤ month ∧ month ≤ 12 ∧ 1 ≤ day ∧ day ≤ daysInMonth year month then some cs else none

/-- Passes over hours and minutes. -/
def clock? (cs : List Char) : Option (List Char) := do
  let (hour, cs) ← digitsExactly 2 cs
  let (minute, cs) ← digitsExactly 2 (← expect ':' cs)
  if hour ≤ 23 ∧ minute ≤ 59 then some cs else none

/-- Passes over a time of day, to the second or finer. -/
def time? (cs : List Char) : Option (List Char) := do
  let (second, cs) ← digitsExactly 2 (← expect ':' (← clock? cs))
  if 60 < second then none
  match cs with
  | '.' :: rest =>
    let after := rest.dropWhile Char.isDigit
    if after.length = rest.length then none else some after
  | _ => some cs

/-- The offset of a time, or nothing. -/
def isOffset : List Char → Bool
  | [] => true
  | ['Z'] => true
  | ['z'] => true
  | '+' :: rest => clock? rest = some []
  | '-' :: rest => clock? rest = some []
  | _ => false

/-- A time of day that belongs to a date, perhaps with an offset. -/
def isTimeOfDate (cs : List Char) : Bool := (time? cs).any isOffset

def isDate (cs : List Char) : Bool := date? cs = some []

/-- A date, a time, or a date with its time. -/
def isMoment (cs : List Char) : Bool :=
  match date? cs with
  | some [] => true
  | some ('T' :: rest) => isTimeOfDate rest
  | some ('t' :: rest) => isTimeOfDate rest
  | some _ => false
  | none => time? cs = some []

/-! ## Literals -/

/-- The value of a literal. -/
def ofChars? (cs : List Char) : Option Node :=
  if cs = ['t', 'r', 'u', 'e'] then some (.boolean true)
  else if cs = ['f', 'a', 'l', 's', 'e'] then some (.boolean false)
  else if isMoment cs then some (.moment cs)
  else if isFloat cs then some (.float cs)
  else (integer? cs).map .integer

/-- Reads a literal. A blank may stand between a date and its time. -/
def read (cs : List Char) : Option (Node × List Char) :=
  let run := cs.takeWhile isLiteralChar
  let rest := cs.drop run.length
  let time := (rest.drop 1).takeWhile isLiteralChar
  if isDate run && rest.head? = some ' ' && isTimeOfDate time then
    some (.moment (run ++ ' ' :: time), rest.drop (time.length + 1))
  else (ofChars? run).map (·, rest)

end PacketWire.Toml.Literal
