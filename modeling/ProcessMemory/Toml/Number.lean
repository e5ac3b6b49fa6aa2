import ProcessMemory.Datum
import ProcessMemory.Text.Numeral

/-!
# TOML numbers and dates

Whole numbers of 64 bits with a sign, fractions, and dates. Fractions and dates are only checked:
no setting is one.
-/
namespace ProcessMemory.Toml

/-! ## Digits -/

/-- Takes digits that may have single underscores between them, as what follows a digit. -/
def moreDigits? (base : Nat) : List Char → Option (List Nat × List Char)
  | [] => some ([], [])
  | '_' :: c :: rest => do
    let d ← Numeral.digit? base c
    let (ds, rest) ← moreDigits? base rest
    return (d :: ds, rest)
  | c :: rest =>
    match Numeral.digit? base c with
    | some d => do
      let (ds, rest) ← moreDigits? base rest
      return (d :: ds, rest)
    | none => if c = '_' then none else some ([], c :: rest)

def digits? (base : Nat) : List Char → Option (List Nat × List Char)
  | [] => none
  | c :: rest => do
    let d ← Numeral.digit? base c
    let (ds, rest) ← moreDigits? base rest
    return (d :: ds, rest)

def value (base : Nat) (digits : List Nat) : Nat := digits.foldl (fun n d => n * base + d) 0

/-! ## Numbers -/

def sign : List Char → Bool × List Char
  | '-' :: rest => (true, rest)
  | '+' :: rest => (false, rest)
  | rest => (false, rest)

def whole? : List Char → Option (List Nat × List Char)
  | '0' :: rest => some ([0], rest)
  | cs => digits? 10 cs

def fraction? : List Char → Option (Option (List Nat) × List Char)
  | '.' :: rest => (digits? 10 rest).map fun (ds, rest) => (some ds, rest)
  | rest => some (none, rest)

def exponent? : List Char → Option (Option Int × List Char)
  | [] => some (none, [])
  | c :: rest =>
    if c = 'e' ∨ c = 'E' then do
      let (negative, rest) := sign rest
      let (ds, rest) ← digits? 10 rest
      let n : Int := value 10 ds
      return (some (if negative then -n else n), rest)
    else some (none, c :: rest)

/-- The least number that rounds to no double. -/
def doubleLimit : Nat := 1 <<< 1024 - 1 <<< 970

/-- The number with these decimal digits and this power of ten is within the doubles. The first test
settles all but numbers near the limit. -/
def isDouble (digits : List Nat) (exponent : Int) : Bool :=
  let n := value 10 digits
  let size := (Numeral.digits 10 n).length + exponent
  if n = 0 ∨ size < 300 then true
  else if 320 < size then false
  else
    match exponent with
    | .ofNat e => n * Nat.pow 10 e < doubleLimit
    | .negSucc e => n < doubleLimit * Nat.pow 10 (e + 1)

/-- Reads a number in decimals, with its sign read already. -/
def decimal? (negative : Bool) (cs : List Char) : Option (Datum × List Char) := do
  let (ds, rest) ← whole? cs
  let (fraction, rest) ← fraction? rest
  let (exponent, rest) ← exponent? rest
  if fraction.isNone && exponent.isNone then
    let n : Nat := value 10 ds
    if n < 0x8000_0000_0000_0000 then return (.integer (if negative then -n else n), rest)
    else if negative && n == 0x8000_0000_0000_0000 then return (.integer (-n), rest)
    else none
  else
    let places := fraction.getD []
    if negative || isDouble (ds ++ places) (exponent.getD 0 - places.length) then
      return (.other, rest)
    else none

def inBase? (base : Nat) (cs : List Char) : Option (Datum × List Char) := do
  let (ds, rest) ← digits? base cs
  let n : Nat := value base ds
  if n < 0x8000_0000_0000_0000 then return (.integer n, rest) else none

def number? (cs : List Char) : Option (Datum × List Char) :=
  match cs with
  | '0' :: 'x' :: rest => inBase? 16 rest
  | '0' :: 'o' :: rest => inBase? 8 rest
  | '0' :: 'b' :: rest => inBase? 2 rest
  | cs =>
    match sign cs with
    | (_, 'i' :: 'n' :: 'f' :: rest) => some (.other, rest)
    | (_, 'n' :: 'a' :: 'n' :: rest) => some (.other, rest)
    | (negative, rest) => decimal? negative rest

/-! ## Dates -/

/-- Takes two digits that give a number from `least` to `most`. -/
def two? (least most : Nat) : List Char → Option (Nat × List Char)
  | a :: b :: rest => do
    let n := 10 * (← Numeral.digit? 10 a) + (← Numeral.digit? 10 b)
    if least ≤ n ∧ n ≤ most then return (n, rest) else none
  | _ => none

def mark? (c : Char) : List Char → Option (List Char)
  | d :: rest => if d = c then some rest else none
  | [] => none

def isLeap (year : Nat) : Bool := year % 4 == 0 && (year % 100 != 0 || year % 400 == 0)

def monthLength (year month : Nat) : Nat :=
  if month = 2 then if isLeap year then 29 else 28
  else if month = 4 ∨ month = 6 ∨ month = 9 ∨ month = 11 then 30
  else 31

def date? (cs : List Char) : Option (List Char) := do
  let (century, rest) ← two? 0 99 cs
  let (year, rest) ← two? 0 99 rest
  let (month, rest) ← two? 1 12 (← mark? '-' rest)
  let (_, rest) ← two? 1 (monthLength (100 * century + year) month) (← mark? '-' rest)
  return rest

def time? (cs : List Char) : Option (List Char) := do
  let (_, rest) ← two? 0 23 cs
  let (_, rest) ← two? 0 59 (← mark? ':' rest)
  let (_, rest) ← two? 0 60 (← mark? ':' rest)
  match rest with
  | '.' :: c :: more => return if c.isDigit then more.dropWhile Char.isDigit else rest
  | _ => return rest

/-- Takes the distance from universal time, if there is one. -/
def offset? : List Char → Option (List Char)
  | 'Z' :: rest => some rest
  | 'z' :: rest => some rest
  | '+' :: rest => minutes? rest
  | '-' :: rest => minutes? rest
  | rest => some rest
where
  minutes? (cs : List Char) : Option (List Char) := do
    let (_, rest) ← two? 0 23 cs
    let (_, rest) ← two? 0 59 (← mark? ':' rest)
    return rest

/-- Takes a date, a time, or both with or without an offset. -/
def moment? (cs : List Char) : Option (List Char) :=
  match date? cs with
  | none => time? cs
  | some [] => some []
  | some (c :: rest) =>
    if c = 'T' ∨ c = 't' ∨ c = ' ' then
      match time? rest with
      | some rest => offset? rest
      | none => some (c :: rest)
    else some (c :: rest)

/-- Reads a number or a date. A date is a record with no field of ours. -/
def numberOrDate? (cs : List Char) : Option (Datum × List Char) :=
  match moment? cs with
  | some rest => some (.table [], rest)
  | none => number? cs

end ProcessMemory.Toml
