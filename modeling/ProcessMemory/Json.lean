import ProcessMemory.Datum
import ProcessMemory.Text.Numeral
import ProcessMemory.Text.Utf8

/-!
# JSON

Reading a document, and writing one without blanks. Numbers are kept where they are whole, and a
text whose escapes pair up to no characters is still a text, since it may stand where nobody looks.
-/
namespace ProcessMemory.Json

def isBlank (c : Char) : Bool := c == ' ' || c == '\t' || c == '\n' || c == '\r'

def skip (cs : List Char) : List Char := cs.dropWhile isBlank

/-! ## Texts -/

/-- A part of a text: a character, or a two-byte unit given by number. -/
inductive Piece where
  | char (c : Char)
  | unit (n : Nat)

def escapes : List (Char × Char) :=
  [('"', '"'), ('\\', '\\'), ('/', '/'), ('b', '\x08'), ('f', '\x0c'), ('n', '\n'), ('r', '\r'),
    ('t', '\t')]

/-- The value of hexadecimal digits, which may not have a sign. -/
def unit? (digits : List Char) : Option Nat :=
  digits.foldlM (fun n c => (Numeral.digit? 16 c).map (n * 16 + ·)) 0

/-- Reads a text whose opening quote has been read. -/
def pieces? : List Char → Option (List Piece × List Char)
  | [] => none
  | '"' :: rest => some ([], rest)
  | '\\' :: 'u' :: a :: b :: c :: d :: rest => do
    let n ← unit? [a, b, c, d]
    let (pieces, rest) ← pieces? rest
    return (.unit n :: pieces, rest)
  | '\\' :: e :: rest => do
    let c ← escapes.lookup e
    let (pieces, rest) ← pieces? rest
    return (.char c :: pieces, rest)
  | c :: rest =>
    if c.toNat < 0x20 ∨ c = '\\' then none
    else do
      let (pieces, rest) ← pieces? rest
      return (.char c :: pieces, rest)

/-- The characters of a text. Two units may pair up to one character. -/
def resolve? : List Piece → Option (List Char)
  | [] => some []
  | .char c :: rest => (resolve? rest).map (c :: ·)
  | .unit high :: .unit low :: rest =>
    if 0xD800 ≤ high ∧ high < 0xDC00 then
      if 0xDC00 ≤ low ∧ low < 0xE000 then do
        let c ← charOf? (0x10000 + (high - 0xD800) * 0x400 + (low - 0xDC00))
        return c :: (← resolve? rest)
      else none
    else do return (← charOf? high) :: (← resolve? (.unit low :: rest))
  | .unit n :: rest => do return (← charOf? n) :: (← resolve? rest)

def text? (cs : List Char) : Option (Option String × List Char) := do
  let (pieces, rest) ← pieces? cs
  return ((resolve? pieces).map String.ofList, rest)

/-! ## Numbers -/

def digits? (cs : List Char) : Option (List Char × List Char) :=
  match cs.span Char.isDigit with
  | ([], _) => none
  | split => some split

/-- Takes the digits before any point; a zero stands alone. -/
def whole? : List Char → Option (List Char × List Char)
  | '0' :: rest => some (['0'], rest)
  | cs => digits? cs

/-- Takes the point and the digits after it. Tells whether there are any. -/
def fraction? : List Char → Option (Bool × List Char)
  | '.' :: rest => (digits? rest).map fun (_, rest) => (true, rest)
  | rest => some (false, rest)

/-- Takes the power of ten. Tells whether there is one. -/
def exponent? : List Char → Option (Bool × List Char)
  | c :: rest =>
    if c = 'e' ∨ c = 'E' then
      let unsigned := match rest with
        | '+' :: rest => rest
        | '-' :: rest => rest
        | rest => rest
      (digits? unsigned).map fun (_, rest) => (true, rest)
    else some (false, c :: rest)
  | [] => some (false, [])

/-- Reads a number. Minus zero is no whole number. -/
def number? (cs : List Char) : Option (Datum × List Char) := do
  let (negative, unsigned) := match cs with
    | '-' :: rest => (true, rest)
    | cs => (false, cs)
  let (digits, rest) ← whole? unsigned
  let (hasFraction, rest) ← fraction? rest
  let (hasExponent, rest) ← exponent? rest
  let n : Nat := digits.foldl (fun n c => n * 10 + (c.toNat - 0x30)) 0
  if hasFraction || hasExponent || (negative && n == 0) then return (.other, rest)
  else return (.integer (if negative then -n else n), rest)

/-! ## Documents -/

mutual

/-- Reads a value. `fuel` bounds the number of values and separators. -/
def value? : (fuel : Nat) → List Char → Option (Datum × List Char)
  | 0, _ => none
  | fuel + 1, cs =>
    match skip cs with
    | '"' :: rest => do
      let (s, rest) ← text? rest
      return (.text s, rest)
    | '[' :: rest =>
      match skip rest with
      | ']' :: rest => some (.list [], rest)
      | rest => do
        let (items, rest) ← items? fuel rest
        return (.list items, rest)
    | '\x7b' :: rest =>
      match skip rest with
      | '\x7d' :: rest => some (.table [], rest)
      | rest => do
        let (entries, rest) ← entries? fuel rest
        return (.table entries, rest)
    | 'n' :: 'u' :: 'l' :: 'l' :: rest => some (.null, rest)
    | 't' :: 'r' :: 'u' :: 'e' :: rest => some (.other, rest)
    | 'f' :: 'a' :: 'l' :: 's' :: 'e' :: rest => some (.other, rest)
    | rest => number? rest

def items? : (fuel : Nat) → List Char → Option (List Datum × List Char)
  | 0, _ => none
  | fuel + 1, cs => do
    let (item, rest) ← value? fuel cs
    match skip rest with
    | ']' :: rest => return ([item], rest)
    | ',' :: rest => do
      let (items, rest) ← items? fuel rest
      return (item :: items, rest)
    | _ => none

def entries? : (fuel : Nat) → List Char → Option (List (Option String × Datum) × List Char)
  | 0, _ => none
  | fuel + 1, cs =>
    match skip cs with
    | '"' :: rest => do
      let (key, rest) ← text? rest
      match skip rest with
      | ':' :: rest => do
        let (value, rest) ← value? fuel rest
        match skip rest with
        | '\x7d' :: rest => return ([(key, value)], rest)
        | ',' :: rest => do
          let (entries, rest) ← entries? fuel rest
          return ((key, value) :: entries, rest)
        | _ => none
      | _ => none
    | _ => none

end

def read? (text : String) : Option Datum :=
  let cs := text.toList
  match value? (2 * cs.length + 2) cs with
  | some (d, rest) => if (skip rest).isEmpty then some d else none
  | none => none

/-! ## Writing -/

def escaped (c : Char) : List Char :=
  match c with
  | '"' => ['\\', '"']
  | '\\' => ['\\', '\\']
  | '\x08' => ['\\', 'b']
  | '\x0c' => ['\\', 'f']
  | '\n' => ['\\', 'n']
  | '\r' => ['\\', 'r']
  | '\t' => ['\\', 't']
  | c => if c.toNat < 0x20 then '\\' :: 'u' :: Numeral.hexPadded 4 c.toNat else [c]

def printText (s : String) : List Char := '"' :: s.toList.flatMap escaped ++ ['"']

def printInteger : Int → List Char
  | .ofNat n => Numeral.print 10 n
  | .negSucc n => '-' :: Numeral.print 10 (n + 1)

mutual

/-- Writes a value. What no field holds is written as nothing is. -/
def print : Datum → List Char
  | .null => ['n', 'u', 'l', 'l']
  | .integer n => printInteger n
  | .text s => printText (s.getD "")
  | .list items => '[' :: printItems items ++ [']']
  | .table entries => '\x7b' :: printEntries entries ++ ['\x7d']
  | .other => ['n', 'u', 'l', 'l']

def printItems : List Datum → List Char
  | [] => []
  | [item] => print item
  | item :: rest => print item ++ ',' :: printItems rest

def printEntries : List (Option String × Datum) → List Char
  | [] => []
  | [(key, value)] => printText (key.getD "") ++ ':' :: print value
  | (key, value) :: rest =>
    printText (key.getD "") ++ ':' :: print value ++ ',' :: printEntries rest

end

end ProcessMemory.Json
