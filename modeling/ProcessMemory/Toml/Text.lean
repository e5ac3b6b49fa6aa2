import ProcessMemory.Text.Numeral
import ProcessMemory.Text.Utf8

/-!
# TOML texts

The four ways to write a text: between double quotes with escapes or between single quotes without,
and either on one line or, with the quote three times, over several.
-/
namespace ProcessMemory.Toml

/-- What may stand in texts and comments: tabs, and all but control characters. -/
def isPlain (c : Char) : Bool := c == '\t' || (0x20 ≤ c.toNat && c.toNat != 0x7F)

def isSpace (c : Char) : Bool := c == ' ' || c == '\t'

def skipSpaces (cs : List Char) : List Char := cs.dropWhile isSpace

def newline? : List Char → Option (List Char)
  | '\n' :: rest => some rest
  | '\r' :: '\n' :: rest => some rest
  | _ => none

def escapes : List (Char × Char) :=
  [('b', '\x08'), ('t', '\t'), ('n', '\n'), ('f', '\x0c'), ('r', '\r'), ('"', '"'), ('\\', '\\')]

def charOfHex? (digits : List Char) : Option Char :=
  (digits.foldlM (fun n c => (Numeral.digit? 16 c).map (n * 16 + ·)) 0).bind charOf?

/-- Reads a text in double quotes whose first quote has been read. -/
def basic? : List Char → Option (List Char × List Char)
  | [] => none
  | '"' :: rest => some ([], rest)
  | '\\' :: 'u' :: a :: b :: c :: d :: rest => do
    let c ← charOfHex? [a, b, c, d]
    let (cs, rest) ← basic? rest
    return (c :: cs, rest)
  | '\\' :: 'U' :: a :: b :: c :: d :: e :: f :: g :: h :: rest => do
    let c ← charOfHex? [a, b, c, d, e, f, g, h]
    let (cs, rest) ← basic? rest
    return (c :: cs, rest)
  | '\\' :: e :: rest => do
    let c ← escapes.lookup e
    let (cs, rest) ← basic? rest
    return (c :: cs, rest)
  | c :: rest =>
    if isPlain c && c != '\\' then do
      let (cs, rest) ← basic? rest
      return (c :: cs, rest)
    else none

def literal? : List Char → Option (List Char × List Char)
  | [] => none
  | '\'' :: rest => some ([], rest)
  | c :: rest =>
    if isPlain c then do
      let (cs, rest) ← literal? rest
      return (c :: cs, rest)
    else none

/-- What follows three quotes at the end of a text: up to two quotes that belong to it. -/
def closing (quote : Char) : List Char → List Char × List Char
  | [] => ([], [])
  | [c] => if c = quote then ([c], []) else ([], [c])
  | c :: d :: rest =>
    if c ≠ quote then ([], c :: d :: rest)
    else if d ≠ quote then ([c], d :: rest)
    else ([c, d], rest)

/-- Only spaces come before the end of the line. -/
def breaksLine (cs : List Char) : Bool := (newline? (skipSpaces cs)).isSome

/-- Reads a text in three double quotes whose first quotes have been read. A backslash at the end of
a line takes with it all blanks up to the next character, and `joining` tells that it has. -/
def longBasic? (joining : Bool) : List Char → Option (List Char × List Char)
  | [] => none
  | '"' :: '"' :: '"' :: rest => some (closing '"' rest)
  | '\\' :: 'u' :: a :: b :: c :: d :: rest => do
    let c ← charOfHex? [a, b, c, d]
    let (cs, rest) ← longBasic? false rest
    return (c :: cs, rest)
  | '\\' :: 'U' :: a :: b :: c :: d :: e :: f :: g :: h :: rest => do
    let c ← charOfHex? [a, b, c, d, e, f, g, h]
    let (cs, rest) ← longBasic? false rest
    return (c :: cs, rest)
  | '\\' :: e :: rest =>
    if breaksLine (e :: rest) then longBasic? true (e :: rest)
    else do
      let c ← escapes.lookup e
      let (cs, rest) ← longBasic? false rest
      return (c :: cs, rest)
  | '\r' :: '\n' :: rest =>
    if joining then longBasic? true rest
    else do
      let (cs, rest) ← longBasic? false rest
      return ('\n' :: cs, rest)
  | c :: rest =>
    if joining && (isSpace c || c == '\n') then longBasic? true rest
    else if c == '\n' || (isPlain c && c != '\\') then do
      let (cs, rest) ← longBasic? false rest
      return (c :: cs, rest)
    else none

def longLiteral? : List Char → Option (List Char × List Char)
  | [] => none
  | '\'' :: '\'' :: '\'' :: rest => some (closing '\'' rest)
  | '\r' :: '\n' :: rest => do
    let (cs, rest) ← longLiteral? rest
    return ('\n' :: cs, rest)
  | c :: rest =>
    if c == '\n' || isPlain c then do
      let (cs, rest) ← longLiteral? rest
      return (c :: cs, rest)
    else none

/-- Reads a text in any of the four ways. A line break right after three quotes
is not part of it. -/
def text? : List Char → Option (List Char × List Char)
  | '"' :: '"' :: '"' :: rest => longBasic? false ((newline? rest).getD rest)
  | '"' :: rest => basic? rest
  | '\'' :: '\'' :: '\'' :: rest => longLiteral? ((newline? rest).getD rest)
  | '\'' :: rest => literal? rest
  | _ => none

end ProcessMemory.Toml
