import ProcessMemory.Datum
import ProcessMemory.Toml.Text

/-!
# Writing TOML

Sections of fields, in the form that is easiest on the eye: each text between the plainest quotes
that will do, and the items of a list on lines of their own where there is more than one.
-/
namespace ProcessMemory.Toml

/-! ## Texts -/

/-- The length of the longest run of `quote`; `run` is that of the run before. -/
def longestRun (quote : Char) (run : Nat) : List Char → Nat
  | [] => run
  | c :: rest =>
    if c = quote then longestRun quote (run + 1) rest else max run (longestRun quote 0 rest)

/-- What cannot be written as it is: control characters other than tabs and line feeds. -/
def isControl (c : Char) : Bool := (c.toNat < 0x20 && c != '\t' && c != '\n') || c.toNat == 0x7F

def escape (c : Char) : List Char :=
  match escapes.find? (·.2 == c) with
  | some (letter, _) => ['\\', letter]
  | none =>
    if isControl c then
      let digits := (Numeral.hexPadded 4 c.toNat).map Char.toUpper
      '\\' :: 'u' :: digits
    else [c]

/-- The body of a text in three double quotes, in which every third quote in a row is escaped. -/
def longBody (quotes : Nat) : List Char → List Char
  | [] => []
  | c :: rest =>
    if c = '"' then
      if quotes < 2 then '"' :: longBody (quotes + 1) rest else '\\' :: '"' :: longBody 0 rest
    else (if c = '\n' then [c] else escape c) ++ longBody 0 rest

/-- A text of several lines starts on a line of its own. -/
def long (quote : Char) (cs body : List Char) : List Char :=
  let quotes := [quote, quote, quote]
  quotes ++ (if cs.contains '\n' then ['\n'] else []) ++ body ++ quotes

/-- Writes a text: in double quotes where nothing has to be escaped, else in single ones if those
will do, and else likewise with three of them; with escapes only where there is no other way. -/
def printText (cs : List Char) : List Char :=
  let plain := !cs.any isControl
  let lines := cs.contains '\n'
  let slashes := cs.contains '\\'
  let double := longestRun '"' 0 cs
  let single := longestRun '\'' 0 cs
  let basic := '"' :: cs.flatMap escape ++ ['"']
  let longBasic := long '"' cs (longBody 0 cs)
  if plain && !slashes && double == 0 && !lines then basic
  else if plain && single == 0 && !lines then '\'' :: cs ++ ['\'']
  else if plain && !slashes && double ≤ 2 then longBasic
  else if plain && single ≤ 2 then long '\'' cs cs
  else if lines then longBasic
  else basic

/-! ## Documents -/

/-- Writes a value that stands under a key, or fails where a number is too large. -/
def printValue? : Datum → Option (List Char)
  | .integer (.ofNat n) => if n < 0x8000_0000_0000_0000 then some (Numeral.print 10 n) else none
  | .text (some s) => some (printText s.toList)
  | .list items => do
    let texts ← items.mapM fun
      | .text (some s) => some (printText s.toList)
      | _ => none
    match texts with
    | [] => some ['[', ']']
    | [text] => some ('[' :: text ++ [']'])
    | texts =>
      let lines := texts.flatMap fun text => [' ', ' ', ' ', ' '] ++ text ++ [',', '\n']
      some ('[' :: '\n' :: lines ++ [']'])
  | _ => none

def printField? (field : String × Datum) : Option (List Char) := do
  return field.1.toList ++ [' ', '=', ' '] ++ (← printValue? field.2) ++ ['\n']

def printSection? (name : String) (fields : List (String × Datum)) : Option (List Char) := do
  return '[' :: name.toList ++ [']', '\n'] ++ (← fields.mapM printField?).flatten

def print? (sections : List (String × List (String × Datum))) : Option (List Char) := do
  return ['\n'].intercalate (← sections.mapM fun (name, fields) => printSection? name fields)

end ProcessMemory.Toml
