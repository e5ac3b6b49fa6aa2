import ProcessMemory.Pattern.Flags
import ProcessMemory.Text.Numeral

/-!
# Escapes

What a backslash makes of the characters after it.
-/
namespace ProcessMemory.Pattern

/-- What follows a backslash. -/
inductive Escape where
  /-- A character; `byte` if it was given as exactly two hexadecimal digits. -/
  | char (c : Char) (byte : Bool)
  | shorthand (k : Shorthand) (negated : Bool)
  | look (l : Look)

def isMeta (c : Char) : Bool :=
  c ∈ ['\\', '.', '+', '*', '?', '(', ')', '|', '[', ']', '\x7b', '\x7d', '^', '$', '#', '&', '-',
    '~']

/-- A backslash before this sign leaves the sign itself. -/
def isEscapable (c : Char) : Bool :=
  isMeta c || (c.toNat < 0x80 && !c.isAlphanum && c ≠ '<' && c ≠ '>')

def isHexDigit (c : Char) : Bool := (Numeral.digit? 16 c).isSome

def hexDigits? (f : Flags) : (count : Nat) → List Char → Option (List Char × List Char)
  | 0, cs => some ([], cs)
  | count + 1, cs =>
    match f.skip cs with
    | [] => none
    | c :: rest =>
      if isHexDigit c then (hexDigits? f count rest).map fun (digits, rest) => (c :: digits, rest)
      else none

/-- Reads the code point of `\x`, `\u` and `\U`: in braces, or of a fixed number of digits. -/
def codePoint? (f : Flags) (count : Nat) (cs : List Char) : Option (Char × Bool × List Char) := do
  match f.skip cs with
  | '\x7b' :: rest =>
    let (digits, rest) := f.run isHexDigit rest
    match rest with
    | '\x7d' :: rest => return (← charOf? (← Numeral.read? 16 0x1_0000_0000 digits), false, rest)
    | _ => none
  | cs =>
    let (digits, rest) ← hexDigits? f count cs
    return (← charOf? (← Numeral.read? 16 0x1_0000_0000 digits), count == 2, rest)

/-- Reads the name in braces that tells kinds of word boundaries apart. Braces without a letter or a
dash at their front are left for a repetition. -/
def boundary? (f : Flags) (cs : List Char) : Option (WordLook × List Char) :=
  match cs with
  | '\x7b' :: inner =>
    let (name, rest) := f.run (fun c => c.isAlpha || c == '-') inner
    if name.isEmpty then some (.edge, cs)
    else
      match String.ofList name, rest with
      | "start", '\x7d' :: rest => some (.start, rest)
      | "end", '\x7d' :: rest => some (.stop, rest)
      | "start-half", '\x7d' :: rest => some (.startHalf, rest)
      | "end-half", '\x7d' :: rest => some (.stopHalf, rest)
      | _, _ => none
  | _ => some (.edge, cs)

def escape? (f : Flags) : List Char → Option (Escape × List Char)
  | [] => none
  | c :: rest =>
    let char (n : Nat) : Option (Escape × List Char) := some (.char (Char.ofNat n) false, rest)
    let point (count : Nat) : Option (Escape × List Char) :=
      (codePoint? f count rest).map fun (c, byte, rest) => (.char c byte, rest)
    if isEscapable c then some (.char c false, rest)
    else
      match c with
      | 'x' => point 2
      | 'u' => point 4
      | 'U' => point 8
      | 'd' => some (.shorthand .digit false, rest)
      | 'D' => some (.shorthand .digit true, rest)
      | 's' => some (.shorthand .blank false, rest)
      | 'S' => some (.shorthand .blank true, rest)
      | 'w' => some (.shorthand .word false, rest)
      | 'W' => some (.shorthand .word true, rest)
      | 'a' => char 0x7
      | 'f' => char 0xC
      | 't' => char 0x9
      | 'n' => char 0xA
      | 'r' => char 0xD
      | 'v' => char 0xB
      | 'A' => some (.look .textStart, rest)
      | 'z' => some (.look .textEnd, rest)
      | 'b' => (boundary? f rest).map fun (l, rest) => (.look (.word l f.unicode), rest)
      | 'B' => some (.look (.word .noEdge f.unicode), rest)
      | '<' => some (.look (.word .start f.unicode), rest)
      | '>' => some (.look (.word .stop f.unicode), rest)
      | _ => none

end ProcessMemory.Pattern
