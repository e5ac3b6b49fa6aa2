import ProcessMemory.Pattern.Simplify
import ProcessMemory.Text.Blank
import ProcessMemory.Text.CaseFold
import ProcessMemory.Text.Classes.Digit
import ProcessMemory.Text.Classes.Word

/-!
# Flags and named sets

With the `unicode` flag the parts of a pattern range over code points, without it over bytes. Text
is matched without cutting a character, so a pattern for text may not step over bytes from `0x80`
on. With the `verbose` flag blanks and comments may stand almost anywhere.
-/
namespace ProcessMemory.Pattern

structure Flags where
  caseless : Bool := false
  /-- A dot takes in line ends. -/
  dotAll : Bool := false
  multiline : Bool := false
  carriage : Bool := false
  /-- Repetitions without a question mark are the lazy ones. -/
  swapGreed : Bool := false
  /-- Blanks and comments between the parts are passed over. -/
  verbose : Bool := false
  unicode : Bool := true
  /-- The pattern is for text, not for bytes. -/
  textOnly : Bool

namespace Flags

/-! ## Sets -/

def limit (f : Flags) : Nat := if f.unicode then 0x110000 else 0x100

/-- Refuses a set that could cut a character of text. -/
def admit? (f : Flags) (s : CharSet) : Option CharSet :=
  if f.textOnly && !f.unicode && !s.isBelow 0x80 then none else some s

def node (f : Flags) (s : CharSet) : Node := if f.unicode then .ofScalars s else .ofBytes s

def negate (f : Flags) (negated : Bool) (s : CharSet) : CharSet :=
  if negated then s.complement f.limit else s

/-- Adds the other case of every letter in the set, of ASCII letters only where it holds bytes. -/
def closeCase (f : Flags) (s : CharSet) : CharSet :=
  if !f.caseless then s
  else if f.unicode then s.closeCase
  else
    let letters := (List.range 26).flatMap fun i => [(0x41 + i, 0x61 + i), (0x61 + i, 0x41 + i)]
    s.union (.ofRanges ((letters.filter fun (a, _) => s.contains a).map fun (_, b) => (b, b)))

/-! ## Blanks and comments -/

/-- The characters at the front that pass a test, and what comes after them. Blanks and comments
before and between them are passed over where the flags ask for it. -/
def run (f : Flags) (test : Char → Bool) (cs : List Char) : List Char × List Char := go false cs
where
  go (comment : Bool) : List Char → List Char × List Char
    | [] => ([], [])
    | c :: rest =>
      if comment then go (c ≠ '\n') rest
      else if f.verbose && c = '#' then go true rest
      else if f.verbose && Text.isBlank c then go false rest
      else if test c then
        let (taken, rest) := go false rest
        (c :: taken, rest)
      else ([], c :: rest)

/-- Passes over blanks and comments where the flags ask for it. -/
def skip (f : Flags) (cs : List Char) : List Char := (f.run (fun _ => false) cs).2

/-- The character that decides whether a dash in front of `cs` makes a range. Blanks and the sign
that starts a comment are passed over, but not the comment. -/
def peek (f : Flags) (cs : List Char) : Option Char :=
  let seen :=
    match Text.trimLeft cs with
    | '#' :: rest => Text.trimLeft rest
    | rest => rest
  if f.verbose && !seen.isEmpty then seen.head? else cs.head?

end Flags

/-! ## Named sets -/

inductive Shorthand where
  | digit | blank | word

def asciiWord : CharSet := .ofRanges [(0x30, 0x39), (0x41, 0x5A), (0x5F, 0x5F), (0x61, 0x7A)]

def blankSet : CharSet :=
  .ofRanges [(0x9, 0xD), (0x20, 0x20), (0x85, 0x85), (0xA0, 0xA0), (0x1680, 0x1680),
    (0x2000, 0x200A), (0x2028, 0x2029), (0x202F, 0x202F), (0x205F, 0x205F), (0x3000, 0x3000)]

def Shorthand.set? (k : Shorthand) (f : Flags) (negated : Bool) : Option CharSet :=
  f.admit? <| f.negate negated <|
    match k, f.unicode with
    | .digit, true => CharSet.digit
    | .blank, true => blankSet
    | .word, true => CharSet.word
    | .digit, false => .range 0x30 0x39
    | .blank, false => .ofRanges [(0x9, 0xD), (0x20, 0x20)]
    | .word, false => asciiWord

def posix : List (String × CharSet) :=
  [("alnum", .ofRanges [(0x30, 0x39), (0x41, 0x5A), (0x61, 0x7A)]),
    ("alpha", .ofRanges [(0x41, 0x5A), (0x61, 0x7A)]),
    ("ascii", .range 0x0 0x7F),
    ("blank", .ofRanges [(0x9, 0x9), (0x20, 0x20)]),
    ("cntrl", .ofRanges [(0x0, 0x1F), (0x7F, 0x7F)]),
    ("digit", .range 0x30 0x39),
    ("graph", .range 0x21 0x7E),
    ("lower", .range 0x61 0x7A),
    ("print", .range 0x20 0x7E),
    ("punct", .ofRanges [(0x21, 0x2F), (0x3A, 0x40), (0x5B, 0x60), (0x7B, 0x7E)]),
    ("space", .ofRanges [(0x9, 0xD), (0x20, 0x20)]),
    ("upper", .range 0x41 0x5A),
    ("word", asciiWord),
    ("xdigit", .ofRanges [(0x30, 0x39), (0x41, 0x46), (0x61, 0x66)])]

end ProcessMemory.Pattern
