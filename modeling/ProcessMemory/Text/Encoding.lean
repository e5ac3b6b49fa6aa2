import ProcessMemory.Text.Utf8

/-!
# Encodings

How characters lie in memory as bytes. Every decoder looks at the front of some bytes and tells
either the character there or how many bytes to give up; its encoder stands beside it.
-/
namespace ProcessMemory

inductive Encoding where
  | utf8
  /-- Sixteen-bit units, low byte first. -/
  | utf16
  /-- Thirty-two-bit units, low byte first. -/
  | utf32
  | windows1252
  deriving DecidableEq, Repr

/-- What stands at the front of some bytes. -/
inductive Front where
  /-- A character and the number of bytes it takes. -/
  | char (c : Char) (width : Nat)
  /-- That many bytes that no character starts in. -/
  | garbage (width : Nat)
  deriving DecidableEq

namespace Encoding

def unit : Encoding → Nat
  | .utf8 => 1
  | .utf16 => 2
  | .utf32 => 4
  | .windows1252 => 1

/-! ## UTF-16 -/

def isHighSurrogate (unit : Nat) : Bool := 0xD800 ≤ unit && unit < 0xDC00

def isLowSurrogate (unit : Nat) : Bool := 0xDC00 ≤ unit && unit < 0xE000

/-- The character at the front of sixteen-bit units, with the number of units it takes. -/
def decodeUnits? : List Nat → Option (Char × Nat)
  | [] => none
  | [unit] => (charOf? unit).map (·, 1)
  | high :: low :: _ =>
    if isHighSurrogate high && isLowSurrogate low then
      (charOf? (0x10000 + (high - 0xD800) * 0x400 + (low - 0xDC00))).map (·, 2)
    else (charOf? high).map (·, 1)

def encodeUnits (c : Char) : List Nat :=
  let n := c.toNat
  if n < 0x10000 then [n]
  else [0xD800 + (n - 0x10000) / 0x400, 0xDC00 + (n - 0x10000) % 0x400]

def wordUnit (a b : UInt8) : Nat := a.toNat + 0x100 * b.toNat

def unitBytes (n : Nat) : List UInt8 := [UInt8.ofNat n, UInt8.ofNat (n / 0x100)]

/-! ## Windows code page 1252 -/

/-- The characters of the bytes from `0x80` to `0x9F`; five of them keep their number. -/
def windowsTable : List Char :=
  ['\u20AC', '\u0081', '\u201A', '\u0192', '\u201E', '\u2026', '\u2020', '\u2021',
    '\u02C6', '\u2030', '\u0160', '\u2039', '\u0152', '\u008D', '\u017D', '\u008F',
    '\u0090', '\u2018', '\u2019', '\u201C', '\u201D', '\u2022', '\u2013', '\u2014',
    '\u02DC', '\u2122', '\u0161', '\u203A', '\u0153', '\u009D', '\u017E', '\u0178']

def windowsChar (b : UInt8) : Char :=
  let n := b.toNat
  if 0x80 ≤ n ∧ n < 0xA0 then windowsTable.getD (n - 0x80) (Char.ofNat n) else Char.ofNat n

def windowsByte? (c : Char) : Option UInt8 :=
  match windowsTable.idxOf? c with
  | some i => some (UInt8.ofNat (0x80 + i))
  | none =>
    let n := c.toNat
    if n < 0x80 ∨ (0xA0 ≤ n ∧ n < 0x100) then some (UInt8.ofNat n) else none

/-! ## All of them -/

def front (e : Encoding) (bytes : List UInt8) : Front :=
  match e with
  | .utf8 =>
    match Utf8.decode? bytes with
    | some (c, width) => .char c width
    | none => .garbage 1
  | .utf16 =>
    match bytes with
    | a :: b :: rest =>
      let units :=
        match rest with
        | c :: d :: _ => [wordUnit a b, wordUnit c d]
        | _ => [wordUnit a b]
      match decodeUnits? units with
      | some (c, count) => .char c (2 * count)
      | none => .garbage 2
    | _ => .garbage 1
  | .utf32 =>
    match bytes with
    | a :: b :: c :: d :: _ =>
      match charOf? (wordUnit a b + 0x10000 * wordUnit c d) with
      | some c => .char c 4
      | none => .garbage 4
    | rest => .garbage (max 1 rest.length)
  | .windows1252 =>
    match bytes with
    | b :: _ => .char (windowsChar b) 1
    | [] => .garbage 1

/-- The bytes of a character, where the encoding has it. -/
def encode? (e : Encoding) (c : Char) : Option (List UInt8) :=
  match e with
  | .utf8 => some (Utf8.encode c)
  | .utf16 => some ((encodeUnits c).flatMap unitBytes)
  | .utf32 => some (unitBytes (c.toNat % 0x10000) ++ unitBytes (c.toNat / 0x10000))
  | .windows1252 => (windowsByte? c).map ([·])

def encodeText? (e : Encoding) (text : List Char) : Option (List UInt8) :=
  (text.mapM e.encode?).map List.flatten

end Encoding
end ProcessMemory
