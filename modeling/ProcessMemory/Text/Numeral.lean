/-!
# Numerals

Unsigned numerals in a base of at most sixteen. Reading stops at the first character that is at
fault, so a numeral that has already grown too large is too large whatever follows it.
-/
namespace ProcessMemory

inductive NumeralError where
  | empty | badDigit | tooLarge
  deriving DecidableEq, Repr

def NumeralError.message : NumeralError → String
  | .empty => "cannot parse integer from empty string"
  | .badDigit => "invalid digit found in string"
  | .tooLarge => "number too large to fit in target type"

namespace Numeral

/-- The value of a character as a digit; letters of either case stand for ten and up. -/
def digit? (base : Nat) (c : Char) : Option Nat :=
  let n := c.toNat
  let value :=
    if 0x30 ≤ n ∧ n ≤ 0x39 then n - 0x30
    else if 0x41 ≤ n ∧ n ≤ 0x46 then n - 0x41 + 10
    else if 0x61 ≤ n ∧ n ≤ 0x66 then n - 0x61 + 10
    else base
  if value < base then some value else none

/-- Reads digits into `acc`, keeping the value below `limit`. -/
def readDigits (base limit : Nat) (acc : Nat) : List Char → Except NumeralError Nat
  | [] => .ok acc
  | c :: rest =>
    match digit? base c with
    | none => .error .badDigit
    | some d =>
      let value := acc * base + d
      if value < limit then readDigits base limit value rest else .error .tooLarge

/-- Reads a numeral below `limit`, with at most one leading plus sign. -/
def read (base limit : Nat) : List Char → Except NumeralError Nat
  | [] => .error .empty
  | '+' :: [] => .error .badDigit
  | '+' :: rest => readDigits base limit 0 rest
  | cs => readDigits base limit 0 cs

def read? (base limit : Nat) (cs : List Char) : Option Nat := (read base limit cs).toOption

/-- The digits of `n`, most significant first. Zero has one digit. -/
def digits (base n : Nat) : List Nat :=
  if _h : base < 2 ∨ n < base then [n] else digits base (n / base) ++ [n % base]
termination_by n
decreasing_by
  exact Nat.div_lt_self (by omega) (by omega)

def digitChar (d : Nat) : Char :=
  if d < 10 then Char.ofNat (0x30 + d) else Char.ofNat (0x61 + (d - 10))

def print (base n : Nat) : List Char := (digits base n).map digitChar

/-- Lower-case hexadecimal with at least `width` digits. -/
def hexPadded (width n : Nat) : List Char :=
  let cs := print 16 n
  List.replicate (width - cs.length) '0' ++ cs

end Numeral
end ProcessMemory
