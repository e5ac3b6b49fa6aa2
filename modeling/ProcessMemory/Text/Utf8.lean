/-!
# UTF-8

The well-formed sequences of one to four bytes, and nothing else: no overlong form, no surrogate,
nothing above the last code point.
-/
namespace ProcessMemory

/-- The character with a given code point; surrogates and numbers out of range have none. -/
def charOf? (n : Nat) : Option Char := if h : n.isValidChar then some (Char.ofNatAux n h) else none

/-- A character comes of its own number alone. -/
theorem charOf?_eq_some {n : Nat} {c : Char} : charOf? n = some c ↔ c.toNat = n := by
  by_cases h : n.isValidChar
  · have hn : (Char.ofNatAux n h).toNat = n := rfl
    rw [charOf?, dif_pos h]
    constructor
    · intro hc
      rw [← Option.some.inj hc, hn]
    · intro hc
      refine congrArg some (Char.ext (UInt32.toNat.inj ?_))
      exact hn.trans hc.symm
  · rw [charOf?, dif_neg h]
    constructor
    · intro hc
      cases hc
    · rintro rfl
      exact absurd c.valid h

namespace Utf8

/-- The six bits of a byte that continues a sequence. -/
def continuation? (b : UInt8) : Option Nat :=
  if 0x80 ≤ b.toNat ∧ b.toNat < 0xC0 then some (b.toNat - 0x80) else none

/-- Reads `count` continuing bytes onto the bits in `high`. -/
def continuations? : (count high : Nat) → List UInt8 → Option Nat
  | 0, high, _ => some high
  | _ + 1, _, [] => none
  | count + 1, high, b :: rest => do continuations? count (high * 64 + (← continuation? b)) rest

/-- A sequence whose lead byte gave `high`: its character, unless fewer bytes would do for it. -/
def sequence? (high count least : Nat) (rest : List UInt8) : Option (Char × Nat) := do
  let value ← continuations? count high rest
  if value < least then none
  return (← charOf? value, count + 1)

/-- The character at the front, with the number of bytes it takes. -/
def decode? : List UInt8 → Option (Char × Nat)
  | [] => none
  | a :: rest =>
    let lead := a.toNat
    if lead < 0x80 then (charOf? lead).map (·, 1)
    else if lead < 0xC0 then none
    else if lead < 0xE0 then sequence? (lead - 0xC0) 1 0x80 rest
    else if lead < 0xF0 then sequence? (lead - 0xE0) 2 0x800 rest
    else if lead < 0xF8 then sequence? (lead - 0xF0) 3 0x10000 rest
    else none

def tail (n : Nat) : UInt8 := UInt8.ofNat (0x80 + n % 64)

def encode (c : Char) : List UInt8 :=
  let n := c.toNat
  if n < 0x80 then [UInt8.ofNat n]
  else if n < 0x800 then [UInt8.ofNat (0xC0 + n / 64), tail n]
  else if n < 0x10000 then [UInt8.ofNat (0xE0 + n / 4096), tail (n / 64), tail n]
  else [UInt8.ofNat (0xF0 + n / 262144), tail (n / 4096), tail (n / 64), tail n]

def encodeAll (cs : List Char) : List UInt8 := cs.flatMap encode

def decodeAll? (bytes : List UInt8) : Option (List Char) := go [] bytes
where
  go (read : List Char) : List UInt8 → Option (List Char)
    | [] => some read.reverse
    | b :: rest =>
      match decode? (b :: rest) with
      | none => none
      | some (c, width) => go (c :: read) (rest.drop (width - 1))
  termination_by bytes => bytes.length
  decreasing_by simp only [List.length_drop, List.length_cons]; omega

end Utf8
end ProcessMemory
