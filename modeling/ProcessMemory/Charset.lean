import ProcessMemory.Address
import ProcessMemory.Text.Encoding

/-!
# Charsets

An encoding together with the addresses its units start at. Text in two-byte units may start at
even or at odd addresses, and each of the two is a charset of its own; likewise four residues for
four-byte units.
-/
namespace ProcessMemory

inductive Charset where
  | utf8 | utf16Even | utf16Odd | utf32Mod0 | utf32Mod1 | utf32Mod2 | utf32Mod3 | windows1252
  deriving DecidableEq, Repr

namespace Charset

def all : List Charset :=
  [.utf8, .utf16Even, .utf16Odd, .utf32Mod0, .utf32Mod1, .utf32Mod2, .utf32Mod3, .windows1252]

/-- The charsets that are tried where none are named. -/
def defaults : List Charset := [.utf8, .utf16Even, .utf16Odd]

def encoding : Charset → Encoding
  | .utf8 => .utf8
  | .utf16Even => .utf16
  | .utf16Odd => .utf16
  | .utf32Mod0 => .utf32
  | .utf32Mod1 => .utf32
  | .utf32Mod2 => .utf32
  | .utf32Mod3 => .utf32
  | .windows1252 => .windows1252

/-- What an address that a unit starts at leaves when divided by the size of a unit. -/
def residue : Charset → Nat
  | .utf16Odd => 1
  | .utf32Mod1 => 1
  | .utf32Mod2 => 2
  | .utf32Mod3 => 3
  | _ => 0

/-- Units of this charset may start at `a`. -/
def Aligned (c : Charset) (a : Address) : Prop := a.toNat % c.encoding.unit = c.residue

instance (c : Charset) (a : Address) : Decidable (c.Aligned a) :=
  inferInstanceAs (Decidable (_ = _))

/-- The number of bytes from `a` to the next address that a unit may start at. For units at odd
addresses it is the parity of the address after `a`, and the highest address has none after it. -/
def skip? (c : Charset) (a : Address) : Option Nat :=
  match c with
  | .utf8 => some 0
  | .utf16Even => some (a.toNat % 2)
  | .utf16Odd => (a.advance? 1).map fun after => after.toNat % 2
  | .utf32Mod0 => some ((4 - a.toNat % 4) % 4)
  | .utf32Mod1 => some ((5 - a.toNat % 4) % 4)
  | .utf32Mod2 => some ((6 - a.toNat % 4) % 4)
  | .utf32Mod3 => some ((7 - a.toNat % 4) % 4)
  | .windows1252 => some 0

/-- Units at odd addresses are found by the parity of the next address, which has to be there. -/
theorem skip?_odd {a : Address} {n : Nat} :
    utf16Odd.skip? a = some n ↔ a.toNat + 1 < 0x1_0000_0000_0000_0000 ∧ (a.toNat + 1) % 2 = n := by
  simp only [skip?, Option.map_eq_some_iff, Address.advance?, Address.ofNat?_eq_some]
  constructor
  · rintro ⟨after, hafter, hn⟩
    have := after.isLt
    omega
  · rintro ⟨hlt, hn⟩
    exact ⟨⟨a.toNat + 1, hlt⟩, rfl, hn⟩

/-- Skipping leads to an address that a unit may start at. -/
theorem skip?_aligned {c : Charset} {a : Address} {n : Nat} (h : c.skip? a = some n) :
    (a.toNat + n) % c.encoding.unit = c.residue := by
  cases c with
  | utf16Odd =>
    rw [skip?_odd] at h
    simp only [encoding, Encoding.unit, residue]
    omega
  | _ =>
    simp only [skip?, Option.some.injEq] at h
    subst h
    simp only [encoding, Encoding.unit, residue]
    omega

/-- Less than a unit is skipped. -/
theorem skip?_lt_unit {c : Charset} {a : Address} {n : Nat} (h : c.skip? a = some n) :
    n < c.encoding.unit := by
  cases c with
  | utf16Odd =>
    rw [skip?_odd] at h
    simp only [encoding, Encoding.unit]
    omega
  | _ =>
    simp only [skip?, Option.some.injEq] at h
    subst h
    simp only [encoding, Encoding.unit]
    omega

def tag : Charset → String
  | .utf8 => "utf-8"
  | .utf16Even => "utf-16-even"
  | .utf16Odd => "utf-16-odd"
  | .utf32Mod0 => "utf-32-mod0"
  | .utf32Mod1 => "utf-32-mod1"
  | .utf32Mod2 => "utf-32-mod2"
  | .utf32Mod3 => "utf-32-mod3"
  | .windows1252 => "windows-1252"

def aliases : List (String × Charset) :=
  [("utf8", .utf8), ("utf-16le-even", .utf16Even), ("utf-16le-odd", .utf16Odd),
    ("cp1252", .windows1252)]

/-- Reads a tag in any case, blanks around it aside. -/
def ofTag? (text : String) : Option Charset :=
  let tag := String.ofList ((Text.trim text.toList).map Char.toLower)
  all.find? (·.tag == tag) <|> aliases.lookup tag

instance : ToString Charset := ⟨tag⟩

end Charset
end ProcessMemory
