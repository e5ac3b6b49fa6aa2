import ProcessMemory.Text.Blank
import ProcessMemory.Text.Numeral

/-!
# Addresses

An address is a 64-bit word. Arithmetic on it either clamps at the two ends of the address space
or reports that it would leave it; it never wraps.
-/
namespace ProcessMemory

abbrev ProcessId := UInt32

@[ext] structure Address where
  toNat : Nat
  isLt : toNat < 0x1_0000_0000_0000_0000
  deriving DecidableEq

namespace Address

instance : LT Address := ⟨fun a b => a.toNat < b.toNat⟩
instance : LE Address := ⟨fun a b => a.toNat ≤ b.toNat⟩
instance (a b : Address) : Decidable (a < b) := inferInstanceAs (Decidable (a.toNat < b.toNat))
instance (a b : Address) : Decidable (a ≤ b) := inferInstanceAs (Decidable (a.toNat ≤ b.toNat))
instance : Max Address := ⟨fun a b => if a ≤ b then b else a⟩
instance : Min Address := ⟨fun a b => if a ≤ b then a else b⟩

theorem lt_def (a b : Address) : a < b ↔ a.toNat < b.toNat := Iff.rfl
theorem le_def (a b : Address) : a ≤ b ↔ a.toNat ≤ b.toNat := Iff.rfl

/-- The address nearest to `n`. -/
def clamp (n : Nat) : Address := ⟨min n 0xFFFF_FFFF_FFFF_FFFF, by omega⟩

instance {n : Nat} : OfNat Address n := ⟨clamp n⟩

instance : Inhabited Address := ⟨0⟩

def top : Address := clamp 0xFFFF_FFFF_FFFF_FFFF

def ofNat? (n : Nat) : Option Address :=
  if h : n < 0x1_0000_0000_0000_0000 then some ⟨n, h⟩ else none

def isNull (a : Address) : Bool := a.toNat == 0

/-- Clears the bits below `unit`, which should be a power of two; zero changes nothing. -/
def alignDown (a : Address) (unit : Nat) : Address :=
  if unit = 0 then a
  else ⟨a.toNat &&& (0x1_0000_0000_0000_0000 - unit), Nat.lt_of_le_of_lt Nat.and_le_left a.isLt⟩

/-- `n` bytes further up, or `none` past the top. -/
def advance? (a : Address) (n : Nat) : Option Address := ofNat? (a.toNat + n)

/-- `n` bytes further up, stopping at the top. -/
def advance (a : Address) (n : Nat) : Address := clamp (a.toNat + n)

def retreat (a : Address) (n : Nat) : Address :=
  ⟨a.toNat - n, Nat.lt_of_le_of_lt (Nat.sub_le _ _) a.isLt⟩

/-- The number of bytes from `a` up to `b`, zero where `b` is lower. -/
def distanceTo (a b : Address) : Nat := b.toNat - a.toNat

@[simp] theorem toNat_top : top.toNat = 0xFFFF_FFFF_FFFF_FFFF := rfl

/-- Going up stops at the highest address. -/
@[simp] theorem toNat_advance (a : Address) (n : Nat) :
    (a.advance n).toNat = min (a.toNat + n) 0xFFFF_FFFF_FFFF_FFFF := rfl

/-- Going down stops at zero. -/
@[simp] theorem toNat_retreat (a : Address) (n : Nat) : (a.retreat n).toNat = a.toNat - n := rfl

theorem toNat_max (a b : Address) : (max a b).toNat = max a.toNat b.toNat := by
  change (if a.toNat ≤ b.toNat then b else a).toNat = _
  split <;> omega

theorem toNat_min (a b : Address) : (min a b).toNat = min a.toNat b.toNat := by
  change (if a.toNat ≤ b.toNat then a else b).toNat = _
  split <;> omega

theorem le_max_left (a b : Address) : a ≤ max a b := by
  rw [le_def, toNat_max]
  exact Nat.le_max_left _ _

theorem le_max_right (a b : Address) : b ≤ max a b := by
  rw [le_def, toNat_max]
  exact Nat.le_max_right _ _

/-- Going up leads to no lower address. -/
theorem le_advance (a : Address) (n : Nat) : a ≤ a.advance n := by
  have := a.isLt
  rw [le_def, toNat_advance]
  omega

/-- An address comes of its own number alone. -/
theorem ofNat?_eq_some {n : Nat} {a : Address} : ofNat? n = some a ↔ a.toNat = n := by
  unfold ofNat?
  split
  · rw [Option.some.injEq, Address.ext_iff]
    exact eq_comm
  · have := a.isLt
    simp only [reduceCtorEq, false_iff]
    omega

/-! ## Written forms -/

/-- Sixteen lower-case hexadecimal digits after `0x`. -/
def lowerHex (a : Address) : String := "0x" ++ String.ofList (Numeral.hexPadded 16 a.toNat)

/-- Sixteen upper-case hexadecimal digits after `0x`, the form messages use. -/
def upperHex (a : Address) : String :=
  "0x" ++ String.ofList ((Numeral.hexPadded 16 a.toNat).map Char.toUpper)

instance : ToString Address := ⟨upperHex⟩

/-- Reads an address: hexadecimal after `0x`, or where any ASCII letter occurs, and decimal
otherwise. Text that is not an address comes back trimmed. -/
def parse (s : String) : Except String Address :=
  let cs := Text.trim s.toList
  let value :=
    match cs with
    | '0' :: 'x' :: hex => Numeral.read? 16 0x1_0000_0000_0000_0000 hex
    | '0' :: 'X' :: hex => Numeral.read? 16 0x1_0000_0000_0000_0000 hex
    | _ => Numeral.read? (if cs.any Char.isAlpha then 16 else 10) 0x1_0000_0000_0000_0000 cs
  match value.bind ofNat? with
  | some a => .ok a
  | none => .error (String.ofList cs)

end Address
end ProcessMemory
