import ProcessMemory.Text.Utf8

/-!
# Wide text

Text and paths in two-byte units that end at the first zero, as the system hands them out. A path
keeps its units, which need not make up characters.
-/
namespace ProcessMemory.Windows

/-- Stands for a unit that is half of a character whose other half is missing. -/
def replacement : Char := '\uFFFD'

/-- Decodes units, two of which may make up one character. -/
def decodeWide : List Nat → List Char
  | [] => []
  | [u] => [(charOf? u).getD replacement]
  | high :: low :: rest =>
    if 0xD800 ≤ high ∧ high < 0xDC00 ∧ 0xDC00 ≤ low ∧ low < 0xE000 then
      (charOf? (0x10000 + (high - 0xD800) * 0x400 + (low - 0xDC00))).getD replacement ::
        decodeWide rest
    else (charOf? high).getD replacement :: decodeWide (low :: rest)

structure WidePath where
  units : List Nat
  deriving DecidableEq

namespace WidePath

/-- The path up to the first zero. -/
def ofUnits (units : List Nat) : WidePath := ⟨units.takeWhile (· != 0)⟩

def text (p : WidePath) : String := String.ofList (decodeWide p.units)

end WidePath

/-- The text up to the first zero. -/
def wideText (units : List Nat) : String := (WidePath.ofUnits units).text

/-- The last component of a path, which slashes of both kinds cut. -/
def fileName (path : String) : String :=
  String.ofList (path.toList.reverse.takeWhile fun c => c != '\\' && c != '/').reverse

end ProcessMemory.Windows
