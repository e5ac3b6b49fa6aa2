import ProcessMemory.Text.Classes.Alphabetic
import ProcessMemory.Text.Classes.Numeric

/-!
# Letters
-/
namespace ProcessMemory.Text

def isAlphabetic (c : Char) : Bool := CharSet.alphabetic.contains c.toNat

def isAlphanumeric (c : Char) : Bool := isAlphabetic c || CharSet.numeric.contains c.toNat

end ProcessMemory.Text
