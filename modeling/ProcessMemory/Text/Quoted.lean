import ProcessMemory.Text.Classes.Unprintable
import ProcessMemory.Text.Numeral

/-!
# Quoted text

Text between quotes, as messages show it. The quote itself and the backslash follow a backslash,
common control characters have short names, and other characters that cannot be shown are given by
number.
-/
namespace ProcessMemory.Text

def escaped (quote c : Char) : List Char :=
  if c = quote ∨ c = '\\' then ['\\', c]
  else if c = '\x00' then ['\\', '0']
  else if c = '\t' then ['\\', 't']
  else if c = '\n' then ['\\', 'n']
  else if c = '\r' then ['\\', 'r']
  else if CharSet.unprintable.contains c.toNat then
    ['\\', 'u', '\x7b'] ++ Numeral.print 16 c.toNat ++ ['\x7d']
  else [c]

def quoted (quote : Char) (cs : List Char) : List Char :=
  quote :: cs.flatMap (escaped quote) ++ [quote]

end ProcessMemory.Text
