import ProcessMemory.Pattern.Node
import ProcessMemory.Text.Classes.Word
import ProcessMemory.Text.Utf8

/-!
# What patterns look at

Positions in a run of bytes: the character that starts at one, the character before it, and whether
a look holds there. Bytes that are not UTF-8 hold no characters.
-/
namespace ProcessMemory.Pattern

abbrev Haystack := ByteArray

namespace Haystack

variable (h : Haystack)

def byte? (i : Nat) : Option UInt8 := h[i]?

/-- The character that starts at a position and ends by `stop`, with its width. -/
def scalarBefore? (stop i : Nat) : Option (Char × Nat) := do
  let b ← h.byte? i
  if b < 0x80 then return (Char.ofNat b.toNat, 1)
  Utf8.decode? ((List.range (min 4 (stop - i))).filterMap fun k => h.byte? (i + k))

def scalar? (i : Nat) : Option (Char × Nat) := h.scalarBefore? h.size i

/-- A byte that goes on with a character started before it. -/
def isInner (i : Nat) : Bool := (h.byte? i).any fun b => b &&& 0xC0 == 0x80

/-- The character before a position: the one that starts at the nearest byte, of the four before
it, that could start one. -/
def scalarEndingAt? (i : Nat) : Option Char :=
  (h.scalarBefore? i (back 3 (i - 1))).map Prod.fst
where
  back : Nat → Nat → Nat
    | 0, j => j
    | n + 1, j => if j = 0 || !h.isInner j then j else back n (j - 1)

def isWordByte (b : UInt8) : Bool :=
  let n := b.toNat
  (0x30 ≤ n && n ≤ 0x39) || (0x41 ≤ n && n ≤ 0x5A) || n == 0x5F || (0x61 ≤ n && n ≤ 0x7A)

/-- What stands on one side of a position. -/
inductive Side where
  | nothing | word | other | broken
  deriving DecidableEq

def Side.ofChar? : Option Char → Side
  | none => .broken
  | some c => if CharSet.word.contains c.toNat then .word else .other

def before (unicode : Bool) (i : Nat) : Side :=
  if i = 0 then .nothing
  else if unicode then .ofChar? (h.scalarEndingAt? i)
  else if (h.byte? (i - 1)).any isWordByte then .word else .other

def after (unicode : Bool) (i : Nat) : Side :=
  if h.size ≤ i then .nothing
  else if unicode then .ofChar? ((h.scalar? i).map Prod.fst)
  else if (h.byte? i).any isWordByte then .word else .other

/-- Whether a word look holds between two sides. Next to bytes that are no character only the looks
that find a word hold. -/
def WordLook.holds (look : WordLook) (left right : Side) : Bool :=
  match look with
  | .edge => (left == .word) != (right == .word)
  | .noEdge => left != .broken && right != .broken && (left == .word) == (right == .word)
  | .start => left != .word && right == .word
  | .stop => left == .word && right != .word
  | .startHalf => left != .broken && left != .word
  | .stopHalf => right != .broken && right != .word

def holds (l : Look) (i : Nat) : Bool :=
  let last (n : UInt8) := (h.byte? (i - 1)) == some n
  let next (n : UInt8) := (h.byte? i) == some n
  match l with
  | .textStart => i == 0
  | .textEnd => i == h.size
  | .lineStart false => i == 0 || last 0xA
  | .lineEnd false => i == h.size || next 0xA
  | .lineStart true => i == 0 || last 0xA || (last 0xD && (i == h.size || !next 0xA))
  | .lineEnd true => i == h.size || next 0xD || (next 0xA && (i == 0 || !last 0xD))
  | .word look unicode => WordLook.holds look (h.before unicode i) (h.after unicode i)

/-- The position after an atom's step from `i`, if it can be taken. -/
def step? (a : Atom) (i : Nat) : Option Nat :=
  match a with
  | .byte set => (h.byte? i).bind fun b => if set.contains b.toNat then some (i + 1) else none
  | .scalar set =>
    (h.scalar? i).bind fun (c, width) => if set.contains c.toNat then some (i + width) else none

end Haystack
end ProcessMemory.Pattern
