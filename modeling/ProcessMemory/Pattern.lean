import ProcessMemory.Pattern.Budget
import ProcessMemory.Pattern.Haystack
import ProcessMemory.Pattern.Parser
import ProcessMemory.Pattern.Program

/-!
# Patterns

Searching bytes or text for a pattern. A pattern that would take up too much memory is refused. The
answer is where the leftmost match starts. Places are tried in order, and what has been found not to
lead to a match from one place is not tried again from a later one.
-/
namespace ProcessMemory

structure Pattern where
  program : Pattern.Program
  /-- The pattern is for text, so a match starts where a character does. -/
  textOnly : Bool

namespace Pattern

def compile? (textOnly : Bool) (s : String) : Option Pattern := do
  let n ← parse? textOnly s
  if n.isAffordable then some ⟨.ofNode n, textOnly⟩ else none

def forBytes? : String → Option Pattern := compile? false

def forText? : String → Option Pattern := compile? true

/-- The pairs of an instruction and a position found to lead nowhere. -/
abbrev Seen := ByteArray

def Seen.fresh (pairs : Nat) : Seen :=
  if _h : pairs = 0 then .empty
  else
    let half := fresh (pairs / 2)
    if pairs % 2 = 0 then half ++ half else (half ++ half).push 0

/-- Follows a program from the pairs in `todo`. The fuel is twice the number of pairs. -/
def follow (code : Code) (h : Haystack) :
    (fuel : Nat) → (todo : List (Nat × Nat)) → Seen → Bool × Seen
  | 0, _, seen => (false, seen)
  | _ + 1, [], seen => (false, seen)
  | fuel + 1, (state, i) :: todo, seen =>
    let key := i * code.size + state
    if seen.get! key != 0 then follow code h fuel todo seen
    else
      let seen := seen.set! key 1
      match code[state]? with
      | none => follow code h fuel todo seen
      | some .accept => (true, seen)
      | some (.atom a next) =>
        match h.step? a i with
        | some i => follow code h fuel ((next, i) :: todo) seen
        | none => follow code h fuel todo seen
      | some (.look l next) =>
        if h.holds l i then follow code h fuel ((next, i) :: todo) seen
        else follow code h fuel todo seen
      | some (.fork a b) => follow code h fuel ((a, i) :: (b, i) :: todo) seen

/-- The first of `count` places from `i` on where a match starts. -/
def findFrom (p : Pattern) (h : Haystack) (fuel : Nat) : (count i : Nat) → Seen → Option Nat
  | 0, _, _ => none
  | count + 1, i, seen =>
    if p.textOnly && h.isInner i then findFrom p h fuel count (i + 1) seen
    else
      match follow p.program.code h fuel [(p.program.entry, i)] seen with
      | (true, _) => some i
      | (false, seen) => findFrom p h fuel count (i + 1) seen

/-- Where the leftmost match in `bytes` starts. -/
def find? (p : Pattern) (bytes : List UInt8) : Option Nat :=
  let h : Haystack := ⟨bytes.toArray⟩
  let pairs := p.program.code.size * (h.size + 1)
  findFrom p h (2 * pairs + 2) (h.size + 1) 0 (Seen.fresh pairs)

/-- Where in a text the leftmost match starts, in UTF-8 bytes. -/
def findText? (p : Pattern) (text : List Char) : Option Nat := p.find? (Utf8.encodeAll text)

def isMatch (p : Pattern) (text : String) : Bool := (p.findText? text.toList).isSome

end Pattern
end ProcessMemory
