import ProcessMemory.Pattern.Node

/-!
# Patterns as programs

A pattern as instructions that name the ones that follow them. Each node is written in front of the
instruction to go on with, so its own number is known only after that of what follows it.
-/
namespace ProcessMemory.Pattern

inductive Instr where
  | accept
  | atom (a : Atom) (next : Nat)
  | look (l : Look) (next : Nat)
  /-- Goes on at both. -/
  | fork (first second : Nat)

abbrev Code := Array Instr

/-- Writes something in front of an instruction, and tells where it starts. -/
abbrev Writer := (next : Nat) → Code → Nat × Code

namespace Writer

def atom (a : Atom) : Writer := fun next code => (code.size, code.push (.atom a next))

def copies (w : Writer) : Nat → Writer
  | 0, next, code => (next, code)
  | n + 1, next, code =>
    let (next, code) := w next code
    copies w n next code

/-- At most `n` times more; `inner` is where what is already there starts. -/
def upTo (w : Writer) (next : Nat) : (n inner : Nat) → Code → Nat × Code
  | 0, inner, code => (inner, code)
  | n + 1, inner, code =>
    let (entry, code) := w inner code
    upTo w next n code.size (code.push (.fork entry next))

/-- A fork whose one way leads through `w` back to it: its number, and where `w` starts. -/
def loop (w : Writer) (next : Nat) (code : Code) : Nat × Nat × Code :=
  let fork := code.size
  let (entry, code) := w fork (code.push (.fork next next))
  (fork, entry, code.setIfInBounds fork (.fork entry next))

def atLeast (w : Writer) (n : Nat) : Writer := fun next code =>
  let (fork, entry, code) := loop w next code
  if n = 0 then (fork, code) else copies w (n - 1) entry code

end Writer

namespace Node

mutual

def write : Node → Writer
  | .empty, next, code => (next, code)
  | .literal bytes, next, code =>
    bytes.foldr (fun b (next, code) => Writer.atom (.byte (.range b.toNat b.toNat)) next code)
      (next, code)
  | .atom a, next, code => Writer.atom a next code
  | .look l, next, code => (code.size, code.push (.look l next))
  | .group _ n, next, code => n.write next code
  | .seq ns, next, code => writeSeq ns next code
  | .alt ns, next, code => writeAlt ns next code
  | .copies n least none _, next, code => Writer.atLeast n.write least next code
  | .copies n least (some most) _, next, code =>
    let (next, code) := Writer.upTo n.write next (most - least) next code
    Writer.copies n.write least next code

def writeSeq : List Node → Writer
  | [], next, code => (next, code)
  | n :: ns, next, code =>
    let (next, code) := writeSeq ns next code
    n.write next code

/-- One of the nodes; where there are none, the atom that takes no byte. -/
def writeAlt : List Node → Writer
  | [], next, code => Writer.atom (.byte .empty) next code
  | n :: ns, next, code =>
    let (second, code) := writeAlt ns next code
    let (first, code) := n.write next code
    (code.size, code.push (.fork first second))

end

end Node

structure Program where
  code : Code
  entry : Nat

def Program.ofNode (n : Node) : Program :=
  let (entry, code) := n.write 0 #[.accept]
  ⟨code, entry⟩

end ProcessMemory.Pattern
