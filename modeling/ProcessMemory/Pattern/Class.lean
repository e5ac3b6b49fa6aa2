import ProcessMemory.Pattern.Escape

/-!
# Classes

Sets of characters in square brackets: single characters, ranges, named sets and further classes,
joined by three operations that group to the left. A class knows how deep it nests.
-/
namespace ProcessMemory.Pattern

/-! ## Items -/

inductive ClassItem where
  | char (c : Char) (byte : Bool)
  | set (s : CharSet)

def classItem? (f : Flags) : List Char → Option (ClassItem × List Char)
  | [] => none
  | '\\' :: rest => do
    match ← escape? f rest with
    | (.char c byte, rest) => return (.char c byte, rest)
    | (.shorthand k negated, rest) => return (.set (← k.set? f negated), rest)
    | (.look _, _) => none
  | c :: rest => some (.char c false, rest)

/-- The number a character has in a class. Among bytes only ASCII characters and bytes given by
number have one. -/
def ClassItem.number? (f : Flags) : ClassItem → Option Nat
  | .char c byte =>
    let n := c.toNat
    if f.unicode || n < 0x80 then some n else if byte && !f.textOnly then some n else none
  | .set _ => none

def ClassItem.toSet? (f : Flags) : ClassItem → Option CharSet
  | .set s => some s
  | item => do
    let n ← item.number? f
    return .range n n

/-- Reads one character, one range or one named set of a class. -/
def classRange? (f : Flags) (cs : List Char) : Option (CharSet × List Char) := do
  let (item, rest) ← classItem? f cs
  match f.skip rest with
  | [] => none
  | '-' :: after =>
    if f.peek after = some ']' ∨ f.peek after = some '-' then
      return (← item.toSet? f, '-' :: after)
    else
      let (last, rest) ← classItem? f (f.skip after)
      let a ← item.number? f
      let b ← last.number? f
      if b < a then none else return (.range a b, rest)
  | rest => return (← item.toSet? f, rest)

/-- Reads a named set after `[`, with a caret where all else is meant. -/
def posix? : List Char → Option (Bool × CharSet × List Char)
  | ':' :: rest => do
    let (negated, rest) :=
      match rest with
      | '^' :: rest => (true, rest)
      | _ => (false, rest)
    let (name, rest) := rest.span (· ≠ ':')
    match rest with
    | ':' :: ']' :: rest => return (negated, ← posix.lookup (String.ofList name), rest)
    | _ => none
  | _ => none

/-! ## Operations -/

inductive SetOp where
  | inter | diff | symmDiff

def SetOp.apply : SetOp → CharSet → CharSet → CharSet
  | .inter => .inter
  | .diff => .diff
  | .symmDiff => .symmDiff

/-- A set and how deep what stands for it nests. -/
structure Nested where
  set : CharSet
  depth : Nat := 0

structure Items where
  set : CharSet := .empty
  count : Nat := 0
  deepest : Nat := 0

namespace Items

def add (k : Items) (n : Nested) : Items := ⟨k.set.union n.set, k.count + 1, max k.deepest n.depth⟩

def nested (k : Items) : Nested := ⟨k.set, if k.count < 2 then k.deepest else k.deepest + 1⟩

end Items

structure OpenClass where
  negated : Bool
  /-- The operation to the left of the last items, with all that stands before it. -/
  pending : Option (SetOp × Nested) := none
  items : Items := {}

namespace OpenClass

/-- What has been read so far, with the operation on its left carried out. -/
def settled (k : OpenClass) (f : Flags) : Nested :=
  let right := k.items.nested
  match k.pending with
  | none => right
  | some (op, left) =>
    ⟨op.apply (f.closeCase left.set) (f.closeCase right.set), max left.depth right.depth + 1⟩

def operate (k : OpenClass) (f : Flags) (op : SetOp) : OpenClass :=
  { k with pending := some (op, k.settled f), items := {} }

def add (k : OpenClass) (n : Nested) : OpenClass := { k with items := k.items.add n }

def close? (k : OpenClass) (f : Flags) : Option Nested := do
  let n := k.settled f
  return ⟨← f.admit? (f.negate k.negated (f.closeCase n.set)), n.depth + 1⟩

/-- Takes in the dashes that come before anything else. -/
def dashes (f : Flags) : (fuel : Nat) → OpenClass → List Char → OpenClass × List Char
  | fuel + 1, k, '-' :: rest => dashes f fuel (k.add ⟨.ofChars ['-'], 0⟩) (f.skip rest)
  | _, k, cs => (k, cs)

/-- Reads what may follow an opening bracket only: a caret, dashes, and without dashes a bracket. -/
def start (f : Flags) (cs : List Char) : OpenClass × List Char :=
  let (negated, cs) :=
    match f.skip cs with
    | '^' :: rest => (true, f.skip rest)
    | cs => (false, cs)
  match cs with
  | ']' :: rest => (OpenClass.add ⟨negated, none, {}⟩ ⟨.ofChars [']'], 0⟩, f.skip rest)
  | _ => dashes f cs.length ⟨negated, none, {}⟩ cs

end OpenClass

/-- Reads a class to its closing bracket. The fuel is at least the length of the text. -/
def class? (f : Flags) : (fuel : Nat) → OpenClass → List Char → Option (Nested × List Char)
  | 0, _, _ => none
  | fuel + 1, k, cs =>
    match f.skip cs with
    | [] => none
    | ']' :: rest => (k.close? f).map (·, rest)
    | '[' :: rest =>
      match posix? rest with
      | some (negated, s, rest) => do
        let s ← f.admit? (f.negate negated (f.closeCase s))
        class? f fuel (k.add ⟨s, 0⟩) rest
      | none => do
        let (inner, rest) := OpenClass.start f rest
        let (n, rest) ← class? f fuel inner rest
        class? f fuel (k.add n) rest
    | '&' :: '&' :: rest => class? f fuel (k.operate f .inter) rest
    | '-' :: '-' :: rest => class? f fuel (k.operate f .diff) rest
    | '~' :: '~' :: rest => class? f fuel (k.operate f .symmDiff) rest
    | cs => do
      let (s, rest) ← classRange? f cs
      class? f fuel (k.add ⟨s, 0⟩) rest

end ProcessMemory.Pattern
