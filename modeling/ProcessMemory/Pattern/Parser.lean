import ProcessMemory.Pattern.Class
import ProcessMemory.Text.Letter

/-!
# Reading patterns

A pattern is branches between bars, a branch is parts in a row, and a part may say how often it is
repeated. Flags set inside a group hold to its end, later branches included. Whatever is not a
pattern is refused without a reason, and so is one that nests too deep.
-/
namespace ProcessMemory.Pattern

/-- The text still to be read, and the groups met so far. -/
structure Cursor where
  rest : List Char
  groups : Nat := 0
  names : List (List Char) := []

/-- A node and how deep what stands for it nests. -/
structure Part where
  node : Node
  depth : Nat := 0

def maxDepth : Nat := 250

/-! ## Single parts -/

def char? (f : Flags) (c : Char) (byte : Bool) : Option Node :=
  let n := c.toNat
  if f.unicode then some (f.node (f.closeCase (.range n n)))
  else if n < 0x80 then some (f.node (f.closeCase (.range n n)))
  else if !byte then some (.literal (Utf8.encode c))
  else if f.textOnly then none
  else some (f.node (.range n n))

def dot? (f : Flags) : Option Node :=
  let ends : CharSet :=
    if f.dotAll then .empty else if f.carriage then .ofChars ['\r', '\n'] else .ofChars ['\n']
  (f.admit? (ends.complement f.limit)).map f.node

def lineStart (f : Flags) : Node :=
  .look (if f.multiline then .lineStart f.carriage else .textStart)

def lineEnd (f : Flags) : Node := .look (if f.multiline then .lineEnd f.carriage else .textEnd)

def escapeNode? (f : Flags) : Escape → Option Node
  | .char c byte => char? f c byte
  | .shorthand k negated => (k.set? f negated).map f.node
  | .look l => some (.look l)

/-! ## Counts -/

/-- How often a part comes, and whether more often before less often. -/
structure Count where
  least : Nat
  most : Option Nat
  greedy : Bool

def number? (f : Flags) (cs : List Char) : Option (Nat × List Char) := do
  let (digits, rest) := f.run Char.isDigit (Text.trimLeft cs)
  return (← Numeral.read? 10 0x1_0000_0000 digits, Text.trimLeft rest)

/-- Reads the bounds of a repetition after an opening brace, up to and with the closing one. -/
def bounds? (f : Flags) (cs : List Char) : Option ((Nat × Option Nat) × List Char) := do
  let (least, rest) ← number? f (f.skip cs)
  match rest with
  | '\x7d' :: rest => return ((least, some least), rest)
  | ',' :: rest =>
    match f.skip rest with
    | '\x7d' :: rest => return ((least, none), rest)
    | rest =>
      let (most, rest) ← number? f rest
      match rest with
      | '\x7d' :: rest => if most < least then none else return ((least, some most), rest)
      | _ => none
  | _ => none

/-- Reads how often a part is repeated, if the text goes on so. -/
def count? (f : Flags) : List Char → Option (Option (Count × List Char))
  | '*' :: rest => some (some (greed 0 none rest))
  | '+' :: rest => some (some (greed 1 none rest))
  | '?' :: rest => some (some (greed 0 (some 1) rest))
  | '\x7b' :: rest =>
    (bounds? f rest).map fun ((least, most), rest) => some (greed least most (f.skip rest))
  | _ => some none
where
  greed (least : Nat) (most : Option Nat) : List Char → Count × List Char
    | '?' :: rest => (⟨least, most, f.swapGreed⟩, rest)
    | rest => (⟨least, most, !f.swapGreed⟩, rest)

/-! ## Groups -/

/-- Reads the flags of a group up to its colon or bracket. -/
def flags? (f : Flags) : (seen : List Char) → (on : Bool) → List Char → Option (Flags × List Char)
  | seen, _, ':' :: rest => if seen.head? = some '-' then none else some (f, ':' :: rest)
  | seen, _, ')' :: rest =>
    if seen.isEmpty ∨ seen.head? = some '-' then none else some (f, ')' :: rest)
  | seen, on, c :: rest => do
    if c ∈ seen then none
    let f ←
      match c with
      | 'i' => some { f with caseless := on }
      | 's' => some { f with dotAll := on }
      | 'm' => some { f with multiline := on }
      | 'R' => some { f with carriage := on }
      | 'x' => some { f with verbose := on }
      | 'u' => some { f with unicode := on }
      | 'U' => some { f with swapGreed := on }
      | '-' => some f
      | _ => none
    flags? f (c :: seen) (on && c ≠ '-') rest
  | _, _, [] => none

/-- A group may be given a name of letters, numbers, dots and brackets that starts with a letter. -/
def isName (name : List Char) : Bool :=
  match name with
  | [] => false
  | c :: rest =>
    (c == '_' || Text.isAlphabetic c) &&
      rest.all fun c => c ∈ ['_', '.', '[', ']'] || Text.isAlphanumeric c

inductive Opening where
  | group (f : Flags) (number : Option Nat)
  /-- No group: flags for what follows. -/
  | directive (f : Flags)

def opening? (f : Flags) (c : Cursor) : Option (Opening × Cursor) :=
  let numbered : Opening := .group f (some (c.groups + 1))
  let named (rest : List Char) : Option (Opening × Cursor) :=
    let (name, rest) := rest.span (· ≠ '>')
    if rest.isEmpty || !isName name || c.names.contains name then none
    else some (numbered, ⟨rest.drop 1, c.groups + 1, name :: c.names⟩)
  match f.skip c.rest with
  | '?' :: 'P' :: '<' :: rest => named rest
  | '?' :: '<' :: rest => named rest
  | '?' :: rest => do
    let (f, rest) ← flags? f [] true rest
    let opening := if rest.head? = some ':' then Opening.group f none else .directive f
    return (opening, { c with rest := rest.drop 1 })
  | rest => some (numbered, { c with rest, groups := c.groups + 1 })

def Part.grouped (p : Part) (number : Option Nat) : Part :=
  ⟨number.elim p.node fun n => .group n p.node, p.depth + 1⟩

/-- The branches of a group and the parts of the last one, each in reverse. A directive is a part
that is not there. -/
structure Branches where
  ended : List Part := []
  parts : List (Option Part) := []

namespace Branches

/-- How deep several things nest together. -/
def depth (depths : List Nat) : Nat :=
  depths.foldl max 0 + if depths.length < 2 then 0 else 1

def add (b : Branches) (p : Part) : Branches := { b with parts := some p :: b.parts }

def addNode (b : Branches) (n : Node) : Branches := b.add ⟨n, 0⟩

def addDirective (b : Branches) : Branches := { b with parts := none :: b.parts }

def endBranch (b : Branches) : Branches :=
  let nodes := b.parts.reverse.filterMap fun p => p.map (·.node)
  let depths := b.parts.map fun p => p.elim 0 (·.depth)
  ⟨⟨.ofSeq nodes, depth depths⟩ :: b.ended, []⟩

def part (b : Branches) : Part :=
  let branches := b.endBranch.ended.reverse
  ⟨.ofAlt (branches.map (·.node)), depth (branches.map (·.depth))⟩

/-- Repeats the last part; there must be one. -/
def repeatLast? (b : Branches) (k : Count) : Option Branches :=
  match b.parts with
  | some p :: rest =>
    let node := p.node.repeated k.least k.most k.greedy
    some { b with parts := some ⟨node, p.depth + 1⟩ :: rest }
  | _ => none

end Branches

/-- Reads branches to the end of the group, whose closing bracket is left. The fuel is more than the
length of the text. -/
def branches? : (fuel : Nat) → Flags → Branches → Cursor → Option (Part × Cursor)
  | 0, _, _, _ => none
  | fuel + 1, f, b, c =>
    let rest := f.skip c.rest
    let c := { c with rest }
    match rest with
    | [] => some (b.part, c)
    | ')' :: _ => some (b.part, c)
    | '|' :: rest => branches? fuel f b.endBranch { c with rest }
    | '(' :: rest => do
      match ← opening? f { c with rest } with
      | (.directive f, c) => branches? fuel f b.addDirective c
      | (.group inner number, c) =>
        let (p, c) ← branches? fuel inner {} c
        match c.rest with
        | ')' :: rest => branches? fuel f (b.add (p.grouped number)) { c with rest }
        | _ => none
    | '[' :: rest => do
      let (k, rest) := OpenClass.start f rest
      let (n, rest) ← class? f fuel k rest
      branches? fuel f (b.add ⟨f.node n.set, n.depth⟩) { c with rest }
    | '\\' :: rest => do
      let (e, rest) ← escape? f rest
      branches? fuel f (b.addNode (← escapeNode? f e)) { c with rest }
    | '.' :: rest => do branches? fuel f (b.addNode (← dot? f)) { c with rest }
    | '^' :: rest => branches? fuel f (b.addNode (lineStart f)) { c with rest }
    | '$' :: rest => branches? fuel f (b.addNode (lineEnd f)) { c with rest }
    | d :: next => do
      match ← count? f rest with
      | some (k, rest) => branches? fuel f (← b.repeatLast? k) { c with rest }
      | none => branches? fuel f (b.addNode (← char? f d false)) { c with rest := next }

def parse? (textOnly : Bool) (s : String) : Option Node := do
  let cs := s.toList
  let (p, c) ← branches? (cs.length + 1) { textOnly } {} { rest := cs }
  if c.rest.isEmpty && p.depth ≤ maxDepth then some p.node else none

end ProcessMemory.Pattern
