import ProcessMemory.Text.CharSet

/-!
# Patterns as trees

What a pattern is made of once its flags are worked out. `Node.facts` tells how many bytes a match
may take and where it has to lie.
-/
namespace ProcessMemory.Pattern

/-- What a position must be in relation to the words around it. -/
inductive WordLook where
  /-- A word starts or ends here. -/
  | edge
  /-- No word starts or ends here. -/
  | noEdge
  | start
  | stop
  /-- No word character comes before. -/
  | startHalf
  /-- No word character comes after. -/
  | stopHalf
  deriving DecidableEq

/-- A condition on a position that takes up no bytes. -/
inductive Look where
  | textStart
  | textEnd
  /-- `carriage` lets a carriage return end a line too. -/
  | lineStart (carriage : Bool)
  | lineEnd (carriage : Bool)
  | word (look : WordLook) (unicode : Bool)
  deriving DecidableEq

/-- One step through the bytes. -/
inductive Atom where
  /-- The UTF-8 form of a member. -/
  | scalar (set : CharSet)
  | byte (set : CharSet)
  deriving DecidableEq

inductive Node where
  | empty
  | literal (bytes : List UInt8)
  | atom (a : Atom)
  | look (l : Look)
  /-- A group with a number of its own. -/
  | group (number : Nat) (n : Node)
  | seq (ns : List Node)
  | alt (ns : List Node)
  /-- Greed does not move the start of a match, but it tells nodes apart. -/
  | copies (n : Node) (least : Nat) (most : Option Nat) (greedy : Bool)

/-- What holds for every match of a node. -/
structure Facts where
  /-- The fewest bytes it may take, if there is a match at all. -/
  least : Option Nat
  /-- The most bytes it may take, if there is a bound. -/
  most : Option Nat
  /-- It has to lie at the start of the text. -/
  atStart : Bool := false
  /-- It has to lie at the end of the text. -/
  atEnd : Bool := false

namespace Facts

def ofLength (n : Nat) : Facts := { least := some n, most := some n }

/-- The parts up to the first that may take a byte, that one included. -/
def untilByte : List Facts → List Facts
  | [] => []
  | f :: rest => if f.most = some 0 then f :: untilByte rest else [f]

def total (ns : List Nat) : Nat := ns.foldl (· + ·) 0

def seq (fs : List Facts) : Facts where
  least := (fs.mapM Facts.least).map total
  most := (fs.mapM Facts.most).map total
  atStart := (untilByte fs).any Facts.atStart
  atEnd := (untilByte fs.reverse).any Facts.atEnd

def alt (fs : List Facts) : Facts where
  least := (fs.mapM Facts.least).bind List.min?
  most := (fs.mapM Facts.most).bind List.max?
  atStart := !fs.isEmpty && fs.all Facts.atStart
  atEnd := !fs.isEmpty && fs.all Facts.atEnd

def copies (f : Facts) (least : Nat) (most : Option Nat) : Facts where
  least := f.least.map (· * least)
  most := do return (← f.most) * (← most)
  atStart := 0 < least && f.atStart
  atEnd := 0 < least && f.atEnd

end Facts

/-- The bytes a member takes. Characters further up take no fewer than those below. -/
def Atom.facts : Atom → Facts
  | .byte s => if s.isEmpty then { least := none, most := none } else .ofLength 1
  | .scalar s =>
    let width (n : Nat) : Nat := (Char.ofNat n).utf8Size
    { least := s.bounds[0]?.map width, most := s.bounds.back?.map fun n => width (n - 1) }

namespace Node

mutual

def same : Node → Node → Bool
  | .empty, .empty => true
  | .literal a, .literal b => a == b
  | .atom a, .atom b => a == b
  | .look a, .look b => a == b
  | .group i a, .group j b => i == j && same a b
  | .seq as, .seq bs => sameAll as bs
  | .alt as, .alt bs => sameAll as bs
  | .copies a i m g, .copies b j n h => i == j && m == n && g == h && same a b
  | _, _ => false

def sameAll : List Node → List Node → Bool
  | [], [] => true
  | a :: as, b :: bs => same a b && sameAll as bs
  | _, _ => false

end

mutual

/-- The comparison decides equality. -/
theorem same_iff : ∀ a b : Node, same a b = true ↔ a = b
  | .empty, b => by cases b <;> simp [same]
  | .literal _, b => by cases b <;> simp [same]
  | .atom _, b => by cases b <;> simp [same]
  | .look _, b => by cases b <;> simp [same]
  | .group _ a, b => by cases b <;> simp [same, same_iff a]
  | .seq as, b => by cases b <;> simp [same, sameAll_iff as]
  | .alt as, b => by cases b <;> simp [same, sameAll_iff as]
  | .copies a _ _ _, b => by
    cases b <;> simp [same, same_iff a]
    grind

theorem sameAll_iff : ∀ as bs : List Node, sameAll as bs = true ↔ as = bs
  | [], bs => by cases bs <;> simp [sameAll]
  | a :: as, bs => by cases bs <;> simp [sameAll, same_iff a, sameAll_iff as]

end

mutual

def facts : Node → Facts
  | .empty => .ofLength 0
  | .literal bytes => .ofLength bytes.length
  | .atom a => a.facts
  | .look l => { Facts.ofLength 0 with atStart := l = .textStart, atEnd := l = .textEnd }
  | .group _ n => n.facts
  | .seq ns => .seq (factsAll ns)
  | .alt ns => .alt (factsAll ns)
  | .copies n least most _ => n.facts.copies least most

def factsAll : List Node → List Facts
  | [] => []
  | n :: ns => n.facts :: factsAll ns

end

end Node
end ProcessMemory.Pattern
