/-!
# Sets of characters

A set of code points, or of bytes, written as the ascending numbers at which membership changes. The
set operations merge two such lists.
-/
namespace ProcessMemory

structure CharSet where
  /-- A number is a member when an odd count of these are at most that number. -/
  bounds : Array Nat
  deriving DecidableEq

namespace CharSet

/-- How many of the ascending numbers `a` are at most `n`, given that those before `low` are and
those from `high` on are not. -/
def rank (a : Array Nat) (n low high : Nat) : Nat :=
  if low < high then
    let middle := (low + high) / 2
    if a.getD middle 0 ≤ n then rank a n (middle + 1) high else rank a n low middle
  else low
termination_by high - low

def contains (s : CharSet) (n : Nat) : Bool := rank s.bounds n 0 s.bounds.size % 2 == 1

/-- Merges two lists of bounds. `left` and `right` tell membership below the bounds that are
left. -/
def merge (op : Bool → Bool → Bool) (left right : Bool) : List Nat → List Nat → List Nat
  | [], [] => []
  | x :: xs, [] => change x (op left right) (op (!left) right) (merge op (!left) right xs [])
  | [], y :: ys => change y (op left right) (op left (!right)) (merge op left (!right) [] ys)
  | x :: xs, y :: ys =>
    if x < y then change x (op left right) (op (!left) right) (merge op (!left) right xs (y :: ys))
    else if y < x then
      change y (op left right) (op left (!right)) (merge op left (!right) (x :: xs) ys)
    else change x (op left right) (op (!left) (!right)) (merge op (!left) (!right) xs ys)
termination_by xs ys => xs.length + ys.length
where
  /-- Keeps a bound where membership changes at it. -/
  change (n : Nat) (below above : Bool) (rest : List Nat) : List Nat :=
    if below = above then rest else n :: rest

def combine (op : Bool → Bool → Bool) (s t : CharSet) : CharSet :=
  ⟨(merge op false false s.bounds.toList t.bounds.toList).toArray⟩

def empty : CharSet := ⟨#[]⟩

def isEmpty (s : CharSet) : Bool := s.bounds.isEmpty

def range (first last : Nat) : CharSet := ⟨#[first, last + 1]⟩

def union : CharSet → CharSet → CharSet := combine or

def inter : CharSet → CharSet → CharSet := combine and

def diff : CharSet → CharSet → CharSet := combine fun a b => a && !b

/-- What is in exactly one of the two. -/
def symmDiff : CharSet → CharSet → CharSet := combine xor

def complement (limit : Nat) (s : CharSet) : CharSet := diff ⟨#[0, limit]⟩ s

def ofRanges (ranges : List (Nat × Nat)) : CharSet :=
  ranges.foldl (fun s r => s.union (range r.1 r.2)) empty

def ofChars (cs : List Char) : CharSet := ofRanges (cs.map fun c => (c.toNat, c.toNat))

/-- The members as runs of consecutive numbers, each from its first to its last. -/
def ranges (s : CharSet) : List (Nat × Nat) := go s.bounds.toList
where
  go : List Nat → List (Nat × Nat)
    | first :: next :: rest => (first, next - 1) :: go rest
    | _ => []

def single? (s : CharSet) : Option Nat :=
  match s.ranges with
  | [(first, last)] => if first = last then some first else none
  | _ => none

def isBelow (limit : Nat) (s : CharSet) : Bool := s.bounds.all (· ≤ limit)

/-- Reads upper-case hexadecimal numbers with blanks between them. -/
def numbers (text : String) : List Nat :=
  (text.toList.splitBy fun c d => c.isAlphanum && d.isAlphanum)
    |>.filter (·.all Char.isAlphanum) |>.map (·.foldl digit 0)
where
  digit (n : Nat) (c : Char) : Nat := n * 16 + if c.isDigit then c.toNat - 0x30 else c.toNat - 0x37

def ofText (text : String) : CharSet := ⟨(numbers text).toArray⟩

end CharSet
end ProcessMemory
