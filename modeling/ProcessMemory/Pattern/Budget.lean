import ProcessMemory.Pattern.Simplify
import ProcessMemory.Text.Utf8Ranges
import Std.Data.HashMap

/-!
# How large a pattern may be

A pattern is matched by a machine with states, forward to find where a match ends and backward to
find where it starts. Both machines are charged for in advance, and a pattern one of whose machines
takes up too much memory is refused. A set of characters becomes states that read their UTF-8 forms
byte by byte, of which the last ones are shared as far as a small table remembers them.
-/
namespace ProcessMemory.Pattern

/-- What a machine has taken up so far. States are numbered in the order they are added. -/
structure Charge where
  states : Nat := 0
  /-- Bytes beyond those that every state takes. -/
  extra : Nat := 0

namespace Charge

/-- Memory in bytes. -/
def total (c : Charge) : Nat := 32 * c.states + c.extra

def limit : Nat := 10 * 0x10_0000

def isOver (c : Charge) : Bool := limit < c.total

def add (c : Charge) (states : Nat) : Charge := { c with states := c.states + states }

def pay (c : Charge) (bytes : Nat) : Charge := { c with extra := c.extra + bytes }

/-- A state that reads one byte in any of some ranges, and one to go on from. -/
def step (c : Charge) (ranges : Nat) : Charge := (c.add 2).pay (8 * ranges)

/-- A choice between ways to go on. -/
def choice (c : Charge) (ways : Nat) : Charge := (c.add 1).pay (4 * ways)

/-- Charges a number of times, but not after the limit is passed. -/
def times (f : Charge → Charge) : Nat → Charge → Charge
  | 0, c => c
  | n + 1, c => if c.isOver then c else times f n (f c)

end Charge

/-! ## Sets of characters -/

/-- The place of some numbers in a table of `size` places, by their FNV hash. -/
def tablePlace (size : Nat) (ns : List Nat) : Nat :=
  let start : UInt64 := 0xCBF29CE484222325
  (ns.foldl (fun h n => (h ^^^ UInt64.ofNat n) * 0x100000001B3) start).toNat % size

/-- States by what they read and where they lead. A new one takes the place of an old one. -/
abbrev Table := Std.HashMap Nat (List Nat × Nat)

/-- Finds a state in a table of `size` places, or adds it. -/
def share (size : Nat) (key : List Nat) (extra : Nat) : StateM (Table × Charge) Nat := do
  let (table, charge) ← get
  let place := tablePlace size key
  match table[place]? with
  | some (found, state) => if found = key then return state
  | none => pure ()
  set (table.insert place (key, charge.states), (charge.add 1).pay extra)
  return charge.states

/-- The states that read any of some rows of byte ranges, which are in order, up to the state
`stop`. `width` is at least the length of a row. -/
def shareRows (stop : Nat) : (width : Nat) → List (List (Nat × Nat)) → StateM (Table × Charge) Nat
  | 0, _ => return stop
  | width + 1, rows => do
    let ways ← (rows.splitBy fun a b => a.head? == b.head?).mapM fun alike => do
      let (first, last) := (alike.head?.bind List.head?).getD (0, 0)
      let rests := (alike.map List.tail).filter fun rest => !rest.isEmpty
      return [first, last, ← if rests.isEmpty then pure stop else shareRows stop width rests]
    share 10000 ways.flatten (8 * ways.length)

/-- The states that read one row from its leading byte to its last, written from `stop` back. -/
def shareBackward (stop : Nat) (row : List (Nat × Nat)) : StateM (Table × Charge) Nat :=
  row.foldlM (fun next (first, last) => share 1000 [next, first, last] 0) stop

namespace Charge

def rows (s : CharSet) : List (List (Nat × Nat)) :=
  s.ranges.flatMap fun (first, last) => Utf8.pieces first last

def scalarsForward (s : CharSet) (c : Charge) : Charge :=
  ((shareRows c.states 4 (rows s)).run ({}, c.add 1)).2.2

def scalarsBackward (s : CharSet) (c : Charge) : Charge :=
  let rows := rows s
  ((rows.forM fun row => discard (shareBackward (c.states + 1) row)).run
    ({}, (c.add 2).pay (4 * rows.length))).2.2

def scalars (backward : Bool) (s : CharSet) (c : Charge) : Charge :=
  if s.isBelow 0x80 then c.step s.ranges.length
  else if backward then c.scalarsBackward s
  else c.scalarsForward s

end Charge

/-! ## Words -/

/-- Cuts a row of words at each empty one. -/
def cutAtEmpty : List (List UInt8) → List (List (List UInt8))
  | [] => [[]]
  | word :: rest =>
    match cutAtEmpty rest with
    | [] => [[word]]
    | part :: parts => if word.isEmpty then [] :: part :: parts else (word :: part) :: parts

/-- Words in their order, with a word that ends here before any other ends here said once only. -/
def endOnce (words : List (List UInt8)) : List (List UInt8) :=
  if words.head? = some [] then [] :: words.dropWhile List.isEmpty else words

namespace Charge

/-- The states that read any of some words, of which the earlier ones come first. Words share what
they begin with if no word that comes between them in order ends there. `length` is at least that of
a word. -/
def words : (length : Nat) → List (List UInt8) → Charge → Charge
  | 0, _, c => c
  | length + 1, ws, c =>
    let parts := cutAtEmpty (endOnce ws)
    let ways := parts.filter fun part => !part.isEmpty
    ways.foldl (fun c part =>
        let firsts := (part.filterMap List.head?).eraseDups
        let c := (c.add 1).pay (if firsts.length = 1 then 0 else 8 * firsts.length)
        firsts.foldl (fun c b =>
            let rests := (part.filter fun word => word.head? == some b).map List.tail
            if rests.all List.isEmpty then c else words length rests c)
          c)
      (c.choice (ways.length + parts.length - 1))

end Charge

/-! ## Nodes -/

namespace Node

def literal? : Node → Option (List UInt8)
  | .literal bytes => some bytes
  | _ => none

mutual

def charge (backward : Bool) : Node → Charge → Charge
  | .empty, c => c.add 1
  | .literal bytes, c => c.add bytes.length
  | .atom (.byte s), c => c.step s.ranges.length
  | .atom (.scalar s), c => c.scalars backward s
  | .look _, c => c.add 1
  | .group _ n, c => if backward then n.charge backward c else (n.charge backward (c.add 1)).add 1
  | .seq ns, c => chargeSeq backward ns c
  | .alt ns, c =>
    match ns.mapM literal? with
    | some words =>
      let words := if backward then words.map List.reverse else words
      Charge.words ((words.map List.length).max?.getD 0) words (c.add 1)
    | none => chargeAlt backward 0 ns (c.pay (4 * ns.length))
  | .copies n least most _, c =>
    let one := n.charge backward
    match least, most with
    | 0, some 1 => (one (c.choice 2)).add 1
    | 0, none =>
      if n.facts.least.any (0 < ·) then one (c.choice 2)
      else ((one c).choice 2).choice 2 |>.add 1
    | least + 1, none => (one (Charge.times one least c)).choice 2
    | least, some most =>
      let c := if least = 0 then c.add 1 else Charge.times one least c
      if least = most then c else Charge.times (fun c => one (c.choice 2)) (most - least) (c.add 1)

def chargeSeq (backward : Bool) : List Node → Charge → Charge
  | [], c => c
  | n :: ns, c =>
    if backward then n.charge backward (chargeSeq backward ns c)
    else chargeSeq backward ns (n.charge backward c)

/-- The states of a choice and of its end come after those of its first two branches. -/
def chargeAlt (backward : Bool) (place : Nat) : List Node → Charge → Charge
  | [], c => c
  | n :: ns, c =>
    let c := n.charge backward c
    chargeAlt backward (place + 1) ns (if place = 1 then c.add 2 else c)

end

/-- Charges the whole machine. One that may begin anywhere steps over bytes first, and one that runs
forward notes where the match lies. -/
def chargeWhole (n : Node) (backward : Bool) : Charge :=
  let anchored := if backward then n.facts.atEnd else n.facts.atStart
  let c : Charge := if anchored then Charge.add {} 1 else (Charge.choice {} 2).step 1
  let c := if backward then n.charge backward c else (n.charge backward (c.add 1)).add 1
  c.add 1

def isAffordable (n : Node) : Bool :=
  !(n.chargeWhole false).isOver && !(n.chargeWhole true).isOver

end Node
end ProcessMemory.Pattern
