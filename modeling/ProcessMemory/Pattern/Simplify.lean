import ProcessMemory.Pattern.Node
import ProcessMemory.Text.Utf8

/-!
# Simple patterns

Ways to put nodes together that leave out what makes no difference to a match. Neighbouring literals
become one, branches of one character each become a set, and what takes no bytes is not repeated.
-/
namespace ProcessMemory.Pattern.Node

def never : Node := .atom (.byte .empty)

def ofLiteral (bytes : List UInt8) : Node := if bytes.isEmpty then .empty else .literal bytes

def ofBytes (s : CharSet) : Node :=
  match s.single? with
  | some n => .literal [UInt8.ofNat n]
  | none => .atom (.byte s)

/-- One of a set of characters. The numbers of surrogates stand for none. -/
def ofScalars (s : CharSet) : Node :=
  let s := s.diff (.range 0xD800 0xDFFF)
  if s.isEmpty then never
  else
    match s.single? with
    | some n => .literal (Utf8.encode (Char.ofNat n))
    | none => .atom (.scalar s)

/-- Puts a node in front of others, which are in order and hold no two literals in a row. -/
def pushFront : Node → List Node → List Node
  | .empty, ns => ns
  | .literal a, .literal b :: ns => .literal (a ++ b) :: ns
  | n, ns => n :: ns

def ofSeq (ns : List Node) : Node :=
  let parts := ns.flatMap fun n =>
    match n with
    | .seq inner => inner
    | n => [n]
  match parts.foldr pushFront [] with
  | [] => .empty
  | [n] => n
  | ns => .seq ns

/-! ## Branches -/

def char? : Node → Option Char
  | .literal bytes =>
    match Utf8.decodeAll? bytes with
    | some [c] => some c
    | _ => none
  | _ => none

def byte? : Node → Option UInt8
  | .literal [b] => some b
  | _ => none

/-- The set of characters that a branch consists in. ASCII bytes are characters too. -/
def scalars? : Node → Option CharSet
  | .atom (.scalar s) => some s
  | .atom (.byte s) => if s.isBelow 0x80 then some s else none
  | _ => none

def bytes? : Node → Option CharSet
  | .atom (.byte s) => some s
  | .atom (.scalar s) => if s.isBelow 0x80 then some s else none
  | _ => none

/-- Branches that amount to a single set. -/
def ofSets? (ns : List Node) : Option Node :=
  let union (sets : List CharSet) : CharSet := sets.foldl .union .empty
  (ns.mapM char?).map (ofScalars ∘ .ofChars) <|>
    (ns.mapM byte?).map (fun bs => ofBytes (union (bs.map fun b => .range b.toNat b.toNat))) <|>
    (ns.mapM scalars?).map (ofScalars ∘ union) <|>
    (ns.mapM bytes?).map (ofBytes ∘ union)

/-- The parts that two rows begin with alike. -/
def commonPrefix : List Node → List Node → List Node
  | a :: as, b :: bs => if a.same b then a :: commonPrefix as bs else []
  | _, _ => []

/-- What all of the branches begin with, if each of them is a row of parts, and the rest of each. -/
def factor? (ns : List Node) : Option (List Node × List Node) := do
  let rows ← ns.mapM fun n =>
    match n with
    | .seq parts => some parts
    | _ => none
  let row :: others := rows | none
  let first := others.foldl commonPrefix row
  if first.isEmpty then none
  return (first, rows.map fun row => ofSeq (row.drop first.length))

/-- One of several that have nothing in common at their beginnings. -/
def ofBranches (ns : List Node) : Node :=
  let branches := ns.flatMap fun n =>
    match n with
    | .alt inner => inner
    | n => [n]
  match branches with
  | [] => never
  | [n] => n
  | ns => (ofSets? ns).getD (.alt ns)

/-- One of several. What all of them begin with comes first and once. -/
def ofAlt (ns : List Node) : Node :=
  match ofBranches ns with
  | .alt branches =>
    match factor? branches with
    | some (first, rests) => ofSeq (first ++ [ofBranches rests])
    | none => .alt branches
  | n => n

/-! ## Copies -/

/-- A node a number of times. What takes no bytes matches twice where it matches once. -/
def repeated (n : Node) (least : Nat) (most : Option Nat) (greedy : Bool) : Node :=
  let (least, most) :=
    if n.facts.most = some 0 then (min least 1, some (min 1 (most.getD 1))) else (least, most)
  if most = some 0 then .empty
  else if least = 1 ∧ most = some 1 then n
  else .copies n least most greedy

end ProcessMemory.Pattern.Node
