import ProcessMemory.Charset

/-!
# Text runs

The stretches of memory that decode as text in some charset. Bytes that start no character separate
them. A run remembers where each character came from, so that a place in its text leads back to an
address; places in text are counted in UTF-8 bytes.
-/
namespace ProcessMemory

structure TextRun where
  /-- The address of the first character. -/
  address : Address
  /-- The number of bytes used up, those passed over before the run included. -/
  consumed : Nat
  /-- The characters, each with the number of bytes between `address` and its own. -/
  chars : List (Nat × Char)
  deriving DecidableEq

namespace Encoding

def dropGarbage (e : Encoding) : List UInt8 → List UInt8
  | [] => []
  | b :: rest =>
    match e.front (b :: rest) with
    | .garbage width => e.dropGarbage (rest.drop (width - 1))
    | .char _ _ => b :: rest
termination_by bytes => bytes.length
decreasing_by simp only [List.length_drop, List.length_cons]; omega

/-- Reads characters as far as they go, onto those in `chars`, the last one first. -/
def readChars (e : Encoding) (offset : Nat) (chars : List (Nat × Char)) :
    List UInt8 → List (Nat × Char) × Nat
  | [] => (chars, offset)
  | b :: rest =>
    match e.front (b :: rest) with
    | .garbage _ => (chars, offset)
    | .char c width => e.readChars (offset + width) ((offset, c) :: chars) (rest.drop (width - 1))
termination_by bytes => bytes.length
decreasing_by simp only [List.length_drop, List.length_cons]; omega

end Encoding

namespace TextRun

/-- The run that comes after the first `skip` of `bytes`, which lie at `address`. It is empty where
nothing decodes, and then all of the bytes are used up. -/
def after (e : Encoding) (skip : Nat) (bytes : List UInt8) (address : Address) : TextRun :=
  let text := e.dropGarbage (bytes.drop skip)
  let skipped := bytes.length - text.length
  let (chars, size) := e.readChars 0 [] text
  ⟨address.advance skipped, skipped + size, chars.reverse⟩

/-- The next run in `bytes`, from the first address on that a unit may start at. There is none
where that address cannot be told. -/
def next? (c : Charset) (bytes : List UInt8) (address : Address) : Option TextRun :=
  (c.skip? address).map fun skip => after c.encoding skip bytes address

def all? (c : Charset) (bytes : List UInt8) (address : Address) : Option (List TextRun) :=
  if _hb : bytes = [] then some []
  else
    match next? c bytes address with
    | none => none
    | some run =>
      if _hc : run.consumed = 0 then some []
      else
        (all? c (bytes.drop run.consumed) (address.advance run.consumed)).map fun rest =>
          if run.chars.isEmpty then rest else run :: rest
termination_by bytes.length
decreasing_by
  have := List.length_pos_iff.2 _hb
  have := Nat.pos_of_ne_zero _hc
  simp only [List.length_drop]
  omega

def text (r : TextRun) : List Char := r.chars.map Prod.snd

/-- The characters of the run from `place` on, as places in the text, each with its address. -/
def sourcesFrom (address : Address) (place : Nat) : List (Nat × Char) → List (Nat × Address)
  | [] => []
  | (offset, c) :: rest =>
    (place, address.advance offset) :: sourcesFrom address (place + c.utf8Size) rest

/-- Where in the text each character stands, and at which address. -/
def sources (r : TextRun) : List (Nat × Address) := sourcesFrom r.address 0 r.chars

/-- The address of the character at a place in the text, if one starts there. -/
def source? (r : TextRun) (place : Nat) : Option Address := r.sources.lookup place

end TextRun
end ProcessMemory
