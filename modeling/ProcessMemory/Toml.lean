import ProcessMemory.Toml.Number
import ProcessMemory.Toml.Text
import ProcessMemory.Toml.Tree

/-!
# TOML

Reading a document: lines that give values to keys, under headers that name tables.
-/
namespace ProcessMemory.Toml

/-- How deep lists and inline tables may be nested, and how many parts a dotted key may have. -/
def depthLimit : Nat := 79

/-- Takes the end of a line, which may have a comment. -/
def lineEnd? (cs : List Char) : Option (List Char) :=
  let rest := match skipSpaces cs with
    | '#' :: rest => rest.dropWhile isPlain
    | rest => rest
  if rest.isEmpty then some [] else newline? rest

/-- Passes over spaces, line breaks and comments. -/
def skipLines (inComment : Bool) : List Char → List Char
  | [] => []
  | '\r' :: '\n' :: rest => skipLines false rest
  | c :: rest =>
    if c = '\n' then skipLines false rest
    else if inComment then if isPlain c then skipLines true rest else c :: rest
    else if isSpace c then skipLines false rest
    else if c = '#' then skipLines true rest
    else c :: rest

/-! ## Keys -/

def isBare (c : Char) : Bool := c.isAlphanum || c == '-' || c == '_'

/-- Reads one part of a key. -/
def part? : List Char → Option (String × List Char)
  | '"' :: rest => (basic? rest).map fun (cs, rest) => (String.ofList cs, rest)
  | '\'' :: rest => (literal? rest).map fun (cs, rest) => (String.ofList cs, rest)
  | cs =>
    match cs.span isBare with
    | ([], _) => none
    | (part, rest) => some (String.ofList part, rest)

/-- Reads parts with points between them. `fuel` bounds their number. -/
def parts? : (fuel : Nat) → List Char → Option (Path × List Char)
  | 0, _ => none
  | fuel + 1, cs => do
    let (part, rest) ← part? (skipSpaces cs)
    match skipSpaces rest with
    | '.' :: rest => do
      let (path, rest) ← parts? fuel rest
      return (⟨part :: path.parents, path.name⟩, rest)
    | rest => return (⟨[], part⟩, rest)

def path? (cs : List Char) : Option (Path × List Char) := parts? depthLimit cs

/-! ## Values -/

section
variable (value? : List Char → Option (Datum × List Char))

def items? : (fuel : Nat) → List Char → Option (List Datum × List Char)
  | 0, _ => none
  | fuel + 1, cs =>
    match skipLines false cs with
    | ']' :: rest => some ([], rest)
    | cs => do
      let (item, rest) ← value? cs
      match skipLines false rest with
      | ']' :: rest => return ([item], rest)
      | ',' :: rest => do
        let (items, rest) ← items? fuel rest
        return (item :: items, rest)
      | _ => none

def entry? (cs : List Char) : Option ((Path × Datum) × List Char) := do
  let (path, rest) ← path? cs
  match rest with
  | '=' :: rest => do
    let (d, rest) ← value? (skipSpaces rest)
    return ((path, d), rest)
  | _ => none

/-- Reads the entries of an inline table up to its end, adding them to `t`. -/
def entries? (t : Tree) : (fuel : Nat) → List Char → Option (Tree × List Char)
  | 0, _ => none
  | fuel + 1, cs => do
    let ((path, d), rest) ← entry? value? cs
    let t ← t.put? path d
    match skipSpaces rest with
    | '\x7d' :: rest => return (t, rest)
    | ',' :: rest => entries? t fuel rest
    | _ => none

end

def scalar? : List Char → Option (Datum × List Char)
  | 't' :: 'r' :: 'u' :: 'e' :: rest => some (.other, rest)
  | 'f' :: 'a' :: 'l' :: 's' :: 'e' :: rest => some (.other, rest)
  | cs =>
    match text? cs with
    | some (s, rest) => some (.ofText (String.ofList s), rest)
    | none => numberOrDate? cs

/-- Reads a value. `depth` bounds the nesting. -/
def value? : (depth : Nat) → List Char → Option (Datum × List Char)
  | 0, cs => scalar? cs
  | depth + 1, cs =>
    match cs with
    | '[' :: rest => do
      let (items, rest) ← items? (value? depth) (rest.length + 1) rest
      return (.list items, rest)
    | '\x7b' :: rest =>
      match skipSpaces rest with
      | '\x7d' :: rest => some (.table [], rest)
      | rest => do
        let (t, rest) ← entries? (value? depth) .empty (rest.length + 1) rest
        return (t.toDatum, rest)
    | cs => scalar? cs

/-! ## Documents -/

/-- A document as far as it is read: all tables, and the keys that lead to the open one. -/
structure State where
  root : Tree := .empty
  header : List String := []

def line? (s : State) (cs : List Char) : Option (State × List Char) :=
  match cs with
  | '#' :: _ => (lineEnd? cs).map (s, ·)
  | '\n' :: _ => (lineEnd? cs).map (s, ·)
  | '\r' :: _ => (lineEnd? cs).map (s, ·)
  | '[' :: '[' :: rest => do
    let (path, rest) ← path? rest
    match rest with
    | ']' :: ']' :: rest => return (⟨← s.root.openRow? path, path.all⟩, ← lineEnd? rest)
    | _ => none
  | '[' :: rest => do
    let (path, rest) ← path? rest
    match rest with
    | ']' :: rest => return (⟨← s.root.openTable? path, path.all⟩, ← lineEnd? rest)
    | _ => none
  | cs => do
    let ((path, d), rest) ← entry? (value? depthLimit) cs
    return ({ s with root := ← s.root.at? false s.header (·.put? path d) }, ← lineEnd? rest)

def lines? : (fuel : Nat) → State → List Char → Option State
  | 0, _, _ => none
  | fuel + 1, s, cs =>
    match skipSpaces cs with
    | [] => some s
    | cs => do
      let (s, rest) ← line? s cs
      lines? fuel s rest

/-- Reads a document, a byte order mark at its start aside. -/
def read? (cs : List Char) : Option Datum :=
  let cs := match cs with
    | '\uFEFF' :: rest => rest
    | cs => cs
  (lines? (cs.length + 1) {} cs).map (·.root.toDatum)

end ProcessMemory.Toml
