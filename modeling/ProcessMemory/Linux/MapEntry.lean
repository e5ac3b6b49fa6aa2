import ProcessMemory.Mapping
import ProcessMemory.Text.Lines
import ProcessMemory.Text.Quoted

/-!
# The memory maps of a Linux process

Linux lists the mappings of a process as text, one a line: the bounds in hexadecimal, four
permission letters, three fields of no interest here, and the name of the file or the purpose, if
any. Fields are cut at blanks, and the name is all that is left of the line.
-/
namespace ProcessMemory.Linux

structure MapEntry where
  start : Address
  stop : Address
  readable : Bool
  /-- The mapped file, or a name such as `[heap]`. -/
  path : Option String
  deriving DecidableEq

namespace MapEntry

/-- Mappings of the kernel's own that look readable but cannot be read from outside. -/
def isPseudo (e : MapEntry) : Bool :=
  e.path.any fun path => path == "[vsyscall]" || "[vvar".toList.isPrefixOf path.toList

def isFile (e : MapEntry) : Bool := e.path.any fun path => path.toList.head? == some '/'

def mapping (e : MapEntry) : Mapping := ⟨e.start, e.stop, e.readable⟩

def bounds? (field : List Char) : Option (Address × Address) := do
  let (start, stop) ← Text.splitFirst? '-' field
  let start ← Address.ofNat? (← Numeral.read? 16 0x1_0000_0000_0000_0000 start)
  let stop ← Address.ofNat? (← Numeral.read? 16 0x1_0000_0000_0000_0000 stop)
  if stop < start then none else return (start, stop)

/-- The number of bytes that text takes. -/
def byteCount (cs : List Char) : Nat := cs.foldl (fun n c => n + c.utf8Size) 0

def parse? (line : List Char) : Option MapEntry := do
  let (range, rest) ← Text.nextField? line
  let (perms, rest) ← Text.nextField? rest
  let (_, rest) ← Text.nextField? rest
  let (_, rest) ← Text.nextField? rest
  let (_, rest) ← Text.nextField? rest
  let (start, stop) ← bounds? range
  if byteCount perms ≠ 4 then none
  let path := Text.trimLeft rest
  return ⟨start, stop, perms.head? == some 'r', if path.isEmpty then none else String.ofList path⟩

end MapEntry

/-- The first line that is no entry, numbered from one. -/
structure MalformedLine where
  number : Nat
  text : List Char
  deriving DecidableEq

def MalformedLine.message (e : MalformedLine) : String :=
  s!"malformed line {e.number}: " ++ String.ofList (Text.quoted '"' e.text)

/-- Reads a whole listing. Blank lines count, and are passed over. -/
def parseMaps (text : List Char) : Except MalformedLine (List MapEntry) :=
  ((Text.lines text).zipIdx 1).filter (fun (line, _) => !(Text.trim line).isEmpty) |>.mapM
    fun (line, number) =>
      match MapEntry.parse? line with
      | some entry => .ok entry
      | none => .error ⟨number, line⟩

/-- The region lookup that a listing gives, pseudo mappings left out. -/
def lookupIn (entries : List MapEntry) (address : Address) : Outcome (Option Region) :=
  regionAt ((entries.filter fun e => !e.isPseudo).map fun e => .ok e.mapping) address

/-! ## Writing listings -/

structure MapLine where
  start : Address
  stop : Address
  perms : List Char
  offset : List Char := ['0']
  device : List Char := ['0', '0', ':', '0', '0']
  inode : List Char := ['0']
  path : Option (List Char) := none

namespace MapLine

/-- What reading gives back of the line. -/
def entry (l : MapLine) : MapEntry :=
  ⟨l.start, l.stop, l.perms.head? == some 'r', l.path.map String.ofList⟩

/-- At least one space, and `n` more. -/
def spaces (n : Nat) : List Char := List.replicate (n + 1) ' '

/-- Writes a line; `gap` tells how many spaces beyond the first there are after each field. -/
def print (gap : Nat → Nat) (l : MapLine) : List Char :=
  Numeral.print 16 l.start.toNat ++ '-' :: Numeral.print 16 l.stop.toNat ++ spaces (gap 0) ++
    l.perms ++ spaces (gap 1) ++ l.offset ++ spaces (gap 2) ++ l.device ++ spaces (gap 3) ++
    l.inode ++ (l.path.elim [] fun path => spaces (gap 4) ++ path)

end MapLine

def printMaps (lines : List MapLine) : List Char :=
  lines.flatMap fun l => l.print (fun _ => 0) ++ ['\n']

end ProcessMemory.Linux
