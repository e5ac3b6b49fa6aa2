import ProcessMemory.Linux.Host
import ProcessMemory.Target.Segmented

/-!
# Processes laid out in pages

A process whose memory is a row of pages of given kinds. Neighbouring pages of one kind are one
mapping. It shows what a real process with that memory would show.
-/
namespace ProcessMemory.Linux

inductive PageKind where
  | writable | readOnly | executable
  /-- Mapped, with no access allowed. -/
  | hidden
  /-- Not mapped. -/
  | absent
  deriving DecidableEq

namespace PageKind

def isReadable : PageKind → Bool
  | .hidden => false
  | .absent => false
  | _ => true

def perms : PageKind → List Char
  | .writable => ['r', 'w', '-', 'p']
  | .readOnly => ['r', '-', '-', 'p']
  | .executable => ['r', '-', 'x', 'p']
  | _ => ['-', '-', '-', 'p']

end PageKind

def pageSize : Nat := 4096

structure Layout where
  base : Address
  pages : List PageKind
  /-- The bytes of all pages, in order. -/
  bytes : Array UInt8

namespace Layout

def patterned (base : Address) (pages : List PageKind) : Layout :=
  ⟨base, pages, Array.ofFn fun i : Fin (pages.length * pageSize) =>
    Segment.patternByte (base.toNat + i)⟩

/-- Writes bytes at an address; what would lie outside the layout is dropped. -/
def plant (l : Layout) (address : Address) (bytes : List UInt8) : Layout :=
  let put (memory : Array UInt8) (b : UInt8 × Nat) : Array UInt8 :=
    let place := address.toNat + b.2
    if place < l.base.toNat then memory else memory.setIfInBounds (place - l.base.toNat) b.1
  { l with bytes := bytes.zipIdx.foldl put l.bytes }

/-- Where each of some rows of pages starts, how many pages it has, and their kind. -/
def place (start : Address) : List (List PageKind) → List (Address × Nat × PageKind)
  | [] => []
  | row :: rest =>
    (start, row.length, row.head?.getD .absent) ::
      place (start.advance (row.length * pageSize)) rest

/-- The mappings, and the holes between them. -/
def runs (l : Layout) : List (Address × Nat × PageKind) := place l.base (l.pages.splitBy (· == ·))

def mapLines (l : Layout) : List MapLine :=
  (l.runs.filter fun (_, _, kind) => kind ≠ .absent).map fun (start, count, kind) =>
    { start, stop := start.advance (count * pageSize), perms := kind.perms }

/-- The number of readable bytes from the page at `index` on, up to the first that is not. -/
def readableFrom (l : Layout) (index : Nat) : Nat :=
  ((l.pages.drop index).takeWhile PageKind.isReadable).length * pageSize

/-- Transfers as many bytes as can be read in one go, or fails if not even the first can. -/
def read (l : Layout) (address : Address) (size : Nat) : Except OsError (List UInt8) :=
  if address < l.base then .error .badAddress
  else
    let offset := l.base.distanceTo address
    let page := offset / pageSize
    let readable := l.readableFrom page - offset % pageSize
    if readable = 0 then .error .badAddress
    else .ok (l.bytes.extract offset (offset + min size readable)).toList

def files (l : Layout) : ProcessFiles where
  maps := .ok (printMaps l.mapLines)
  memory := .ok ()
  executable := .error .noEntry
  command := .error .noEntry
  read := l.read

end Layout
end ProcessMemory.Linux
