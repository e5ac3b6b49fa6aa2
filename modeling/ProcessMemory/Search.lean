import ProcessMemory.Pattern
import ProcessMemory.TextRun
import ProcessMemory.Walk

/-!
# Searches

A search is a sliding walk that stops at the first chunk its matcher hits. Chunks come in address
order, so the hit is in the lowest chunk that has one.
-/
namespace ProcessMemory

structure SearchOptions where
  /-- The smallest size of a chunk. -/
  bufferSize : Nat := 4096
  workers : Nat := 1
  /-- The charsets that text is looked for in where a search names none. -/
  charsets : List Charset := Charset.defaults

/-- Where a chunk holds what is looked for. -/
abbrev Matcher := Chunk → Option Address

namespace Matcher

/-- Keeps the first hit and stops at it. -/
def receive (m : Matcher) : Receiver (Option Address) := fun found chunk =>
  match m chunk with
  | some address => (some address, .stop)
  | none => (found, .goOn)

def indexOf? (needle bytes : List UInt8) : Option Nat := go 0 bytes
where
  go (offset : Nat) : List UInt8 → Option Nat
    | [] => if needle.isEmpty then some offset else none
    | b :: rest => if needle.isPrefixOf (b :: rest) then some offset else go (offset + 1) rest

def literal (needle : List UInt8) : Matcher := fun chunk =>
  (indexOf? needle chunk.bytes).map chunk.address.advance

def pattern (p : Pattern) : Matcher := fun chunk => (p.find? chunk.bytes).map chunk.address.advance

/-- The address of the first match in the text runs of one charset, where `find` gives the place of
the first match in a text. A match at the end of a run has no character to give it an address, and
the next run is tried. The bytes of a chunk lie below the highest address, so their runs can always
be told. -/
def textIn (find : List Char → Option Nat) (c : Charset) : Matcher := fun chunk =>
  ((TextRun.all? c chunk.bytes chunk.address).getD []).findSome? fun run =>
    (find run.text).bind run.source?

/-- Hits the lowest match in the text of a chunk, whatever the charset. -/
def text (find : List Char → Option Nat) (charsets : List Charset) : Matcher := fun chunk =>
  (charsets.filterMap fun c => textIn find c chunk).min?

end Matcher

variable {σ : Type}

def search (t : Target σ) (start : Address) (size : Nat) (m : Matcher) (s : σ) :
    Report σ (Option Address) :=
  let (report, found) := walkSliding t start size m.receive none s
  { outcome := report.outcome.map fun _ => found
    state := report.state
    events := report.events ++ (found.map (Event.matchFound t.pid)).toList }

/-- The chunk size for a needle: at least twice its length, and even, so that every occurrence lies
whole in one chunk. An empty needle has none. -/
def needleBufferSize (smallest : Nat) (needle : List UInt8) : Except MemoryError Nat :=
  if needle.isEmpty then .error (.invalidPattern "Empty pattern")
  else
    let size := max smallest (min (2 * needle.length) 0xFFFF_FFFF_FFFF_FFFF)
    .ok (min (size + size % 2) 0xFFFF_FFFF_FFFF_FFFF)

/-- The lowest occurrence of `needle` at or above `start`. -/
def findBytes (t : Target σ) (options : SearchOptions) (start : Address) (needle : List UInt8)
    (s : σ) : Report σ (Option Address) :=
  match needleBufferSize options.bufferSize needle with
  | .error error => ⟨.fail error, s, []⟩
  | .ok size => search t start size (.literal needle) s

/-- The first hit of a matcher at or above `start`. A match of more than half a chunk's size may be
missed where two chunks meet. -/
def findMatch (t : Target σ) (options : SearchOptions) (start : Address) (m : Matcher) (s : σ) :
    Report σ (Option Address) :=
  search t start options.bufferSize m s

/-- The lowest match of a pattern among the bytes at or above `start`. -/
def findPattern (t : Target σ) (options : SearchOptions) (start : Address) (p : Pattern) (s : σ) :
    Report σ (Option Address) :=
  findMatch t options start (.pattern p) s

/-- The lowest match that `find` has in text at or above `start`, in any of the charsets. -/
def findTextMatch (t : Target σ) (options : SearchOptions) (start : Address)
    (find : List Char → Option Nat) (charsets : List Charset) (s : σ) :
    Report σ (Option Address) :=
  let charsets := if charsets.isEmpty then options.charsets else charsets
  findMatch t options start (.text find charsets) s

def findText (t : Target σ) (options : SearchOptions) (start : Address) (p : Pattern)
    (charsets : List Charset) (s : σ) : Report σ (Option Address) :=
  findTextMatch t options start p.findText? charsets s

/-- `findText` with charsets named by tag. Tags that name none are soft errors; where that leaves no
charset at all the search fails. -/
def findTextTagged (t : Target σ) (options : SearchOptions) (start : Address) (p : Pattern)
    (tags : List String) (s : σ) : Report σ (Option Address) :=
  let charsets := tags.filterMap Charset.ofTag?
  let unknown := tags.filter fun tag => (Charset.ofTag? tag).isNone
  let softErrors := unknown.map MemoryError.unknownCharset
  if charsets.isEmpty && !tags.isEmpty then
    ⟨⟨.error (.invalidArgument "no recognized charset to search with"), softErrors⟩, s, []⟩
  else
    let report := findText t options start p charsets s
    { report with outcome := report.outcome.after softErrors }

end ProcessMemory
