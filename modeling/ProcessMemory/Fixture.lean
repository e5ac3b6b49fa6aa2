import ProcessMemory.Journal.Filter
import ProcessMemory.Linux.Layout
import ProcessMemory.ProcessInfo
import ProcessMemory.Text.Utf8

/-!
# The fixture

A process to try searches on. It is told what to hold: a needle in hexadecimal, and the length of a
block of bytes that count up to 250 over and over. It tells where it holds them, and then waits.
-/
namespace ProcessMemory

structure Fixture where
  needleText : String
  needle : List UInt8
  blockSize : Nat

inductive FixtureError where
  | usage
  | oddDigits
  | badDigit (c : Char) (position : Nat)
  | badLength (error : NumeralError)
  deriving DecidableEq

/-- What is wrong, and the reason for it if there is one to tell. -/
def FixtureError.report : FixtureError → String × Option String
  | .usage => ("usage: memwalk-fixture <needle-hex> <block-len>", none)
  | .oddDigits => ("needle is not valid hex", some "Odd number of digits")
  | .badDigit c position =>
    let shown := String.ofList (Text.quoted '\'' [c])
    ("needle is not valid hex", some s!"Invalid character {shown} at position {position}")
  | .badLength error => ("block length is not a number", some error.message)

def FixtureError.lines (e : FixtureError) : List String :=
  let (problem, reason) := e.report
  ("Error: " ++ problem) :: reason.elim [] fun reason => ["", "Caused by:", "    " ++ reason]

namespace Fixture

def nibble (b : UInt8) (position : Nat) : Except FixtureError Nat :=
  let c := Char.ofNat b.toNat
  match Numeral.digit? 16 c with
  | some d => .ok d
  | none => .error (.badDigit c position)

/-- Reads two digits a byte. -/
def readPairs (position : Nat) : List UInt8 → Except FixtureError (List UInt8)
  | high :: low :: rest => do
    let b := 16 * (← nibble high position) + (← nibble low (position + 1))
    return UInt8.ofNat b :: (← readPairs (position + 2) rest)
  | _ => .ok []

def readNeedle (digits : List UInt8) : Except FixtureError (List UInt8) :=
  if digits.length % 2 = 1 then .error .oddDigits else readPairs 0 digits

/-- Reads the arguments: the needle, the length, and more that are of no interest. -/
def ofArguments : List String → Except FixtureError Fixture
  | needle :: size :: _ => do
    let bytes ← readNeedle (Utf8.encodeAll needle.toList)
    let n ← (Numeral.read 10 0x1_0000_0000_0000_0000 size.toList).mapError .badLength
    return ⟨needle, bytes, n⟩
  | _ => .error .usage

variable (f : Fixture)

def block : List UInt8 := (List.range f.blockSize).map fun i => UInt8.ofNat (i % 251)

def base : Address := Address.clamp 0x10000

/-- What is held where: the needle first, and the block after it. -/
def buffers : List (String × Address × List UInt8) :=
  [("needle", base, f.needle), ("block", base.advance f.needle.length, f.block)]

def layout : Linux.Layout :=
  let pages := (f.needle.length + f.blockSize) / Linux.pageSize + 1
  f.buffers.foldl (fun l (_, address, bytes) => l.plant address bytes)
    (.patterned base (List.replicate pages .writable))

def name : String := "memwalk-fixture"

def files : Linux.ProcessFiles :=
  { f.layout.files with executable := .ok ("/" ++ name), command := .ok (name ++ "\n").toList }

/-- The lines that tell where the buffers are. -/
def announcement : List String :=
  f.buffers.map (fun (label, address, bytes) =>
    let shown := String.ofList (Numeral.print 16 address.toNat)
    s!"{label} 0x{shown} {bytes.length}") ++ ["ready"]

/-- What the program does up to the moment it waits, or instead of waiting. -/
structure Start where
  printed : List String
  reported : List String
  waiting : Option Fixture

/-- Starts the program. Without a filter it reports errors only. -/
def start (filter : Option String) (arguments : List String) : Start :=
  let (filter, notes) := Filter.parseLenient (filter.getD "")
  match ofArguments arguments with
  | .error e => ⟨[], notes ++ e.lines, none⟩
  | .ok f =>
    ⟨f.announcement, notes ++ filter.lines [.fixtureReady f.needleText f.blockSize], some f⟩

end Fixture
end ProcessMemory
