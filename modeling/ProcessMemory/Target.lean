import ProcessMemory.Outcome
import ProcessMemory.Region
import ProcessMemory.Journal.Event

/-!
# Targets

The one way in which walks, enumerations and searches see a process: look a region up, read bytes.
A target may keep a state of its own, so two equal questions may get different answers.
-/
namespace ProcessMemory

/-- Exactly `n` bytes. -/
abbrev Bytes (n : Nat) := { bytes : List UInt8 // bytes.length = n }

def Bytes.empty {n : Nat} (h : n = 0) : Bytes n := ⟨[], h.symm⟩

structure Target (σ : Type) where
  pid : ProcessId
  /-- The readable region that holds an address, or the next one above, or none. -/
  lookup : Address → σ → Outcome (Option Region) × σ
  /-- All of the bytes asked for, or an error. -/
  read : Address → (size : Nat) → σ → Outcome (Bytes size) × σ

/-- A question a target was asked, with its answer. -/
inductive Query where
  | lookup (address : Address) (answer : Outcome (Option Region))
  | read (address : Address) (size : Nat) (answer : Outcome (List UInt8))

namespace Target

variable {σ : Type}

/-- The same target, keeping every query in its state. -/
def recorded (t : Target σ) : Target (σ × List Query) where
  pid := t.pid
  lookup address s :=
    let (answer, s') := t.lookup address s.1
    (answer, s', s.2 ++ [.lookup address answer])
  read address size s :=
    let (answer, s') := t.read address size s.1
    (answer, s', s.2 ++ [.read address size (answer.map Subtype.val)])

/-- A target without a state: each answer depends on the question alone. -/
def stateless (pid : ProcessId) (lookup : Address → Outcome (Option Region))
    (read : Address → (size : Nat) → Outcome (Bytes size)) : Target Unit where
  pid := pid
  lookup address _ := (lookup address, ())
  read address size _ := (read address size, ())

/-- The error for a region that does not reach past the address it was looked up at. -/
def misplaced (t : Target σ) (region : Region) (address : Address) : MemoryError :=
  .enumerationFailed t.pid s!"backend returned {region} for a lookup at {address}"

end Target

/-- What an operation on a target gives back: its outcome, the target's state after it, and the
events met on the way. -/
structure Report (σ α : Type) where
  outcome : Outcome α
  state : σ
  events : List Event := []

end ProcessMemory
