import ProcessMemory.Target.Segmented

/-!
# Scripted targets

A target that answers from a script, whatever it is asked: its n-th lookup gives the n-th answer,
and likewise its reads. Past the end of the script there is no region, and reads succeed.
-/
namespace ProcessMemory

/-- What a scripted read writes: one byte throughout, or a pattern that follows the address. -/
structure ScriptedRead where
  fill : Option UInt8 := none
  error : Option MemoryError := none
  softErrors : List MemoryError := []

/-- The answers still to be given. -/
structure Script where
  lookups : List (Outcome (Option Region)) := []
  reads : List ScriptedRead := []

namespace Script

def lookup (_ : Address) (s : Script) : Outcome (Option Region) × Script :=
  match s.lookups with
  | [] => (.ok none, s)
  | answer :: rest => (answer, { s with lookups := rest })

def write (address : Address) (size : Nat) (r : ScriptedRead) : Outcome (Bytes size) :=
  let byte (i : Nat) := r.fill.getD (Segment.patternByte (address.toNat + i))
  let bytes : Bytes size := ⟨(List.range size).map byte, by simp⟩
  match r.error with
  | some error => ⟨.error error, r.softErrors⟩
  | none => ⟨.ok bytes, r.softErrors⟩

def read (address : Address) (size : Nat) (s : Script) : Outcome (Bytes size) × Script :=
  match s.reads with
  | [] => (write address size {}, s)
  | r :: rest => (write address size r, { s with reads := rest })

def target (pid : ProcessId) : Target Script := ⟨pid, lookup, read⟩

end Script
end ProcessMemory
