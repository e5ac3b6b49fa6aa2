import ProcessMemory.Target
import ProcessMemory.Windows.Block
import ProcessMemory.Windows.ErrorCode

/-!
# System calls

The calls that reading processes takes, on a system with a state. A call that fails says so and
leaves its code as the last error, which stays until another call fails.
-/
namespace ProcessMemory.Windows

structure Handle where
  value : Nat
  deriving DecidableEq

namespace Handle

def null : Handle := ⟨0⟩

def isNull (h : Handle) : Bool := h.value == 0

end Handle

structure Api (σ : Type) where
  lastError : σ → UInt32
  openProcess : ProcessId → σ → Option Handle × σ
  /-- Tells whether the handle has been closed. -/
  closeHandle : Handle → σ → Bool × σ
  /-- How many bytes were read, and what the buffer holds. -/
  readMemory : Address → (size : Nat) → σ → Option (Nat × Bytes size) × σ
  queryBlock : Address → σ → Option Block × σ
  /-- The ids that fit in a buffer of so many bytes. -/
  listProcesses : (bytes : UInt32) → σ → Option (List ProcessId) × σ
  /-- The bytes needed for all modules, and those modules that fit. -/
  listModules : (bytes : UInt32) → σ → Option (UInt32 × List Nat) × σ
  /-- The units of a path that fit, none where there is no path. -/
  modulePath : (module : Nat) → (units : Nat) → σ → List Nat × σ
  imagePath : (units : Nat) → σ → List Nat × σ

namespace Api

variable {σ : Type} (api : Api σ)

/-- The failure of a call that has just been made. -/
def failure (context : String) (s : σ) : Failure := ⟨.ofNumber (api.lastError s), context⟩

def openHandle (pid : ProcessId) (s : σ) : Except MemoryError Handle × σ :=
  match api.openProcess pid s with
  | (some h, s) => (.ok h, s)
  | (none, s) => (.error ((api.failure "OpenProcess" s).toMemoryError pid), s)

/-- Closes a handle. There is nothing to do for a null handle. -/
def close (h : Handle) (s : σ) : Except Failure Unit × σ :=
  if h.isNull then (.ok (), s)
  else
    match api.closeHandle h s with
    | (true, s) => (.ok (), s)
    | (false, s) => (.error (api.failure "CloseHandle" s), s)

/-- Reads memory, all of it or none. -/
def read (address : Address) (size : Nat) (s : σ) : Except MemoryError (Bytes size) × σ :=
  if h : size = 0 then (.ok (Bytes.empty h), s)
  else
    match api.readMemory address size s with
    | (none, s) =>
      (.error (.readFailed address size (toString (api.failure "ReadProcessMemory" s))), s)
    | (some (count, bytes), s) =>
      if count = size then (.ok bytes, s)
      else (.error (.readFailed address size s!"short read of {count} bytes"), s)

/-- The block around an address; none past the last one. -/
def query (address : Address) (s : σ) : Except Failure (Option Block) × σ :=
  match api.queryBlock address s with
  | (some b, s) => (.ok (some b), s)
  | (none, s) =>
    let failure := api.failure s!"VirtualQueryEx at {address}" s
    if failure.code = .invalidParameter then (.ok none, s) else (.error failure, s)

end Api
end ProcessMemory.Windows
