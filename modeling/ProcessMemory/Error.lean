import ProcessMemory.Address

/-!
# What can go wrong

One type serves both kinds of trouble: an error that ends an operation, and an error an operation
met and went on from. `Outcome` keeps the two apart.
-/
namespace ProcessMemory

inductive MemoryError where
  | noSuchProcess (pid : ProcessId)
  | accessDenied (pid : ProcessId) (reason : String)
  | readFailed (address : Address) (size : Nat) (reason : String)
  | unreadable (start stop : Address)
  | enumerationFailed (pid : ProcessId) (reason : String)
  | releaseFailed (pid : ProcessId) (reason : String)
  | invalidAddress (text : String)
  | invalidArgument (text : String)
  | invalidPattern (text : String)
  | unknownCharset (tag : String)
  | workerPool (reason : String)
  | windows (reason : String)
  | io (reason : String)
  deriving DecidableEq

namespace MemoryError

def unrecognized (tag : String) : String := "Unrecognized charset: " ++ tag

def message : MemoryError → String
  | .noSuchProcess pid => s!"No such process: {pid}"
  | .accessDenied pid reason => s!"Access denied to process {pid}: {reason}"
  | .readFailed address size reason => s!"Failed to read {size} bytes at {address}: {reason}"
  | .unreadable start stop => s!"Unreadable memory {start}-{stop}"
  | .enumerationFailed pid reason =>
    s!"Failed to enumerate memory regions of process {pid}: {reason}"
  | .releaseFailed pid reason => s!"Failed to release resources of process {pid}: {reason}"
  | .invalidAddress text => "Invalid memory address: " ++ text
  | .invalidArgument text => "Invalid argument: " ++ text
  | .invalidPattern text => "Invalid pattern format: " ++ text
  | .unknownCharset tag => "Charset decoding failed: " ++ unrecognized tag
  | .workerPool reason => "Worker pool error: " ++ reason
  | .windows reason => "Windows API: " ++ reason
  | .io reason => "I/O error: " ++ reason

/-- The target is gone, or was never there. -/
def isNoSuchProcess : MemoryError → Bool
  | .noSuchProcess _ => true
  | _ => false

/-- The system refused access to the target. -/
def isAccessDenied : MemoryError → Bool
  | .accessDenied _ _ => true
  | _ => false

end MemoryError

/-- Reads an address out of text; the error holds the trimmed text. -/
def Address.ofText (s : String) : Except MemoryError Address :=
  (Address.parse s).mapError .invalidAddress

end ProcessMemory
