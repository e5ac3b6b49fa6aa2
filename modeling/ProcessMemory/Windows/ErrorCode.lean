import ProcessMemory.Error
import ProcessMemory.Text.Blank

/-!
# Error codes of Windows

The number that a failed call leaves behind, with its text, and the error that a call with that
number amounts to.
-/
namespace ProcessMemory.Windows

inductive ErrorCode where
  | success
  | accessDenied
  | invalidHandle
  | invalidParameter
  | insufficientBuffer
  | partialCopy
  | invalidAddress
  | other (number : UInt32)
  deriving DecidableEq

namespace ErrorCode

def known : List (UInt32 × ErrorCode) :=
  [(0, success), (5, accessDenied), (6, invalidHandle), (87, invalidParameter),
    (122, insufficientBuffer), (299, partialCopy), (487, invalidAddress)]

def ofNumber (n : UInt32) : ErrorCode := (known.lookup n).getD (other n)

def number : ErrorCode → UInt32
  | success => 0
  | accessDenied => 5
  | invalidHandle => 6
  | invalidParameter => 87
  | insufficientBuffer => 122
  | partialCopy => 299
  | invalidAddress => 487
  | other n => n

def name : ErrorCode → String
  | success => "Success"
  | accessDenied => "AccessDenied"
  | invalidHandle => "InvalidHandle"
  | invalidParameter => "InvalidParameter"
  | insufficientBuffer => "InsufficientBuffer"
  | partialCopy => "PartialCopy"
  | invalidAddress => "InvalidAddress"
  | other _ => "Other"

/-- The text of a code, which ends in a line break. -/
def message (c : ErrorCode) : String := s!"Message {c.number}.\r\n"

instance : ToString ErrorCode :=
  ⟨fun c => s!"{String.ofList (Text.trimRight c.message.toList)} (error {c.number})"⟩

end ErrorCode

/-- A call that failed: its code, and what was called. -/
structure Failure where
  code : ErrorCode
  context : String
  deriving DecidableEq

namespace Failure

instance : ToString Failure := ⟨fun f => f.context ++ ": " ++ toString f.code⟩

/-- A parameter that is not valid is a process number that names no process. -/
def toMemoryError (pid : ProcessId) (f : Failure) : MemoryError :=
  match f.code with
  | .accessDenied => .accessDenied pid (toString f)
  | .invalidParameter => .noSuchProcess pid
  | _ => .windows (toString f)

end Failure
end ProcessMemory.Windows
