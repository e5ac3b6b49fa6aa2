/-!
# Errors of the operating system

The error numbers of Linux that reading processes and files meets, with their texts.
-/
namespace ProcessMemory

inductive OsError where
  | notPermitted | noEntry | noProcess | accessDenied | badAddress | isDirectory | nameTooLong
  deriving DecidableEq, Repr

namespace OsError

def number : OsError → Nat
  | .notPermitted => 1
  | .noEntry => 2
  | .noProcess => 3
  | .accessDenied => 13
  | .badAddress => 14
  | .isDirectory => 21
  | .nameTooLong => 36

def text : OsError → String
  | .notPermitted => "Operation not permitted"
  | .noEntry => "No such file or directory"
  | .noProcess => "No such process"
  | .accessDenied => "Permission denied"
  | .badAddress => "Bad address"
  | .isDirectory => "Is a directory"
  | .nameTooLong => "File name too long"

def message (e : OsError) : String := s!"{e.text} (os error {e.number})"

end OsError
end ProcessMemory
