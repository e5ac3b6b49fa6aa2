import ProcessMemory.Address
import ProcessMemory.Text.Blank

/-!
# Processes by name
-/
namespace ProcessMemory

/-- The last component of a path, empty components and single dots aside. There is none where
nothing is left or two dots come last. -/
def fileName? (path : List Char) : Option (List Char) :=
  match ((Text.splitAll '/' path).filter fun part => part ≠ [] ∧ part ≠ ['.']).getLast? with
  | some ['.', '.'] => none
  | last => last

structure ProcessInfo where
  pid : ProcessId
  name : String
  /-- The executable, where it is known. -/
  path : Option String := none
  deriving DecidableEq

/-- Names a process by the file its executable is in, or else by the whole path. -/
def ProcessInfo.ofPath (pid : ProcessId) (path : String) : ProcessInfo :=
  ⟨pid, ((fileName? path.toList).map String.ofList).getD path, some path⟩

end ProcessMemory
