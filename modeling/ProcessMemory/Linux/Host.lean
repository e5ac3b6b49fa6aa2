import ProcessMemory.Linux.MapEntry
import ProcessMemory.OsError
import ProcessMemory.ProcessInfo
import ProcessMemory.Target

/-!
# Linux hosts

Linux shows each process as a few files and lets its memory be read. `ProcessFiles` is what it
answers about one process, `Host` what it answers about all; the operations here turn these answers
into regions, bytes and names, and refusals into errors.
-/
namespace ProcessMemory.Linux

/-- What the system answers about one process. -/
structure ProcessFiles where
  maps : Except OsError (List Char)
  /-- Whether the memory file may be opened. -/
  memory : Except OsError Unit
  executable : Except OsError String
  command : Except OsError (List Char)
  /-- The bytes that a read transfers, which may be fewer than asked for. -/
  read : Address → (size : Nat) → Except OsError (List UInt8)

namespace ProcessFiles

/-- The answers about a process that does not exist. -/
def missing : ProcessFiles where
  maps := .error .noEntry
  memory := .error .noEntry
  executable := .error .noEntry
  command := .error .noEntry
  read _ _ := .error .noProcess

/-- The answers to someone without the right to look into the process. -/
def guarded (command : List Char) : ProcessFiles where
  maps := .error .accessDenied
  memory := .error .accessDenied
  executable := .error .accessDenied
  command := .ok command
  read _ _ := .error .notPermitted

variable (f : ProcessFiles) (pid : ProcessId)

def filePath (pid : ProcessId) (name : String) : String := s!"/proc/{pid}/{name}"

/-- An error met at a file of the process. -/
def refusal (pid : ProcessId) (name : String) (other : String → MemoryError) (e : OsError) :
    MemoryError :=
  match e with
  | .noEntry => .noSuchProcess pid
  | .accessDenied => .accessDenied pid (filePath pid name ++ ": " ++ e.message)
  | .notPermitted => .accessDenied pid (filePath pid name ++ ": " ++ e.message)
  | e => other e.message

/-- Whether the process may be opened for reading. -/
def probe : Except MemoryError Unit := f.memory.mapError (refusal pid "mem" .io)

def entries : Except MemoryError (List MapEntry) := do
  let text ← f.maps.mapError <| refusal pid "maps" fun reason =>
    .enumerationFailed pid (filePath pid "maps" ++ ": " ++ reason)
  (parseMaps text).mapError fun e => .enumerationFailed pid e.message

def executablePath : Except MemoryError String :=
  f.executable.mapError fun e =>
    match e with
    | .noEntry => .noSuchProcess pid
    | .accessDenied => .accessDenied pid e.message
    | .notPermitted => .accessDenied pid e.message
    | e => .io e.message

/-- The short name of the program, blanks at its end aside. -/
def commandName : Except MemoryError (List Char) :=
  (f.command.map Text.trimRight).mapError fun e =>
    match e with
    | .noEntry => .noSuchProcess pid
    | e => .io e.message

/-- Reads exactly `size` bytes; a transfer that falls short is an error. Reading nothing asks
nothing of the system. -/
def readMemory (address : Address) (size : Nat) : Except MemoryError (Bytes size) :=
  if h : size = 0 then .ok (Bytes.empty h)
  else
    match f.read address size with
    | .error .noProcess => .error (.noSuchProcess pid)
    | .error .notPermitted => .error (.accessDenied pid OsError.notPermitted.message)
    | .error e => .error (.readFailed address size e.message)
    | .ok bytes =>
      if h : bytes.length = size then .ok ⟨bytes, h⟩
      else .error (.readFailed address size s!"short read of {bytes.length} bytes")

def target : Target Unit :=
  .stateless pid
    (fun address =>
      match f.entries pid with
      | .error e => .fail e
      | .ok entries => lookupIn entries address)
    (fun address size => .ofExcept (f.readMemory pid address size))

end ProcessFiles

structure Handle where
  pid : ProcessId
  deriving DecidableEq

instance : ToString Handle := ⟨fun h => s!"ProcessHandle \x7b pid: {h.pid} \x7d"⟩

/-- Some processes, in ascending order of their numbers. -/
structure Host where
  processes : List (ProcessId × ProcessFiles)

namespace Host

variable (s : Host)

def files (pid : ProcessId) : ProcessFiles := (s.processes.lookup pid).getD .missing

def pids : List ProcessId := s.processes.map Prod.fst

def openProcess (pid : ProcessId) : Except MemoryError Handle :=
  ((s.files pid).probe pid).map fun _ => ⟨pid⟩

/-- Tries something on each of some processes. What fails is a soft error. -/
def gather {α β : Type} (act : α → Except MemoryError β) : List α → Outcome (List β)
  | [] => .ok []
  | a :: rest =>
    let others := gather act rest
    match act a with
    | .ok b => others.map (b :: ·)
    | .error e => others.after [e]

def openAll : Outcome (List Handle) := gather s.openProcess s.pids

/-- Releasing a handle gives nothing back to the system, so it cannot fail. -/
def close (_ : Handle) : Outcome Unit := .ok ()

def closeAll (handles : List Handle) : List MemoryError :=
  handles.flatMap fun h =>
    let o := close h
    o.softErrors ++ match o.result with
      | .ok _ => []
      | .error e => [e]

def name (h : Handle) : Except MemoryError String := (s.files h.pid).executablePath h.pid

def grep (matching : String → Bool) : Outcome (List Handle) :=
  let opened := s.openAll
  match opened.result with
  | .error e => ⟨.error e, opened.softErrors⟩
  | .ok handles =>
    let named := gather (fun h => (s.name h).map fun name => (h, name)) handles
    (named.map fun found => (found.filter fun (_, name) => matching name).map Prod.fst).after
      opened.softErrors

def listing : Outcome (List ProcessInfo) :=
  let opened := s.openAll
  match opened.result with
  | .error e => ⟨.error e, opened.softErrors⟩
  | .ok handles =>
    (gather (fun h => (s.name h).map (ProcessInfo.ofPath h.pid)) handles).after opened.softErrors

/-! ## Libraries -/

/-- The files mapped into a process, each once, in the order they first occur. -/
def libraries (pid : ProcessId) : Except MemoryError (List String) := do
  let entries ← (s.files pid).entries pid
  return (entries.filter MapEntry.isFile).filterMap MapEntry.path |>.foldl
    (fun seen path => if seen.contains path then seen else seen ++ [path]) []

def hasLibrary (pid : ProcessId) (matching : String → Bool) : Except MemoryError Bool :=
  (s.libraries pid).map fun paths =>
    paths.any fun path => (fileName? path.toList).any fun name => matching (String.ofList name)

def matchingLibraries (h : Handle) (matching : String → Bool) : Outcome (List String) :=
  .ofExcept ((s.libraries h.pid).map fun paths => paths.filter matching)

def withLibrary (matching : String → Bool) : Outcome (List ProcessId) :=
  (gather (fun pid => (s.hasLibrary pid matching).map fun found => (pid, found)) s.pids).map
    fun found => (found.filter Prod.snd).map Prod.fst

end Host
end ProcessMemory.Linux
