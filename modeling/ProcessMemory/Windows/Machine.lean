import ProcessMemory.Windows.Api

/-!
# Described machines

A system that answers calls as a description of it says. It notes every call that asks for a
listing, a path or a process, and counts the handles that were closed.
-/
namespace ProcessMemory.Windows

/-- What a call for a path gives: units, or a failure with a code. -/
inductive PathAnswer where
  | units (units : List Nat)
  | fails (code : UInt32)

inductive Call where
  | openProcess (pid : ProcessId)
  | queryBlock (address : Address)
  | listProcesses (bytes : UInt32)
  | listModules (bytes : UInt32)
  | modulePath (module units : Nat)
  | imagePath (units : Nat)

instance : ToString Call :=
  ⟨fun
    | .openProcess pid => s!"OpenProcess 0x410 {pid}"
    | .queryBlock a => "VirtualQueryEx 0x" ++ String.ofList (Numeral.print 16 a.toNat)
    | .listProcesses bytes => s!"EnumProcesses {bytes}"
    | .listModules bytes => s!"EnumProcessModules {bytes}"
    | .modulePath m units => s!"GetModuleFileNameExW {m} {units}"
    | .imagePath units => s!"GetProcessImageFileNameW {units}"⟩

/-- A description. A code that is not zero makes its call fail. -/
structure Machine where
  openCode : UInt32 := 0
  closeCode : UInt32 := 0
  readCode : UInt32 := 0
  processesCode : UInt32 := 0
  modulesCode : UInt32 := 0
  blocks : List Block := []
  /-- The code where there is no block. -/
  noBlockCode : UInt32 := 87
  /-- Addresses at which asking for a block fails. -/
  blockCodes : List (Address × UInt32) := []
  memory : List (Address × List UInt8) := []
  /-- How many bytes every read claims to have read. -/
  shortRead : Option Nat := none
  processes : List ProcessId := []
  /-- The paths of the modules, which are numbered from one. -/
  modules : List PathAnswer := []
  image : Option PathAnswer := none

namespace Machine

structure State where
  lastError : UInt32 := 0
  closed : Nat := 0
  calls : List Call := []

namespace State

def note (c : Call) (s : State) : State := { s with calls := s.calls ++ [c] }

def fail {α : Type} (code : UInt32) (s : State) : Option α × State :=
  (none, { s with lastError := code })

end State

variable (m : Machine)

def bytes? (address : Address) (size : Nat) : Option (Bytes size) :=
  m.memory.findSome? fun (start, held) =>
    let bytes := (held.drop (start.distanceTo address)).take size
    if h : bytes.length = size then if start ≤ address then some ⟨bytes, h⟩ else none else none

/-- The first block that holds an address or starts at it. -/
def block? (address : Address) : Option Block :=
  m.blocks.find? fun b =>
    decide (b.start ≤ address ∧ address.toNat < b.start.toNat + b.size) || b.start == address

/-- Copies what fits of a path. -/
def copyPath (path : Option PathAnswer) (units : Nat) (s : State) : List Nat × State :=
  match path with
  | some (.units path) => (path.take units, s)
  | some (.fails code) => ([], { s with lastError := code })
  | none => ([], { s with lastError := 6 })

def api : Api State where
  lastError s := s.lastError
  openProcess pid s :=
    let s := s.note (.openProcess pid)
    if m.openCode ≠ 0 then s.fail m.openCode else (some ⟨1⟩, s)
  closeHandle _ s :=
    let s := { s with closed := s.closed + 1 }
    if m.closeCode ≠ 0 then (false, { s with lastError := m.closeCode }) else (true, s)
  readMemory address size s :=
    if m.readCode ≠ 0 then s.fail m.readCode
    else
      match m.shortRead with
      | some count => (some (count, ⟨List.replicate size 0, List.length_replicate⟩), s)
      | none =>
        match m.bytes? address size with
        | some bytes => (some (size, bytes), s)
        | none => s.fail 299
  queryBlock address s :=
    let s := s.note (.queryBlock address)
    match m.blockCodes.lookup address with
    | some code => s.fail code
    | none =>
      match m.block? address with
      | some b => (some b, s)
      | none => s.fail m.noBlockCode
  listProcesses bytes s :=
    let s := s.note (.listProcesses bytes)
    if m.processesCode ≠ 0 then s.fail m.processesCode
    else (some (m.processes.take (bytes.toNat / 4)), s)
  listModules bytes s :=
    let s := s.note (.listModules bytes)
    if m.modulesCode ≠ 0 then s.fail m.modulesCode
    else
      let numbers := (List.range m.modules.length).map (· + 1)
      (some (UInt32.ofNat (8 * numbers.length), numbers.take (bytes.toNat / 8)), s)
  modulePath module units s :=
    let path := if module = 0 then none else m.modules[module - 1]?
    copyPath path units (s.note (.modulePath module units))
  imagePath units s := copyPath m.image units (s.note (.imagePath units))

end Machine
end ProcessMemory.Windows
