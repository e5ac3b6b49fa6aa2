import ProcessMemory.Windows.Api
import ProcessMemory.Windows.Wide

/-!
# Listings

The system writes lists and paths into buffers, and what does not fit is cut off. So a buffer is
made larger until it holds all.
-/
namespace ProcessMemory.Windows.Api

variable {σ : Type} (api : Api σ)

/-! ## Processes -/

/-- Lists processes in a buffer of `slots` ids, doubled from round to round. A full buffer may have
cut the list. From 2³² bytes on the size of a buffer reads as zero in its 32 bits, and no list is
shorter than that: the buffer grows until no memory is left. The failure at the end stands for
that. -/
def growProcesses (slots : Nat) : (rounds : Nat) → σ → Except Failure (List ProcessId) × σ
  | 0, s => (.error ⟨.insufficientBuffer, "EnumProcesses"⟩, s)
  | rounds + 1, s =>
    let bytes := UInt32.ofNat (slots * 4)
    match api.listProcesses bytes s with
    | (none, s) => (.error (api.failure "EnumProcesses" s), s)
    | (some pids, s) =>
      if pids.length * 4 < bytes.toNat then (.ok (pids.filter (· != 0)), s)
      else growProcesses (slots * 2) rounds s

/-- All processes but the one with number zero. The last buffer that memory can have is the one of
2⁶² bytes in round 51. -/
def processes : σ → Except Failure (List ProcessId) × σ := api.growProcesses 1024 51

/-! ## Modules -/

def growModules (slots : Nat) (s : σ) : Except Failure (List Nat) × σ :=
  match api.listModules (UInt32.ofNat (slots * 8)) s with
  | (none, s) => (.error (api.failure "EnumProcessModules" s), s)
  | (some (needed, modules), s) =>
    let count := needed.toNat / 8
    if count ≤ slots then (.ok ((modules ++ List.replicate slots 0).take count), s)
    else growModules count s
termination_by 0x1_0000_0000 - slots
decreasing_by
  have := needed.toNat_lt
  omega

def modules : σ → Except Failure (List Nat) × σ := api.growModules 256

/-! ## Paths -/

/-- The longest path has one unit less. -/
def longestPath : Nat := 32768

/-- Reads a path with a call that fills a buffer of `size` units. A full buffer may have cut it. -/
def growPath (context : String) (fill : Nat → σ → List Nat × σ) (size : Nat) (s : σ) :
    Except Failure WidePath × σ :=
  match fill size s with
  | ([], s) => (.error (api.failure context s), s)
  | (units, s) =>
    if units.length < size ∨ longestPath ≤ size ∨ size = 0 then (.ok (.ofUnits units), s)
    else growPath context fill (size * 2) s
termination_by longestPath - size
decreasing_by omega

def moduleFile (module : Nat) : σ → Except Failure WidePath × σ :=
  api.growPath "GetModuleFileNameExW" (api.modulePath module) 260

def imageFile : σ → Except Failure WidePath × σ :=
  api.growPath "GetProcessImageFileNameW" api.imagePath 260

/-- The paths of some modules, up to the first failure. -/
def filesOf (pid : ProcessId) : List Nat → σ → Except MemoryError (List WidePath) × σ
  | [], s => (.ok [], s)
  | m :: rest, s =>
    match api.moduleFile m s with
    | (.error e, s) => (.error (e.toMemoryError pid), s)
    | (.ok file, s) =>
      let (files, s) := filesOf pid rest s
      (files.map (file :: ·), s)

def moduleFiles (pid : ProcessId) (s : σ) : Except MemoryError (List WidePath) × σ :=
  match api.modules s with
  | (.error e, s) => (.error (e.toMemoryError pid), s)
  | (.ok modules, s) => api.filesOf pid modules s

/-! ## Paths as they are shown -/

def moduleName (module : Nat) (s : σ) : Except Failure String × σ :=
  Prod.map (Except.map WidePath.text) id (api.moduleFile module s)

def imageName (s : σ) : Except Failure String × σ :=
  Prod.map (Except.map WidePath.text) id (api.imageFile s)

def modulePaths (pid : ProcessId) (s : σ) : Except MemoryError (List String) × σ :=
  Prod.map (Except.map (List.map WidePath.text)) id (api.moduleFiles pid s)

end ProcessMemory.Windows.Api
