import ProcessMemory.Datum
import ProcessMemory.ProcessInfo
import ProcessMemory.Region
import ProcessMemory.Settings

/-!
# Records

How addresses, regions, processes and settings stand in documents. A document may leave out any
setting, and then the usual one holds.
-/
namespace ProcessMemory

def Address.ofDatum? (d : Datum) : Option Address :=
  (d.natural? 0x1_0000_0000_0000_0000).bind Address.ofNat?

def Address.toDatum (a : Address) : Datum := .ofNat a.toNat

namespace Region

def record : Record := ⟨["address", "size"], 2, true⟩

/-- Reads a region, an empty one too. -/
def ofDatum? (d : Datum) : Option Region := do
  match ← d.fields? record with
  | [some start, some size] =>
    return ⟨← Address.ofDatum? start, ← size.natural? 0x1_0000_0000_0000_0000⟩
  | _ => none

def toDatum (r : Region) : Datum :=
  .ofFields [("address", r.start.toDatum), ("size", .ofNat r.size)]

end Region

namespace ProcessInfo

def record : Record := ⟨["pid", "name", "path"], 3, true⟩

def ofDatum? (d : Datum) : Option ProcessInfo := do
  match ← d.fields? record with
  | [some pid, some name, path] =>
    return ⟨UInt32.ofNat (← pid.natural? 0x1_0000_0000), ← name.text?,
      ← (path.getD .null).textOrNull?⟩
  | _ => none

def toDatum (p : ProcessInfo) : Datum :=
  .ofFields [("pid", .ofNat p.pid.toNat), ("name", .ofText p.name),
    ("path", p.path.elim .null .ofText)]

end ProcessInfo

namespace ScanSettings

def record (exact : Bool) : Record := ⟨["min_buffer_size", "workers", "charsets"], 0, exact⟩

def ofDatum? (exact : Bool) (d : Datum) : Option ScanSettings := do
  match ← d.fields? (record exact) with
  | [size, workers, charsets] =>
    let usual : ScanSettings := {}
    return ⟨← size.elim (some usual.bufferSize) (·.natural? 0x1_0000_0000_0000_0000),
      ← workers.elim (some usual.workers) (·.natural? 0x1_0000_0000_0000_0000),
      ← charsets.elim (some usual.charsets) (·.texts?)⟩
  | _ => none

def fields (s : ScanSettings) : List (String × Datum) :=
  [("min_buffer_size", .ofNat s.bufferSize), ("workers", .ofNat s.workers),
    ("charsets", .list (s.charsets.map .ofText))]

end ScanSettings

namespace Settings

def record (exact : Bool) : Record := ⟨["scanner", "logging"], 0, exact⟩

def journalRecord (exact : Bool) : Record := ⟨["level"], 0, exact⟩

/-- Reads the level out of the record that holds it. -/
def level? (exact : Bool) (d : Datum) : Option String := do
  match ← d.fields? (journalRecord exact) with
  | [level] => level.elim (some ({} : Settings).level) (·.text?)
  | _ => none

def ofDatum? (exact : Bool) (d : Datum) : Option Settings := do
  match ← d.fields? (record exact) with
  | [scan, journal] =>
    let usual : Settings := {}
    return ⟨← scan.elim (some usual.scan) (ScanSettings.ofDatum? exact),
      ← journal.elim (some usual.level) (level? exact)⟩
  | _ => none

/-- The sections of a document with settings, and the fields of each. -/
def sections (s : Settings) : List (String × List (String × Datum)) :=
  [("scanner", s.scan.fields), ("logging", [("level", .ofText s.level)])]

def toDatum (s : Settings) : Datum :=
  .ofFields (s.sections.map fun (name, fields) => (name, .ofFields fields))

end Settings
end ProcessMemory
