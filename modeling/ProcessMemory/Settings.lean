import ProcessMemory.Journal.Filter
import ProcessMemory.Search

/-!
# Settings

What a user may set: how searches are carried out and how much is reported. Settings are kept as
they were written, so a charset is a tag and a level is text, and `Settings.check` tells whether
they make sense.
-/
namespace ProcessMemory

structure ScanSettings where
  /-- The smallest size of a chunk. -/
  bufferSize : Nat := 4096
  workers : Nat := 1
  /-- Tags of the charsets that text is looked for in. -/
  charsets : List String := Charset.defaults.map Charset.tag
  deriving DecidableEq

structure Settings where
  scan : ScanSettings := {}
  /-- How much is reported. -/
  level : String := "info"
  deriving DecidableEq

inductive Misfit where
  | smallBuffer
  | noWorkers
  | manyWorkers
  | unknownCharset (tag : String)
  | unknownLevel (level : String)
  deriving DecidableEq

def Misfit.message : Misfit → String
  | .smallBuffer => "Minimum buffer size must be at least 2"
  | .noWorkers => "Scanner workers must be at least 1"
  | .manyWorkers => "Scanner workers cannot exceed 128"
  | .unknownCharset tag => MemoryError.unrecognized tag
  | .unknownLevel level =>
    s!"Invalid log level: {level}. Must be one of: trace, debug, info, warn, error, off"

namespace ScanSettings

/-- The first thing wrong. A chunk needs two bytes for a sliding walk to get on. -/
def check (s : ScanSettings) : Except Misfit Unit :=
  if s.bufferSize < 2 then .error .smallBuffer
  else if s.workers = 0 then .error .noWorkers
  else if 128 < s.workers then .error .manyWorkers
  else
    match s.charsets.find? fun tag => (Charset.ofTag? tag).isNone with
    | some tag => .error (.unknownCharset tag)
    | none => .ok ()

/-- The options that the settings give, and an event for each tag that names no charset. Where no
charset is left the usual ones are taken, and there is always a worker. -/
def options (s : ScanSettings) : SearchOptions × List Event :=
  let charsets := s.charsets.filterMap Charset.ofTag?
  let unknown := s.charsets.filter fun tag => (Charset.ofTag? tag).isNone
  ({ bufferSize := s.bufferSize
     workers := max s.workers 1
     charsets := if charsets.isEmpty then Charset.defaults else charsets },
    unknown.map Event.charsetIgnored)

end ScanSettings

namespace Settings

/-- The first thing wrong, searches before reports. -/
def check (s : Settings) : Except Misfit Unit := do
  s.scan.check
  if (Level.ofText? s.level.toList).isNone then throw (.unknownLevel s.level)

end Settings
end ProcessMemory
