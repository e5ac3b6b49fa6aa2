import ProcessMemory.Error
import ProcessMemory.Region
import ProcessMemory.Text.Lines

/-!
# Events

What the library reports while it works. An operation returns the events it met in order; which of
them are shown, and where, is for its caller to decide.
-/
namespace ProcessMemory

inductive Severity where
  | error | warn | info | debug | trace
  deriving DecidableEq, Repr

def Severity.rank : Severity → Nat
  | .error => 1
  | .warn => 2
  | .info => 3
  | .debug => 4
  | .trace => 5

/-- The level as a line shows it, five characters wide. -/
def Severity.label : Severity → String
  | .error => "ERROR"
  | .warn => " WARN"
  | .info => " INFO"
  | .debug => "DEBUG"
  | .trace => "TRACE"

inductive Event where
  | walking (pid : ProcessId) (start : Address) (bufferSize stride : Nat)
  | noRegionLeft (cursor : Address)
  | retrying (address : Address) (retriesLeft : Nat) (error : MemoryError)
  | skipping (address : Address) (size : Nat) (error : MemoryError)
  | readableRegion (pid : ProcessId) (region : Region)
  | matchFound (pid : ProcessId) (address : Address)
  | searchingRegions (pid : ProcessId) (regions workers : Nat)
  | charsetIgnored (tag : String)
  | defaultsUsed (path reason : String)
  | fixtureReady (needle : String) (blockSize : Nat)

/-- An event in the form filters and printers read: its source is the dotted path filters name. -/
structure Entry where
  severity : Severity
  source : String
  message : String
  fields : List (String × String)

namespace Event

def entry : Event → Entry
  | .walking pid start bufferSize stride =>
    ⟨.debug, "memwalk::memory::walker", "walking memory",
      [("pid", toString pid), ("start", toString start), ("buffer_size", toString bufferSize),
        ("stride", toString stride)]⟩
  | .noRegionLeft cursor =>
    ⟨.trace, "memwalk::memory::walker", "no readable region left", [("cursor", toString cursor)]⟩
  | .retrying address retriesLeft error =>
    ⟨.debug, "memwalk::memory::walker", "chunk read failed, re-resolving region",
      [("address", toString address), ("retries_left", toString retriesLeft),
        ("error", error.message)]⟩
  | .skipping address size error =>
    ⟨.warn, "memwalk::memory::walker", "skipping unreadable chunk",
      [("address", toString address), ("len", toString size), ("error", error.message)]⟩
  | .readableRegion pid region =>
    ⟨.trace, "memwalk::memory::regions", "readable region",
      [("pid", toString pid), ("region", toString region)]⟩
  | .matchFound pid address =>
    ⟨.debug, "memwalk::memory::scanner", "match found",
      [("pid", toString pid), ("address", toString address)]⟩
  | .searchingRegions pid regions workers =>
    ⟨.debug, "memwalk::memory::scanner", "parallel search",
      [("pid", toString pid), ("regions", toString regions), ("workers", toString workers)]⟩
  | .charsetIgnored tag =>
    ⟨.warn, "memwalk::memory::scanner", "ignoring configured charset",
      [("error", MemoryError.unrecognized tag)]⟩
  | .defaultsUsed path reason =>
    ⟨.warn, "memwalk::config::loader", "using default configuration",
      [("path", path), ("error", reason)]⟩
  | .fixtureReady needle blockSize =>
    ⟨.info, "memwalk_fixture", "fixture ready",
      [("needle", needle), ("block_len", toString blockSize)]⟩

/-- The text of an event: its level, its message, and each field as `name=value`. -/
def text (e : Event) : String :=
  let entry := e.entry
  entry.fields.foldl (fun text (name, value) => text ++ " " ++ name ++ "=" ++ value)
    (entry.severity.label ++ " " ++ entry.message)

/-- The lines of an event: one, unless a value has line ends in it. -/
def lines (e : Event) : List String := Text.messageLines e.text

end Event
end ProcessMemory
