import ProcessMemory.Journal.Event
import ProcessMemory.Text.Letter

/-!
# Filters

Which events a journal shows. A filter is a list of directives, each of which sets a level for the
sources whose names begin with its target. The first directive that covers a source decides, and
longer targets come first, so the most specific directive has its way.
-/
namespace ProcessMemory

/-- How much is shown: nothing, or what is at least as grave as a severity. -/
inductive Level where
  | off
  | upTo (severity : Severity)
  deriving DecidableEq, Repr

namespace Level

/-- All levels by name; the place of a level in the list is its number. -/
def names : List (String × Level) :=
  [("off", .off), ("error", .upTo .error), ("warn", .upTo .warn), ("info", .upTo .info),
    ("debug", .upTo .debug), ("trace", .upTo .trace)]

def name : Level → String
  | .off => "off"
  | .upTo .error => "error"
  | .upTo .warn => "warn"
  | .upTo .info => "info"
  | .upTo .debug => "debug"
  | .upTo .trace => "trace"

instance : ToString Level := ⟨name⟩

/-- Reads a number from zero to five or a name in any case. Empty text is read as `error`. -/
def ofText? (text : List Char) : Option Level :=
  if text.isEmpty then some (.upTo .error)
  else
    match Numeral.read? 10 0x1_0000_0000_0000_0000 text with
    | some n => (names[n]?).map (·.2)
    | none => names.lookup (String.ofList (text.map Char.toLower))

def admits : Level → Severity → Bool
  | .off, _ => false
  | .upTo least, severity => severity.rank ≤ least.rank

end Level

/-- The level for the sources whose names begin with `target`, or for all sources. -/
structure Directive where
  target : Option String
  level : Level
  deriving DecidableEq

inductive DirectiveError where
  | malformed | badLevel
  deriving DecidableEq, Repr

def DirectiveError.message : DirectiveError → String
  | .malformed => "invalid filter directive"
  | .badLevel =>
    "error parsing level filter: expected one of \"off\", \"error\", \"warn\", \"info\", " ++
      "\"debug\", \"trace\", or a number 0-5"

namespace Directive

def startsTarget (c : Char) : Bool :=
  c == '-' || c == ':' || c == '_' || Text.isAlphanumeric c

/-- Reads a level, a target, or a target and a level with an equals sign between them. A target
without a level shows everything. Blanks at the ends are passed over in looking at the text, but
they count in cutting it. -/
def parse (text : List Char) : Except DirectiveError Directive :=
  let shown := Text.trim text
  if !(shown.head?.any startsTarget) || (shown.takeWhile (· != '=')).contains '[' then
    .error .malformed
  else
    match shown.idxOf? '=' with
    | none =>
      match Level.ofText? text with
      | some level => .ok ⟨none, level⟩
      | none => .ok ⟨some (String.ofList text), .upTo .trace⟩
    | some i =>
      let target := some (String.ofList (text.take i))
      let rest := text.drop (i + 1)
      if rest.isEmpty then .ok ⟨target, .upTo .trace⟩
      else
        match Level.ofText? rest with
        | some level => .ok ⟨target, level⟩
        | none => .error .badLevel

/-- More specific directives come first: longer targets before shorter ones, and among targets of
one length the higher. -/
def precedes (d e : Directive) : Bool :=
  match d.target, e.target with
  | _, none => d.target.isSome
  | none, some _ => false
  | some a, some b =>
    if a.utf8ByteSize = b.utf8ByteSize then decide (b < a)
    else decide (b.utf8ByteSize < a.utf8ByteSize)

def covers (d : Directive) (source : String) : Bool :=
  d.target.all fun target => target.toList.isPrefixOf source.toList

instance : ToString Directive :=
  ⟨fun d => d.target.elim d.level.name fun target => target ++ "=" ++ d.level.name⟩

end Directive

/-- Directives in order, no two of them with one target. -/
structure Filter where
  directives : List Directive

namespace Filter

/-- Adds a directive, in place of one with the same target. -/
def insert (d : Directive) : List Directive → List Directive
  | [] => [d]
  | e :: rest =>
    if d.target = e.target then d :: rest
    else if d.precedes e then d :: e :: rest
    else e :: insert d rest

def ofDirectives (directives : List Directive) : Filter :=
  ⟨directives.foldl (fun l d => insert d l) []⟩

/-- The directives of a text, which commas part. Nothing between commas is no directive. -/
def pieces (text : String) : List (List Char) :=
  (Text.splitAll ',' text.toList).filter fun piece => !piece.isEmpty

/-- Reads a filter; the first directive that cannot be read spoils it. One without directives shows
nothing. -/
def parse (text : String) : Except DirectiveError Filter :=
  ((pieces text).mapM Directive.parse).map ofDirectives

/-- Reads what can be read of a filter, with a note on every directive that cannot. Where nothing
can, errors are shown. -/
def parseLenient (text : String) : Filter × List String :=
  let read := (pieces text).map fun piece => (piece, Directive.parse piece)
  let directives := read.filterMap fun (_, d) => d.toOption
  let notes := read.filterMap fun (piece, d) =>
    match d with
    | .ok _ => none
    | .error e => some ("ignoring `" ++ String.ofList piece ++ "`: " ++ e.message)
  (ofDirectives (if directives.isEmpty then [⟨none, .upTo .error⟩] else directives),
    notes.flatMap Text.messageLines)

def level (f : Filter) (source : String) : Level :=
  ((f.directives.find? (·.covers source)).map (·.level)).getD .off

def admits (f : Filter) (e : Event) : Bool := (f.level e.entry.source).admits e.entry.severity

def lines (f : Filter) (events : List Event) : List String :=
  (events.filter f.admits).flatMap Event.lines

instance : ToString Filter := ⟨fun f => ",".intercalate (f.directives.map toString)⟩

end Filter
end ProcessMemory
