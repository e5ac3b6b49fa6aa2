import ProcessMemory.Journal.Filter

/-!
# The journal

Where events are shown, once it is open. It is opened with the level from the settings, or with a
filter from the environment that overrides it, and it is opened only once.
-/
namespace ProcessMemory

inductive JournalError where
  | badFilter (level : String) (error : DirectiveError)
  | alreadyOpen
  deriving DecidableEq

def JournalError.message : JournalError → String
  | .badFilter level error => s!"Invalid configuration: Invalid log level {level}: {error.message}"
  | .alreadyOpen =>
    "Invalid configuration: Logging already initialized: " ++
      "a global default trace dispatcher has already been set"

structure Journal where
  /-- What is shown, if the journal is open. -/
  filter : Option Filter := none

namespace Journal

/-- The filter for a level. An override that can be read takes its place. -/
def chooseFilter (override : Option String) (level : String) : Except JournalError Filter :=
  match override.map Filter.parse with
  | some (.ok f) => .ok f
  | _ => (Filter.parse level).mapError (.badFilter level)

/-- Opens the journal. A bad filter comes before a journal that is open already. -/
def openWith (override : Option String) (level : String) (j : Journal) :
    Except JournalError Journal := do
  let f ← chooseFilter override level
  if j.filter.isSome then throw .alreadyOpen
  return ⟨some f⟩

def lines (j : Journal) (events : List Event) : List String :=
  j.filter.elim [] (·.lines events)

end Journal
end ProcessMemory
