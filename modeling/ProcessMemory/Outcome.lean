import ProcessMemory.Error

/-!
# Outcomes

What every operation on a target gives: a result, and the soft errors met on the way to it, in the
order they happened. Soft errors do not invalidate the result, and outlive a hard error.
-/
namespace ProcessMemory

structure Outcome (α : Type) where
  result : Except MemoryError α
  softErrors : List MemoryError := []

namespace Outcome

variable {α β : Type}

def ok (value : α) : Outcome α := ⟨.ok value, []⟩

def fail (error : MemoryError) : Outcome α := ⟨.error error, []⟩

def ofExcept (result : Except MemoryError α) : Outcome α := ⟨result, []⟩

def isOk (o : Outcome α) : Bool := o.result.isOk

def map (f : α → β) (o : Outcome α) : Outcome β := ⟨o.result.map f, o.softErrors⟩

/-- The bare result, with the soft errors moved to the end of `sink`. -/
def collectInto (o : Outcome α) (sink : List MemoryError) :
    Except MemoryError α × List MemoryError :=
  (o.result, sink ++ o.softErrors)

/-- The same outcome, after the soft errors of an earlier step. -/
def after (earlier : List MemoryError) (o : Outcome α) : Outcome α :=
  ⟨o.result, earlier ++ o.softErrors⟩

end Outcome
end ProcessMemory
