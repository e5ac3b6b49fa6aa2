import ProcessMemory.Outcome
import ProcessMemory.Region

/-!
# Mappings

An address space as its system lists it: mappings in ascending order, readable or not. A region is
what touching readable mappings merge into. Looking one up reads the list only as far as it must,
so it is written as a reader of one item at a time.
-/
namespace ProcessMemory

structure Mapping where
  start : Address
  stop : Address
  readable : Bool
  deriving DecidableEq

namespace Mapping

/-- The bytes of a mapping; none where its stop does not lie above its start. -/
def region? (m : Mapping) : Option Region := Region.ofBounds? m.start m.stop

end Mapping

/-- A region lookup under way: the region so far, and the unreadable mappings crossed before it. -/
structure Lookup where
  region : Option Region := none
  softErrors : List MemoryError := []

namespace Lookup

/-- What a lookup does with one item of the listing. -/
inductive Step where
  | more (lookup : Lookup)
  | done (outcome : Outcome (Option Region))

/-- What the lookup answers if the listing ends here. -/
def outcome (l : Lookup) : Outcome (Option Region) := ⟨.ok l.region, l.softErrors⟩

/-- Takes one item of the listing. Mappings that end at or below `address`, and empty ones, are
passed over. The first readable one starts the region, and readable ones that touch it make it
grow. An unreadable one is a soft error before the region starts and ends it after. -/
def feed (address : Address) (l : Lookup) : Except MemoryError Mapping → Step
  | .error e => .done ⟨.error e, l.softErrors⟩
  | .ok m =>
    if m.stop ≤ address then .more l
    else
      match m.region? with
      | none => .more l
      | some candidate =>
        match l.region with
        | none =>
          if m.readable then .more { l with region := some candidate }
          else .more { l with softErrors := l.softErrors ++ [.unreadable m.start m.stop] }
        | some current =>
          if m.readable then
            match current.extend? candidate with
            | some grown => .more { l with region := some grown }
            | none => .done l.outcome
          else .done l.outcome

def run (address : Address) (l : Lookup) :
    List (Except MemoryError Mapping) → Outcome (Option Region)
  | [] => l.outcome
  | item :: rest =>
    match l.feed address item with
    | .more l' => l'.run address rest
    | .done outcome => outcome

end Lookup

/-- The readable region that holds `address`, or the next one above it. The region starts at the
first readable mapping that reaches past `address`. -/
def regionAt (listing : List (Except MemoryError Mapping)) (address : Address) :
    Outcome (Option Region) :=
  ({} : Lookup).run address listing

end ProcessMemory
