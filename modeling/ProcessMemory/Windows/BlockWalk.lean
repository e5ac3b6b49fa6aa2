import ProcessMemory.Windows.Api

/-!
# Walking the blocks

Asking for the block at an address, then for the one at its stop, and so on, up to the last one or
to the first failure. A block that does not reach past the address it was asked for is the last.
-/
namespace ProcessMemory.Windows

/-- A walk under way: the address to ask for next, if there is one. -/
structure BlockWalk where
  next : Option Address

namespace BlockWalk

/-- The number of addresses yet to ask for at most. -/
def left (w : BlockWalk) : Nat := w.next.elim 0 fun a => 0x1_0000_0000_0000_0000 - a.toNat

variable {σ : Type} (api : Api σ) (pid : ProcessId)

def advance (w : BlockWalk) (s : σ) : Option (Except MemoryError Block) × BlockWalk × σ :=
  match w.next with
  | none => (none, ⟨none⟩, s)
  | some address =>
    match api.query address s with
    | (.ok (some b), s) => (some (.ok b), ⟨if address < b.stop then some b.stop else none⟩, s)
    | (.ok none, s) => (none, ⟨none⟩, s)
    | (.error failure, s) => (some (.error (.enumerationFailed pid (toString failure))), ⟨none⟩, s)

/-- An item that is given leaves fewer addresses to ask for. -/
theorem left_advance {w : BlockWalk} {s : σ} {item : Except MemoryError Block}
    (h : (w.advance api pid s).1 = some item) : (w.advance api pid s).2.1.left < w.left := by
  rcases w with ⟨_ | address⟩
  · simp [advance] at h
  · have := address.isLt
    unfold advance at h ⊢
    simp only [] at h ⊢
    split
    · rename_i b _ _
      by_cases hb : address < b.stop
      · have := (Address.lt_def _ _).1 hb
        have := b.stop.isLt
        simp only [left, hb, if_true, Option.elim]
        omega
      · simp only [left, hb, if_false, Option.elim]
        omega
    · simp_all
    · simp only [left, Option.elim]
      omega

def take (w : BlockWalk) : (count : Nat) → σ → List (Except MemoryError Block) × σ
  | 0, s => ([], s)
  | count + 1, s =>
    match w.advance api pid s with
    | (none, _, s) => ([], s)
    | (some item, w, s) =>
      let (items, s) := take w count s
      (item :: items, s)

/-- Looks a region up among the blocks that are left. Blocks without memory are holes. -/
def find (address : Address) (l : Lookup) (w : BlockWalk) (s : σ) : Outcome (Option Region) × σ :=
  match h : w.advance api pid s with
  | (none, _, s) => (l.outcome, s)
  | (some item, w', s) =>
    have : w'.left < w.left := by
      have := left_advance api pid (congrArg (·.1) h)
      rwa [h] at this
    if item.toOption.any fun b => !b.isCommitted then find address l w' s
    else
      match l.feed address (item.map Block.mapping) with
      | .more l => find address l w' s
      | .done outcome => (outcome, s)
termination_by w.left

end BlockWalk

variable {σ : Type} (api : Api σ)

/-- The readable region that holds an address, or the next one above it. -/
def Api.lookup (pid : ProcessId) (address : Address) (s : σ) : Outcome (Option Region) × σ :=
  BlockWalk.find api pid address {} ⟨some address⟩ s

def Api.target (pid : ProcessId) : Target σ where
  pid := pid
  lookup := api.lookup pid
  read address size s :=
    let (result, s) := api.read address size s
    (.ofExcept result, s)

end ProcessMemory.Windows
