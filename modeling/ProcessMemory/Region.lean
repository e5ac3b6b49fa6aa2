import ProcessMemory.Address

/-!
# Regions

A span of memory from a start address. Its stop is clamped at the top of the address space, and
growing it clamps its size.
-/
namespace ProcessMemory

structure Region where
  start : Address
  size : Nat
  deriving DecidableEq

namespace Region

/-- A region of `size` bytes; there is none of no bytes. -/
def make? (start : Address) (size : Nat) : Option Region :=
  if 0 < size then some ⟨start, size⟩ else none

/-- The region from `start` up to `stop`, which lies outside; there is none of no bytes. -/
def ofBounds? (start stop : Address) : Option Region := make? start (start.distanceTo stop)

def stop (r : Region) : Address := r.start.advance r.size

/-- The address past the region where there is one, `none` where the region fills the top. -/
def next? (r : Region) : Option Address := r.start.advance? r.size

instance : Membership Address Region := ⟨fun r a => r.start ≤ a ∧ a < r.stop⟩

instance (a : Address) (r : Region) : Decidable (a ∈ r) :=
  inferInstanceAs (Decidable (r.start ≤ a ∧ a < r.stop))

def contains (r : Region) (a : Address) : Bool := a ∈ r

/-- The region grown by `next`, where `next` starts exactly at the stop of `r`. -/
def extend? (r next : Region) : Option Region :=
  if next.start = r.stop then some ⟨r.start, min (r.size + next.size) 0xFFFF_FFFF_FFFF_FFFF⟩
  else none

/-- The part of the region at or above `a`. -/
def from? (r : Region) (a : Address) : Option Region := ofBounds? (max r.start a) r.stop

instance : ToString Region :=
  ⟨fun r => s!"{r.start.lowerHex}-{r.stop.lowerHex} ({r.size} bytes)"⟩

/-- There is a region of any number of bytes but zero. -/
theorem make?_eq_some {start : Address} {size : Nat} {r : Region} :
    make? start size = some r ↔ 0 < size ∧ r = ⟨start, size⟩ := by
  unfold make?
  split <;> simp_all [eq_comm]

/-- A region that fills the top stops at the highest address. -/
theorem toNat_stop (r : Region) :
    r.stop.toNat = min (r.start.toNat + r.size) 0xFFFF_FFFF_FFFF_FFFF := rfl

theorem mem_def (a : Address) (r : Region) : a ∈ r ↔ r.start ≤ a ∧ a < r.stop := Iff.rfl

end Region
end ProcessMemory
