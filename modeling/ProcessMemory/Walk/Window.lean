import ProcessMemory.Address

/-!
# Windows

How a span of memory is cut into windows. A grid fixes the size of a window and the distance
between two starts. The last window of a span ends exactly where the span ends, so it may repeat
bytes of the one before it; a span smaller than a window is one short window.
-/
namespace ProcessMemory

structure Grid where
  size : Nat
  stride : Nat
  stride_pos : 0 < stride
  stride_le : stride ≤ size

namespace Grid

/-- Windows that lie side by side. -/
def disjoint (size : Nat) (h : 0 < size) : Grid := ⟨size, size, h, Nat.le_refl _⟩

/-- Windows that overlap by half their size. -/
def sliding (size : Nat) (h : 0 < size) : Grid := ⟨size, max 1 (size / 2), by omega, by omega⟩

theorem size_pos (g : Grid) : 0 < g.size := Nat.lt_of_lt_of_le g.stride_pos g.stride_le

end Grid

/-- The window at `address`, inside a span that ends at `stop`. A window smaller than the grid's
holds all that is left of its span. -/
@[ext] structure Window (g : Grid) where
  address : Address
  size : Nat
  stop : Address
  size_pos : 0 < size
  size_le : size ≤ g.size
  fits : address.toNat + size ≤ stop.toNat
  short : size < g.size → address.toNat + size = stop.toNat

namespace Window

variable {g : Grid}

def first (g : Grid) (start stop : Address) (h : start < stop) : Window g where
  address := start
  size := min g.size (start.distanceTo stop)
  stop := stop
  size_pos := by
    have := g.size_pos
    rw [Address.lt_def] at h
    simp only [Address.distanceTo]
    omega
  size_le := Nat.min_le_left _ _
  fits := by
    rw [Address.lt_def] at h
    simp only [Address.distanceTo]
    omega
  short := by
    rw [Address.lt_def] at h
    simp only [Address.distanceTo]
    omega

def finish (w : Window g) : Nat := w.address.toNat + w.size

/-- A window needs no clamping. -/
theorem toNat_advance_size (w : Window g) : (w.address.advance w.size).toNat = w.finish := by
  have := w.fits
  have := w.stop.isLt
  rw [Address.toNat_advance, finish]
  omega

/-- Only a window that ends with its span may be smaller than the grid's. -/
theorem size_eq_of_lt (w : Window g) (h : w.finish < w.stop.toNat) : w.size = g.size := by
  have := w.size_le
  have := w.short
  unfold finish at h
  omega

/-- The window after `w`: one stride further, or, where that would not fit, the one that ends with
the span. -/
def next? (w : Window g) : Option (Window g) :=
  if h : w.finish < w.stop.toNat then
    let whole := w.address.toNat + g.stride + g.size ≤ w.stop.toNat
    some
      { address := if whole then w.address.advance g.stride else w.stop.retreat g.size
        size := g.size
        stop := w.stop
        size_pos := g.size_pos
        size_le := Nat.le_refl _
        fits := by
          have := w.size_eq_of_lt h
          have := w.stop.isLt
          unfold finish at h
          split <;> simp only [Address.toNat_advance, Address.toNat_retreat] <;> omega
        short := fun hs => absurd hs (Nat.lt_irrefl _) }
  else none

/-- What the window after `w` is. -/
structure Follows (w next : Window g) : Prop where
  more : w.finish < w.stop.toNat
  size_eq : next.size = g.size
  stop_eq : next.stop = w.stop
  address_eq : next.address.toNat =
    if w.address.toNat + g.stride + g.size ≤ w.stop.toNat then w.address.toNat + g.stride
    else w.stop.toNat - g.size

theorem follows_of_next? {w next : Window g} (h : w.next? = some next) : Follows w next := by
  unfold next? at h
  split at h
  · rename_i hmore
    have hstop := w.stop.isLt
    simp only [Option.some.injEq] at h
    subst h
    refine ⟨hmore, rfl, rfl, ?_⟩
    simp only
    split
    · rw [Address.toNat_advance]
      omega
    · rw [Address.toNat_retreat]
  · cases h

/-- All windows of a span have its stop. -/
theorem stop_of_next? {w next : Window g} (h : w.next? = some next) : next.stop = w.stop :=
  (follows_of_next? h).stop_eq

theorem size_eq_of_next? {w next : Window g} (h : w.next? = some next) : w.size = g.size :=
  w.size_eq_of_lt (follows_of_next? h).more

/-- Windows ascend. -/
theorem address_lt_of_next? {w next : Window g} (h : w.next? = some next) :
    w.address < next.address := by
  have hmore := (follows_of_next? h).more
  have haddress := (follows_of_next? h).address_eq
  have hsize := w.size_eq_of_lt hmore
  have hstride := g.stride_pos
  unfold finish at hmore
  rw [Address.lt_def]
  split at haddress <;> omega

/-- The next window starts at most one stride further. -/
theorem address_le_of_next? {w next : Window g} (h : w.next? = some next) :
    next.address.toNat ≤ w.address.toNat + g.stride := by
  have haddress := (follows_of_next? h).address_eq
  split at haddress <;> omega

theorem address_lt_stop (w : Window g) : w.address < w.stop := by
  have := w.size_pos
  have := w.fits
  rw [Address.lt_def]
  omega

@[simp] theorem first_address (start stop : Address) (h : start < stop) :
    (first g start stop h).address = start := rfl

@[simp] theorem first_stop (start stop : Address) (h : start < stop) :
    (first g start stop h).stop = stop := rfl

/-- The last window ends with its span. -/
theorem finish_eq_of_next? {w : Window g} (h : w.next? = none) : w.finish = w.stop.toNat := by
  have hfits := w.fits
  unfold next? at h
  split at h
  · simp at h
  · unfold finish at *
    omega

end Window

/-- Bytes handed over by a walk, with the address they were read at. -/
structure Chunk where
  address : Address
  bytes : List UInt8
  deriving DecidableEq

end ProcessMemory
