import ProcessMemory.Json
import ProcessMemory.Settings.Record

/-!
# Where regions come from

A region is made from a size or from its bounds, or read from a text, and it may grow by regions
that came about in the same ways (`Origin`). Growing puts the addresses of two regions together,
also where a size or a stop is clamped. Regions that are made hold at least one byte, and so do
those that grow from them. A text is read as it stands, so that it may give a region of no bytes.
-/
namespace ProcessMemory

namespace Region

variable {r next grown : Region}

def tryExtend (r next : Region) : Bool × Region :=
  match r.extend? next with
  | some grown => (true, grown)
  | none => (false, r)

def ofText? (text : String) : Option Region := (Json.read? text).bind ofDatum?

theorem extend?_eq_some :
    r.extend? next = some grown ↔
      next.start = r.stop ∧ grown = ⟨r.start, min (r.size + next.size) 0xFFFF_FFFF_FFFF_FFFF⟩ := by
  unfold extend?
  split <;> simp_all [eq_comm]

/-- The grown region stops where `next` does, clamped or not. -/
theorem stop_of_extend? (h : r.extend? next = some grown) : grown.stop = next.stop := by
  obtain ⟨hstart, rfl⟩ := extend?_eq_some.1 h
  have hplace := congrArg Address.toNat hstart
  rw [toNat_stop] at hplace
  rw [Address.ext_iff, toNat_stop, toNat_stop]
  dsimp only
  omega

theorem mem_of_extend? (h : r.extend? next = some grown) (a : Address) :
    a ∈ grown ↔ a ∈ r ∨ a ∈ next := by
  have hstop := stop_of_extend? h
  obtain ⟨hstart, rfl⟩ := extend?_eq_some.1 h
  have hlow : r.start ≤ r.stop := r.start.le_advance r.size
  have hhigh : next.start ≤ next.stop := next.start.le_advance next.size
  rw [hstart] at hhigh
  simp only [mem_def, hstop, hstart, Address.le_def, Address.lt_def] at hlow hhigh ⊢
  omega

theorem tryExtend_fst : (r.tryExtend next).1 = true ↔ next.start = r.stop := by
  by_cases h : next.start = r.stop
  · simp [tryExtend, extend?, h]
  · simp [tryExtend, extend?, h]

theorem mem_tryExtend (h : (r.tryExtend next).1 = true) (a : Address) :
    a ∈ (r.tryExtend next).2 ↔ a ∈ r ∨ a ∈ next := by
  cases hgrown : r.extend? next with
  | none => simp [tryExtend, hgrown] at h
  | some grown =>
    simp only [tryExtend, hgrown]
    exact mem_of_extend? hgrown a

theorem tryExtend_of_not (h : (r.tryExtend next).1 = false) : r.tryExtend next = (false, r) := by
  cases hgrown : r.extend? next with
  | none => simp [tryExtend, hgrown]
  | some grown => simp [tryExtend, hgrown] at h

/-- A region does not shrink, so one that is empty afterwards is what it was. -/
theorem eq_of_size_tryExtend (h : (r.tryExtend next).2.size = 0) : (r.tryExtend next).2 = r := by
  cases hgrown : r.extend? next with
  | none => simp [tryExtend, hgrown]
  | some grown =>
    simp only [tryExtend, hgrown] at h ⊢
    obtain ⟨-, rfl⟩ := extend?_eq_some.1 hgrown
    have hsize : min (r.size + next.size) 0xFFFF_FFFF_FFFF_FFFF = r.size := by
      dsimp only at h
      omega
    rw [hsize]

end Region

/-- A way to come by a region. -/
inductive Origin where
  | made (start : Address) (size : Nat)
  | between (start stop : Address)
  | read (text : String)
  /-- What a region is after it was to grow by another. -/
  | extended (region next : Origin)

namespace Origin

def region? : Origin → Option Region
  | made start size => Region.make? start size
  | between start stop => Region.ofBounds? start stop
  | read text => Region.ofText? text
  | extended region next => do return ((← region.region?).tryExtend (← next.region?)).2

/-- How the region first came about, before it grew. -/
def first : Origin → Origin
  | extended region _ => region.first
  | origin => origin

variable {o : Origin} {r : Region}

/-- A region is empty only if it was read, and was empty then. -/
theorem read_of_size_eq_zero (h : o.region? = some r) (hsize : r.size = 0) :
    ∃ text, o.first = .read text ∧ Region.ofText? text = some r := by
  induction o generalizing r with
  | made start size =>
    obtain ⟨hpos, rfl⟩ := Region.make?_eq_some.1 h
    exact absurd hsize (Nat.ne_of_gt hpos)
  | between start stop =>
    obtain ⟨hpos, rfl⟩ := Region.make?_eq_some.1 h
    exact absurd hsize (Nat.ne_of_gt hpos)
  | read text => exact ⟨text, rfl, h⟩
  | extended region next ih _ =>
    simp only [region?, Option.bind_eq_bind, Option.bind_eq_some_iff, Option.pure_def,
      Option.some.injEq] at h
    obtain ⟨before, hbefore, other, -, rfl⟩ := h
    have hsame := Region.eq_of_size_tryExtend hsize
    rw [hsame] at hsize ⊢
    exact ih hbefore hsize

/-- A region holds at least one byte, unless it was read without any and has not grown since. It
grows where the other one starts at its stop: then it holds the addresses of both, and else it stays
as it is. -/
theorem region_nonempty_or_read (o : Origin) (r : Region) (h : o.region? = some r) :
    (0 < r.size ∨ ∃ text, o.first = .read text ∧ Region.ofText? text = some r) ∧
      ∀ next : Region, ((r.tryExtend next).1 = true ↔ next.start = r.stop) ∧
        ((r.tryExtend next).1 = true → ∀ a, a ∈ (r.tryExtend next).2 ↔ a ∈ r ∨ a ∈ next) ∧
        ((r.tryExtend next).1 = false → (r.tryExtend next).2 = r) := by
  constructor
  · rcases Nat.eq_zero_or_pos r.size with hzero | hpos
    · exact .inr (read_of_size_eq_zero h hzero)
    · exact .inl hpos
  · intro next
    refine ⟨Region.tryExtend_fst, Region.mem_tryExtend, fun hno => ?_⟩
    rw [Region.tryExtend_of_not hno]

/-- A region that grows to the top, where its size is clamped, and then by one that lies there. -/
theorem region_nonempty_or_read_clamped :
    let o : Origin := .extended (.between 0x10 0xFFFF_FFFF_FFFF_FFF0)
      (.made 0xFFFF_FFFF_FFFF_FFF0 0x20)
    let r : Region := ⟨0x10, 0xFFFF_FFFF_FFFF_FFFF⟩
    let next : Region := ⟨.top, 5⟩
    o.region? = some r ∧ (r.tryExtend next).1 = true ∧
      (0 < r.size ∨ ∃ text, o.first = .read text ∧ Region.ofText? text = some r) ∧
      ∀ a, a ∈ (r.tryExtend next).2 ↔ a ∈ r ∨ a ∈ next := by
  intro o r next
  have hregion : o.region? = some r := by decide +kernel
  have hgrows : (r.tryExtend next).1 = true := by decide +kernel
  obtain ⟨hsize, hextend⟩ := region_nonempty_or_read o r hregion
  exact ⟨hregion, hgrows, hsize, (hextend next).2.1 hgrows⟩

/-- A text that says so is read as a region of no bytes. -/
theorem region_read_empty :
    (Origin.read "\x7b\"address\":4096,\"size\":0\x7d").region? = some ⟨0x1000, 0⟩ ∧
      ¬∀ (o : Origin) (r : Region), o.region? = some r → 0 < r.size := by
  have hread : (Origin.read "\x7b\"address\":4096,\"size\":0\x7d").region? =
      some ⟨0x1000, 0⟩ := by
    decide +kernel
  exact ⟨hread, fun hall => absurd (hall _ _ hread) (Nat.lt_irrefl 0)⟩

end Origin
end ProcessMemory
