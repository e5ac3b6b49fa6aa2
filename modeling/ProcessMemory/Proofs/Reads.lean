import ProcessMemory.Proofs.Segmented

/-!
# Reads and lookups

A segmented process answers two questions about the same bytes by different means: a lookup merges
segments that touch, and a read goes from one segment to the next. They agree. Where nothing makes
reads fail, a read succeeds just where the region found at its address holds all of it.
-/
namespace ProcessMemory

def Region.Covers (r : Region) (a : Address) (n : Nat) : Prop :=
  r.start ≤ a ∧ a.toNat + n ≤ r.stop.toNat

instance (r : Region) (a : Address) (n : Nat) : Decidable (r.Covers a n) :=
  inferInstanceAs (Decidable (_ ∧ _))

namespace Memory

variable {m : Memory} {a : Address} {n : Nat}

/-- Bytes that can be read lie in the region owed at the first of them, and the other way round. -/
theorem Next.covers_iff {region : Region} (h : m.Next a region) (hn : 0 < n) :
    region.Covers a n ↔ m.Readable a.toNat n := by
  constructor
  · rintro ⟨hstart, hstop⟩ i hi
    rw [Address.le_def] at hstart
    exact h.readable (a.toNat + i) (by omega) (by omega)
  · intro hr
    have hstart : region.start ≤ a := h.start_le (hr 0 hn)
    refine ⟨hstart, end_le (fun k hk hlt => hr.isSome hk hlt) h.ends ?_⟩
    exact Nat.le_of_lt h.reaches

/-- A lookup tells whether bytes from its address on can be read. -/
theorem Found.covers_iff {found : Option Region} (h : m.Found a (.ok found)) (hn : 0 < n) :
    (∃ region, found = some region ∧ region.Covers a n) ↔ m.Readable a.toNat n := by
  cases h with
  | region hnext => simp only [Option.some.injEq, exists_eq_left', hnext.covers_iff hn]
  | nothing hnone =>
    simp only [reduceCtorEq, false_and, exists_false, false_iff]
    intro hr
    have hsome := hr 0 hn
    rw [Nat.add_zero, hnone _ (Nat.le_refl _)] at hsome
    cases hsome

end Memory

namespace SegmentedProcess

variable {p : SegmentedProcess} {a : Address} {n : Nat}

/-- Each of the bytes, which begin at `a`, is what a readable segment has at its address. -/
def Supplies (p : SegmentedProcess) (a : Address) (bytes : List UInt8) : Prop :=
  ∀ i b, bytes[i]? = some b → ∃ s ∈ p.segments, s.readable ∧ s.start.toNat ≤ a.toNat + i ∧
    s.data[a.toNat + i - s.start.toNat]? = some b

theorem supplies_of_holds {bytes : List UInt8} (h : p.memory.Holds a.toNat bytes) :
    p.Supplies a bytes := by
  intro i b hb
  obtain ⟨hi, -⟩ := List.getElem?_eq_some_iff.1 hb
  obtain ⟨s, hs, hbyte⟩ := List.exists_of_findSome?_eq_some ((h i hi).trans hb)
  unfold Segment.byte? at hbyte
  split at hbyte
  · rename_i hat
    exact ⟨s, hs, hat.1, hat.2, hbyte⟩
  · cases hbyte

theorem fill_isOk_iff (hp : p.Fits) : (p.fill a n).isOk ↔ p.memory.Readable a.toNat n := by
  constructor
  · intro hok
    have hgives := fill_gives hp a n
    rcases hfill : p.fill a n with ⟨result, soft⟩
    rw [hfill] at hok hgives
    cases hgives with
    | @bytes bytes hholds => exact bytes.property ▸ hholds.readable
    | failed reason => cases hok
  · intro hr
    obtain ⟨bytes, hg⟩ := gather_ok hp hr
    rw [fill, hg]
    rfl

/-- Without faults, reads succeed just where the region looked up at their address holds all that is
asked for, their bytes are those of the segments, and their errors name what was asked. -/
theorem read_agrees (hp : p.Fits) (choose : Nat → Nat) (a : Address) (hn : 0 < n) {w : Wear}
    (hw : w.faults = []) :
    let t := p.targetChoosing choose
    let read := (t.read a n w).1
    (read.isOk ↔ ∃ r, (t.lookup a w).1.result = .ok (some r) ∧ r.Covers a n) ∧
      (∀ bytes, read.result = .ok bytes → p.Supplies a bytes.val) ∧
      ∀ error, read.result = .error error → ∃ reason, error = .readFailed a n reason := by
  intro t read
  have hread : read = p.fill a n := by
    simp only [read, t, targetChoosing, SegmentedProcess.read, hw, List.filter_nil,
      List.isEmpty_nil, if_true]
  have hgives := fill_gives hp a n
  rw [← hread] at hgives
  refine ⟨?_, fun bytes hbytes => ?_, fun error herror => ?_⟩
  · have hfound : p.memory.Found a (t.lookup a w).1.result := lookup_found hp a
    rw [hread, fill_isOk_iff hp]
    cases hresult : (t.lookup a w).1.result with
    | error error =>
      rw [hresult] at hfound
      cases hfound
    | ok found =>
      rw [hresult] at hfound
      rw [← hfound.covers_iff hn]
      simp only [Except.ok.injEq]
  · rw [hbytes] at hgives
    cases hgives with
    | bytes hholds => exact supplies_of_holds hholds
  · rw [herror] at hgives
    cases hgives with
    | failed reason => exact ⟨reason, rfl⟩

/-- Four bytes that lie in two segments. -/
theorem read_agrees_touching :
    let t := touching.targetChoosing fun _ => 0
    touching.Fits ∧ 0 < 4 ∧ (t.lookup 0x11 {}).1.result = .ok (some ⟨0x10, 5⟩) ∧
      (⟨0x10, 5⟩ : Region).Covers 0x11 4 ∧
      ∃ bytes, (t.read 0x11 4 {}).1.result = .ok bytes ∧ touching.Supplies 0x11 bytes.val := by
  intro t
  have hp : touching.Fits := by decide
  have hlookup : (t.lookup 0x11 {}).1.result = .ok (some ⟨0x10, 5⟩) := rfl
  have hcovers : (⟨0x10, 5⟩ : Region).Covers 0x11 4 := by decide
  obtain ⟨hiff, hbytes, -⟩ :=
    read_agrees hp (fun _ => 0) 0x11 (n := 4) (by decide) (w := {}) rfl
  have hok := hiff.2 ⟨_, hlookup, hcovers⟩
  refine ⟨hp, by decide, hlookup, hcovers, ?_⟩
  cases hresult : (t.read 0x11 4 {}).1.result with
  | ok bytes => exact ⟨bytes, rfl, hbytes bytes hresult⟩
  | error error =>
    rw [Outcome.isOk, hresult] at hok
    cases hok

end SegmentedProcess
end ProcessMemory
