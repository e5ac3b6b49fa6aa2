import ProcessMemory.Proofs.Segmented

/-!
# Layouts

Which segments a process can be built of: those of which none is empty and no two map one address.
The order in which they are given has no influence, since segments that lie apart can be put into
ascending order in one way only.
-/
namespace ProcessMemory

namespace Segment

variable {s t : Segment} {segments : List Segment}

def Fits (s : Segment) : Prop := s.start.toNat + s.data.length ≤ 0xFFFF_FFFF_FFFF_FFFF

instance (s : Segment) : Decidable s.Fits := inferInstanceAs (Decidable (_ ≤ _))

/-- The address is one of the segment's, which may be readable or not. -/
def Maps (s : Segment) (n : Nat) : Prop :=
  s.start.toNat ≤ n ∧ n < s.start.toNat + s.data.length

def Disjoint (s t : Segment) : Prop := ∀ n, ¬(s.Maps n ∧ t.Maps n)

theorem Disjoint.symm (h : s.Disjoint t) : t.Disjoint s := fun n hn => h n hn.symm

/-- Of two disjoint segments the lower one stops before the other one starts. -/
theorem Disjoint.stop_le (h : s.Disjoint t) (hs : s.Fits) (ht : t.data ≠ [])
    (hle : s.start ≤ t.start) : s.stop ≤ t.start := by
  have hpos := List.length_pos_iff.2 ht
  rw [Address.le_def, toNat_stop hs]
  refine Nat.le_of_not_lt fun hlt => ?_
  exact h t.start.toNat ⟨⟨hle, hlt⟩, Nat.le_refl _, by omega⟩

theorem disjoint_of_stop_le (hs : s.Fits) (h : s.stop ≤ t.start) : s.Disjoint t := by
  rw [Address.le_def, toNat_stop hs] at h
  rintro n ⟨⟨-, hlt⟩, hle, -⟩
  omega

/-- Looking at neighbours is enough: where no two of them overlap, no two segments do. -/
theorem overlap?_eq_none :
    overlap? segments = none ↔ segments.Pairwise fun a b => a.stop ≤ b.start := by
  refine ⟨pairwise_of_overlap?, fun h => ?_⟩
  induction segments with
  | nil => rfl
  | cons a rest ih =>
    cases rest with
    | nil => rfl
    | cons b rest =>
      have hab : a.stop ≤ b.start := (List.pairwise_cons.1 h).1 b List.mem_cons_self
      have hnot : ¬b.start < a.stop := Nat.not_lt_of_le hab
      rw [overlap?, if_neg hnot]
      exact ih (List.pairwise_cons.1 h).2

def ascending (segments : List Segment) : List Segment :=
  segments.mergeSort fun a b => decide (a.start ≤ b.start)

theorem ascending_perm (segments : List Segment) : (ascending segments).Perm segments :=
  List.mergeSort_perm _ _

theorem ascending_pairwise (segments : List Segment) :
    (ascending segments).Pairwise fun a b => a.start ≤ b.start := by
  have htrans : ∀ a b c : Segment, decide (a.start ≤ b.start) → decide (b.start ≤ c.start) →
      decide (a.start ≤ c.start) := by
    intro a b c hab hbc
    rw [decide_eq_true_eq, Address.le_def] at *
    exact Nat.le_trans hab hbc
  have htotal : ∀ a b : Segment, decide (a.start ≤ b.start) || decide (b.start ≤ a.start) := by
    intro a b
    rw [Bool.or_eq_true, decide_eq_true_eq, decide_eq_true_eq]
    exact Nat.le_total _ _
  exact (List.pairwise_mergeSort htrans htotal segments).imp of_decide_eq_true

/-- In ascending order, disjoint segments lie one above the other. -/
theorem ascending_apart (hfits : ∀ s ∈ segments, s.Fits) (hne : ∀ s ∈ segments, s.data ≠ [])
    (hdisjoint : segments.Pairwise Disjoint) :
    (ascending segments).Pairwise fun a b => a.stop ≤ b.start := by
  have hmem {s : Segment} (hs : s ∈ ascending segments) : s ∈ segments :=
    (ascending_perm segments).mem_iff.1 hs
  have hapart := ((ascending_perm segments).pairwise_iff Disjoint.symm).2 hdisjoint
  refine (hapart.and (ascending_pairwise segments)).imp_of_mem fun ha hb hab => ?_
  exact hab.1.stop_le (hfits _ (hmem ha)) (hne _ (hmem hb)) hab.2

theorem disjoint_of_apart (hfits : ∀ s ∈ segments, s.Fits)
    (hapart : segments.Pairwise fun a b => a.stop ≤ b.start) : segments.Pairwise Disjoint :=
  hapart.imp_of_mem fun ha _ hab => disjoint_of_stop_le (hfits _ ha) hab

/-- There is only one way to put segments one above the other. -/
theorem ascending_eq {sorted : List Segment} (hfits : ∀ s ∈ segments, s.Fits)
    (hne : ∀ s ∈ sorted, s.data ≠ []) (hapart : sorted.Pairwise fun a b => a.stop ≤ b.start)
    (hperm : sorted.Perm segments) : ascending segments = sorted := by
  have hmem {s : Segment} (hs : s ∈ segments) : s ∈ sorted := hperm.mem_iff.2 hs
  have hfits' : ∀ s ∈ sorted, s.Fits := fun s hs => hfits s (hperm.mem_iff.1 hs)
  have hdisjoint := (hperm.pairwise_iff Disjoint.symm).1 (disjoint_of_apart hfits' hapart)
  have hascending := ascending_apart hfits (fun s hs => hne s (hmem hs)) hdisjoint
  refine List.Perm.eq_of_pairwise ?_ hascending hapart ((ascending_perm segments).trans hperm.symm)
  -- Of two segments each cannot stop before the other one starts.
  intro a b ha hb hab hba
  have hpos := List.length_pos_iff.2 (hne b hb)
  have hstop := a.start_le_stop
  rw [Address.le_def] at hab hba hstop
  rw [toNat_stop (hfits' b hb)] at hba
  omega

end Segment

namespace SegmentedProcess

variable {pid : ProcessId} {segments : List Segment} {p : SegmentedProcess}

/-- What is built is the process with the segments given. -/
theorem build_eq_ok (hfits : ∀ s ∈ segments, s.Fits) :
    build pid segments = .ok p ↔ p.pid = pid ∧ p.segments.Perm segments := by
  constructor
  · intro h
    unfold build at h
    dsimp only at h
    split at h
    · cases h
    · split at h
      · cases h
      · cases h
        exact ⟨rfl, Segment.ascending_perm segments⟩
  · rcases p with ⟨_, sorted, hne, hapart⟩
    rintro ⟨rfl, hperm⟩
    have hsorted := Segment.ascending_eq hfits hne hapart hperm
    unfold Segment.ascending at hsorted
    subst hsorted
    unfold build
    dsimp only
    split
    · rename_i s hs
      have hempty : s.data.isEmpty := by simpa using List.find?_some hs
      exact absurd (List.isEmpty_iff.1 hempty) (hne s (List.mem_of_find?_eq_some hs))
    · split
      · rename_i hs
        rw [Segment.overlap?_eq_none.2 hapart] at hs
        cases hs
      · rfl

theorem exists_build (hfits : ∀ s ∈ segments, s.Fits) (pid : ProcessId) :
    (∃ p, build pid segments = .ok p) ↔
      (∀ s ∈ segments, s.data ≠ []) ∧ segments.Pairwise Segment.Disjoint := by
  simp only [build_eq_ok hfits]
  constructor
  · rintro ⟨p, -, hperm⟩
    have hfits' : ∀ s ∈ p.segments, s.Fits := fun s hs => hfits s (hperm.mem_iff.1 hs)
    refine ⟨fun s hs => p.nonempty s (hperm.mem_iff.2 hs), ?_⟩
    exact (hperm.pairwise_iff Segment.Disjoint.symm).1
      (Segment.disjoint_of_apart hfits' p.ordered)
  · rintro ⟨hne, hdisjoint⟩
    have hperm := Segment.ascending_perm segments
    have hne' : ∀ s ∈ Segment.ascending segments, s.data ≠ [] :=
      fun s hs => hne s (hperm.mem_iff.1 hs)
    exact ⟨⟨pid, _, hne', Segment.ascending_apart hfits hne hdisjoint⟩, rfl, hperm⟩

/-- A process can be built of segments just where none is empty and no two map one address. It has
the segments given, and answers as one that is built of them in any other order. -/
theorem build_layouts (hfits : ∀ s ∈ segments, s.Fits) (pid : ProcessId) :
    ((∃ p, build pid segments = .ok p) ↔
      (∀ s ∈ segments, s.data ≠ []) ∧ segments.Pairwise Segment.Disjoint) ∧
    ∀ p, build pid segments = .ok p → p.segments.Perm segments ∧
      ∀ reordered : List Segment, reordered.Perm segments →
        ∃ q, build pid reordered = .ok q ∧ (∀ a, q.lookup a = p.lookup a) ∧
          ∀ choose a n w, q.read choose a n w = p.read choose a n w := by
  refine ⟨exists_build hfits pid, fun p hp => ?_⟩
  obtain ⟨hpid, hperm⟩ := (build_eq_ok hfits).1 hp
  refine ⟨hperm, fun reordered hreordered => ?_⟩
  have hfits' : ∀ s ∈ reordered, s.Fits := fun s hs => hfits s (hreordered.mem_iff.1 hs)
  have hsame : build pid reordered = .ok p :=
    (build_eq_ok hfits').2 ⟨hpid, hperm.trans hreordered.symm⟩
  exact ⟨p, hsame, fun _ => rfl, fun _ _ _ _ => rfl⟩

/-- Three segments that touch, the middle one hidden, given in two orders. -/
theorem build_layouts_touching :
    let low : Segment := ⟨0x10, [1, 2, 3], true⟩
    let middle : Segment := .hidden 0x13 2
    let high : Segment := ⟨0x15, [4, 5], true⟩
    (∀ s ∈ [high, low, middle], s.Fits) ∧ [middle, high, low].Perm [high, low, middle] ∧
      ∃ p q, build 1 [high, low, middle] = .ok p ∧ build 1 [middle, high, low] = .ok q ∧
        (∀ a, q.lookup a = p.lookup a) ∧
        ∀ choose a n w, q.read choose a n w = p.read choose a n w := by
  intro low middle high
  have hfits : ∀ s ∈ [high, low, middle], s.Fits := by decide
  have hperm : [middle, high, low].Perm [high, low, middle] := by decide
  obtain ⟨hbuilds, hsame⟩ := build_layouts hfits 1
  have hapart : [low, middle, high].Pairwise fun a b => a.stop ≤ b.start := by decide
  have hsorted : [low, middle, high].Perm [high, low, middle] := by decide
  have hdisjoint : [high, low, middle].Pairwise Segment.Disjoint :=
    (hsorted.pairwise_iff Segment.Disjoint.symm).1
      (Segment.disjoint_of_apart (by decide) hapart)
  obtain ⟨p, hp⟩ := hbuilds.2 ⟨by decide, hdisjoint⟩
  obtain ⟨-, hreordered⟩ := hsame p hp
  obtain ⟨q, hq, hlookup, hread⟩ := hreordered _ hperm
  exact ⟨hfits, hperm, p, q, hp, hq, hlookup, hread⟩

end SegmentedProcess
end ProcessMemory
