import Mathlib.Algebra.Group.Nat.Defs
import Mathlib.Data.List.TakeWhile
import Mathlib.Data.Nat.Find
import ProcessMemory.Proofs.Windows.Blocks
import ProcessMemory.Windows.Listing

/-!
# Whole paths

A path is asked for with buffers that double from call to call. The first buffer that is not full
holds all of it. One that is full may have cut it, unless it has room for the longest path there is,
which the eighth one has.
-/
namespace ProcessMemory.Windows

variable {σ : Type}

/-! ## The calls for a path -/

section
variable (fill : Nat → σ → List Nat × σ) (size : Nat) (s : σ)

/-- The state before one of the calls, each with twice the buffer of the one before. -/
def stateBefore : (call : Nat) → σ
  | 0 => s
  | call + 1 => (fill (size * 2 ^ call) (stateBefore call)).2

def unitsOf (call : Nat) : List Nat := (fill (size * 2 ^ call) (stateBefore fill size s call)).1

/-- A call leaves room in its buffer, or its buffer is as large as it need be. -/
def IsLast (call : Nat) : Prop :=
  (unitsOf fill size s call).length < size * 2 ^ call ∨ Api.longestPath ≤ size * 2 ^ call

def ComesTo (call : Nat) : Prop := ∀ earlier < call, ¬IsLast fill size s earlier

end

/-- The calls write as much of a path as their buffers hold. -/
def Copies (fill : Nat → σ → List Nat × σ) (path : List Nat) : Prop :=
  ∀ (size : Nat) (s : σ), (fill size s).1 = path.take size

theorem Machine.copies_image (m : Machine) (path : List Nat) (h : m.image = some (.units path)) :
    Copies m.api.imagePath path := by
  intro size s
  simp [api, copyPath, h]

/-- A path that holds no zero is kept whole. -/
theorem WidePath.ofUnits_of_nonzero {units : List Nat} (h : ∀ u ∈ units, u ≠ 0) :
    ofUnits units = ⟨units⟩ := by
  rw [ofUnits, List.takeWhile_eq_self_iff.2 fun u hu => bne_iff_ne.2 (h u hu)]

def notingCalls (fill : Nat → σ → List Nat × σ) (note : Nat → Call) (size : Nat)
    (s : σ × List Call) : List Nat × σ × List Call :=
  ((fill size s.1).1, (fill size s.1).2, s.2 ++ [note size])

variable {fill : Nat → σ → List Nat × σ} {size call : Nat} {s : σ}

/-- A call that writes nothing leaves room. -/
theorem isLast_of_nothing (hsize : 0 < size) (h : unitsOf fill size s call = []) :
    IsLast fill size s call := by
  left
  rw [h]
  exact Nat.mul_pos hsize (Nat.two_pow_pos call)

/-- A last call comes at the latest when the buffer has room for the longest path. -/
theorem exists_last {most : Nat} (h : Api.longestPath ≤ size * 2 ^ most) :
    ∃ call ≤ most, ComesTo fill size s call ∧ IsLast fill size s call := by
  classical
  have hlast : IsLast fill size s most := .inr h
  have hexists : ∃ call, IsLast fill size s call := ⟨most, hlast⟩
  exact ⟨Nat.find hexists, Nat.find_min' hexists hlast, fun _ hlt => Nat.find_min hexists hlt,
    Nat.find_spec hexists⟩

theorem stateBefore_noting (note : Nat → Call) (log : List Call) (call : Nat) :
    stateBefore (notingCalls fill note) size (s, log) call =
      (stateBefore fill size s call,
        log ++ (List.range call).map fun i => note (size * 2 ^ i)) := by
  induction call with
  | zero => simp [stateBefore]
  | succ call ih => simp [stateBefore, notingCalls, ih, List.range_succ]

theorem unitsOf_noting (note : Nat → Call) (log : List Call) (call : Nat) :
    unitsOf (notingCalls fill note) size (s, log) call = unitsOf fill size s call := by
  simp [unitsOf, stateBefore_noting, notingCalls]

theorem isLast_noting (note : Nat → Call) (log : List Call) (call : Nat) :
    IsLast (notingCalls fill note) size (s, log) call ↔ IsLast fill size s call := by
  simp [IsLast, unitsOf_noting]

namespace Api

variable {api : Api σ} {context : String}

/-! ## What the calls lead to -/

theorem growPath_next (hsize : 0 < size) (hfull : size ≤ (fill size s).1.length)
    (hshort : size < longestPath) :
    api.growPath context fill size s = api.growPath context fill (size * 2) (fill size s).2 := by
  rw [growPath]
  split
  · simp_all
  · rename_i units s' _ hfill
    rw [hfill] at hfull ⊢
    have hgrows : ¬(units.length < size ∨ longestPath ≤ size ∨ size = 0) := by
      dsimp only at hfull
      omega
    rw [if_neg hgrows]

theorem growPath_last (hlast : (fill size s).1.length < size ∨ longestPath ≤ size) :
    api.growPath context fill size s =
      (if (fill size s).1 = [] then .error (api.failure context (fill size s).2)
        else .ok (.ofUnits (fill size s).1), (fill size s).2) := by
  rw [growPath]
  split
  · rename_i hfill
    simp [hfill]
  · rename_i units s' hne hfill
    rw [hfill] at hlast ⊢
    have hne : units ≠ [] := fun h => hne (h ▸ rfl)
    rw [if_pos (hlast.imp_right .inl), if_neg hne]

theorem growPath_comesTo (hsize : 0 < size) (h : ComesTo fill size s call) :
    api.growPath context fill size s =
      api.growPath context fill (size * 2 ^ call) (stateBefore fill size s call) := by
  induction call with
  | zero => simp [stateBefore]
  | succ call ih =>
    have hnot := not_or.1 (h call (Nat.lt_succ_self call))
    rw [ih fun earlier hlt => h earlier (Nat.lt_succ_of_lt hlt),
      growPath_next (Nat.mul_pos hsize (Nat.two_pow_pos call)) (Nat.le_of_not_lt hnot.1)
        (Nat.lt_of_not_le hnot.2), Nat.mul_assoc, ← Nat.pow_succ]
    rfl

/-- The last of the calls decides. -/
theorem growPath_eq (hsize : 0 < size) (h : ComesTo fill size s call)
    (hlast : IsLast fill size s call) (api : Api σ) (context : String) :
    api.growPath context fill size s =
      (if unitsOf fill size s call = [] then
          .error (api.failure context (stateBefore fill size s (call + 1)))
        else .ok (.ofUnits (unitsOf fill size s call)), stateBefore fill size s (call + 1)) := by
  rw [growPath_comesTo hsize h, growPath_last hlast]
  rfl

/-- Noting the calls has no influence. -/
theorem growPath_noting (hsize : 0 < size) (h : ComesTo fill size s call)
    (hlast : IsLast fill size s call) (note : Nat → Call) :
    api.recorded.growPath context (notingCalls fill note) size (s, []) =
      ((api.growPath context fill size s).1, (api.growPath context fill size s).2,
        (List.range (call + 1)).map fun i => note (size * 2 ^ i)) := by
  have h' : ComesTo (notingCalls fill note) size (s, []) call := fun earlier hlt hnoted =>
    h earlier hlt ((isLast_noting note [] earlier).1 hnoted)
  rw [growPath_eq hsize h hlast, growPath_eq hsize h' ((isLast_noting note [] call).2 hlast),
    unitsOf_noting, stateBefore_noting, List.nil_append]
  rfl

/-- Asking for a path makes at most eight calls, and one of them that writes nothing is an error.
A path of fewer units than the longest one has is given whole, whether or not it fills a buffer on
the way. -/
theorem path_whole (api : Api σ) (context : String) (fill : Nat → σ → List Nat × σ) (s : σ) :
    (∃ last ≤ 7,
      (∀ note : Nat → Call,
        api.recorded.growPath context (notingCalls fill note) 260 (s, []) =
          ((api.growPath context fill 260 s).1, (api.growPath context fill 260 s).2,
            (List.range (last + 1)).map fun i => note (260 * 2 ^ i))) ∧
      ∀ call ≤ last, unitsOf fill 260 s call = [] →
        (api.growPath context fill 260 s).1 =
          .error (api.failure context (stateBefore fill 260 s (call + 1)))) ∧
    ∀ path, Copies fill path → path ≠ [] → path.length < longestPath → (∀ u ∈ path, u ≠ 0) →
      (api.growPath context fill 260 s).1 = .ok ⟨path⟩ := by
  have hroom : longestPath ≤ 260 * 2 ^ 7 := by decide
  obtain ⟨last, hle, hcomes, hlast⟩ :
      ∃ last ≤ 7, ComesTo fill 260 s last ∧ IsLast fill 260 s last :=
    exists_last hroom
  have heq := growPath_eq (by decide) hcomes hlast api context
  constructor
  · refine ⟨last, hle, fun note => growPath_noting (by decide) hcomes hlast note, ?_⟩
    intro call hcall hnone
    rcases Nat.lt_or_eq_of_le hcall with hlt | rfl
    · have hfull : ¬IsLast fill 260 s call := hcomes call hlt
      exact absurd (isLast_of_nothing (by decide) hnone) hfull
    · rw [heq, if_pos hnone]
  · intro path hcopies hne hlength hunits
    have htake : unitsOf fill 260 s last = path.take (260 * 2 ^ last) := hcopies _ _
    have hroom : path.length ≤ 260 * 2 ^ last := by
      rcases hlast with hshort | hlongest
      · rw [htake, List.length_take] at hshort
        omega
      · omega
    rw [List.take_of_length_le hroom] at htake
    rw [heq, htake, if_neg hne, WidePath.ofUnits_of_nonzero hunits]

/-- A path that fills the second buffer and begins with half of a character, and a system that fails
once the first buffer is full. -/
theorem path_whole_filled :
    let path := 0xD83D :: List.replicate 519 0x43
    let m : Machine := { image := some (.units path) }
    let fails : Nat → Bool → List Nat × Bool := fun size first =>
      if first then (List.replicate size 0x43, false) else ([], false)
    Copies m.api.imagePath path ∧ path ≠ [] ∧ path.length < longestPath ∧
      (∀ u ∈ path, u ≠ 0) ∧
      (m.api.imageFile {}).1 = .ok ⟨path⟩ ∧
      unitsOf fails 260 true 1 = [] ∧
      ∀ api : Api Bool, (api.growPath "image" fails 260 true).1 =
        .error (api.failure "image" false) := by
  intro path m fails
  have hcopies : Copies m.api.imagePath path := m.copies_image path rfl
  have hlength : path.length < longestPath := by
    simp only [path, List.length_cons, List.length_replicate]
    decide
  have hunits : ∀ u ∈ path, u ≠ 0 := by
    intro u hu
    rcases List.mem_cons.1 hu with rfl | hu
    · decide
    · cases List.eq_of_mem_replicate hu
      decide
  obtain ⟨-, hwhole⟩ := path_whole m.api "GetProcessImageFileNameW" m.api.imagePath {}
  refine ⟨hcopies, List.cons_ne_nil _ _, hlength, hunits,
    hwhole path hcopies (List.cons_ne_nil _ _) hlength hunits, rfl, fun api => ?_⟩
  obtain ⟨⟨last, -, hcalls, hfails⟩, -⟩ := path_whole api "image" fails true
  have hfull : 260 ≤ (notingCalls fails Call.imagePath 260 (true, [])).1.length := by
    simp only [notingCalls, fails, if_true, List.length_replicate]
    decide
  have hlog := hcalls Call.imagePath
  rw [growPath_next (by decide) hfull (by decide), growPath_last (.inl (by decide))] at hlog
  have hlast := congrArg (fun answer => answer.2.2.length) hlog
  rw [List.length_map, List.length_range] at hlast
  exact hfails 1 (Nat.le_of_succ_le_succ (Nat.le_of_eq hlast)) rfl

end Api
end ProcessMemory.Windows
