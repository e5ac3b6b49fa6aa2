import ProcessMemory.Proofs.Segmented
import ProcessMemory.Walk.Walker

/-!
# Faults and reads

What a table of faults does to the reads of a span depends only on how many of them it can still
make fail (`weight`). Which of the pending faults strikes makes no difference: each failure takes
one off the weight of the span that was read, and nothing off any span beside it.
-/
namespace ProcessMemory
namespace Fault

/-- How many reads the fault can still make fail. For one that never wears out it is more than a
walk has attempts. -/
def count (f : Fault) : Nat :=
  match f.times with
  | .times n => n
  | .always => maxRetries + 1

/-- What the fault can do to reads of the addresses from `lo` up to `hi`. -/
def within (lo hi : Nat) (f : Fault) : Nat :=
  if lo ≤ f.address.toNat ∧ f.address.toNat < hi then f.count else 0

def weight (lo hi : Nat) : List Fault → Nat
  | [] => 0
  | f :: rest => f.within lo hi + weight lo hi rest

def failing (r lo hi : Nat) (faults : List Fault) : Nat := min (r + 1) (weight lo hi faults)

/-- The second table is the first but for faults between `lo` and `hi`. -/
def SameBeside (lo hi : Nat) (faults faults' : List Fault) : Prop :=
  ∀ a b, b ≤ lo ∨ hi ≤ a → weight a b faults' = weight a b faults

def SameBetween (lo hi : Nat) (faults faults' : List Fault) : Prop :=
  ∀ a b, lo ≤ a → b ≤ hi → weight a b faults' = weight a b faults

inductive Strikes (lo hi : Nat) : List Fault → List Fault → Prop where
  | intro (before : List Fault) (f : Fault) (rest : List Fault) (hpos : 0 < f.count)
    (hlo : lo ≤ f.address.toNat) (hhi : f.address.toNat < hi) :
    Strikes lo hi (before ++ f :: rest) (before ++ f.struck :: rest)

section
variable {lo mid hi lo' hi' r : Nat} {f : Fault} {faults faults' : List Fault}
  {start stop : Address}

@[simp] theorem weight_nil : weight lo hi [] = 0 := rfl

@[simp] theorem weight_cons (f : Fault) (faults : List Fault) :
    weight lo hi (f :: faults) = f.within lo hi + weight lo hi faults := rfl

@[simp] theorem weight_append (faults rest : List Fault) :
    weight lo hi (faults ++ rest) = weight lo hi faults + weight lo hi rest := by
  induction faults with
  | nil => exact (Nat.zero_add _).symm
  | cons f faults ih => rw [List.cons_append, weight_cons, ih, weight_cons, Nat.add_assoc]

theorem within_eq_count (hlo : lo ≤ f.address.toNat) (hhi : f.address.toNat < hi) :
    f.within lo hi = f.count := if_pos ⟨hlo, hhi⟩

theorem within_mono (hlo : lo' ≤ lo) (hhi : hi ≤ hi') (f : Fault) :
    f.within lo hi ≤ f.within lo' hi' := by
  unfold within
  split
  · exact Nat.le_of_eq (if_pos (by omega)).symm
  · exact Nat.zero_le _

theorem within_le_add (lo mid hi : Nat) (f : Fault) :
    f.within lo hi ≤ f.within lo mid + f.within mid hi := by
  unfold within
  split <;> split <;> split <;> omega

theorem weight_self (lo : Nat) (faults : List Fault) : weight lo lo faults = 0 := by
  induction faults with
  | nil => rfl
  | cons f rest ih =>
    have hf : f.within lo lo = 0 := if_neg (by omega)
    rw [weight_cons, hf, ih]

theorem weight_mono (hlo : lo' ≤ lo) (hhi : hi ≤ hi') (faults : List Fault) :
    weight lo hi faults ≤ weight lo' hi' faults := by
  induction faults with
  | nil => exact Nat.le_refl _
  | cons f rest ih => exact Nat.add_le_add (within_mono hlo hhi f) ih

theorem weight_le_add (lo mid hi : Nat) (faults : List Fault) :
    weight lo hi faults ≤ weight lo mid faults + weight mid hi faults := by
  induction faults with
  | nil => exact Nat.zero_le _
  | cons f rest ih =>
    have hf := within_le_add lo mid hi f
    simp only [weight_cons]
    omega

/-- The order of a table does not matter. -/
theorem weight_perm (h : faults'.Perm faults) (lo hi : Nat) :
    weight lo hi faults' = weight lo hi faults := by
  induction h with
  | nil => rfl
  | cons f _ ih => rw [weight_cons, ih, weight_cons]
  | swap f f' rest => simp only [weight_cons, Nat.add_left_comm]
  | trans _ _ ih ih' => exact ih.trans ih'

/-- Addresses without pending faults add nothing. -/
theorem weight_of_clear (h : weight lo mid faults = 0) {a b : Nat} (ha : lo ≤ a) :
    weight a b faults = weight (max a mid) b faults := by
  refine Nat.le_antisymm ?_ (weight_mono (Nat.le_max_left a mid) (Nat.le_refl b) faults)
  have hadd := weight_le_add a (max a mid) b faults
  have hzero : weight a (max a mid) faults = 0 := by
    rcases Nat.le_total mid a with hle | hle
    · rw [Nat.max_eq_left hle, weight_self]
    · have hmono := weight_mono ha (Nat.le_refl mid) faults
      rw [Nat.max_eq_right hle]
      omega
  omega

theorem times_ne_iff : f.times ≠ .times 0 ↔ 0 < f.count := by
  unfold count
  cases f.times with
  | times n => simp only [ne_eq, Times.times.injEq, Nat.pos_iff_ne_zero]
  | always => simp [maxRetries]

theorem pending_iff : f.pending start stop ↔ 0 < f.within start.toNat stop.toNat := by
  simp only [pending, Bool.and_eq_true, decide_eq_true_eq, times_ne_iff, Address.le_def,
    Address.lt_def, within]
  split
  · rename_i h
    simp only [h, and_true]
  · rename_i h
    simp only [Nat.lt_irrefl, iff_false]
    exact fun hp => h ⟨hp.1.2, hp.2⟩

theorem weight_eq_zero_iff :
    weight start.toNat stop.toNat faults = 0 ↔ faults.filter (·.pending start stop) = [] := by
  induction faults with
  | nil => simp only [weight_nil, List.filter_nil]
  | cons f rest ih =>
    by_cases hf : f.pending start stop
    · have hpos := pending_iff.1 hf
      simp only [weight_cons, List.filter_cons_of_pos hf, reduceCtorEq, iff_false]
      omega
    · have hzero : ¬0 < f.within start.toNat stop.toNat := fun hpos => hf (pending_iff.2 hpos)
      rw [List.filter_cons_of_neg hf, ← ih, weight_cons]
      omega

/-- A fault loses one with each strike, unless it never wears out. -/
theorem count_struck (hpos : 0 < f.count) :
    f.struck.count + 1 = f.count ∨ f.struck.count = f.count ∧ f.count = maxRetries + 1 := by
  unfold count at hpos
  cases ht : f.times with
  | times n =>
    simp only [ht] at hpos
    simp only [count, struck, ht]
    omega
  | always => simp only [count, struck, ht, and_self, or_true]

theorem address_struck (f : Fault) : f.struck.address = f.address := by
  unfold struck
  split <;> rfl

theorem strikes_strike {k : Nat} (h : k < (faults.filter (·.pending start stop)).length) :
    Strikes start.toNat stop.toNat faults (strike start stop k faults) := by
  induction faults generalizing k with
  | nil => exact absurd h (Nat.not_lt_zero k)
  | cons f rest ih =>
    have hskip {k : Nat} (h : k < (rest.filter (·.pending start stop)).length) :
        Strikes start.toNat stop.toNat (f :: rest) (f :: strike start stop k rest) := by
      generalize strike start stop k rest = faults', ih h = hs
      cases hs with
      | intro before g after hpos hlo hhi => exact .intro (f :: before) g after hpos hlo hhi
    by_cases hf : f.pending start stop
    · rw [List.filter_cons_of_pos hf, List.length_cons] at h
      cases k with
      | zero =>
        rw [strike, if_pos hf]
        have hin := pending_iff.1 hf
        unfold within at hin
        split at hin
        · rename_i hspan
          exact .intro [] f rest hin hspan.1 hspan.2
        · exact absurd hin (Nat.lt_irrefl 0)
      | succ k =>
        rw [strike, if_pos hf]
        exact hskip (Nat.lt_of_succ_lt_succ h)
    · rw [List.filter_cons_of_neg hf] at h
      cases k with
      | zero =>
        rw [strike, if_neg hf]
        exact hskip h
      | succ k =>
        rw [strike, if_neg hf]
        exact hskip h

theorem SameBeside.refl (lo hi : Nat) (faults : List Fault) : SameBeside lo hi faults faults :=
  fun _ _ _ => rfl

theorem SameBeside.mono (h : SameBeside lo hi faults faults') (hlo : lo' ≤ lo) (hhi : hi ≤ hi') :
    SameBeside lo' hi' faults faults' := fun a b hab => h a b (by omega)

/-- What differs only beside a span is the same within it. -/
theorem SameBeside.between (h : SameBeside lo hi faults faults') (hs : hi' ≤ lo ∨ hi ≤ lo') :
    SameBetween lo' hi' faults faults' := fun a b _ _ => h a b (by omega)

theorem SameBetween.mono (h : SameBetween lo hi faults faults') (hlo : lo ≤ lo')
    (hhi : hi' ≤ hi) : SameBetween lo' hi' faults faults' :=
  fun a b ha hb => h a b (Nat.le_trans hlo ha) (Nat.le_trans hb hhi)

/-- Where neither table has pending faults below `mid`, they are the same from further down. -/
theorem SameBetween.of_clear (h : SameBetween mid hi faults faults')
    (hclear : weight lo mid faults = 0) (hclear' : weight lo mid faults' = 0) :
    SameBetween lo hi faults faults' := by
  intro a b ha hb
  rw [weight_of_clear hclear ha, weight_of_clear hclear' ha]
  exact h _ b (Nat.le_max_right a mid) hb

namespace Strikes

/-- A strike leaves the spans beside it as they are. -/
theorem beside (h : Strikes lo hi faults faults') : SameBeside lo hi faults faults' := by
  intro lo' hi' hs
  cases h with
  | intro before f rest hpos hlo hhi =>
    have hf : f.within lo' hi' = 0 := if_neg (by omega)
    have hf' : f.struck.within lo' hi' = 0 := if_neg (by rw [address_struck]; omega)
    simp only [weight_append, weight_cons, hf, hf']

theorem weight_le (h : Strikes lo hi faults faults') (lo' hi' : Nat) :
    weight lo' hi' faults' ≤ weight lo' hi' faults := by
  cases h with
  | intro before f rest hpos hlo hhi =>
    have hf : f.struck.within lo' hi' ≤ f.within lo' hi' := by
      have hcount := count_struck hpos
      unfold within
      rw [address_struck]
      split <;> omega
    simp only [weight_append, weight_cons]
    omega

/-- A strike spares the walk one failure, as far as its attempts go. Faults below `mid` have no part
in it. -/
theorem failing (h : Strikes lo hi faults faults') (hlow : weight lo mid faults = 0)
    (hr : r < maxRetries) :
    Fault.failing r mid hi faults' + 1 = Fault.failing (r + 1) mid hi faults := by
  cases h with
  | intro before f rest hpos hlo hhi =>
    have hmid : mid ≤ f.address.toNat := Nat.le_of_not_lt fun hlt => by
      have hf := within_eq_count hlo hlt
      simp only [weight_append, weight_cons] at hlow
      omega
    have hf := within_eq_count hmid hhi
    have hf' : f.struck.within mid hi = f.struck.count :=
      within_eq_count (by rwa [address_struck]) (by rwa [address_struck])
    have hcount := count_struck hpos
    simp only [Fault.failing, weight_append, weight_cons, hf, hf']
    omega

/-- Where the faults outlast `r + 1` more reads, they outlast `r` more after a strike. -/
theorem outlasts_iff (h : Strikes lo hi faults faults') (hlow : weight lo mid faults = 0)
    (hr : r < maxRetries) : r < weight mid hi faults' ↔ r + 1 < weight mid hi faults := by
  have hfailing := h.failing hlow hr
  unfold Fault.failing at hfailing
  omega

end Strikes
end
end Fault

namespace SegmentedProcess

variable {p : SegmentedProcess} {a : Address} {n : Nat} {w : Wear}

/-- Without pending faults a read of readable bytes succeeds, and wears nothing out. -/
theorem read_of_clear (hp : p.Fits) (choose : Nat → Nat) (hr : p.memory.Readable a.toNat n)
    (h : Fault.weight a.toNat (a.advance n).toNat w.faults = 0) :
    ∃ bytes, p.bytes? a n = some bytes.val ∧
      (p.targetChoosing choose).read a n w = (.ok bytes, { w with reads := w.reads + 1 }) := by
  obtain ⟨bytes, hg⟩ := gather_ok hp hr
  refine ⟨bytes, by rw [bytes?, hg], ?_⟩
  simp only [targetChoosing, read, Fault.weight_eq_zero_iff.1 h, List.isEmpty_nil, if_true, fill,
    hg]

/-- With pending faults a read fails, and one of them has struck. -/
theorem read_of_pending (p : SegmentedProcess) (choose : Nat → Nat)
    (h : 0 < Fault.weight a.toNat (a.advance n).toNat w.faults) :
    ∃ w', (p.targetChoosing choose).read a n w =
        (.fail (.readFailed a n "injected fault"), w') ∧
      Fault.Strikes a.toNat (a.advance n).toNat w.faults w'.faults := by
  have hne : w.faults.filter (·.pending a (a.advance n)) ≠ [] := fun he =>
    Nat.ne_of_gt h (Fault.weight_eq_zero_iff.2 he)
  have hlen := List.length_pos_iff.2 hne
  have hempty : ¬(w.faults.filter (·.pending a (a.advance n))).isEmpty := fun he =>
    hne (List.isEmpty_iff.1 he)
  let k := choose w.reads % (w.faults.filter (·.pending a (a.advance n))).length
  have hstrikes : Fault.Strikes a.toNat (a.advance n).toNat w.faults
      (Fault.strike a (a.advance n) k w.faults) := Fault.strikes_strike (Nat.mod_lt _ hlen)
  refine ⟨⟨Fault.strike a (a.advance n) k w.faults, w.reads + 1⟩, ?_, hstrikes⟩
  simp only [targetChoosing, read, hempty, Bool.false_eq_true, if_false, k]

end SegmentedProcess
end ProcessMemory
