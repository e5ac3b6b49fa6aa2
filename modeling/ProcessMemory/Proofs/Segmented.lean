import ProcessMemory.Proofs.Mapping
import ProcessMemory.Target.Segmented

/-!
# The memory of a segmented process

A segmented process shows the memory made of the bytes of its readable segments, whatever faults it
has: lookups find the runs of that memory, and reads give its bytes or fail.
-/
namespace ProcessMemory

def Segment.byte? (s : Segment) (n : Nat) : Option UInt8 :=
  if s.readable ∧ s.start.toNat ≤ n then s.data[n - s.start.toNat]? else none

namespace SegmentedProcess

/-- No segment reaches past the highest address. -/
def Fits (p : SegmentedProcess) : Prop :=
  ∀ s ∈ p.segments, s.start.toNat + s.data.length ≤ 0xFFFF_FFFF_FFFF_FFFF

instance (p : SegmentedProcess) : Decidable p.Fits :=
  inferInstanceAs
    (Decidable (∀ s ∈ p.segments, s.start.toNat + s.data.length ≤ 0xFFFF_FFFF_FFFF_FFFF))

def memory (p : SegmentedProcess) : Memory := fun n => p.segments.findSome? (·.byte? n)

end SegmentedProcess

namespace Segment

variable {s : Segment} {n : Nat}

theorem toNat_stop (h : s.start.toNat + s.data.length ≤ 0xFFFF_FFFF_FFFF_FFFF) :
    s.stop.toNat = s.start.toNat + s.data.length := by
  rw [stop, Address.toNat_advance]
  omega

theorem byte?_isSome_iff :
    (s.byte? n).isSome ↔
      s.readable ∧ s.start.toNat ≤ n ∧ n < s.start.toNat + s.data.length := by
  unfold byte?
  split
  · rename_i h
    simp only [h, true_and, isSome_getElem?]
    omega
  · rename_i h
    simp only [Option.isSome_none, Bool.false_eq_true, false_iff]
    exact fun hn => h ⟨hn.1, hn.2.1⟩

theorem serves_iff (h : s.start.toNat + s.data.length ≤ 0xFFFF_FFFF_FFFF_FFFF) {a : Address} :
    s.serves a ↔ (s.byte? a.toNat).isSome := by
  rw [byte?_isSome_iff, ← toNat_stop h]
  simp only [serves, Bool.and_eq_true, decide_eq_true_eq, Address.le_def, Address.lt_def,
    and_assoc]

theorem byte?_add (hr : s.readable) (i : Nat) : s.byte? (s.start.toNat + i) = s.data[i]? := by
  rw [byte?, if_pos ⟨hr, Nat.le_add_right _ _⟩, Nat.add_sub_cancel_left]

end Segment

namespace SegmentedProcess

variable {p : SegmentedProcess} {n : Nat}

theorem memory_isSome_iff_exists :
    (p.memory n).isSome ↔ ∃ s ∈ p.segments, (s.byte? n).isSome := by
  simp [memory, List.findSome?_isSome_iff]

/-- No other segment has a byte where `s` has one. -/
theorem memory_of_mem (hp : p.Fits) {s : Segment} (hs : s ∈ p.segments)
    (h : (s.byte? n).isSome) : p.memory n = s.byte? n := by
  have hord := p.ordered
  unfold memory
  unfold Fits at hp
  generalize p.segments = segments at hp hs hord
  induction segments with
  | nil => cases hs
  | cons k rest ih =>
    rw [List.findSome?_cons]
    rcases List.mem_cons.1 hs with rfl | hs
    · obtain ⟨b, hb⟩ := Option.isSome_iff_exists.1 h
      rw [hb]
    · have hle : k.stop.toNat ≤ s.start.toNat := (List.pairwise_cons.1 hord).1 s hs
      rw [Segment.toNat_stop (hp k List.mem_cons_self)] at hle
      have hk : k.byte? n = none := by
        refine Option.not_isSome_iff_eq_none.1 fun hk => ?_
        have h1 := (Segment.byte?_isSome_iff.1 hk).2.2
        have h2 := (Segment.byte?_isSome_iff.1 h).2.1
        omega
      rw [hk]
      exact ih (fun j hj => hp j (List.mem_cons_of_mem _ hj)) hs (List.pairwise_cons.1 hord).2

theorem memory_isSome_iff (hp : p.Fits) :
    (p.memory n).isSome ↔ Mapping.ReadableAt (p.segments.map Segment.mapping) n := by
  have hbyte {s : Segment} (hs : s ∈ p.segments) :
      (s.byte? n).isSome ↔ s.mapping.readable ∧ s.mapping.Has n := by
    rw [Segment.byte?_isSome_iff, ← Segment.toNat_stop (hp s hs)]
    rfl
  rw [memory_isSome_iff_exists]
  constructor
  · rintro ⟨s, hs, hb⟩
    exact ⟨s.mapping, List.mem_map_of_mem hs, (hbyte hs).1 hb⟩
  · rintro ⟨m, hm, hb⟩
    obtain ⟨s, hs, rfl⟩ := List.mem_map.1 hm
    exact ⟨s, hs, (hbyte hs).2 hb⟩

/-- The highest address holds no byte, nor does anything above. -/
theorem memory_eq_none_of_le (hp : p.Fits) (h : 0xFFFF_FFFF_FFFF_FFFF ≤ n) : p.memory n = none := by
  refine Option.not_isSome_iff_eq_none.1 fun hn => ?_
  obtain ⟨s, hs, hb⟩ := memory_isSome_iff_exists.1 hn
  have h1 := (Segment.byte?_isSome_iff.1 hb).2.2
  have h2 := hp s hs
  omega

theorem mappings_ascending (p : SegmentedProcess) :
    Mapping.Ascending (p.segments.map Segment.mapping) := by
  refine ⟨?_, List.pairwise_map.2 p.ordered⟩
  intro m hm
  obtain ⟨s, -, rfl⟩ := List.mem_map.1 hm
  exact s.start_le_stop

theorem lookup_eq (p : SegmentedProcess) (a : Address) :
    p.lookup a = regionAt ((p.segments.map Segment.mapping).map .ok) a := by
  rw [lookup, List.map_map]
  rfl

theorem lookup_found (hp : p.Fits) (a : Address) : p.memory.Found a (p.lookup a).result := by
  rw [lookup_eq]
  exact regionAt_found p.mappings_ascending (fun _ => memory_isSome_iff hp) a

theorem lookup_exact (p : SegmentedProcess) {a : Address} {region : Region}
    (h : (p.lookup a).result = .ok (some region)) : region.Exact := by
  rw [lookup_eq] at h
  exact regionAt_exact p.mappings_ascending h

theorem lookup_softErrors (p : SegmentedProcess) (a : Address) :
    ∀ error ∈ (p.lookup a).softErrors, ∃ start stop, error = .unreadable start stop := by
  rw [lookup_eq]
  exact regionAt_softErrors p.mappings_ascending a

theorem serving?_eq_some (hp : p.Fits) {a : Address} {s : Segment} (h : p.serving? a = some s) :
    s ∈ p.segments ∧ (s.byte? a.toNat).isSome := by
  have hs := List.mem_of_find?_eq_some h
  have hserves : s.serves a := by simpa using List.find?_some h
  exact ⟨hs, (Segment.serves_iff (hp s hs)).1 hserves⟩

theorem serving?_eq_none (hp : p.Fits) {a : Address} (h : p.serving? a = none) :
    p.memory a.toNat = none := by
  refine Option.not_isSome_iff_eq_none.1 fun hn => ?_
  obtain ⟨s, hs, hb⟩ := memory_isSome_iff_exists.1 hn
  exact List.find?_eq_none.1 h s hs ((Segment.serves_iff (hp s hs)).2 hb)

/-- What one segment has from `a` on is what the memory has. -/
theorem holds_take (hp : p.Fits) {a : Nat} {s : Segment} (hs : s ∈ p.segments)
    (hb : (s.byte? a).isSome) (count : Nat) :
    p.memory.Holds a ((s.data.drop (a - s.start.toNat)).take count) := by
  obtain ⟨hr, hle, hlt⟩ := Segment.byte?_isSome_iff.1 hb
  intro i hi
  simp only [List.length_take, List.length_drop] at hi
  have ha : a + i = s.start.toNat + (a - s.start.toNat + i) := by omega
  have hsome : (s.byte? (a + i)).isSome := by
    rw [Segment.byte?_isSome_iff]
    exact ⟨hr, by omega, by omega⟩
  rw [memory_of_mem hp hs hsome, ha, Segment.byte?_add hr, List.getElem?_take_of_lt (by omega),
    List.getElem?_drop]

/-- Gathering gives the bytes of the memory, or an address that has none. -/
theorem gather_spec (hp : p.Fits) (cursor : Address) (n : Nat) :
    match p.gather cursor n with
    | .ok bytes => p.memory.Holds cursor.toNat bytes.val
    | .error missing =>
      cursor.toNat ≤ missing.toNat ∧ missing.toNat < cursor.toNat + n ∧
        p.memory missing.toNat = none := by
  fun_induction gather p cursor n with
  | case1 cursor => exact fun i hi => absurd hi (Nat.not_lt_zero i)
  | case2 cursor n hn hs =>
    exact ⟨Nat.le_refl _, by omega, serving?_eq_none hp hs⟩
  | case3 cursor n hn s hs offset count missing heq ih =>
    obtain ⟨hmem, hbyte⟩ := serving?_eq_some hp hs
    obtain ⟨-, hle, hlt⟩ := Segment.byte?_isSome_iff.1 hbyte
    have hfits := hp s hmem
    have hcount : count ≤ s.data.length - (cursor.toNat - s.start.toNat) := Nat.min_le_left _ _
    have hcount' : count ≤ n := Nat.min_le_right _ _
    rw [heq] at ih
    simp only [Address.toNat_advance] at ih
    obtain ⟨h1, h2, h3⟩ := ih
    exact ⟨by omega, by omega, h3⟩
  | case4 cursor n hn s hs offset count rest heq ih =>
    obtain ⟨hmem, hbyte⟩ := serving?_eq_some hp hs
    obtain ⟨-, hle, hlt⟩ := Segment.byte?_isSome_iff.1 hbyte
    have hfits := hp s hmem
    have hcount : count ≤ s.data.length - (cursor.toNat - s.start.toNat) := Nat.min_le_left _ _
    rw [heq] at ih
    refine (holds_take hp hmem hbyte count).append ?_
    have hlen : cursor.toNat + ((s.data.drop (cursor.toNat - s.start.toNat)).take count).length =
        (cursor.advance count).toNat := by
      rw [List.length_take, List.length_drop, Address.toNat_advance]
      omega
    rw [hlen]
    exact ih

theorem gather_ok (hp : p.Fits) {cursor : Address} (h : p.memory.Readable cursor.toNat n) :
    ∃ bytes, p.gather cursor n = .ok bytes := by
  have hspec := gather_spec hp cursor n
  cases hg : p.gather cursor n with
  | ok bytes => exact ⟨bytes, rfl⟩
  | error missing =>
    rw [hg] at hspec
    obtain ⟨h1, h2, h3⟩ := hspec
    have hsome := h.isSome h1 h2
    rw [h3] at hsome
    cases hsome

theorem fill_gives (hp : p.Fits) (a : Address) (n : Nat) :
    p.memory.Gives a n (p.fill a n).result := by
  have hspec := gather_spec hp a n
  unfold fill
  cases hg : p.gather a n with
  | ok bytes =>
    rw [hg] at hspec
    exact .bytes hspec
  | error missing => exact .failed _

/-- Whatever its faults, a segmented process shows its memory. -/
theorem shows (hp : p.Fits) (choose : Nat → Nat) : (p.targetChoosing choose).Shows p.memory where
  lookup a w := lookup_found hp a
  read a n w := by
    simp only [targetChoosing, read]
    split
    · exact fill_gives hp a n
    · exact .failed _

/-- Without faults, all reads of readable bytes succeed. -/
theorem reliable (hp : p.Fits) (choose : Nat → Nat) :
    (p.targetChoosing choose).Reliable p.memory fun w => w.faults = [] where
  lookup a w hw := ⟨hw, noReadFailed_of_unreadable (p.lookup_softErrors a)⟩
  read a n w hw hr := by
    obtain ⟨bytes, hg⟩ := gather_ok hp hr
    have heq : (p.targetChoosing choose).read a n w =
        (.ok bytes, { w with reads := w.reads + 1 }) := by
      simp only [targetChoosing, read, hw, List.filter_nil, List.isEmpty_nil, if_true, fill, hg]
    rw [heq]
    exact ⟨rfl, hw, fun _ _ _ he => nomatch he⟩

def touching : SegmentedProcess where
  pid := 1
  segments := [⟨0x10, [1, 2, 3], true⟩, ⟨0x13, [4, 5], true⟩]
  nonempty := by decide
  ordered := by decide

end SegmentedProcess
end ProcessMemory
