import ProcessMemory.Proofs.Search.Course
import ProcessMemory.Proofs.Search.Parts
import ProcessMemory.Proofs.Segmented
import ProcessMemory.Proofs.Walk.Sliding

/-!
# Searches for bytes

A search for bytes finds the lowest occurrence, save those of which a read that was given up holds
some bytes. The chunks are large enough for every occurrence to lie whole in one of them, and in a
chunk the lowest comes first.
-/
namespace ProcessMemory

namespace Memory

/-- The bytes `needle` stand at `a`, inside one run. -/
structure Occurs (m : Memory) (needle : List UInt8) (a : Nat) : Prop where
  holds : m.Holds a needle
  inRun : ∃ start stop, m.IsRun start stop ∧ start ≤ a ∧ a + needle.length ≤ stop

structure Lowest (m : Memory) (needle : List UInt8) (start a : Address) : Prop where
  start_le : start ≤ a
  occurs : m.Occurs needle a.toNat
  least : ∀ b, start.toNat ≤ b → m.Occurs needle b → a.toNat ≤ b

/-- What a search may answer that kept some soft errors: an occurrence, or none, where all that it
passed over were skipped. -/
def Answers (m : Memory) (needle : List UInt8) (start : Address) (errors : List MemoryError) :
    Option Address → Prop
  | some hit =>
    start ≤ hit ∧ m.Occurs needle hit.toNat ∧
      ∀ a, start.toNat ≤ a → a < hit.toNat → m.Occurs needle a → Skipped errors a needle.length
  | none => ∀ a, start.toNat ≤ a → m.Occurs needle a → Skipped errors a needle.length

variable {m : Memory} {needle bytes : List UInt8}

theorem Holds.occurs {top a : Nat} (htop : ∀ k, top ≤ k → m k = none) (hne : needle ≠ [])
    (h : m.Holds a needle) : m.Occurs needle a :=
  ⟨h, h.readable.inRun htop (List.length_pos_iff.2 hne)⟩

theorem Lowest.unique {start a b : Address} (ha : m.Lowest needle start a)
    (hb : m.Lowest needle start b) : a = b :=
  Address.ext (Nat.le_antisymm (ha.least _ hb.start_le hb.occurs)
    (hb.least _ ha.start_le ha.occurs))

/-- Where nothing was skipped, the answer is the lowest occurrence. -/
theorem Answers.exact {start : Address} {errors : List MemoryError} {found : Option Address}
    (h : m.Answers needle start errors found) (hr : NoReadFailed errors) :
    (∀ hit, found = some hit ↔ m.Lowest needle start hit) ∧
      (found = none ↔ ∀ a, start.toNat ≤ a → ¬m.Occurs needle a) := by
  cases found with
  | none =>
    have hnone : ∀ a, start.toNat ≤ a → ¬m.Occurs needle a :=
      fun a ha ho => hr.not_skipped a _ (h a ha ho)
    refine ⟨fun hit => ⟨nofun, fun hl => ?_⟩, ⟨fun _ => hnone, fun _ => rfl⟩⟩
    exact absurd hl.occurs (hnone _ hl.start_le)
  | some x =>
    obtain ⟨hs, ho, hbelow⟩ := h
    have hlow : m.Lowest needle start x := by
      refine ⟨hs, ho, fun b hb hob => Nat.le_of_not_lt fun hlt => ?_⟩
      exact hr.not_skipped b _ (hbelow b hb hlt hob)
    refine ⟨fun hit => ⟨?_, fun hl => congrArg some (hlow.unique hl)⟩, ?_, ?_⟩
    · rintro ⟨⟩
      exact hlow
    · exact nofun
    · exact fun hnone => absurd ho (hnone _ hs)

end Memory

namespace Matcher

variable {needle bytes : List UInt8} {chunk : Chunk} {m : Memory}

theorem indexOf?_go_eq_some {offset i : Nat} (h : indexOf?.go needle offset bytes = some i) :
    ∃ k, i = offset + k ∧ needle <+: bytes.drop k ∧ ∀ j < k, ¬needle <+: bytes.drop j := by
  induction bytes generalizing offset with
  | nil =>
    rw [indexOf?.go] at h
    split at h
    · rename_i hne
      refine ⟨0, (Option.some.inj h).symm, ?_, fun j hj => absurd hj (Nat.not_lt_zero j)⟩
      rw [List.isEmpty_iff.1 hne]
      exact List.nil_prefix
    · cases h
  | cons b rest ih =>
    rw [indexOf?.go] at h
    split at h
    · rename_i hp
      refine ⟨0, (Option.some.inj h).symm, ?_, fun j hj => absurd hj (Nat.not_lt_zero j)⟩
      exact List.isPrefixOf_iff_prefix.1 hp
    · rename_i hp
      obtain ⟨k, hi, hk, hlow⟩ := ih h
      refine ⟨k + 1, by omega, hk, fun j hj => ?_⟩
      cases j with
      | zero => exact fun hpre => hp (List.isPrefixOf_iff_prefix.2 hpre)
      | succ j => exact hlow j (Nat.lt_of_succ_lt_succ hj)

theorem indexOf?_go_eq_none {offset : Nat} (h : indexOf?.go needle offset bytes = none) (k : Nat) :
    ¬needle <+: bytes.drop k := by
  induction bytes generalizing offset k with
  | nil =>
    rw [indexOf?.go] at h
    split at h
    · cases h
    · rename_i hne
      rw [List.drop_nil, List.prefix_nil]
      exact fun he => hne (List.isEmpty_iff.2 he)
  | cons b rest ih =>
    rw [indexOf?.go] at h
    split at h
    · cases h
    · rename_i hp
      cases k with
      | zero => exact fun hpre => hp (List.isPrefixOf_iff_prefix.2 hpre)
      | succ k => exact ih h k

/-- The first occurrence in a chunk of the memory is the lowest one. -/
theorem literal_eq_some {hit : Address} (htop : ∀ k, 0xFFFF_FFFF_FFFF_FFFF ≤ k → m k = none)
    (hc : m.Holds chunk.address.toNat chunk.bytes) (hne : needle ≠ [])
    (h : literal needle chunk = some hit) :
    chunk.Covers hit.toNat needle.length ∧ m.Holds hit.toNat needle ∧
      ∀ a, chunk.address.toNat ≤ a → a < hit.toNat → ¬m.Holds a needle := by
  obtain ⟨i, hi, rfl⟩ := Option.map_eq_some_iff.1 h
  obtain ⟨k, rfl, hpre, hlow⟩ := indexOf?_go_eq_some hi
  have hlen := hpre.length_le
  have hpos := List.length_pos_iff.2 hne
  rw [List.length_drop] at hlen
  have hk : k + needle.length ≤ chunk.bytes.length := by omega
  have hlt := Memory.lt_of_isSome htop (hc.readable k (by omega))
  rw [Address.toNat_advance, Nat.zero_add, Nat.min_eq_left (Nat.le_of_lt hlt)]
  refine ⟨⟨Nat.le_add_right _ _, by omega⟩, (hc.prefix_iff hk).1 hpre, fun a h1 h2 hh => ?_⟩
  obtain ⟨j, rfl⟩ := Nat.exists_eq_add_of_le h1
  exact hlow j (by omega) ((hc.prefix_iff (by omega)).2 hh)

theorem literal_eq_none (hc : m.Holds chunk.address.toNat chunk.bytes)
    (h : literal needle chunk = none) {a : Nat} (ha : chunk.Covers a needle.length) :
    ¬m.Holds a needle := by
  intro hh
  obtain ⟨k, rfl⟩ := Nat.exists_eq_add_of_le ha.1
  have hk := ha.2
  exact indexOf?_go_eq_none (Option.map_eq_none_iff.1 h) k ((hc.prefix_iff (by omega)).2 hh)

end Matcher

section
variable {m : Memory} {g : Grid} {start : Address} {chunks : List Chunk} {needle : List UInt8}
  {errors : List MemoryError}

/-- An occurrence that was passed over was skipped. -/
theorem SeenUpTo.skipped {upTo a : Nat} (h : SeenUpTo m g start none chunks errors upTo)
    (hold : ∀ chunk ∈ chunks, m.Holds chunk.address.toNat chunk.bytes)
    (missed : ∀ chunk ∈ chunks, Matcher.literal needle chunk = none) (hne : needle ≠ [])
    (hn : needle.length + g.stride ≤ g.size + 1) (hs : start.toNat ≤ a) (ha : a < upTo)
    (ho : m.Holds a needle) : Skipped errors a needle.length := by
  have hstretch : Stretch m g start none a needle.length :=
    ⟨List.length_pos_iff.2 hne, hn, ho.readable, hs, fun _ hl => nomatch hl⟩
  rcases h a _ hstretch ha with ⟨chunk, hc, hcov⟩ | hskip
  · exact absurd ho (Matcher.literal_eq_none (hold chunk hc) (missed chunk hc) hcov)
  · exact hskip

theorem Concludes.answers {found : Option Address}
    (htop : ∀ k, 0xFFFF_FFFF_FFFF_FFFF ≤ k → m k = none) (hne : needle ≠ [])
    (hn : needle.length + g.stride ≤ g.size + 1)
    (h : Concludes m g start (.literal needle) errors found) :
    m.Answers needle start errors found := by
  cases h with
  | nothing hold missed seen =>
    exact fun a hs ho => (seen (a + 1)).skipped hold missed hne hn hs (Nat.lt_succ_self a) ho.holds
  | @hit chunks chunk address hold missed seen start_le holds hit =>
    obtain ⟨hcov, hh, hlow⟩ := Matcher.literal_eq_some htop holds hne hit
    refine ⟨Nat.le_trans start_le hcov.1, hh.occurs htop hne, fun a hs ha ho => ?_⟩
    by_cases hlt : a < chunk.address.toNat
    · exact seen.skipped hold missed hne hn hs hlt ho.holds
    · exact absurd ho.holds (hlow a (Nat.le_of_not_lt hlt) ha)

end

/-- A needle is at most half as long as its chunks, or they are as large as can be. -/
theorem exists_needleBufferSize {needle : List UInt8} (hne : needle ≠ []) (smallest : Nat) :
    ∃ size, needleBufferSize smallest needle = .ok size ∧
      min (2 * needle.length) 0xFFFF_FFFF_FFFF_FFFF ≤ size := by
  have hempty : ¬needle.isEmpty := fun he => hne (List.isEmpty_iff.1 he)
  refine ⟨_, by rw [needleBufferSize, if_neg hempty], ?_⟩
  omega

/-- A needle is at most half as long as its chunks. -/
theorem needleBufferSize_eq_ok {needle : List UInt8} (hne : needle ≠ [])
    (hlen : 2 * needle.length < 0x1_0000_0000_0000_0000) (smallest : Nat) :
    ∃ size, needleBufferSize smallest needle = .ok size ∧ 2 * needle.length ≤ size := by
  obtain ⟨size, hsize, hle⟩ := exists_needleBufferSize hne smallest
  exact ⟨size, hsize, by omega⟩

namespace SegmentedProcess

variable {p : SegmentedProcess}

/-- Searching for bytes neither misses nor misplaces an occurrence: whatever faults strike, those
below the answer meet the span of a read that was given up. Without faults the answer is the lowest
occurrence. -/
theorem findBytes_lowest (hp : p.Fits) (choose : Nat → Nat) (options : SearchOptions)
    (start : Address) {needle : List UInt8} (hne : needle ≠ [])
    (hlen : 2 * needle.length < 0x1_0000_0000_0000_0000) (w : Wear) :
    let outcome := (findBytes (p.targetChoosing choose) options start needle w).outcome
    ∃ found, outcome.result = .ok found ∧
      p.memory.Answers needle start outcome.softErrors found ∧
      (w.faults = [] →
        (∀ hit, found = some hit ↔ p.memory.Lowest needle start hit) ∧
          (found = none ↔ ∀ a, start.toNat ≤ a → ¬p.memory.Occurs needle a)) := by
  obtain ⟨size, hsize, hle⟩ := needleBufferSize_eq_ok hne hlen options.bufferSize
  have hpos : 0 < size := by
    have := List.length_pos_iff.2 hne
    omega
  have hshows := shows hp choose
  obtain ⟨found, hok, hc⟩ := search_concludes hshows start hpos (.literal needle) w
  have hanswers := hc.answers (fun k hk => memory_eq_none_of_le hp hk) hne
    (Grid.sliding_wide hpos hle)
  simp only [findBytes, hsize]
  refine ⟨found, hok, hanswers, fun hw => hanswers.exact ?_⟩
  exact search_noReadFailed hshows (reliable hp choose) start hpos _ hw

/-- A fault for ever costs the lower of two occurrences, and that is told. Without it the lower one
is found. -/
theorem findBytes_lowest_parted :
    let options : SearchOptions := { bufferSize := 4 }
    let struck := (findBytes parted.target options 0 [3, 4] { faults := [⟨0x11, .always⟩] }).outcome
    let clear := (findBytes parted.target options 0 [3, 4] {}).outcome
    parted.Fits ∧ ([3, 4] : List UInt8) ≠ [] ∧
      2 * ([3, 4] : List UInt8).length < 0x1_0000_0000_0000_0000 ∧
      parted.memory.Occurs [3, 4] 0x10 ∧
      struck.result = .ok (some 0x20) ∧ Skipped struck.softErrors 0x10 2 ∧
      clear.result = .ok (some 0x10) := by
  intro options struck clear
  have hp : parted.Fits := by decide
  have hne : ([3, 4] : List UInt8) ≠ [] := by decide
  have hlen : 2 * ([3, 4] : List UInt8).length < 0x1_0000_0000_0000_0000 := by decide
  have htop : ∀ k, 0xFFFF_FFFF_FFFF_FFFF ≤ k → parted.memory k = none :=
    fun k hk => memory_eq_none_of_le hp hk
  have hholds : parted.memory.Holds 0x10 [3, 4] := by decide
  have hoccurs : parted.memory.Occurs [3, 4] 0x10 := hholds.occurs htop hne
  have hsize : needleBufferSize options.bufferSize [3, 4] = .ok 4 := by
    simp [needleBufferSize, options]
  have hstruck : struck.result = .ok (some 0x20) := by
    simp only [struck, findBytes, hsize]
    exact parted_search fun _ => 0
  refine ⟨hp, hne, hlen, hoccurs, hstruck, ?_, ?_⟩
  · obtain ⟨found, hok, hanswers, -⟩ := findBytes_lowest hp (fun _ => 0) options 0 hne hlen
      { faults := [⟨0x11, .always⟩] }
    cases hstruck.symm.trans hok
    exact hanswers.2.2 0x10 (by decide) (by decide) hoccurs
  · obtain ⟨found, hok, -, hexact⟩ := findBytes_lowest hp (fun _ => 0) options 0 hne hlen {}
    have hbelow : ∀ b < 0x10, ¬(parted.memory b).isSome := by decide
    have hlow : parted.memory.Lowest [3, 4] 0 0x10 :=
      ⟨by decide, hoccurs, fun b _ ho => Nat.le_of_not_lt fun hlt =>
        hbelow b hlt (ho.holds.readable 0 (by decide))⟩
    rw [((hexact rfl).1 0x10).2 hlow] at hok
    exact hok

end SegmentedProcess
end ProcessMemory
