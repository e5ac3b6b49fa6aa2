import ProcessMemory.Proofs.Regions

/-!
# What is crossed on the way

The soft errors for unreadable mappings, met in one pass through an address space: however often a
region is looked up anew, what has been reported and what is still to be crossed from the address
reached are together what an enumeration reports (`Mapping.KeptTo`). An error for a read that was
given up takes its place between them.
-/
namespace ProcessMemory

namespace MemoryError

def isUnreadable : MemoryError → Bool
  | .unreadable _ _ => true
  | _ => false

/-- Where the span begins that the error is about. -/
def start? : MemoryError → Option Address
  | .readFailed address _ _ => some address
  | .unreadable start _ => some start
  | _ => none

def Below (e : MemoryError) (a : Address) : Prop := ∃ b, e.start? = some b ∧ b < a

def Precedes (e f : MemoryError) : Prop := ∃ a, f.start? = some a ∧ e.Below a

theorem Below.mono {e : MemoryError} {a b : Address} (h : e.Below a) (hab : a ≤ b) : e.Below b := by
  obtain ⟨c, hc, hlt⟩ := h
  exact ⟨c, hc, Nat.lt_of_lt_of_le hlt hab⟩

end MemoryError

namespace Mapping

variable {ms before after : List Mapping} {m : Mapping} {a b : Address} {error : MemoryError}
  {region : Region}

theorem mem_crossed :
    error ∈ crossed a ms ↔
      ∃ m ∈ ms, ¬m.readable ∧ m.Reaches a ∧ .unreadable m.start m.stop = error := by
  simp only [crossed, List.mem_map, List.mem_filter, Bool.and_eq_true, Bool.not_eq_true',
    Bool.not_eq_true, decide_eq_true_eq, and_assoc]

theorem pairwise_crossed (hms : Ascending ms) (a : Address) :
    (crossed a ms).Pairwise MemoryError.Precedes := by
  refine List.pairwise_map.2 ((hms.pairwise.filter _).imp_of_mem fun {k l} hk hl hkl => ?_)
  have hreaches : k.Reaches a := by
    have hk := (List.mem_filter.1 hk).2
    rw [Bool.and_eq_true, decide_eq_true_eq] at hk
    exact hk.2
  exact ⟨l.start, rfl, k.start, rfl, Nat.lt_of_lt_of_le hreaches.2 hkl⟩

/-- No byte of an unreadable mapping can be read. -/
theorem Ascending.not_readableAt (hms : Ascending ms) (hm : m ∈ ms) (hr : ¬m.readable) {n : Nat}
    (hn : m.Has n) : ¬ReadableAt ms n := by
  rintro ⟨k, hk, hkr, hkn⟩
  exact hr (hms.eq_of_has hm hk hn hkn ▸ hkr)

/-- On the way through readable bytes nothing is crossed. -/
theorem crossed_of_readable (hms : Ascending ms) (hab : a ≤ b)
    (hread : ∀ n, a.toNat ≤ n → n < b.toNat → ReadableAt ms n) : crossed b ms = crossed a ms := by
  refine congrArg (List.map _) (List.filter_congr fun m hm => ?_)
  by_cases hr : m.readable
  · simp [hr]
  · have hiff : m.Reaches b ↔ m.Reaches a := by
      constructor
      · exact fun h => ⟨Nat.lt_of_le_of_lt hab h.1, h.2⟩
      · refine fun h => ⟨Nat.lt_of_not_le fun hle => ?_, h.2⟩
        -- The last byte of the mapping would lie on the way.
        obtain ⟨ha, hlt⟩ := h
        rw [Address.lt_def] at ha hlt
        have hlast : m.Has (m.stop.toNat - 1) := ⟨by omega, by omega⟩
        exact hms.not_readableAt hm hr hlast (hread _ (by omega) (by omega))
    simp only [hiff]

/-- What is crossed from a readable byte on begins past it. -/
theorem below_of_mem_crossed (hms : Ascending ms) (ha : ReadableAt ms a.toNat) (hab : a ≤ b)
    (he : error ∈ crossed b ms) : ∃ c, error.start? = some c ∧ a < c := by
  obtain ⟨m, hm, hr, hreaches, rfl⟩ := mem_crossed.1 he
  refine ⟨m.start, rfl, Nat.lt_of_not_le fun hle => ?_⟩
  exact hms.not_readableAt hm hr ⟨hle, Nat.lt_of_le_of_lt hab hreaches.1⟩ ha

/-- What a lookup crosses lies below the region it finds. -/
theorem below_region (h : Lookup.Starts a ms before after m region) (hms : Ascending ms)
    (he : error ∈ crossed a before) : error.Below region.start := by
  obtain ⟨k, hk, -, hreaches, rfl⟩ := mem_crossed.1 he
  refine ⟨k.start, rfl, ?_⟩
  rw [h.grows.start_eq]
  exact Nat.lt_of_lt_of_le hreaches.2 ((h.ascending hms).1 k hk)

/-- The soft errors that a walk has kept on its way from `start` to `a`. -/
structure KeptTo (ms : List Mapping) (start : Address) (errors : List MemoryError) (a : Address) :
    Prop where
  /-- What it has not reported of the unreadable mappings is still to be crossed. -/
  crossed_eq : errors.filter (·.isUnreadable) ++ crossed a ms = crossed start ms
  ascending : (errors ++ crossed a ms).Pairwise MemoryError.Precedes
  below : ∀ e ∈ errors, e.Below a

theorem filter_crossed (a : Address) (ms : List Mapping) :
    (crossed a ms).filter (·.isUnreadable) = crossed a ms := by
  refine List.filter_eq_self.2 fun e he => ?_
  obtain ⟨start, stop, rfl⟩ := unreadable_of_mem_crossed he
  rfl

theorem keptTo_start (hms : Ascending ms) (start : Address) : KeptTo ms start [] start where
  crossed_eq := rfl
  ascending := pairwise_crossed hms start
  below _ he := nomatch he

namespace KeptTo

variable {start : Address} {errors : List MemoryError}

/-- The walk goes on through readable bytes. -/
theorem advance (h : KeptTo ms start errors a) (hms : Ascending ms) (hab : a ≤ b)
    (hread : ∀ n, a.toNat ≤ n → n < b.toNat → ReadableAt ms n) : KeptTo ms start errors b := by
  have hcrossed := crossed_of_readable hms hab hread
  exact ⟨hcrossed ▸ h.crossed_eq, hcrossed ▸ h.ascending, fun e he => (h.below e he).mono hab⟩

/-- The walk gives up a read of readable bytes. -/
theorem skip (h : KeptTo ms start errors a) (hms : Ascending ms) (hab : a < b)
    (hread : ∀ n, a.toNat ≤ n → n < b.toNat → ReadableAt ms n) (n : Nat) (reason : String) :
    KeptTo ms start (errors ++ [.readFailed a n reason]) b := by
  have hle : a ≤ b := Nat.le_of_lt hab
  have hcrossed := crossed_of_readable hms hle hread
  obtain ⟨herrors, hrest, hbetween⟩ := List.pairwise_append.1 h.ascending
  refine ⟨?_, ?_, ?_⟩
  · rw [List.filter_append, hcrossed, ← h.crossed_eq, List.append_assoc]
    rfl
  · rw [List.append_assoc, hcrossed, List.pairwise_append, List.singleton_append,
      List.pairwise_cons]
    refine ⟨herrors, ⟨fun f hf => ?_, hrest⟩, fun e he f hf => ?_⟩
    · have ha := hread _ (Nat.le_refl _) hab
      obtain ⟨c, hc, hlt⟩ := below_of_mem_crossed hms ha hle (hcrossed ▸ hf)
      exact ⟨c, hc, a, rfl, hlt⟩
    · rcases List.mem_cons.1 hf with rfl | hf
      · exact ⟨a, rfl, h.below e he⟩
      · exact hbetween e he f hf
  · intro e he
    rcases List.mem_append.1 he with he | he
    · exact (h.below e he).mono hle
    · rw [List.mem_singleton.1 he]
      exact ⟨a, rfl, hab⟩

/-- A lookup finds a region, and crosses what lies below. -/
theorem enter (h : KeptTo ms start errors a) (hms : Ascending ms)
    (hs : Lookup.Starts a ms before after m region) :
    KeptTo ms start (errors ++ crossed a before) (max region.start a) := by
  have hfirst := hs.firstRegion hms
  have hle : max region.start a ≤ region.stop := by
    rw [Address.le_def, Address.toNat_max]
    exact Nat.max_le.2 ⟨Nat.le_of_lt hs.grows.exact.start_lt_stop, Nat.le_of_lt hfirst.reaches⟩
  have hcrossed : crossed region.stop ms = crossed (max region.start a) ms :=
    crossed_of_readable hms hle fun n h1 h2 =>
      hfirst.readable n (Nat.le_trans (Address.le_max_left _ _) h1) h2
  have hsplit := hs.crossed_eq hms
  rw [hcrossed] at hsplit
  refine ⟨?_, ?_, fun e he => ?_⟩
  · rw [List.filter_append, filter_crossed, List.append_assoc, ← hsplit]
    exact h.crossed_eq
  · rw [List.append_assoc, ← hsplit]
    exact h.ascending
  · rcases List.mem_append.1 he with he | he
    · exact (h.below e he).mono (Address.le_max_right _ _)
    · exact (below_region hs hms he).mono (Address.le_max_left _ _)

end KeptTo
end Mapping
end ProcessMemory
