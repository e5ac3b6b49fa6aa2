import ProcessMemory.Target

/-!
# Memories

What a target shows of itself while nothing maps memory anew: the byte at each address where one can
be read. `Memory.Next` says which region a lookup owes, and `Target.Shows` that all answers of a
target agree with one memory, even where reads of it fail.
-/
namespace ProcessMemory

/-- The byte that can be read at each address. -/
def Memory := Nat → Option UInt8

namespace Memory

def Readable (m : Memory) (a n : Nat) : Prop := ∀ i < n, (m (a + i)).isSome

/-- The bytes from `a` on are `bytes`, so they lie in one run. -/
def Holds (m : Memory) (a : Nat) (bytes : List UInt8) : Prop :=
  ∀ i < bytes.length, m (a + i) = bytes[i]?

instance (m : Memory) (a : Nat) (bytes : List UInt8) : Decidable (m.Holds a bytes) :=
  inferInstanceAs (Decidable (∀ i < bytes.length, m (a + i) = bytes[i]?))

/-- A run of readable bytes from `start` up to `stop` that no readable byte touches. -/
structure IsRun (m : Memory) (start stop : Nat) : Prop where
  lt : start < stop
  readable : ∀ n, start ≤ n → n < stop → (m n).isSome
  ends : m stop = none
  begins : ∀ n, n + 1 = start → m n = none

/-- The region that a lookup at `cursor` owes. -/
structure Next (m : Memory) (cursor : Address) (region : Region) : Prop where
  reaches : cursor < region.stop
  nonempty : region.start < region.stop
  readable : ∀ n, region.start.toNat ≤ n → n < region.stop.toNat → (m n).isSome
  ends : m region.stop.toNat = none
  first : ∀ n, cursor.toNat ≤ n → n < region.start.toNat → m n = none

/-- The results of a lookup that keeps its contract. -/
inductive Found (m : Memory) (cursor : Address) : Except MemoryError (Option Region) → Prop where
  | region {region : Region} (h : m.Next cursor region) : Found m cursor (.ok (some region))
  | nothing (h : ∀ n, cursor.toNat ≤ n → m n = none) : Found m cursor (.ok none)

/-- The results of a read that tells no lies: the bytes, or an error that names what was asked. -/
inductive Gives (m : Memory) (a : Address) (n : Nat) : Except MemoryError (Bytes n) → Prop where
  | bytes {bytes : Bytes n} (h : m.Holds a.toNat bytes.val) : Gives m a n (.ok bytes)
  | failed (reason : String) : Gives m a n (.error (.readFailed a n reason))

variable {m : Memory}

theorem Readable.isSome {a n b : Nat} (h : m.Readable a n) (hab : a ≤ b) (hb : b < a + n) :
    (m b).isSome := by
  have := h (b - a) (by omega)
  rwa [Nat.add_sub_of_le hab] at this

theorem Holds.readable {a : Nat} {bytes : List UInt8} (h : m.Holds a bytes) :
    m.Readable a bytes.length := by
  intro i hi
  rw [h i hi, List.getElem?_eq_getElem hi]
  rfl

theorem Holds.append {a : Nat} {bytes rest : List UInt8} (h : m.Holds a bytes)
    (hr : m.Holds (a + bytes.length) rest) : m.Holds a (bytes ++ rest) := by
  intro i hi
  rw [List.length_append] at hi
  by_cases hlt : i < bytes.length
  · rw [h i hlt, List.getElem?_append_left hlt]
  · have hle : bytes.length ≤ i := Nat.le_of_not_lt hlt
    have hi' := hr (i - bytes.length) (by omega)
    rw [List.getElem?_append_right hle, ← hi']
    congr 1
    omega

/-- In bytes that the memory holds, an occurrence is a prefix of what is left. -/
theorem Holds.prefix_iff {base k : Nat} {needle bytes : List UInt8}
    (h : m.Holds base bytes) (hk : k + needle.length ≤ bytes.length) :
    needle <+: bytes.drop k ↔ m.Holds (base + k) needle := by
  rw [List.prefix_iff_getElem?]
  refine forall_congr' fun i => forall_congr' fun hi => ?_
  have hbyte : m (base + k + i) = bytes[k + i]? := by
    rw [Nat.add_assoc]
    exact h (k + i) (by omega)
  rw [hbyte, List.getElem?_drop, List.getElem?_eq_getElem hi]

theorem lt_of_isSome {top n : Nat} (htop : ∀ k, top ≤ k → m k = none) (hn : (m n).isSome) :
    n < top := by
  refine Nat.lt_of_not_le fun hle => ?_
  rw [htop n hle] at hn
  cases hn

theorem exists_end {top n : Nat} (htop : ∀ k, top ≤ k → m k = none) (hn : (m n).isSome) :
    ∃ stop, n < stop ∧ (∀ k, n ≤ k → k < stop → (m k).isSome) ∧ m stop = none := by
  have hlt := lt_of_isSome htop hn
  induction hd : top - n generalizing n with
  | zero => omega
  | succ d ih =>
    cases hs : m (n + 1) with
    | none =>
      refine ⟨n + 1, Nat.lt_succ_self n, ?_, hs⟩
      intro k hk hks
      rwa [Nat.le_antisymm (Nat.le_of_lt_succ hks) hk]
    | some b =>
      have hn' : (m (n + 1)).isSome := by rw [hs]; rfl
      have hlt' := lt_of_isSome htop hn'
      obtain ⟨stop, h1, h2, h3⟩ := ih hn' hlt' (by omega)
      refine ⟨stop, by omega, ?_, h3⟩
      intro k hk hks
      rcases Nat.eq_or_lt_of_le hk with rfl | hk
      · exact hn
      · exact h2 k hk hks

theorem exists_begin {n : Nat} (hn : (m n).isSome) :
    ∃ start, start ≤ n ∧ (∀ k, start ≤ k → k ≤ n → (m k).isSome) ∧
      ∀ k, k + 1 = start → m k = none := by
  induction n with
  | zero =>
    refine ⟨0, Nat.le_refl _, ?_, fun k hk => absurd hk (Nat.succ_ne_zero k)⟩
    intro k _ hk
    rwa [Nat.le_zero.1 hk]
  | succ n ih =>
    cases hs : m n with
    | none =>
      refine ⟨n + 1, Nat.le_refl _, ?_, ?_⟩
      · intro k h1 h2
        rwa [Nat.le_antisymm h2 h1]
      · intro k hk
        rwa [Nat.succ.inj hk]
    | some b =>
      obtain ⟨start, h1, h2, h3⟩ := ih (by rw [hs]; rfl)
      refine ⟨start, by omega, ?_, h3⟩
      intro k hk hkn
      rcases Nat.lt_or_eq_of_le hkn with hlt | rfl
      · exact h2 k hk (Nat.le_of_lt_succ hlt)
      · exact hn

/-- Readable bytes do not go on past one that cannot be read. -/
theorem end_le {a n stop : Nat} (h : ∀ k, a ≤ k → k < stop → (m k).isSome) (hn : m n = none)
    (ha : a ≤ n) : stop ≤ n := Nat.le_of_not_lt fun hlt => by
  have hsome := h n ha hlt
  rw [hn] at hsome
  cases hsome

/-- Readable bytes end in one place. -/
theorem end_unique {a stop stop' : Nat} (h : ∀ n, a ≤ n → n < stop → (m n).isSome)
    (hs : m stop = none) (ha : a ≤ stop) (h' : ∀ n, a ≤ n → n < stop' → (m n).isSome)
    (hs' : m stop' = none) (ha' : a ≤ stop') : stop = stop' :=
  Nat.le_antisymm (end_le h hs' ha') (end_le h' hs ha)

/-- A lookup at a byte that can be read does not go up. -/
theorem Next.start_le {cursor : Address} {region : Region} (hr : m.Next cursor region)
    (h : (m cursor.toNat).isSome) : region.start ≤ cursor := Nat.le_of_not_lt fun habove => by
  rw [hr.first _ (Nat.le_refl _) habove] at h
  cases h

/-- A lookup at a byte that cannot be read does not go down. -/
theorem Next.le_start {cursor : Address} {region : Region} (hr : m.Next cursor region)
    (h : m cursor.toNat = none) : cursor ≤ region.start := Nat.le_of_not_lt fun hbelow => by
  have hsome := hr.readable cursor.toNat (Nat.le_of_lt hbelow) hr.reaches
  rw [h] at hsome
  cases hsome

/-- What a lookup finds reaches past the cursor. -/
theorem Next.span_lt {cursor : Address} {region : Region} (hr : m.Next cursor region) :
    max region.start cursor < region.stop := by
  have hne := hr.nonempty
  have hreaches := hr.reaches
  rw [Address.lt_def] at *
  rw [Address.toNat_max]
  exact Nat.max_lt.2 ⟨hne, hreaches⟩

/-- Where a memory is bounded, each readable byte lies in a run. -/
theorem exists_isRun {top n : Nat} (htop : ∀ k, top ≤ k → m k = none) (hn : (m n).isSome) :
    ∃ start stop, m.IsRun start stop ∧ start ≤ n ∧ n < stop := by
  obtain ⟨stop, hlt, hup, hends⟩ := exists_end htop hn
  obtain ⟨start, hle, hdown, hbegins⟩ := exists_begin hn
  refine ⟨start, stop, ⟨by omega, ?_, hends, hbegins⟩, hle, hlt⟩
  intro k hk hks
  by_cases hkn : k ≤ n
  · exact hdown k hk hkn
  · exact hup k (by omega) hks

/-- Readable bytes side by side lie in one run. -/
theorem Readable.inRun {top a n : Nat} (htop : ∀ k, top ≤ k → m k = none) (h : m.Readable a n)
    (hn : 0 < n) : ∃ start stop, m.IsRun start stop ∧ start ≤ a ∧ a + n ≤ stop := by
  obtain ⟨start, stop, hrun, hle, hlt⟩ := exists_isRun htop (h 0 hn)
  refine ⟨start, stop, hrun, hle, Nat.le_of_not_lt fun hstop => ?_⟩
  have hs := h.isSome (b := stop) (by omega) hstop
  rw [hrun.ends] at hs
  cases hs

end Memory

def NoReadFailed (errors : List MemoryError) : Prop :=
  ∀ address size reason, .readFailed address size reason ∉ errors

theorem NoReadFailed.append {errors others : List MemoryError} (h : NoReadFailed errors)
    (ho : NoReadFailed others) : NoReadFailed (errors ++ others) := by
  intro address size reason he
  rcases List.mem_append.1 he with he | he
  · exact h address size reason he
  · exact ho address size reason he

theorem noReadFailed_of_unreadable {errors : List MemoryError}
    (h : ∀ error ∈ errors, ∃ start stop, error = .unreadable start stop) :
    NoReadFailed errors := by
  intro address size reason he
  obtain ⟨start, stop, heq⟩ := h _ he
  cases heq

namespace Target

variable {σ : Type}

/-- The target's answers agree with one memory, whatever state it is in. Lookups keep their
contract; of reads any may fail. -/
structure Shows (t : Target σ) (m : Memory) : Prop where
  lookup : ∀ a s, m.Found a (t.lookup a s).1.result
  read : ∀ a n s, m.Gives a n (t.read a n s).1.result

/-- From the states that are `ok`, which no such query leaves, reads of readable bytes succeed, and
no soft error comes from a read. -/
structure Reliable (t : Target σ) (m : Memory) (ok : σ → Prop) : Prop where
  lookup : ∀ a s, ok s → ok (t.lookup a s).2 ∧ NoReadFailed (t.lookup a s).1.softErrors
  read : ∀ a n s, ok s → m.Readable a.toNat n →
    (t.read a n s).1.isOk ∧ ok (t.read a n s).2 ∧ NoReadFailed (t.read a n s).1.softErrors

end Target
end ProcessMemory
