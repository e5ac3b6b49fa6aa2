import ProcessMemory.Text.Utf8

/-!
# Reading what UTF-8 writes

The decoder takes just the sequences that the encoder writes (`decode?_eq_some_iff`): a lead byte,
and then the bits of the code point that it leaves, six to a byte (`tails`). No sequence starts with
a byte that continues one, so none starts inside another.
-/
namespace ProcessMemory

theorem byte_eq_ofNat {b : UInt8} {n : Nat} (h : b.toNat = n) : UInt8.ofNat n = b := by
  rw [← h, UInt8.ofNat_toNat]

theorem toNat_ofNat_of_lt {n : Nat} (h : n < 0x100) : (UInt8.ofNat n).toNat = n := by
  rw [UInt8.toNat_ofNat']
  exact Nat.mod_eq_of_lt h

/-- Code points lie below the surrogates, or between them and the last one. -/
theorem codePoint_valid (c : Char) : c.toNat < 0xD800 ∨ 0xDFFF < c.toNat ∧ c.toNat < 0x110000 :=
  c.valid

namespace Utf8

variable {a b : UInt8} {bytes rest : List UInt8} {c : Char} {width : Nat}

def IsTail (b : UInt8) : Prop := 0x80 ≤ b.toNat ∧ b.toNat < 0xC0

/-- What a number has above its lowest bits, of which a byte that continues a sequence holds six. -/
def above : (count n : Nat) → Nat
  | 0, n => n
  | count + 1, n => above count n / 64

def tails : (count n : Nat) → List UInt8
  | 0, _ => []
  | count + 1, n => tail (above count n) :: tails count n

theorem toNat_tail (n : Nat) : (tail n).toNat = 0x80 + n % 64 := toNat_ofNat_of_lt (by omega)

theorem isTail_of_mem_tails {count n : Nat} (h : b ∈ tails count n) : IsTail b := by
  induction count with
  | zero => cases h
  | succ count ih =>
    rcases List.mem_cons.1 h with rfl | h
    · rw [IsTail, toNat_tail]
      omega
    · exact ih h

@[simp] theorem length_tails (count n : Nat) : (tails count n).length = count := by
  induction count with
  | zero => rfl
  | succ count ih => rw [tails, List.length_cons, ih]

theorem continuation?_eq_some {n : Nat} :
    continuation? b = some n ↔ n < 64 ∧ b.toNat = 0x80 + n := by
  unfold continuation?
  split
  · rw [Option.some.injEq]
    omega
  · simp only [reduceCtorEq, false_iff]
    omega

/-- The bytes read are the lowest bits of the value, and the rest of it was there before. -/
theorem continuations?_eq_some {count high value : Nat} :
    continuations? count high bytes = some value ↔
      tails count value <+: bytes ∧ above count value = high := by
  induction count generalizing high bytes with
  | zero => simp [continuations?, tails, above, eq_comm]
  | succ count ih =>
    cases bytes with
    | nil => simp [continuations?, tails]
    | cons b rest =>
      have hbyte (n : Nat) : tail n = b ↔ b.toNat = 0x80 + n % 64 := by
        rw [← toNat_tail n]
        exact ⟨fun h => h ▸ rfl, fun h => (UInt8.toNat.inj h).symm⟩
      simp only [continuations?, Option.bind_eq_bind, Option.bind_eq_some_iff,
        continuation?_eq_some, ih, tails, above, List.cons_prefix_cons, hbyte]
      constructor
      · rintro ⟨n, ⟨hn, hb⟩, hpre, hvalue⟩
        exact ⟨⟨by omega, hpre⟩, by omega⟩
      · rintro ⟨⟨hb, hpre⟩, rfl⟩
        exact ⟨_, ⟨Nat.mod_lt _ (by decide), hb⟩, hpre, by omega⟩

theorem sequence?_eq_some {high count least : Nat} :
    sequence? high count least rest = some (c, width) ↔
      tails count c.toNat <+: rest ∧ above count c.toNat = high ∧ least ≤ c.toNat ∧
        count + 1 = width := by
  rw [← and_assoc, ← continuations?_eq_some, sequence?]
  cases continuations? count high rest with
  | none => simp
  | some value =>
    by_cases hl : value < least
    · simp only [Option.bind_eq_bind, Option.bind_some, hl, if_true, Option.some.injEq]
      constructor
      · exact nofun
      · rintro ⟨rfl, hle, -⟩
        exact absurd hl (Nat.not_lt_of_le hle)
    · simp only [Option.bind_eq_bind, Option.bind_some, hl, if_false, Option.bind_eq_some_iff,
        Option.some.injEq, charOf?_eq_some]
      constructor
      · rintro ⟨d, rfl, heq⟩
        cases heq
        exact ⟨rfl, Nat.le_of_not_lt hl, rfl⟩
      · rintro ⟨rfl, -, rfl⟩
        exact ⟨c, rfl, rfl⟩

/-- The sequence of a character, one form for each number of bytes. -/
inductive IsSequence (c : Char) : List UInt8 → Prop where
  | one {a : UInt8} (h : c.toNat < 0x80) (ha : a.toNat = c.toNat) : IsSequence c [a]
  | two {a : UInt8} (h : 0x80 ≤ c.toNat) (h' : c.toNat < 0x800)
    (ha : a.toNat = 0xC0 + c.toNat / 64) : IsSequence c (a :: tails 1 c.toNat)
  | three {a : UInt8} (h : 0x800 ≤ c.toNat) (h' : c.toNat < 0x10000)
    (ha : a.toNat = 0xE0 + c.toNat / 4096) : IsSequence c (a :: tails 2 c.toNat)
  | four {a : UInt8} (h : 0x10000 ≤ c.toNat) (ha : a.toNat = 0xF0 + c.toNat / 262144) :
    IsSequence c (a :: tails 3 c.toNat)

theorem IsSequence.encode_eq {seq : List UInt8} (h : IsSequence c seq) : encode c = seq := by
  unfold encode
  dsimp only
  cases h with
  | one h ha => rw [if_pos h, byte_eq_ofNat ha]
  | two h h' ha =>
    rw [if_neg (by omega), if_pos h', byte_eq_ofNat ha]
    rfl
  | three h h' ha =>
    rw [if_neg (by omega), if_neg (by omega), if_pos h', byte_eq_ofNat ha]
    rfl
  | four h ha =>
    rw [if_neg (by omega), if_neg (by omega), if_neg (by omega), byte_eq_ofNat ha]
    simp only [tails, above, Nat.div_div_eq_div_mul, Nat.reduceMul]

theorem isSequence_encode (c : Char) : IsSequence c (encode c) := by
  have hvalid := codePoint_valid c
  have key {seq : List UInt8} (h : IsSequence c seq) : IsSequence c (encode c) :=
    h.encode_eq ▸ h
  by_cases h1 : c.toNat < 0x80
  · exact key (.one h1 (toNat_ofNat_of_lt (by omega)))
  · by_cases h2 : c.toNat < 0x800
    · exact key (.two (by omega) h2 (toNat_ofNat_of_lt (by omega)))
    · by_cases h3 : c.toNat < 0x10000
      · exact key (.three (by omega) h3 (toNat_ofNat_of_lt (by omega)))
      · exact key (.four (by omega) (toNat_ofNat_of_lt (by omega)))

theorem isSequence_of_decode? (h : decode? bytes = some (c, width)) :
    ∃ seq, IsSequence c seq ∧ seq <+: bytes ∧ seq.length = width := by
  cases bytes with
  | nil => cases h
  | cons a rest =>
    unfold decode? at h
    dsimp only at h
    split at h
    · obtain ⟨d, hd, heq⟩ := Option.map_eq_some_iff.1 h
      cases heq
      rw [charOf?_eq_some] at hd
      exact ⟨[a], .one (by omega) hd.symm, ⟨rest, rfl⟩, rfl⟩
    split at h
    · cases h
    -- The lead byte gives the bits that the bytes after it leave.
    split at h
    · obtain ⟨hpre, hhigh, hleast, rfl⟩ := sequence?_eq_some.1 h
      simp only [above] at hhigh
      refine ⟨_, .two hleast (by omega) (a := a) (by omega), ?_, rfl⟩
      exact List.cons_prefix_cons.2 ⟨rfl, hpre⟩
    split at h
    · obtain ⟨hpre, hhigh, hleast, rfl⟩ := sequence?_eq_some.1 h
      simp only [above] at hhigh
      refine ⟨_, .three hleast (by omega) (a := a) (by omega), ?_, rfl⟩
      exact List.cons_prefix_cons.2 ⟨rfl, hpre⟩
    split at h
    · obtain ⟨hpre, hhigh, hleast, rfl⟩ := sequence?_eq_some.1 h
      simp only [above] at hhigh
      refine ⟨_, .four hleast (a := a) (by omega), ?_, rfl⟩
      exact List.cons_prefix_cons.2 ⟨rfl, hpre⟩
    · cases h

theorem IsSequence.decode? {seq : List UInt8} (h : IsSequence c seq) (rest : List UInt8) :
    decode? (seq ++ rest) = some (c, seq.length) := by
  have hvalid := codePoint_valid c
  cases h with
  | one h ha =>
    have hchar : charOf? c.toNat = some c := charOf?_eq_some.2 rfl
    simp [Utf8.decode?, ha, h, hchar]
  | two h h' ha =>
    rw [List.cons_append, Utf8.decode?, if_neg (by omega), if_neg (by omega), if_pos (by omega)]
    exact sequence?_eq_some.2 ⟨List.prefix_append _ _, by simp only [above]; omega, h, by simp⟩
  | three h h' ha =>
    rw [List.cons_append, Utf8.decode?, if_neg (by omega), if_neg (by omega), if_neg (by omega),
      if_pos (by omega)]
    exact sequence?_eq_some.2 ⟨List.prefix_append _ _, by simp only [above]; omega, h, by simp⟩
  | four h ha =>
    rw [List.cons_append, Utf8.decode?, if_neg (by omega), if_neg (by omega), if_neg (by omega),
      if_neg (by omega), if_pos (by omega)]
    exact sequence?_eq_some.2 ⟨List.prefix_append _ _, by simp only [above]; omega, h, by simp⟩

/-- The decoder takes what the encoder writes, and nothing else. -/
theorem decode?_eq_some_iff :
    decode? bytes = some (c, width) ↔ encode c <+: bytes ∧ (encode c).length = width := by
  constructor
  · intro h
    obtain ⟨seq, hseq, hpre, hlen⟩ := isSequence_of_decode? h
    rw [hseq.encode_eq]
    exact ⟨hpre, hlen⟩
  · rintro ⟨⟨rest, rfl⟩, rfl⟩
    exact (isSequence_encode c).decode? rest

/-- A sequence starts with a byte that continues none, and goes on with bytes that do. -/
theorem encode_eq_cons (c : Char) :
    ∃ a rest, encode c = a :: rest ∧ ¬IsTail a ∧ ∀ b ∈ rest, IsTail b := by
  have hvalid := codePoint_valid c
  have hseq := isSequence_encode c
  generalize encode c = seq at hseq
  cases hseq with
  | one h ha => exact ⟨_, _, rfl, by rw [IsTail]; omega, nofun⟩
  | two h h' ha => exact ⟨_, _, rfl, by rw [IsTail]; omega, fun _ => isTail_of_mem_tails⟩
  | three h h' ha => exact ⟨_, _, rfl, by rw [IsTail]; omega, fun _ => isTail_of_mem_tails⟩
  | four h ha => exact ⟨_, _, rfl, by rw [IsTail]; omega, fun _ => isTail_of_mem_tails⟩

/-- A sequence has as many bytes as places in a text are counted by. -/
theorem length_encode (c : Char) : (encode c).length = c.utf8Size := by
  have hsize (n : UInt32) : c.val ≤ n ↔ c.toNat ≤ n.toNat := UInt32.le_iff_toNat_le
  have hseq := isSequence_encode c
  unfold Char.utf8Size
  simp only [hsize, UInt32.toNat_ofNatLT]
  generalize encode c = seq at hseq
  cases hseq with
  | one h ha => rw [if_pos (Nat.le_of_lt_succ h)]; rfl
  | two h h' ha => rw [if_neg (Nat.not_le_of_lt h), if_pos (Nat.le_of_lt_succ h')]; rfl
  | three h h' ha =>
    rw [if_neg (by omega), if_neg (Nat.not_le_of_lt h), if_pos (Nat.le_of_lt_succ h')]; rfl
  | four h ha =>
    rw [if_neg (by omega), if_neg (by omega), if_neg (Nat.not_le_of_lt h)]; rfl

end Utf8
end ProcessMemory
