import ProcessMemory.Proofs.Pattern.Words
import ProcessMemory.Proofs.Search.Literal
import ProcessMemory.Proofs.Search.Parts

/-!
# Searches for one of several words

A search for words stops at the first window that shows one whole. Where a window ends inside a
long word, it may still show a short one further up, and the long word is passed over. Every word
that is passed over so begins below the hit and ends above it. Where no word stands inside another
the hit is the lowest.
-/
namespace ProcessMemory

/-- No word stands inside another one, away from both of its ends. -/
def NoneInside (words : List (List UInt8)) : Prop :=
  ∀ word ∈ words, ∀ other ∈ words, ∀ k, 0 < k → k + word.length < other.length →
    ¬word <+: other.drop k

namespace Memory

/-- What a search for words may answer: a place where one of them stands and that every word further
down goes beyond, or none where no word stands. -/
def AnswersAny (m : Memory) (words : List (List UInt8)) (start : Address) : Option Address → Prop
  | some hit =>
    start ≤ hit ∧ ∃ word ∈ words, m.Occurs word hit.toNat ∧
      ∀ other ∈ words, ∀ a, start.toNat ≤ a → a < hit.toNat → m.Occurs other a →
        hit.toNat + word.length < a + other.length
  | none => ∀ word ∈ words, ∀ a, start.toNat ≤ a → ¬m.Occurs word a

variable {m : Memory} {words : List (List UInt8)} {start : Address} {found : Option Address}

theorem AnswersAny.least (h : m.AnswersAny words start found) (hw : NoneInside words) :
    Least (fun a => start.toNat ≤ a ∧ ∃ word ∈ words, m.Occurs word a)
      (found.map Address.toNat) := by
  cases found with
  | none =>
    rintro a ⟨hs, word, hword, ho⟩
    exact h word hword a hs ho
  | some hit =>
    obtain ⟨hs, word, hword, ho, hbeyond⟩ := h
    refine ⟨⟨hs, word, hword, ho⟩, ?_⟩
    rintro a hlt ⟨hsa, other, hother, hoa⟩
    have hend := hbeyond other hother a hsa hlt hoa
    obtain ⟨k, hk⟩ := Nat.exists_eq_add_of_le (Nat.le_of_lt hlt)
    have hholds := ho.holds
    rw [hk] at hholds
    exact hw word hword other hother k (by omega) (by omega)
      ((hoa.holds.prefix_iff (by omega)).2 hholds)

end Memory

section
variable {m : Memory} {words : List (List UInt8)} {p : Pattern} {chunk : Chunk} {g : Grid}
  {start : Address} {chunks : List Chunk} {errors : List MemoryError} {a upTo : Nat}

/-- The match in a chunk is at the lowest address where the chunk shows a word whole. -/
theorem Matcher.pattern_least (hp : p.FindsAny words) (hne : ∀ word ∈ words, word ≠ [])
    (htop : ∀ k, 0xFFFF_FFFF_FFFF_FFFF ≤ k → m k = none)
    (hc : m.Holds chunk.address.toNat chunk.bytes) :
    Least (fun a => ∃ word ∈ words, chunk.Covers a word.length ∧ m.Occurs word a)
      ((Matcher.pattern p chunk).map Address.toNat) := by
  have hiff {word : List UInt8} (hword : word ∈ words) (k : Nat) :
      word <+: chunk.bytes.drop k ↔ chunk.Covers (chunk.address.toNat + k) word.length ∧
        m.Occurs word (chunk.address.toNat + k) := by
    have hpos := List.length_pos_iff.2 (hne word hword)
    constructor
    · intro hpre
      have hlen := hpre.length_le
      rw [List.length_drop] at hlen
      have hk : k + word.length ≤ chunk.bytes.length := by omega
      have hholds := (hc.prefix_iff hk).1 hpre
      exact ⟨⟨Nat.le_add_right _ _, by omega⟩, hholds.occurs htop (hne word hword)⟩
    · rintro ⟨hcov, ho⟩
      have hk := hcov.2
      exact (hc.prefix_iff (by omega)).2 ho.holds
  have hfound := hp chunk.bytes
  rw [Matcher.pattern]
  cases hfind : p.find? chunk.bytes with
  | none =>
    rw [hfind] at hfound
    rintro a ⟨word, hword, hcov, ho⟩
    obtain ⟨k, rfl⟩ := Nat.exists_eq_add_of_le hcov.1
    exact hfound k ⟨word, hword, (hiff hword k).2 ⟨hcov, ho⟩⟩
  | some place =>
    rw [hfind] at hfound
    obtain ⟨⟨word, hword, hpre⟩, hlow⟩ := hfound
    obtain ⟨hcov, ho⟩ := (hiff hword place).1 hpre
    have hpos := List.length_pos_iff.2 (hne word hword)
    have hlt := Memory.lt_of_isSome htop (ho.holds.readable 0 hpos)
    have hhit : (chunk.address.advance place).toNat = chunk.address.toNat + place := by
      rw [Address.toNat_advance]
      omega
    rw [Option.map_some, Option.map_some, hhit]
    refine ⟨⟨word, hword, hcov, ho⟩, ?_⟩
    rintro a hlt ⟨other, hother, hcov, ho⟩
    obtain ⟨k, rfl⟩ := Nat.exists_eq_add_of_le hcov.1
    exact hlow k (by omega) ⟨other, hother, (hiff hother k).2 ⟨hcov, ho⟩⟩

/-- A word that was passed over would have been the match of a chunk. -/
theorem SeenUpTo.not_occurs (h : SeenUpTo m g start none chunks errors upTo)
    (hp : p.FindsAny words) (hne : ∀ word ∈ words, word ≠ [])
    (hwide : ∀ word ∈ words, word.length + g.stride ≤ g.size + 1)
    (htop : ∀ k, 0xFFFF_FFFF_FFFF_FFFF ≤ k → m k = none) (hr : NoReadFailed errors)
    (hold : ∀ chunk ∈ chunks, m.Holds chunk.address.toNat chunk.bytes)
    (missed : ∀ chunk ∈ chunks, Matcher.pattern p chunk = none) {word : List UInt8}
    (hword : word ∈ words) (hs : start.toNat ≤ a) (ha : a < upTo) : ¬m.Occurs word a := by
  intro ho
  have hpos := List.length_pos_iff.2 (hne word hword)
  obtain ⟨chunk, hmem, hcov⟩ :=
    h.exists_covers hr ⟨hpos, hwide word hword, ho.holds.readable, hs, nofun⟩ ha
  have hleast := Matcher.pattern_least hp hne htop (hold chunk hmem)
  rw [missed chunk hmem] at hleast
  exact hleast a ⟨word, hword, hcov, ho⟩

/-- A search for words on a target without failures concludes with an answer. -/
theorem Concludes.answersAny {found : Option Address} (hp : p.FindsAny words)
    (hne : ∀ word ∈ words, word ≠ []) (hwide : ∀ word ∈ words, word.length + g.stride ≤ g.size + 1)
    (htop : ∀ k, 0xFFFF_FFFF_FFFF_FFFF ≤ k → m k = none) (hr : NoReadFailed errors)
    (h : Concludes m g start (.pattern p) errors found) : m.AnswersAny words start found := by
  cases h with
  | nothing hold missed seen =>
    intro word hword a hs
    exact (seen (a + 1)).not_occurs hp hne hwide htop hr hold missed hword hs (Nat.lt_succ_self a)
  | @hit chunks chunk address hold missed seen start_le holds hit =>
    have hleast := Matcher.pattern_least hp hne htop holds
    rw [hit] at hleast
    obtain ⟨⟨word, hword, hcov, ho⟩, hlow⟩ := hleast
    refine ⟨Nat.le_trans start_le hcov.1, word, hword, ho, ?_⟩
    intro other hother a hs ha hoa
    by_cases hbelow : a < chunk.address.toNat
    · exact absurd hoa (seen.not_occurs hp hne hwide htop hr hold missed hother hs hbelow)
    · refine Nat.lt_of_not_le fun hle => hlow a ha ⟨other, hother, ?_, hoa⟩
      exact ⟨Nat.le_of_not_lt hbelow, Nat.le_trans hle hcov.2⟩

end

namespace SegmentedProcess

variable {p : SegmentedProcess}

/-- Without faults, a search for words that fill no more than half a chunk each finds one where
there is one. The words that it passes over all begin below the hit and end above it, so that it
finds the lowest where no word stands inside another. -/
theorem findPattern_words (hp : p.Fits) (choose : Nat → Nat) {options : SearchOptions}
    (hsize : 2 ≤ options.bufferSize) (start : Address) {pattern : Pattern}
    {words : List (List UInt8)} (hpattern : pattern.FindsAny words)
    (hne : ∀ word ∈ words, word ≠ [])
    (hle : ∀ word ∈ words, word.length ≤ options.bufferSize / 2) {w : Wear}
    (hfaults : w.faults = []) :
    ∃ found,
      (findPattern (p.targetChoosing choose) options start pattern w).outcome.result = .ok found ∧
      p.memory.AnswersAny words start found ∧
      (NoneInside words →
        Least (fun a => start.toNat ≤ a ∧ ∃ word ∈ words, p.memory.Occurs word a)
          (found.map Address.toNat)) := by
  have hpos : 0 < options.bufferSize := by omega
  have hshows := shows hp choose
  obtain ⟨found, hok, hc⟩ := search_concludes hshows start hpos (.pattern pattern) w
  have hr := search_noReadFailed hshows (reliable hp choose) start hpos (.pattern pattern) hfaults
  have hwide : ∀ word ∈ words, word.length + (Grid.sliding options.bufferSize hpos).stride ≤
      (Grid.sliding options.bufferSize hpos).size + 1 := by
    intro word hword
    have hhalf := hle word hword
    exact Grid.sliding_wide hpos (by omega)
  have hanswers := hc.answersAny hpattern hne hwide (fun k hk => memory_eq_none_of_le hp hk) hr
  exact ⟨found, hok, hanswers, fun hw => hanswers.least hw⟩

/-- Of two words that overlap the lower one is found, though it lies across two segments. -/
theorem findPattern_words_touching :
    let words : List (List UInt8) := [[3, 4], [4, 5]]
    let options : SearchOptions := { bufferSize := 4 }
    touching.Fits ∧ 2 ≤ options.bufferSize ∧ (Pattern.anyOf words).FindsAny words ∧
      (∀ word ∈ words, word ≠ []) ∧ (∀ word ∈ words, word.length ≤ options.bufferSize / 2) ∧
      NoneInside words ∧
      (findPattern touching.target options 0x10 (.anyOf words) {}).outcome.result =
        .ok (some 0x12) := by
  intro words options
  have hp : touching.Fits := by decide
  have hsize : 2 ≤ options.bufferSize := by decide
  have hne : ∀ word ∈ words, word ≠ [] := by decide
  have hfinds := Pattern.anyOf_findsAny hne
  have hle : ∀ word ∈ words, word.length ≤ options.bufferSize / 2 := by decide
  have hlength : ∀ word ∈ words, word.length = 2 := by decide
  have hinside : NoneInside words := by
    intro word hword other hother k hk hlt
    rw [hlength word hword, hlength other hother] at hlt
    omega
  obtain ⟨found, hok, -, hleast⟩ :=
    findPattern_words hp (fun _ => 0) hsize 0x10 hfinds hne hle (w := {}) rfl
  have hholds : touching.memory.Holds 0x12 [3, 4] := by decide
  have hthere : touching.memory.Occurs [3, 4] 0x12 :=
    hholds.occurs (fun k hk => memory_eq_none_of_le hp hk) (by decide)
  have hfound : found.map Address.toNat = some 0x12 := by
    refine (hleast hinside).eq_some ⟨by decide, [3, 4], List.mem_cons_self, hthere⟩ fun k hk => ?_
    rintro ⟨hs, word, hword, ho⟩
    have hk' : k = 0x10 ∨ k = 0x11 := by
      change 0x10 ≤ k at hs
      omega
    have hbyte := ho.holds 0 (by rw [hlength word hword]; decide)
    simp only [words, List.mem_cons, List.not_mem_nil, or_false] at hword
    rcases hk' with rfl | rfl <;> rcases hword with rfl | rfl <;> exact absurd hbyte (by decide)
  obtain ⟨hit, rfl, hhit⟩ := Option.map_eq_some_iff.1 hfound
  obtain rfl : hit = 0x12 := Address.ext hhit
  exact ⟨hp, hsize, hfinds, hne, hle, hinside, hok⟩

def cutOff : SegmentedProcess where
  pid := 1
  segments := [⟨0x1000, [0x78, 0x78, 0x78, 0x78, 0x61, 0x62, 0x63], true⟩]
  nonempty := by decide
  ordered := by decide

/-- The first window cuts off the longer word and shows the shorter one that stands inside it. -/
theorem findPattern_not_lowest :
    let words : List (List UInt8) := [[0x61, 0x62, 0x63], [0x62]]
    let options : SearchOptions := { bufferSize := 6 }
    cutOff.Fits ∧ 2 ≤ options.bufferSize ∧ (Pattern.anyOf words).FindsAny words ∧
      (∀ word ∈ words, word ≠ []) ∧ (∀ word ∈ words, word.length ≤ options.bufferSize / 2) ∧
      (findPattern cutOff.target options 0 (.anyOf words) {}).outcome.result =
        .ok (some 0x1005) ∧
      cutOff.memory.Occurs [0x61, 0x62, 0x63] 0x1004 := by
  intro words options
  have hp : cutOff.Fits := by decide
  have hne : ∀ word ∈ words, word ≠ [] := by decide
  have hfinds := Pattern.anyOf_findsAny hne
  have hsize : 0 < options.bufferSize := by decide
  have hlists : Lists cutOff.lookup 0 [⟨0x1000, 7⟩] := by
    refine .cons rfl (by decide) ⟨by decide, by decide⟩ (fun r hr => nomatch hr) ?_
    exact .nil rfl
  have hparts : Parts cutOff 0 [⟨0x1000, 7⟩] _ := hlists.parts hp
  obtain ⟨hresult, -⟩ :=
    search_parts hp (fun _ => 0) hparts hsize (.pattern (.anyOf words)) {}
  have hholds : cutOff.memory.Holds 0x1004 [0x61, 0x62, 0x63] := by decide
  refine ⟨hp, by decide, hfinds, hne, by decide, ?_, ?_⟩
  · have hvisits : cutOff.visitsOf (Grid.sliding 6 (Nat.zero_lt_succ 5)) [] [⟨0x1000, 7⟩] = _ :=
      (List.append_nil _).trans ((dif_pos (by decide)).trans (visits_shown (by decide)))
    have hfind : (Pattern.anyOf words).find? [0x78, 0x78, 0x78, 0x78, 0x61, 0x62] = some 5 :=
      (hfinds _).eq_some (by decide) (by decide)
    have hwindow : cutOff.memory.Holds 0x1000 [0x78, 0x78, 0x78, 0x78, 0x61, 0x62] := by decide
    refine hresult.trans (congrArg Except.ok ?_)
    change (shownOf (cutOff.visitsOf _ [] [⟨0x1000, 7⟩])).findSome? _ = _
    rw [hvisits, shownOf_shown, shown_eq hp hwindow (by decide), List.findSome?_cons,
      Matcher.pattern, hfind]
    rfl
  · exact hholds.occurs (fun k hk => memory_eq_none_of_le hp hk) (by decide)

end SegmentedProcess
end ProcessMemory
