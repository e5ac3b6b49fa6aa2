import ProcessMemory.Proofs.Search.Literal
import ProcessMemory.Proofs.Text.Matches

/-!
# Searches for text

A search for a text finds the lowest address at which it stands in one of the charsets. The chunks
overlap by so much that every place lies whole in one of them, and decoding a chunk misses nothing
in it, wherever it begins.
-/
namespace ProcessMemory

instance : Std.IsLinearOrder Address where
  le_refl a := Nat.le_refl a.toNat
  le_trans _ _ _ := Nat.le_trans
  le_antisymm _ _ h h' := Address.ext (Nat.le_antisymm h h')
  le_total a b := Nat.le_total a.toNat b.toNat

instance : Std.LawfulOrderMin Address where
  min_eq_or a b := by
    change (if a ≤ b then a else b) = a ∨ (if a ≤ b then a else b) = b
    split
    · exact .inl rfl
    · exact .inr rfl
  le_min_iff a b c := by
    rw [Address.le_def, Address.le_def, Address.le_def, Address.toNat_min]
    exact Nat.le_min

namespace Matcher

variable {p : Pattern} {text : List Char} {chunk : Chunk} {charsets : List Charset}

/-- The lowest match in a chunk is at the lowest address at which the text stands in it. -/
theorem text_least (hp : p.FindsFirst text) (ht : text ≠ [])
    (henc : ∀ c ∈ charsets, ∃ enc, c.encoding.encodeText? text = some enc)
    (hfit : chunk.address.toNat + chunk.bytes.length ≤ 0xFFFF_FFFF_FFFF_FFFF) :
    Least (fun a => ∃ c ∈ charsets, c.StandsIn text chunk.bytes chunk.address a)
      ((Matcher.text p.findText? charsets chunk).map Address.toNat) := by
  have hleast : ∀ c ∈ charsets, Least (c.StandsIn text chunk.bytes chunk.address)
      ((textIn p.findText? c chunk).map Address.toNat) := by
    intro c hc
    obtain ⟨enc, henc⟩ := henc c hc
    obtain ⟨runs, hall, hruns⟩ := TextRun.exists_runs c hfit
    rw [textIn, hall]
    exact hruns.least hp ht henc hfit
  cases hmin : Matcher.text p.findText? charsets chunk with
  | none =>
    rintro a ⟨c, hc, ha⟩
    have hnone : textIn p.findText? c chunk = none :=
      List.filterMap_eq_nil_iff.1 (List.min?_eq_none_iff.1 hmin) c hc
    have hc := hleast c hc
    rw [hnone] at hc
    exact hc a ha
  | some hit =>
    obtain ⟨hmem, hle⟩ := List.min?_eq_some_iff.1 hmin
    obtain ⟨c, hc, heq⟩ := List.mem_filterMap.1 hmem
    have hhit := hleast c hc
    rw [heq] at hhit
    refine ⟨⟨c, hc, hhit.1⟩, ?_⟩
    rintro a hlt ⟨c', hc', ha⟩
    have hother := hleast c' hc'
    cases heq' : textIn p.findText? c' chunk with
    | none =>
      rw [heq'] at hother
      exact hother a ha
    | some b =>
      rw [heq'] at hother
      have hhb : hit.toNat ≤ b.toNat := hle b (List.mem_filterMap.2 ⟨c', hc', heq'⟩)
      exact hother.2 a (Nat.lt_of_lt_of_le hlt hhb) ha

end Matcher

/-- The text stands at `a` in one of the charsets, inside one run. -/
def Memory.HasText (m : Memory) (charsets : List Charset) (text : List Char) (a : Nat) : Prop :=
  ∃ c ∈ charsets, a % c.encoding.unit = c.residue ∧
    ∃ enc, c.encoding.encodeText? text = some enc ∧ m.Occurs enc a

section
variable {m : Memory} {charsets : List Charset} {text : List Char} {chunk : Chunk} {p : Pattern}
  {size a : Nat}

/-- The charsets write the text in one number of bytes. -/
def WrittenIn (charsets : List Charset) (text : List Char) (size : Nat) : Prop :=
  ∀ c ∈ charsets, ∃ enc, c.encoding.encodeText? text = some enc ∧ enc.length = size

theorem WrittenIn.length_eq (h : WrittenIn charsets text size) {c : Charset} (hc : c ∈ charsets)
    {enc : List UInt8} (henc : c.encoding.encodeText? text = some enc) : enc.length = size := by
  obtain ⟨enc', henc', hlen⟩ := h c hc
  cases henc.symm.trans henc'
  exact hlen

theorem WrittenIn.encodable (h : WrittenIn charsets text size) :
    ∀ c ∈ charsets, ∃ enc, c.encoding.encodeText? text = some enc := by
  intro c hc
  obtain ⟨enc, henc, -⟩ := h c hc
  exact ⟨enc, henc⟩

theorem WrittenIn.pos (h : WrittenIn charsets text size) (hcs : charsets ≠ []) (ht : text ≠ []) :
    0 < size := by
  obtain ⟨c, charsets, rfl⟩ := List.exists_cons_of_ne_nil hcs
  obtain ⟨enc, henc, rfl⟩ := h c List.mem_cons_self
  refine List.length_pos_iff.2 fun hnil => ?_
  have hstarts := Encoding.starts_of_text ht henc (List.prefix_refl _)
  rw [hnil] at hstarts
  exact Encoding.not_starts_nil hstarts

/-- A chunk of bytes that memory holds ends below the top. -/
theorem Memory.Holds.fits (hc : m.Holds chunk.address.toNat chunk.bytes)
    (htop : ∀ k, 0xFFFF_FFFF_FFFF_FFFF ≤ k → m k = none) :
    chunk.address.toNat + chunk.bytes.length ≤ 0xFFFF_FFFF_FFFF_FFFF := by
  cases hlen : chunk.bytes.length with
  | zero => exact Nat.le_of_lt_succ chunk.address.isLt
  | succ n => exact Memory.lt_of_isSome htop (hc.readable n (hlen ▸ Nat.lt_succ_self n))

/-- Where a chunk covers a place, the text stands there in the chunk if it does in memory. -/
theorem Memory.Holds.hasText_iff (hw : WrittenIn charsets text size)
    (htop : ∀ k, 0xFFFF_FFFF_FFFF_FFFF ≤ k → m k = none) (hpos : 0 < size)
    (hc : m.Holds chunk.address.toNat chunk.bytes) (ha : chunk.Covers a size) :
    m.HasText charsets text a ↔
      ∃ c ∈ charsets, c.StandsIn text chunk.bytes chunk.address a := by
  obtain ⟨k, rfl⟩ := Nat.exists_eq_add_of_le ha.1
  have hk := ha.2
  have hiff {c : Charset} (hmem : c ∈ charsets) {enc : List UInt8}
      (henc : c.encoding.encodeText? text = some enc) :
      enc <+: chunk.bytes.drop k ↔ m.Occurs enc (chunk.address.toNat + k) := by
    have hlen := hw.length_eq hmem henc
    have hne : enc ≠ [] := List.length_pos_iff.1 (hlen ▸ hpos)
    rw [hc.prefix_iff (by omega)]
    exact ⟨fun h => h.occurs htop hne, fun h => h.holds⟩
  constructor
  · rintro ⟨c, hmem, haligned, enc, henc, hoccurs⟩
    refine ⟨c, hmem, Nat.le_add_right _ _, haligned, enc, henc, ?_⟩
    rw [Nat.add_sub_cancel_left]
    exact (hiff hmem henc).2 hoccurs
  · rintro ⟨c, hmem, -, haligned, enc, henc, hpre⟩
    rw [Nat.add_sub_cancel_left] at hpre
    exact ⟨c, hmem, haligned, enc, henc, (hiff hmem henc).1 hpre⟩

/-- Whatever was passed over lay whole in a chunk that has no match. -/
theorem SeenUpTo.not_hasText {g : Grid} {start : Address} {chunks : List Chunk}
    {errors : List MemoryError} {upTo : Nat} (h : SeenUpTo m g start none chunks errors upTo)
    (htop : ∀ k, 0xFFFF_FFFF_FFFF_FFFF ≤ k → m k = none) (hp : p.FindsFirst text)
    (ht : text ≠ []) (hcs : charsets ≠ []) (hw : WrittenIn charsets text size)
    (hwide : size + g.stride ≤ g.size + 1) (hr : NoReadFailed errors)
    (hold : ∀ chunk ∈ chunks, m.Holds chunk.address.toNat chunk.bytes)
    (missed : ∀ chunk ∈ chunks, Matcher.text p.findText? charsets chunk = none)
    (hs : start.toNat ≤ a) (ha : a < upTo) : ¬m.HasText charsets text a := by
  intro htext
  have hpos := hw.pos hcs ht
  have hreadable : m.Readable a size := by
    obtain ⟨c, hc, -, enc, henc, hoccurs⟩ := htext
    exact hw.length_eq hc henc ▸ hoccurs.holds.readable
  obtain ⟨chunk, hmem, hcov⟩ := h.exists_covers hr ⟨hpos, hwide, hreadable, hs, nofun⟩ ha
  have hholds := hold chunk hmem
  have hleast := Matcher.text_least hp ht hw.encodable (hholds.fits htop)
  rw [missed chunk hmem] at hleast
  exact hleast a ((hholds.hasText_iff hw htop hpos hcov).1 htext)

/-- A search for a text on a target without failures concludes with the lowest address. -/
theorem Concludes.least {g : Grid} {start : Address} {errors : List MemoryError}
    {found : Option Address} (htop : ∀ k, 0xFFFF_FFFF_FFFF_FFFF ≤ k → m k = none)
    (hp : p.FindsFirst text) (ht : text ≠ []) (hcs : charsets ≠ [])
    (hw : WrittenIn charsets text size) (hwide : size + g.stride ≤ g.size + 1)
    (hr : NoReadFailed errors) (h : Concludes m g start (.text p.findText? charsets) errors found) :
    Least (fun a => start.toNat ≤ a ∧ m.HasText charsets text a) (found.map Address.toNat) := by
  have hpos := hw.pos hcs ht
  cases h with
  | nothing hold missed seen =>
    rintro a ⟨hs, htext⟩
    exact (seen (a + 1)).not_hasText htop hp ht hcs hw hwide hr hold missed hs
      (Nat.lt_succ_self a) htext
  | @hit chunks chunk address hold missed seen start_le holds hit =>
    have hleast := Matcher.text_least hp ht hw.encodable (holds.fits htop)
    rw [hit] at hleast
    obtain ⟨hstands, hlow⟩ := hleast
    have hcov : chunk.Covers address.toNat size := by
      obtain ⟨c, hc, hle, -, enc, henc, hpre⟩ := hstands
      have hlen := hpre.length_le
      rw [hw.length_eq hc henc, List.length_drop] at hlen
      exact ⟨hle, by omega⟩
    refine ⟨⟨Nat.le_trans start_le hcov.1, (holds.hasText_iff hw htop hpos hcov).2 hstands⟩, ?_⟩
    rintro a hlt ⟨hs, htext⟩
    by_cases hbelow : a < chunk.address.toNat
    · exact seen.not_hasText htop hp ht hcs hw hwide hr hold missed hs hbelow htext
    · have hcov' : chunk.Covers a size := ⟨Nat.le_of_not_lt hbelow, by have := hcov.2; omega⟩
      exact hlow a hlt ((holds.hasText_iff hw htop hpos hcov').1 htext)

end

namespace SegmentedProcess

variable {p : SegmentedProcess}

/-- Without faults, searching for a text that fills no more than half a chunk finds the lowest
address at which it stands in one of the charsets. -/
theorem findText_lowest (hp : p.Fits) (choose : Nat → Nat) {options : SearchOptions}
    (hsize : 2 ≤ options.bufferSize) (start : Address) {pattern : Pattern} {text : List Char}
    (hpattern : pattern.FindsFirst text) (ht : text ≠ []) {charsets : List Charset}
    (hcs : charsets ≠ []) {size : Nat} (hw : WrittenIn charsets text size)
    (hle : size ≤ options.bufferSize / 2) {w : Wear} (hfaults : w.faults = []) :
    ∃ found,
      (findText (p.targetChoosing choose) options start pattern charsets w).outcome.result =
        .ok found ∧
      Least (fun a => start.toNat ≤ a ∧ p.memory.HasText charsets text a)
        (found.map Address.toNat) := by
  have hpos : 0 < options.bufferSize := by omega
  have hempty : ¬charsets.isEmpty := fun he => hcs (List.isEmpty_iff.1 he)
  have hshows := shows hp choose
  obtain ⟨found, hok, hc⟩ :=
    search_concludes hshows start hpos (.text pattern.findText? charsets) w
  have hr := search_noReadFailed hshows (reliable hp choose) start hpos
    (.text pattern.findText? charsets) hfaults
  rw [findText, findTextMatch, if_neg hempty]
  refine ⟨found, hok, hc.least (fun k hk => memory_eq_none_of_le hp hk) hpattern ht hcs hw ?_ hr⟩
  exact Grid.sliding_wide hpos (by omega)

/-- A text that lies across two segments is found, in either of two charsets. -/
theorem findText_lowest_touching :
    let text := ['\x03', '\x04']
    let charsets : List Charset := [.utf8, .windows1252]
    let options : SearchOptions := {}
    touching.Fits ∧ 2 ≤ options.bufferSize ∧ (Pattern.literal text).FindsFirst text ∧ text ≠ [] ∧
      charsets ≠ [] ∧ WrittenIn charsets text 2 ∧ 2 ≤ options.bufferSize / 2 ∧
      (findText touching.target options 0x10 (.literal text) charsets {}).outcome.result =
        .ok (some 0x12) := by
  intro text charsets options
  have hp : touching.Fits := by decide
  have hsize : 2 ≤ options.bufferSize := by decide
  have ht : text ≠ [] := by decide
  have hfinds := Pattern.literal_findsFirst ht
  have hcs : charsets ≠ [] := by decide
  have hle : 2 ≤ options.bufferSize / 2 := by decide
  have hw : WrittenIn charsets text 2 := by
    intro c hc
    refine ⟨[3, 4], ?_, rfl⟩
    simp only [charsets, List.mem_cons, List.not_mem_nil, or_false] at hc
    rcases hc with rfl | rfl
    · rfl
    · rfl
  obtain ⟨found, hok, hleast⟩ :=
    findText_lowest hp (fun _ => 0) hsize 0x10 hfinds ht hcs hw hle (w := {}) rfl
  have hholds : touching.memory.Holds 0x12 [3, 4] := by decide
  have hthere : touching.memory.HasText charsets text 0x12 := by
    refine ⟨.utf8, List.mem_cons_self, rfl, [3, 4], rfl, ?_⟩
    exact hholds.occurs (fun k hk => memory_eq_none_of_le hp hk) (by decide)
  have hfound : found.map Address.toNat = some 0x12 := by
    refine hleast.eq_some ⟨by decide, hthere⟩ fun k hk => ?_
    rintro ⟨hs, c, hc, -, enc, henc, ho⟩
    have hlen := hw.length_eq hc henc
    have hk' : k = 0x10 ∨ k = 0x11 := by
      change 0x10 ≤ k at hs
      omega
    have hfirst : enc[0]? = some 3 := by
      simp only [charsets, List.mem_cons, List.not_mem_nil, or_false] at hc
      rcases hc with rfl | rfl
      · cases henc
        rfl
      · cases henc
        rfl
    have hbyte := (ho.holds 0 (by omega)).trans hfirst
    rcases hk' with rfl | rfl
    · exact absurd hbyte (by decide)
    · exact absurd hbyte (by decide)
  obtain ⟨hit, rfl, hhit⟩ := Option.map_eq_some_iff.1 hfound
  obtain rfl : hit = 0x12 := Address.ext hhit
  exact ⟨hp, hsize, hfinds, ht, hcs, hw, hle, hok⟩

end SegmentedProcess
end ProcessMemory
