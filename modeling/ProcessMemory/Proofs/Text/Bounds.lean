import ProcessMemory.Proofs.Text.Checked
import ProcessMemory.Proofs.Text.Runs

/-!
# Decoding stays in bounds

A run is found by its offset in a buffer, and all runs by their offsets one after another. With
every sum, difference and slice on the way checked (`checkedNext?`, `checkedAll?`) the runs are the
same, in any buffer and at any address: no offset leaves the buffer. What fails is the step to the first
unit at an odd address, for bytes at the highest address, since it takes the address after it.
-/
namespace ProcessMemory

/-! ## Offsets -/

namespace Encoding

variable {e : Encoding} {bytes : List UInt8} {offset : Nat}

def checkedFrontAt? (e : Encoding) (bytes : List UInt8) (offset : Nat) : Option Front :=
  (Word.slice? bytes offset bytes.length).bind e.checkedFront?

theorem drop_ne_nil (h : offset < bytes.length) : bytes.drop offset ≠ [] := by
  rw [Ne, List.drop_eq_nil_iff]
  omega

theorem checkedFrontAt?_eq (h : offset < bytes.length) :
    e.checkedFrontAt? bytes offset = some (e.front (bytes.drop offset)) := by
  rw [checkedFrontAt?, Word.slice?_length (Nat.le_of_lt h), Option.bind_some,
    checkedFront?_eq e (drop_ne_nil h)]

/-- A step from inside a buffer leads further up in it. -/
theorem width_at {front : Front} (h : offset < bytes.length)
    (hfront : e.checkedFrontAt? bytes offset = some front) :
    e.front (bytes.drop offset) = front ∧ 0 < front.width ∧
      offset + front.width ≤ bytes.length := by
  rw [checkedFrontAt?_eq h, Option.some.injEq] at hfront
  subst hfront
  obtain ⟨hpos, hle⟩ := width_front e (drop_ne_nil h)
  rw [List.length_drop] at hle
  exact ⟨rfl, hpos, by omega⟩

/-- Passes over what starts no character, up to the offset of something that does. -/
def checkedGarbage? (e : Encoding) (bytes : List UInt8) (offset : Nat) : Option Nat :=
  if _h : offset < bytes.length then
    match _hfront : e.checkedFrontAt? bytes offset with
    | none => none
    | some (.char _ _) => some offset
    | some (.garbage width) =>
      match _hnext : Word.add? offset width with
      | none => none
      | some next => checkedGarbage? e bytes next
  else some offset
termination_by bytes.length - offset
decreasing_by
  have hpos : 0 < width := (width_at _h _hfront).2.1
  have hsum := Word.eq_of_add? _hnext
  omega

/-- Reads characters as far as they go. Each is told by its offset from the start of the run. -/
def checkedChars? (e : Encoding) (bytes : List UInt8) (runStart : Nat) (chars : List (Nat × Char))
    (offset : Nat) : Option (List (Nat × Char) × Nat) :=
  if _h : offset < bytes.length then
    match _hfront : e.checkedFrontAt? bytes offset with
    | none => none
    | some (.garbage _) => some (chars, offset)
    | some (.char c width) =>
      match Word.sub? offset runStart with
      | none => none
      | some place =>
        match _hnext : Word.add? offset width with
        | none => none
        | some next => checkedChars? e bytes runStart ((place, c) :: chars) next
  else some (chars, offset)
termination_by bytes.length - offset
decreasing_by
  have hpos : 0 < width := (width_at _h _hfront).2.1
  have hsum := Word.eq_of_add? _hnext
  omega

/-! ## One run -/

theorem dropGarbage_of_char {c : Char} {width : Nat} (h : e.front bytes = .char c width) :
    e.dropGarbage bytes = bytes := by
  unfold dropGarbage
  split
  · rfl
  · simp [h]

theorem dropGarbage_of_garbage {width : Nat} (hb : bytes ≠ [])
    (h : e.front bytes = .garbage width) :
    e.dropGarbage bytes = e.dropGarbage (bytes.drop width) := by
  obtain ⟨b, rest, rfl⟩ := List.exists_cons_of_ne_nil hb
  have hpos := (garbage_width hb h).1
  obtain ⟨n, rfl⟩ := Nat.exists_eq_succ_of_ne_zero (Nat.ne_of_gt hpos)
  rw [dropGarbage]
  simp [h]

theorem readChars_of_garbage {place width : Nat} {chars : List (Nat × Char)}
    (h : e.front bytes = .garbage width) : e.readChars place chars bytes = (chars, place) := by
  unfold readChars
  split
  · rfl
  · simp [h]

theorem readChars_of_char {place width : Nat} {chars : List (Nat × Char)} {c : Char}
    (hb : bytes ≠ []) (h : e.front bytes = .char c width) :
    e.readChars place chars bytes =
      e.readChars (place + width) ((place, c) :: chars) (bytes.drop width) := by
  have hpos : 0 < width := by
    have hwidth := (width_front e hb).1
    rwa [h] at hwidth
  obtain ⟨b, rest, rfl⟩ := List.exists_cons_of_ne_nil hb
  obtain ⟨n, rfl⟩ := Nat.exists_eq_succ_of_ne_zero (Nat.ne_of_gt hpos)
  rw [readChars]
  simp [h]

theorem checkedGarbage?_eq (e : Encoding) (hlen : bytes.length < 0x1_0000_0000_0000_0000)
    (ho : offset ≤ bytes.length) :
    e.checkedGarbage? bytes offset =
      some (bytes.length - (e.dropGarbage (bytes.drop offset)).length) := by
  fun_induction checkedGarbage? e bytes offset with
  | case1 offset h hfront =>
    rw [checkedFrontAt?_eq h] at hfront
    cases hfront
  | case2 offset h c width hfront =>
    rw [dropGarbage_of_char (width_at h hfront).1, List.length_drop, Nat.sub_sub_self ho]
  | case3 offset h width hfront hnext =>
    have hle : offset + width ≤ bytes.length := (width_at h hfront).2.2
    rw [Word.add?_of_lt (Nat.lt_of_le_of_lt hle hlen)] at hnext
    cases hnext
  | case4 offset h width hfront next hnext ih =>
    obtain ⟨hgarbage, -, hle⟩ := width_at h hfront
    have hsum := Word.eq_of_add? hnext
    rw [ih (by rw [← hsum]; exact hle), dropGarbage_of_garbage (drop_ne_nil h) hgarbage,
      List.drop_drop, hsum]
  | case5 offset h =>
    have hnil : bytes.drop offset = [] := List.drop_eq_nil_of_le (Nat.le_of_not_lt h)
    rw [hnil]
    simp [dropGarbage]
    omega

theorem checkedChars?_eq (e : Encoding) {runStart : Nat} (chars : List (Nat × Char))
    (hlen : bytes.length < 0x1_0000_0000_0000_0000) (hs : runStart ≤ offset)
    (ho : offset ≤ bytes.length) :
    e.checkedChars? bytes runStart chars offset =
      some ((e.readChars (offset - runStart) chars (bytes.drop offset)).1,
        runStart + (e.readChars (offset - runStart) chars (bytes.drop offset)).2) := by
  fun_induction checkedChars? e bytes runStart chars offset with
  | case1 chars offset h hfront =>
    rw [checkedFrontAt?_eq h] at hfront
    cases hfront
  | case2 chars offset h width hfront =>
    rw [readChars_of_garbage (width_at h hfront).1, Nat.add_sub_cancel' hs]
  | case3 chars offset h c width hfront hplace =>
    rw [Word.sub?_of_le hs] at hplace
    cases hplace
  | case4 chars offset h c width hfront place hplace hnext =>
    have hle : offset + width ≤ bytes.length := (width_at h hfront).2.2
    rw [Word.add?_of_lt (Nat.lt_of_le_of_lt hle hlen)] at hnext
    cases hnext
  | case5 chars offset h c width hfront place hplace next hnext ih =>
    obtain ⟨hchar, -, hle⟩ := width_at h hfront
    have hle : offset + width ≤ bytes.length := hle
    have hsum := Word.eq_of_add? hnext
    rw [Word.sub?_of_le hs, Option.some.injEq] at hplace
    subst hplace hsum
    rw [ih (by omega) hle, readChars_of_char (drop_ne_nil h) hchar, List.drop_drop,
      Nat.sub_add_comm hs]
  | case6 chars offset h =>
    have hnil : bytes.drop offset = [] := List.drop_eq_nil_of_le (Nat.le_of_not_lt h)
    rw [hnil]
    simp [readChars, hs]

end Encoding

namespace TextRun

variable {c : Charset} {bytes rest : List UInt8} {start address : Address} {run : TextRun}

def checkedNext? (c : Charset) (bytes : List UInt8) (address : Address) : Option TextRun := do
  let skip ← c.checkedSkip? address
  let runStart ← c.encoding.checkedGarbage? bytes (min skip bytes.length)
  let (chars, offset) ← c.encoding.checkedChars? bytes runStart [] runStart
  return ⟨address.advance runStart, offset, chars.reverse⟩

theorem checkedNext?_eq (c : Charset) (hlen : bytes.length < 0x1_0000_0000_0000_0000)
    (address : Address) : checkedNext? c bytes address = next? c bytes address := by
  rw [checkedNext?, next?, Charset.checkedSkip?_eq]
  cases c.skip? address with
  | none => rfl
  | some skip =>
    have hdrop : bytes.drop (min skip bytes.length) = bytes.drop skip := by
      rcases Nat.le_total skip bytes.length with hle | hle
      · rw [Nat.min_eq_left hle]
      · rw [Nat.min_eq_right hle, List.drop_length, List.drop_eq_nil_of_le hle]
    have hgarbage := c.encoding.checkedGarbage?_eq hlen (Nat.min_le_right skip bytes.length)
    rw [hdrop] at hgarbage
    have htext : bytes.drop (bytes.length - (c.encoding.dropGarbage (bytes.drop skip)).length) =
        c.encoding.dropGarbage (bytes.drop skip) := by
      obtain ⟨count, heq, -⟩ := c.encoding.dropGarbage_eq (bytes.drop skip)
      rw [heq]
      exact (List.suffix_iff_eq_drop.1 ((List.drop_suffix _ _).trans (List.drop_suffix _ _))).symm
    have hchars := c.encoding.checkedChars?_eq [] hlen (Nat.le_refl _)
      (Nat.sub_le bytes.length (c.encoding.dropGarbage (bytes.drop skip)).length)
    rw [Nat.sub_self, htext] at hchars
    simp [hgarbage, hchars, after]

/-! ## All runs -/

theorem consumed_le (h : next? c bytes start = some run) : run.consumed ≤ bytes.length := by
  obtain ⟨skip, -, rfl⟩ := Option.map_eq_some_iff.1 h
  obtain ⟨count, heq, -⟩ := c.encoding.dropGarbage_eq (bytes.drop skip)
  obtain ⟨chars, stop, hread, hreads⟩ :=
    c.encoding.reads_readChars 0 [] (c.encoding.dropGarbage (bytes.drop skip))
  have hstop := hreads.stop_le
  have hle : (c.encoding.dropGarbage (bytes.drop skip)).length ≤ bytes.length := by
    rw [heq, List.length_drop, List.length_drop]
    omega
  simp only [after, hread]
  omega

def checkedAll? (c : Charset) (bytes : List UInt8) (start : Address) (offset : Nat) :
    Option (List TextRun) :=
  if offset < bytes.length then
    match (Word.slice? bytes offset bytes.length).bind fun rest =>
        checkedNext? c rest (start.advance offset) with
    | none => none
    | some run =>
      if _hc : run.consumed = 0 then some []
      else
        match _hnext : Word.add? offset run.consumed with
        | none => none
        | some next =>
          (checkedAll? c bytes start next).map fun later =>
            if run.chars.isEmpty then later else run :: later
  else some []
termination_by bytes.length - offset
decreasing_by
  have hsum := Word.eq_of_add? _hnext
  omega

/-- A call of the iteration. -/
theorem checkedNext?_drop (c : Charset) (hlen : bytes.length < 0x1_0000_0000_0000_0000)
    (start : Address) {offset : Nat} (ho : offset ≤ bytes.length) :
    ((Word.slice? bytes offset bytes.length).bind fun rest =>
        checkedNext? c rest (start.advance offset)) =
      next? c (bytes.drop offset) (start.advance offset) := by
  have hrest : (bytes.drop offset).length < 0x1_0000_0000_0000_0000 := by
    rw [List.length_drop]
    omega
  rw [Word.slice?_length ho, Option.bind_some, checkedNext?_eq c hrest]

theorem checkedAll?_eq (c : Charset) (hlen : bytes.length < 0x1_0000_0000_0000_0000)
    (start : Address) {offset : Nat} (ho : offset ≤ bytes.length) :
    checkedAll? c bytes start offset = all? c (bytes.drop offset) (start.advance offset) := by
  fun_induction checkedAll? c bytes start offset with
  | case1 offset h hcall =>
    rw [checkedNext?_drop c hlen start ho] at hcall
    rw [all?, dif_neg (Encoding.drop_ne_nil h), hcall]
  | case2 offset h run hcall hc =>
    rw [checkedNext?_drop c hlen start ho] at hcall
    rw [all?, dif_neg (Encoding.drop_ne_nil h), hcall]
    simp [hc]
  | case3 offset h run hcall hc hnext =>
    rw [checkedNext?_drop c hlen start ho] at hcall
    have hle := consumed_le hcall
    rw [List.length_drop] at hle
    rw [Word.add?_of_lt (by omega)] at hnext
    cases hnext
  | case4 offset h run hcall hc next hnext ih =>
    rw [checkedNext?_drop c hlen start ho] at hcall
    have hle := consumed_le hcall
    have hsum := Word.eq_of_add? hnext
    rw [List.length_drop] at hle
    rw [all?, dif_neg (Encoding.drop_ne_nil h), hcall, ih (by omega)]
    simp only [hc, dite_false, List.drop_drop, Address.advance_advance, hsum]
  | case5 offset h =>
    rw [List.drop_eq_nil_of_le (Nat.le_of_not_lt h), all?, dif_pos rfl]

/-- Some calls leave the bytes `rest`, which lie at `address`. -/
inductive CallsLeave (c : Charset) : (bytes : List UInt8) → (start : Address) →
    (rest : List UInt8) → (address : Address) → Prop where
  | none {bytes : List UInt8} {start : Address} : CallsLeave c bytes start bytes start
  | call {bytes rest : List UInt8} {start address : Address} {run : TextRun} (hb : bytes ≠ [])
    (hnext : next? c bytes start = some run)
    (hlater : CallsLeave c (bytes.drop run.consumed) (start.advance run.consumed) rest address) :
    CallsLeave c bytes start rest address

/-- Reading all runs fails where one of its calls does. -/
theorem all?_eq_none :
    all? c bytes start = none ↔
      ∃ rest address, CallsLeave c bytes start rest address ∧ rest ≠ [] ∧
        next? c rest address = none := by
  constructor
  · intro h
    fun_induction all? c bytes start with
    | case1 start => cases h
    | case2 bytes start hb hnone => exact ⟨bytes, start, .none, hb, hnone⟩
    | case3 bytes start hb run hnext hc => cases h
    | case4 bytes start hb run hnext hc ih =>
      obtain ⟨rest, address, hleave, hrest, hnone⟩ := ih (Option.map_eq_none_iff.1 h)
      exact ⟨rest, address, .call hb hnext hleave, hrest, hnone⟩
  · rintro ⟨rest, address, hleave, hrest, hnone⟩
    induction hleave with
    | none => rw [all?, dif_neg hrest, hnone]
    | @call bytes rest start address run hb hnext hlater ih =>
      have hfails := ih hrest hnone
      rw [all?, dif_neg hb, hnext]
      by_cases hc : run.consumed = 0
      · rw [hc, List.drop_zero, Address.advance_zero, all?, dif_neg hb, hnext] at hfails
        simp [hc] at hfails
      · simp [hc, hfails]

/-- What calls leave is the end of the bytes, at its own address if that is below the top. -/
theorem CallsLeave.exists_offset (h : CallsLeave c bytes start rest address) :
    ∃ offset, rest = bytes.drop offset ∧ address = start.advance offset := by
  induction h with
  | none => exact ⟨0, rfl, (Address.advance_zero _).symm⟩
  | @call bytes rest start address run hb hnext hlater ih =>
    obtain ⟨offset, hrest, haddress⟩ := ih
    refine ⟨run.consumed + offset, ?_, ?_⟩
    · rw [hrest, List.drop_drop]
    · rw [haddress, Address.advance_advance]

theorem next?_eq_none : next? c bytes start = none ↔ c = .utf16Odd ∧ start = .top := by
  rw [next?, Option.map_eq_none_iff, Charset.skip?_eq_none]

/-- With all sums, differences and slices checked decoding gives the runs it gives anyway. One sum
fails: that of the highest address and one, in a call for units at odd addresses on bytes that lie
there. No such call is made for bytes that end at the highest address or below it. -/
theorem decoding_in_bounds (c : Charset) (bytes : List UInt8) (start : Address)
    (hlen : bytes.length < 0x1_0000_0000_0000_0000) :
    checkedNext? c bytes start = next? c bytes start ∧
      checkedAll? c bytes start 0 = all? c bytes start ∧
      (checkedNext? c bytes start = none ↔ c = .utf16Odd ∧ start = .top) ∧
      (checkedAll? c bytes start 0 = none ↔
        c = .utf16Odd ∧ ∃ rest, rest ≠ [] ∧ CallsLeave c bytes start rest .top) ∧
      (start.toNat + bytes.length ≤ 0xFFFF_FFFF_FFFF_FFFF →
        (checkedAll? c bytes start 0).isSome) := by
  have hnext := checkedNext?_eq c hlen start
  have hall : checkedAll? c bytes start 0 = all? c bytes start := by
    rw [checkedAll?_eq c hlen start (Nat.zero_le _), List.drop_zero, Address.advance_zero]
  have hfails : all? c bytes start = none ↔
      c = .utf16Odd ∧ ∃ rest, rest ≠ [] ∧ CallsLeave c bytes start rest .top := by
    rw [all?_eq_none]
    constructor
    · rintro ⟨rest, address, hleave, hrest, hnone⟩
      obtain ⟨hc, rfl⟩ := next?_eq_none.1 hnone
      exact ⟨hc, rest, hrest, hleave⟩
    · rintro ⟨hc, rest, hrest, hleave⟩
      exact ⟨rest, .top, hleave, hrest, next?_eq_none.2 ⟨hc, rfl⟩⟩
  refine ⟨hnext, hall, ?_, ?_, ?_⟩
  · rw [hnext, next?_eq_none]
  · rw [hall, hfails]
  · intro hfit
    rw [hall, Option.isSome_iff_ne_none, Ne, hfails]
    rintro ⟨-, rest, hrest, hleave⟩
    obtain ⟨offset, rfl, htop⟩ := hleave.exists_offset
    have hlt : offset < bytes.length := by
      rw [Ne, List.drop_eq_nil_iff] at hrest
      omega
    have hvalue := congrArg Address.toNat htop
    rw [Address.toNat_top, Address.toNat_advance] at hvalue
    omega

/-- Bytes that end at the highest address, and in them a run that ends with half a unit left. -/
theorem decoding_in_bounds_to_top :
    let bytes : List UInt8 := [0x61, 0x00, 0x00, 0xDC, 0x62, 0x00, 0xFF]
    let start : Address := 0xFFFF_FFFF_FFFF_FFF8
    bytes.length < 0x1_0000_0000_0000_0000 ∧
      start.toNat + bytes.length ≤ 0xFFFF_FFFF_FFFF_FFFF ∧
      checkedAll? .utf16Even bytes start 0 = all? .utf16Even bytes start ∧
      (checkedAll? .utf16Odd bytes start 0).isSome := by
  intro bytes start
  have hlen : bytes.length < 0x1_0000_0000_0000_0000 := by decide
  have hfit : start.toNat + bytes.length ≤ 0xFFFF_FFFF_FFFF_FFFF := by decide
  obtain ⟨-, heven, -⟩ := decoding_in_bounds .utf16Even bytes start hlen
  obtain ⟨-, -, -, -, hodd⟩ := decoding_in_bounds .utf16Odd bytes start hlen
  exact ⟨hlen, hfit, heven, hodd hfit⟩

/-- At the highest address the step to the first unit at an odd address leaves the words. -/
theorem decoding_out_of_bounds_at_top :
    Word.add? Address.top.toNat 1 = none ∧ checkedNext? .utf16Odd [0x61, 0x00] .top = none ∧
      ¬∀ (c : Charset) (bytes : List UInt8) (start : Address),
        bytes.length < 0x1_0000_0000_0000_0000 → (checkedNext? c bytes start).isSome := by
  have hnone : checkedNext? .utf16Odd [0x61, 0x00] .top = none := rfl
  refine ⟨rfl, hnone, fun hall => ?_⟩
  have hsome := hall .utf16Odd [0x61, 0x00] .top (by decide)
  rw [hnone] at hsome
  cases hsome

end TextRun
end ProcessMemory
