import Mathlib.Data.List.Forall2
import ProcessMemory.Proofs.Text.Decoding

/-!
# Text runs divide a buffer

Reading all runs takes one call after another, each on the bytes that the earlier ones left
(`Calls`). Every call uses up some bytes, so there are no more calls than bytes. The runs fill
stretches of the buffer with a gap between any two, and no character starts in a gap.
-/
namespace ProcessMemory.TextRun

variable {c : Charset} {bytes rest : List UInt8} {start : Address} {run : TextRun}
  {calls runs : List TextRun}

/-- The calls that read the runs of some bytes, until no bytes are left. The last of them may find
no character. -/
inductive Calls (c : Charset) : (bytes : List UInt8) → (start : Address) → List TextRun → Prop where
  | done {start : Address} : Calls c [] start []
  | call {bytes : List UInt8} {start : Address} {run : TextRun} {later : List TextRun}
    (hb : bytes ≠ []) (hnext : next? c bytes start = some run)
    (hlater : Calls c (bytes.drop run.consumed) (start.advance run.consumed) later) :
    Calls c bytes start (run :: later)

/-- A call on bytes uses up some of them. -/
theorem consumed_of_next? (hb : bytes ≠ [])
    (hfit : start.toNat + bytes.length ≤ 0xFFFF_FFFF_FFFF_FFFF)
    (hnext : next? c bytes start = some run) :
    0 < run.consumed ∧ run.consumed ≤ bytes.length := by
  obtain ⟨run', lead, size, hnext', h⟩ := exists_splits c hb hfit
  obtain rfl := Option.some.inj (hnext.symm.trans hnext')
  have hwithin := h.within
  have hconsumed := h.consumed
  have hlen := List.length_pos_iff.2 hb
  by_cases hlead : lead < bytes.length
  · have hsize := h.size_pos hlead
    omega
  · omega

/-- What is left after a call still lies below the top. -/
theorem fits_drop (hfit : start.toNat + bytes.length ≤ 0xFFFF_FFFF_FFFF_FFFF) {n : Nat}
    (hn : n ≤ bytes.length) :
    (start.advance n).toNat + (bytes.drop n).length ≤ 0xFFFF_FFFF_FFFF_FFFF := by
  rw [Address.toNat_advance, List.length_drop]
  omega

/-- The runs are what the calls found, save for a call that found no character. -/
theorem exists_calls (c : Charset) (hfit : start.toNat + bytes.length ≤ 0xFFFF_FFFF_FFFF_FFFF) :
    ∃ calls, Calls c bytes start calls ∧
      all? c bytes start = some (calls.filter fun run => !run.chars.isEmpty) := by
  fun_induction all? c bytes start with
  | case1 start => exact ⟨[], .done, rfl⟩
  | case2 bytes start hb hnone =>
    obtain ⟨run, lead, size, hnext, -⟩ := exists_splits c hb hfit
    cases hnone.symm.trans hnext
  | case3 bytes start hb run hnext hc =>
    have hpos := (consumed_of_next? hb hfit hnext).1
    omega
  | case4 bytes start hb run hnext hc ih =>
    obtain ⟨later, hlater, hall⟩ := ih (fits_drop hfit (consumed_of_next? hb hfit hnext).2)
    refine ⟨run :: later, .call hb hnext hlater, ?_⟩
    rw [hall, Option.map_some, List.filter_cons]
    cases run.chars.isEmpty <;> rfl

theorem Calls.consumed (h : Calls c bytes start calls)
    (hfit : start.toNat + bytes.length ≤ 0xFFFF_FFFF_FFFF_FFFF) {before after : List TextRun}
    (heq : calls = before ++ run :: after) :
    0 < run.consumed ∧ usedUp before + run.consumed ≤ bytes.length := by
  induction h generalizing before with
  | done => exact absurd (congrArg List.length heq) (by simp)
  | @call bytes start first later hb hnext hlater ih =>
    have hfirst := consumed_of_next? hb hfit hnext
    cases before with
    | nil =>
      cases heq
      rw [usedUp, Nat.zero_add]
      exact hfirst
    | cons head before =>
      cases heq
      obtain ⟨hpos, hle⟩ := ih (fits_drop hfit hfirst.2) rfl
      rw [List.length_drop] at hle
      rw [usedUp]
      exact ⟨hpos, by omega⟩

theorem Calls.length_le (h : Calls c bytes start calls)
    (hfit : start.toNat + bytes.length ≤ 0xFFFF_FFFF_FFFF_FFFF) : calls.length ≤ bytes.length := by
  induction h with
  | done => exact Nat.le_refl _
  | @call bytes start first later hb hnext hlater ih =>
    have hfirst := consumed_of_next? hb hfit hnext
    have hrest := ih (fits_drop hfit hfirst.2)
    rw [List.length_drop] at hrest
    rw [List.length_cons]
    omega

/-! ## Stretches -/

/-- The bytes from `lo` up to `hi` are the run, and the run is those bytes. -/
structure Fills (c : Charset) (bytes : List UInt8) (start : Address) (run : TextRun)
    (lo hi : Nat) : Prop where
  nonempty : lo < hi
  inside : hi ≤ bytes.length
  address : run.address.toNat = start.toNat + lo
  encodes : c.encoding.encodeText? run.text = some ((bytes.take hi).drop lo)

/-- The runs fill the stretches, in ascending order and with at least one byte between any two. What
is left of the buffer from `offset` on starts no character where the charset allows one. -/
structure Divides (c : Charset) (bytes : List UInt8) (start : Address) (offset : Nat)
    (runs : List TextRun) (stretches : List (Nat × Nat)) : Prop where
  fills : List.Forall₂ (fun run s => run.Fills c bytes start s.1 s.2) runs stretches
  apart : stretches.Pairwise fun s s' => s.2 < s'.1
  gaps : ∀ p, offset ≤ p → p < bytes.length → (start.toNat + p) % c.encoding.unit = c.residue →
    (∀ s ∈ stretches, ¬(s.1 ≤ p ∧ p < s.2)) → ¬c.encoding.Starts (bytes.drop p)

/-- A run fills one stretch alone. -/
theorem Fills.stretch_eq {s : Nat × Nat} (h : run.Fills c bytes start s.1 s.2) {enc : List UInt8}
    (henc : c.encoding.encodeText? run.text = some enc) :
    s = (run.address.toNat - start.toNat, run.address.toNat - start.toNat + enc.length) := by
  have haddress := h.address
  have hnonempty := h.nonempty
  have hinside := h.inside
  have hlength := congrArg List.length (Option.some.inj (henc.symm.trans h.encodes))
  rw [List.length_drop, List.length_take] at hlength
  exact Prod.ext (by omega) (by omega)

/-- The stretch of a run that is read after the first `offset` bytes. -/
theorem Splits.fills {offset lead size : Nat}
    (h : Splits c (bytes.drop offset) (start.advance offset) run lead size)
    (hfit : start.toNat + bytes.length ≤ 0xFFFF_FFFF_FFFF_FFFF)
    (hnext : next? c (bytes.drop offset) (start.advance offset) = some run)
    (hlead : lead < (bytes.drop offset).length) :
    run.Fills c bytes start (offset + lead) (offset + run.consumed) := by
  have hsize := h.size_pos hlead
  have haddress := h.address
  have hconsumed := h.consumed
  rw [List.length_drop] at hlead
  rw [Address.toNat_advance] at haddress
  have hf := h.faithful hfit hnext (by omega)
  have hlo : run.address.toNat - start.toNat = offset + lead := by omega
  exact ⟨by omega, hf.stop_le, by omega, hlo ▸ hf.encodes⟩

/-- From `offset` on the runs divide the buffer. None of them begins at `offset` unless a character
does. -/
theorem Runs.exists_divides (hfit : start.toNat + bytes.length ≤ 0xFFFF_FFFF_FFFF_FFFF)
    {offset : Nat} (ho : offset ≤ bytes.length)
    (h : Runs c (bytes.drop offset) (start.advance offset) runs) :
    ∃ stretches, Divides c bytes start offset runs stretches ∧
      ∀ s ∈ stretches, offset ≤ s.1 ∧ (¬c.encoding.Starts (bytes.drop offset) → offset < s.1) := by
  have haddress (n : Nat) (hn : n ≤ bytes.length) :
      (start.advance n).toNat = start.toNat + n := by
    rw [Address.toNat_advance]
    omega
  generalize hrest : bytes.drop offset = rest at h
  generalize hbase : start.advance offset = base at h
  induction h generalizing offset with
  | @done rest base hno =>
    subst hrest hbase
    refine ⟨[], ⟨.nil, .nil, fun p hp hlt hmod _ => ?_⟩, nofun⟩
    obtain ⟨q, rfl⟩ := Nat.exists_eq_add_of_le hp
    rw [← List.drop_drop]
    refine hno q (by rw [List.length_drop]; omega) ?_
    rw [haddress offset ho, Nat.add_assoc]
    exact hmod
  | @run rest base run runs lead size hnext h hlead hruns ih =>
    subst hrest hbase
    have hfills := h.fills hfit hnext hlead
    have hends : ¬c.encoding.Starts ((bytes.drop offset).drop run.consumed) := by
      have hends := h.reads.not_starts_after
      rw [Nat.sub_zero, List.drop_drop] at hends
      rwa [h.consumed]
    have hnextAt : (start.advance offset).advance run.consumed =
        start.advance (offset + run.consumed) := Address.advance_advance _ _ _
    obtain ⟨stretches, hdivides, habove⟩ := ih hfills.inside (List.drop_drop ..).symm hnextAt.symm
    refine ⟨(offset + lead, offset + run.consumed) :: stretches, ⟨?_, ?_, ?_⟩, ?_⟩
    · exact .cons hfills hdivides.fills
    · exact .cons (fun s hs => (habove s hs).2 hends) hdivides.apart
    · intro p hp hlt hmod hout
      obtain ⟨hfirst, hothers⟩ := List.forall_mem_cons.1 hout
      by_cases hlow : p < offset + lead
      · obtain ⟨q, rfl⟩ := Nat.exists_eq_add_of_le hp
        rw [← List.drop_drop]
        refine h.passed q (by omega) ?_
        rw [haddress offset ho, Nat.add_assoc]
        exact hmod
      · exact hdivides.gaps p (by omega) hlt hmod hothers
    · intro s hs
      rcases List.mem_cons.1 hs with rfl | hs
      · refine ⟨Nat.le_add_right _ _, fun hno => Nat.lt_add_of_pos_right ?_⟩
        refine Nat.pos_of_ne_zero fun hzero => hno ?_
        subst hzero
        exact (h.starts hlead).2
      · have hbelow := hfills.nonempty
        have hle := (habove s hs).1
        exact ⟨by omega, fun _ => by omega⟩

/-- Reading the runs of a buffer comes to an end, every call on the way uses up some of the bytes
that are left, and the runs divide the buffer. -/
theorem runs_partition (c : Charset)
    (hfit : start.toNat + bytes.length ≤ 0xFFFF_FFFF_FFFF_FFFF) :
    ∃ calls runs stretches, Calls c bytes start calls ∧
      calls.length ≤ bytes.length ∧
      (∀ before run after, calls = before ++ run :: after →
        0 < run.consumed ∧ usedUp before + run.consumed ≤ bytes.length) ∧
      all? c bytes start = some runs ∧
      runs = calls.filter (fun run => !run.chars.isEmpty) ∧
      Divides c bytes start 0 runs stretches := by
  obtain ⟨calls, hcalls, hall⟩ := exists_calls c hfit
  obtain ⟨runs, hall', hruns⟩ := exists_runs c hfit
  rw [← List.drop_zero (l := bytes), ← Address.advance_zero start] at hruns
  obtain ⟨stretches, hdivides, -⟩ := hruns.exists_divides hfit (Nat.zero_le _)
  refine ⟨calls, runs, stretches, hcalls, hcalls.length_le hfit, ?_, hall', ?_, hdivides⟩
  · exact fun before run after heq => hcalls.consumed hfit heq
  · exact Option.some.inj (hall'.symm.trans hall)

/-- Units at odd addresses, a low surrogate that stands alone, and half a unit at the end: two runs
fill the stretches around the surrogate, and the call on the half unit finds none. -/
theorem runs_partition_odd :
    let bytes : List UInt8 := [0xFF, 0x41, 0x00, 0x00, 0xDC, 0x42, 0x00, 0x43]
    let start : Address := 0x10
    let runs : List TextRun := [⟨0x11, 3, [(0, 'A')]⟩, ⟨0x15, 4, [(0, 'B')]⟩]
    start.toNat + bytes.length ≤ 0xFFFF_FFFF_FFFF_FFFF ∧ all? .utf16Odd bytes start = some runs ∧
      Divides .utf16Odd bytes start 0 runs [(1, 3), (5, 7)] ∧
      ∃ calls, Calls .utf16Odd bytes start calls ∧ calls.length ≤ bytes.length ∧
        runs = calls.filter fun run => !run.chars.isEmpty := by
  intro bytes start runs
  have hfit : start.toNat + bytes.length ≤ 0xFFFF_FFFF_FFFF_FFFF := by decide
  have hruns : all? .utf16Odd bytes start = some runs := by decide +kernel
  obtain ⟨calls, runs', stretches, hcalls, hlength, -, hall, hfilter, hdivides⟩ :=
    runs_partition .utf16Odd hfit
  obtain rfl : runs = runs' := Option.some.inj (hruns.symm.trans hall)
  have hstretches : stretches = [(1, 3), (5, 7)] := by
    have hfills : List.Forall₂ _ [_, _] stretches := hdivides.fills
    obtain _ | ⟨hfirst, _ | ⟨hsecond, ⟨⟩⟩⟩ := hfills
    have hA : Encoding.utf16.encodeText? ['A'] = some [0x41, 0x00] := rfl
    have hB : Encoding.utf16.encodeText? ['B'] = some [0x42, 0x00] := rfl
    rw [hfirst.stretch_eq hA, hsecond.stretch_eq hB]
    rfl
  exact ⟨hfit, hruns, hstretches ▸ hdivides, calls, hcalls, hlength, hfilter⟩

end ProcessMemory.TextRun
