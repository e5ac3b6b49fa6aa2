import ProcessMemory.Proofs.Text.Runs

/-!
# Decoding loses and invents nothing

Between its address and its end a run is its text, written in the encoding, and every place in the
text leads back to the bytes of the character there.
-/
namespace ProcessMemory.TextRun

variable {c : Charset} {bytes : List UInt8} {start : Address} {run : TextRun}

/-- What a run that is read after the first `offset` of `bytes` tells of them. They lie at
`start`. -/
structure Faithful (c : Charset) (bytes : List UInt8) (start : Address) (run : TextRun)
    (offset : Nat) : Prop where
  next : next? c (bytes.drop offset) (start.advance offset) = some run
  text_ne_nil : run.text ≠ []
  aligned : c.Aligned run.address
  start_le : start ≤ run.address
  stop_le : offset + run.consumed ≤ bytes.length
  /-- The run goes on as far as characters do. -/
  ends : ¬c.encoding.Starts (bytes.drop (offset + run.consumed))
  encodes : c.encoding.encodeText? run.text =
    some ((bytes.take (offset + run.consumed)).drop (run.address.toNat - start.toNat))
  source_isSome : ∀ place, (run.source? place).isSome ↔
    ∃ before ch after, run.text = before ++ ch :: after ∧
      place = (Utf8.encodeAll before).length
  source_lt : ∀ place place' a b, place < place' → run.source? place = some a →
    run.source? place' = some b → a < b
  source_holds : ∀ before ch after a, run.text = before ++ ch :: after →
    run.source? (Utf8.encodeAll before).length = some a →
      start ≤ a ∧ ∃ enc, c.encoding.encode? ch = some enc ∧
        enc <+: bytes.drop (a.toNat - start.toNat)

theorem Splits.faithful {offset lead size : Nat}
    (h : Splits c (bytes.drop offset) (start.advance offset) run lead size)
    (hfit : start.toNat + bytes.length ≤ 0xFFFF_FFFF_FFFF_FFFF)
    (hnext : next? c (bytes.drop offset) (start.advance offset) = some run)
    (hlead : offset + lead < bytes.length) : Faithful c bytes start run offset := by
  have hwithin := h.within
  have hconsumed := h.consumed
  have haddress := h.address
  rw [List.length_drop] at hwithin
  have hoffset : (start.advance offset).toNat = start.toNat + offset := by
    rw [Address.toNat_advance]
    omega
  have hfit' : (start.advance offset).toNat + (bytes.drop offset).length ≤
      0xFFFF_FFFF_FFFF_FFFF := by
    rw [hoffset, List.length_drop]
    omega
  have hlead' : lead < (bytes.drop offset).length := by
    rw [List.length_drop]
    omega
  have hdistance : run.address.toNat - start.toNat = offset + lead := by omega
  refine ⟨hnext, h.text_ne_nil hlead', (h.starts hlead').1, ?_, by omega, ?_, ?_,
    fun _ => source?_isSome, fun _ _ _ _ => h.source_lt hfit', ?_⟩
  · rw [Address.le_def]
    omega
  · have hends := h.reads.not_starts_after
    rw [Nat.sub_zero, List.drop_drop, List.drop_drop] at hends
    rwa [hconsumed]
  · rw [text, h.reads.encodeText?_eq, hdistance, List.drop_take, List.drop_drop, hconsumed]
    congr 2
    omega
  · intro before ch after a htext ha
    obtain ⟨read, place, rest, hchars, rfl⟩ := exists_chars htext
    obtain rfl : run.address.advance place = a :=
      Option.some.inj ((source?_eq_some.2 ⟨read, place, ch, rest, hchars, rfl, rfl⟩).symm.trans ha)
    obtain ⟨-, haddr, enc, henc, hpre⟩ := h.at_source hfit' hchars
    refine ⟨?_, enc, henc, ?_⟩
    · rw [Address.le_def]
      omega
    · have hplace : (run.address.advance place).toNat - start.toNat = offset + (lead + place) := by
        omega
      rw [hplace, ← List.drop_drop]
      exact hpre

/-- Every run that is read from bytes is faithful to them. -/
theorem runs_faithful (c : Charset) {bytes : List UInt8} {start : Address}
    (hfit : start.toNat + bytes.length ≤ 0xFFFF_FFFF_FFFF_FFFF) :
    ∃ runs, all? c bytes start = some runs ∧
      ∀ before run after, runs = before ++ run :: after →
        Faithful c bytes start run (usedUp before) := by
  obtain ⟨runs, hall, hruns⟩ := exists_runs c hfit
  refine ⟨runs, hall, fun before run after heq => ?_⟩
  subst heq
  obtain ⟨hnext, lead, size, h, hlead⟩ := hruns.at_run hfit
  exact h.faithful hfit hnext hlead

/-- A pair of surrogates at an odd address, and then a low one that stands alone: it parts two runs
of one character each. -/
theorem runs_faithful_odd :
    let bytes : List UInt8 := [0xFF, 0x3D, 0xD8, 0x00, 0xDE, 0x00, 0xDC, 0x41, 0x00]
    let start : Address := 0x10
    let first : TextRun := ⟨0x11, 5, [(0, Char.ofNat 0x1F600)]⟩
    let second : TextRun := ⟨0x17, 4, [(0, 'A')]⟩
    start.toNat + bytes.length ≤ 0xFFFF_FFFF_FFFF_FFFF ∧
      all? .utf16Odd bytes start = some [first, second] ∧
      Faithful .utf16Odd bytes start first 0 ∧ Faithful .utf16Odd bytes start second 5 := by
  intro bytes start first second
  have hfit : start.toNat + bytes.length ≤ 0xFFFF_FFFF_FFFF_FFFF := by decide
  have hruns : all? .utf16Odd bytes start = some [first, second] := by decide +kernel
  obtain ⟨runs, hall, hfaithful⟩ := runs_faithful .utf16Odd hfit
  cases hruns.symm.trans hall
  exact ⟨hfit, hruns, hfaithful [] first [second] rfl, hfaithful [first] second [] rfl⟩

end ProcessMemory.TextRun
