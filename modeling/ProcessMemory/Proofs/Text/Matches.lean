import ProcessMemory.Proofs.Pattern.Literal
import ProcessMemory.Search

/-!
# Text in a chunk

A text that stands at an address where its charset may have it lies inside one run, in one piece,
and at the place in the run's text that leads back to that address. So a pattern that finds the
first piece of a run's text finds the lowest address among the bytes of a chunk
(`TextRun.Runs.least`), and with several charsets the lowest of all.
-/
namespace ProcessMemory

/-- The text stands at the address `a` among bytes that lie at `start`. -/
structure Charset.StandsIn (c : Charset) (text : List Char) (bytes : List UInt8) (start : Address)
    (a : Nat) : Prop where
  start_le : start.toNat ≤ a
  aligned : a % c.encoding.unit = c.residue
  holds : ∃ enc, c.encoding.encodeText? text = some enc ∧ enc <+: bytes.drop (a - start.toNat)

/-- A text begins with a character. -/
theorem Charset.StandsIn.starts {c : Charset} {text : List Char} {bytes : List UInt8}
    {start : Address} {a : Nat} (h : c.StandsIn text bytes start a) (ht : text ≠ []) :
    a - start.toNat < bytes.length ∧ c.encoding.Starts (bytes.drop (a - start.toNat)) := by
  obtain ⟨enc, henc, hpre⟩ := h.holds
  have hs := Encoding.starts_of_text ht henc hpre
  refine ⟨Nat.lt_of_not_le fun hle => ?_, hs⟩
  rw [List.drop_eq_nil_of_le hle] at hs
  exact Encoding.not_starts_nil hs

namespace TextRun

variable {c : Charset} {bytes : List UInt8} {start : Address} {run : TextRun} {text : List Char}
  {lead size : Nat}

/-- No text stands in what comes before the run. -/
theorem Splits.lead_le (h : Splits c bytes start run lead size) (ht : text ≠ []) {a : Nat}
    (ha : c.StandsIn text bytes start a) : start.toNat + lead ≤ a := by
  refine Nat.le_of_not_lt fun hlt => ?_
  have hle := ha.start_le
  refine h.passed (a - start.toNat) (by omega) ?_ (ha.starts ht).2
  rw [Nat.add_sub_cancel' hle]
  exact ha.aligned

/-- A text among the bytes of a run is a piece of the run's text. -/
theorem Splits.exists_piece (h : Splits c bytes start run lead size)
    (hfit : start.toNat + bytes.length ≤ 0xFFFF_FFFF_FFFF_FFFF) (ht : text ≠ []) {a : Nat}
    (ha : c.StandsIn text bytes start a) (hlt : a < start.toNat + lead + size) :
    ∃ before after source, run.text = before ++ text ++ after ∧
      run.source? (Utf8.encodeAll before).length = some source ∧ source.toNat = a := by
  obtain ⟨p, rfl⟩ := Nat.exists_eq_add_of_le (h.lead_le ht ha)
  obtain ⟨enc, henc, hpre⟩ := ha.holds
  have hwithin := h.within
  have hunit : p % c.encoding.unit = 0 := by
    have haligned : run.address.toNat % c.encoding.unit = c.residue := (h.starts (by omega)).1
    rw [h.address] at haligned
    have hzero := Nat.sub_mod_eq_zero_of_mod_eq (ha.aligned.trans haligned.symm)
    rwa [Nat.add_sub_cancel_left] at hzero
  rw [Nat.add_assoc, Nat.add_sub_cancel_left, ← List.drop_drop] at hpre
  obtain ⟨read, ch, piece, after, hchars, hpiece⟩ :=
    h.reads.exists_piece ht henc hpre (by omega) hunit
  rw [Nat.zero_add] at hchars
  refine ⟨read.map Prod.snd, after.map Prod.snd, _, ?_, ?_, (h.at_source hfit hchars).2.1⟩
  · rw [TextRun.text, hchars, ← hpiece]
    simp only [List.map_append, List.map_cons, List.append_assoc, List.cons_append]
  · exact source?_eq_some.2 ⟨read, p, ch, piece ++ after, hchars, rfl, rfl⟩

/-- A piece of a run's text stands among the bytes. -/
theorem Splits.exists_source (h : Splits c bytes start run lead size)
    (hfit : start.toNat + bytes.length ≤ 0xFFFF_FFFF_FFFF_FFFF) (ht : text ≠ [])
    {enc : List UInt8} (henc : c.encoding.encodeText? text = some enc) {before after : List Char}
    (hpiece : run.text = before ++ text ++ after) :
    ∃ source, run.source? (Utf8.encodeAll before).length = some source ∧
      source.toNat < start.toNat + lead + size ∧ c.StandsIn text bytes start source.toNat := by
  obtain ⟨front, last, hchars, hfront, -⟩ := List.map_eq_append_iff.1 hpiece
  obtain ⟨read, piece, rfl, rfl, hpiece⟩ := List.map_eq_append_iff.1 hfront
  cases piece with
  | nil => exact absurd hpiece.symm ht
  | cons head piece =>
    obtain ⟨offset, ch⟩ := head
    rw [List.append_assoc] at hchars
    obtain ⟨first, rest, hfirst, hdrop, hreads⟩ := (hchars ▸ h.reads).split
    obtain rfl : offset = 0 + first.length := hreads.first_place
    obtain ⟨enc', rest, henc', rfl, -⟩ := hreads.split
    rw [hpiece, henc] at henc'
    cases henc'
    obtain ⟨hlt, haddress, -⟩ := h.at_source hfit hchars
    have hwithin := h.within
    have haligned : run.address.toNat % c.encoding.unit = c.residue := (h.starts (by omega)).1
    rw [h.address] at haligned
    refine ⟨_, source?_eq_some.2 ⟨read, _, ch, piece ++ last, hchars, rfl, rfl⟩, by omega,
      by omega, ?_, enc, henc, ?_⟩
    · rw [haddress, Nat.zero_add, Nat.add_mod, haligned, Encoding.encodeText?_length hfirst,
        Nat.add_zero, ← haligned, Nat.mod_mod]
    · rw [haddress, Nat.add_assoc, Nat.add_sub_cancel_left, ← List.drop_drop, hdrop, Nat.zero_add,
        List.drop_left' rfl]
      exact List.prefix_append _ _

/-- Bytes that are left out before the end hold nothing that the others do not show. -/
theorem standsIn_drop {n a : Nat} (hn : start.toNat + n ≤ 0xFFFF_FFFF_FFFF_FFFF) :
    c.StandsIn text (bytes.drop n) (start.advance n) a ↔
      start.toNat + n ≤ a ∧ c.StandsIn text bytes start a := by
  have haddress : (start.advance n).toNat = start.toNat + n := by
    rw [Address.toNat_advance]
    omega
  have hdrop (hle : start.toNat + n ≤ a) :
      (bytes.drop n).drop (a - (start.toNat + n)) = bytes.drop (a - start.toNat) := by
    rw [List.drop_drop]
    congr 1
    omega
  constructor
  · rintro ⟨hle, haligned, hholds⟩
    rw [haddress] at hle hholds
    rw [hdrop hle] at hholds
    exact ⟨hle, by omega, haligned, hholds⟩
  · rintro ⟨hle, -, haligned, hholds⟩
    refine ⟨haddress ▸ hle, haligned, ?_⟩
    rw [haddress, hdrop hle]
    exact hholds

/-- The first match of a text in the runs of some bytes is at the lowest address. -/
theorem Runs.least {p : Pattern} (hp : p.FindsFirst text) (ht : text ≠ [])
    {enc : List UInt8} (henc : c.encoding.encodeText? text = some enc) {runs : List TextRun}
    (h : Runs c bytes start runs)
    (hfit : start.toNat + bytes.length ≤ 0xFFFF_FFFF_FFFF_FFFF) :
    Least (c.StandsIn text bytes start)
      ((runs.findSome? fun run => (p.findText? run.text).bind run.source?).map Address.toNat) := by
  induction h with
  | @done bytes start hno =>
    intro a ha
    obtain ⟨hlt, hs⟩ := ha.starts ht
    refine hno _ hlt ?_ hs
    rw [Nat.add_sub_cancel' ha.start_le]
    exact ha.aligned
  | @run bytes start run runs lead size hnext h hlead hruns ih =>
    have hwithin := h.within
    have hconsumed := h.consumed
    have hfound := hp run.text
    rw [List.findSome?_cons]
    cases hfind : p.findText? run.text with
    | none =>
      rw [hfind] at hfound
      have hrest := ih (by rw [Address.toNat_advance, List.length_drop]; omega)
      refine hrest.congr fun a => (standsIn_drop (by omega)).trans ⟨And.right, fun ha => ⟨?_, ha⟩⟩
      refine Nat.le_of_not_lt fun hlt => ?_
      obtain ⟨before, after, source, hpiece, -, -⟩ := h.exists_piece hfit ht ha (by omega)
      exact hfound _ ⟨before, after, hpiece, rfl⟩
    | some place =>
      rw [hfind] at hfound
      obtain ⟨⟨before, after, hpiece, rfl⟩, hfirst⟩ := hfound
      obtain ⟨source, hsource, hend, hstands⟩ := h.exists_source hfit ht henc hpiece
      simp only [Option.bind_some, hsource, Option.map_some]
      refine ⟨hstands, fun b hlt hb => ?_⟩
      obtain ⟨before', after', source', hpiece', hsource', rfl⟩ :=
        h.exists_piece hfit ht hb (Nat.lt_trans hlt hend)
      have hplace := Nat.le_of_not_lt fun hl => hfirst _ hl ⟨before', after', hpiece', rfl⟩
      rcases Nat.lt_or_eq_of_le hplace with hl | heq
      · exact Nat.lt_asymm hlt (h.source_lt hfit hl hsource hsource')
      · rw [← heq, hsource, Option.some.injEq] at hsource'
        exact Nat.ne_of_lt hlt (congrArg Address.toNat hsource'.symm)

end TextRun
end ProcessMemory
