import ProcessMemory.Proofs.Memory
import ProcessMemory.Proofs.Text.Matches

/-!
# Windows that overlap

Where a buffer begins and ends has no say in what is decoded well inside it. A character that stands
at an address where its charset may have it is shown there by one run, and nothing else is shown
there (`Runs.shownOnce_iff`). So two buffers cut from one memory show the same characters at the
addresses that both have.
-/
namespace ProcessMemory

/-- A text of one character stands where the bytes of that character do. -/
theorem Charset.standsIn_singleton {c : Charset} {ch : Char} {bytes : List UInt8} {start : Address}
    {a : Nat} :
    c.StandsIn [ch] bytes start a ↔
      start.toNat ≤ a ∧ a % c.encoding.unit = c.residue ∧
        c.encoding.StartsWith ch (bytes.drop (a - start.toNat)) := by
  have hone {enc : List UInt8} :
      c.encoding.encodeText? [ch] = some enc ↔ c.encoding.encode? ch = some enc := by
    rw [Encoding.encodeText?_cons_eq_some]
    constructor
    · rintro ⟨first, after, hfirst, hafter, rfl⟩
      obtain rfl : [] = after := Option.some.inj hafter
      rwa [List.append_nil]
    · exact fun h => ⟨enc, [], h, rfl, List.append_nil enc⟩
  constructor
  · rintro ⟨hle, haligned, enc, henc, hpre⟩
    exact ⟨hle, haligned, enc, hone.1 henc, hpre⟩
  · rintro ⟨hle, haligned, enc, henc, hpre⟩
    exact ⟨hle, haligned, enc, hone.2 henc, hpre⟩

namespace TextRun

variable {c : Charset} {bytes : List UInt8} {start a : Address} {run : TextRun} {ch : Char}
  {runs : List TextRun}

def Shows (run : TextRun) (ch : Char) (a : Address) : Prop :=
  ∃ before after, run.text = before ++ ch :: after ∧
    run.source? (Utf8.encodeAll before).length = some a

/-- One of the runs has the character `ch` at `a`. It has no other character there, and the other
runs have none at all. -/
def ShownOnce (runs : List TextRun) (ch : Char) (a : Address) : Prop :=
  ∃ before run after, runs = before ++ run :: after ∧ run.Shows ch a ∧
    (∀ d, run.Shows d a → d = ch) ∧ ∀ other ∈ before ++ after, ∀ d, ¬other.Shows d a

/-- A run shows what stands among the bytes up to its end. -/
theorem Splits.shows_iff {lead size : Nat} (h : Splits c bytes start run lead size)
    (hfit : start.toNat + bytes.length ≤ 0xFFFF_FFFF_FFFF_FFFF) :
    run.Shows ch a ↔
      c.StandsIn [ch] bytes start a.toNat ∧ a.toNat < start.toNat + lead + size := by
  have ht : [ch] ≠ [] := List.cons_ne_nil ch []
  constructor
  · rintro ⟨before, after, htext, ha⟩
    obtain ⟨read, place, rest, hchars, -⟩ := exists_chars htext
    obtain ⟨-, -, enc, henc, -⟩ := h.at_source hfit hchars
    have hone : c.encoding.encodeText? [ch] = some (enc ++ []) :=
      Encoding.encodeText?_cons_eq_some.2 ⟨enc, [], henc, rfl, rfl⟩
    obtain ⟨source, hsource, hlt, hstands⟩ :=
      h.exists_source hfit ht hone (htext.trans (List.append_cons before ch after))
    obtain rfl := Option.some.inj (ha.symm.trans hsource)
    exact ⟨hstands, hlt⟩
  · rintro ⟨hstands, hlt⟩
    obtain ⟨before, after, source, htext, hsource, heq⟩ := h.exists_piece hfit ht hstands hlt
    obtain rfl := Address.ext heq
    exact ⟨before, after, htext.trans (List.append_cons before ch after).symm, hsource⟩

/-- Nothing is shown but what stands among the bytes. -/
theorem Runs.standsIn (h : Runs c bytes start runs)
    (hfit : start.toNat + bytes.length ≤ 0xFFFF_FFFF_FFFF_FFFF) (hmem : run ∈ runs)
    (hs : run.Shows ch a) : c.StandsIn [ch] bytes start a.toNat := by
  induction h with
  | done hno => cases hmem
  | @run bytes start first runs lead size hnext h hlead hruns ih =>
    have hwithin := h.within
    have hconsumed := h.consumed
    rcases List.mem_cons.1 hmem with rfl | hmem
    · exact ((h.shows_iff hfit).1 hs).1
    · have hrest := ih (by rw [Address.toNat_advance, List.length_drop]; omega) hmem
      exact ((standsIn_drop (by omega)).1 hrest).2

/-- Just the characters that stand among the bytes are shown, each of them once. -/
theorem Runs.shownOnce_iff (h : Runs c bytes start runs)
    (hfit : start.toNat + bytes.length ≤ 0xFFFF_FFFF_FFFF_FFFF) :
    ShownOnce runs ch a ↔ c.StandsIn [ch] bytes start a.toNat := by
  constructor
  · rintro ⟨before, run, after, rfl, hs, -⟩
    exact h.standsIn hfit (List.mem_append_right _ List.mem_cons_self) hs
  · intro ha
    have hunique {run : TextRun} (hmem : run ∈ runs) (d : Char) (hd : run.Shows d a) : d = ch :=
      (Charset.standsIn_singleton.1 (h.standsIn hfit hmem hd)).2.2.unique
        (Charset.standsIn_singleton.1 ha).2.2
    induction h with
    | @done bytes start hno =>
      obtain ⟨hle, haligned, hs⟩ := Charset.standsIn_singleton.1 ha
      have hlt := (ha.starts (List.cons_ne_nil ch [])).1
      refine absurd ⟨ch, hs⟩ (hno _ hlt ?_)
      rwa [Nat.add_sub_cancel' hle]
    | @run bytes start run runs lead size hnext h hlead hruns ih =>
      have hwithin := h.within
      have hconsumed := h.consumed
      have hfit' : (start.advance run.consumed).toNat + (bytes.drop run.consumed).length ≤
          0xFFFF_FFFF_FFFF_FFFF := by
        rw [Address.toNat_advance, List.length_drop]
        omega
      by_cases hlt : a.toNat < start.toNat + lead + size
      · -- The runs after this one begin past the character.
        refine ⟨[], run, runs, rfl, (h.shows_iff hfit).2 ⟨ha, hlt⟩, hunique List.mem_cons_self, ?_⟩
        intro other hmem d hd
        have hpast := ((standsIn_drop (by omega)).1 (hruns.standsIn hfit' hmem hd)).1
        omega
      · have hrest : c.StandsIn [ch] (bytes.drop run.consumed) (start.advance run.consumed)
            a.toNat := (standsIn_drop (by omega)).2 ⟨by omega, ha⟩
        obtain ⟨before, last, after, rfl, hs, hone, hothers⟩ :=
          ih hfit' hrest fun hmem => hunique (List.mem_cons_of_mem _ hmem)
        refine ⟨run :: before, last, after, rfl, hs, hone, ?_⟩
        refine List.forall_mem_cons.2 ⟨fun d hd => ?_, hothers⟩
        exact hlt ((h.shows_iff hfit).1 hd).2

/-- Among bytes of a memory that have all of its own, a character is shown just where the memory
holds it. -/
theorem Runs.shownOnce_iff_holds (h : Runs c bytes start runs)
    (hfit : start.toNat + bytes.length ≤ 0xFFFF_FFFF_FFFF_FFFF) {m : Memory}
    (hm : m.Holds start.toNat bytes) {enc : List UInt8} (henc : c.encoding.encode? ch = some enc)
    (hstart : start ≤ a) (hstop : a.toNat + enc.length ≤ start.toNat + bytes.length) :
    ShownOnce runs ch a ↔ c.Aligned a ∧ m.Holds a.toNat enc := by
  rw [h.shownOnce_iff hfit, Charset.standsIn_singleton]
  obtain ⟨p, hp⟩ := Nat.exists_eq_add_of_le hstart
  have hpre : c.encoding.StartsWith ch (bytes.drop (a.toNat - start.toNat)) ↔
      enc <+: bytes.drop p := by
    rw [hp, Nat.add_sub_cancel_left]
    constructor
    · rintro ⟨enc', henc', hpre⟩
      cases henc.symm.trans henc'
      exact hpre
    · exact fun hpre => ⟨enc, henc, hpre⟩
  rw [hpre, hm.prefix_iff (by omega), ← hp]
  exact ⟨fun hs => hs.2, fun hs => ⟨hstart, hs⟩⟩

/-- A character that stands whole among some bytes, where its charset may have it, is shown there
once. So any two windows into one memory show the same character at the same address where both have
all of its bytes. -/
theorem runs_selfSynchronizing (c : Charset) {bytes : List UInt8} {start : Address}
    (hfit : start.toNat + bytes.length ≤ 0xFFFF_FFFF_FFFF_FFFF) :
    ∃ runs, all? c bytes start = some runs ∧
      (∀ ch p, c.Aligned (start.advance p) → c.encoding.StartsWith ch (bytes.drop p) →
        ShownOnce runs ch (start.advance p)) ∧
      ∀ bytes' start', start'.toNat + bytes'.length ≤ 0xFFFF_FFFF_FFFF_FFFF →
        ∃ runs', all? c bytes' start' = some runs' ∧
          ∀ (m : Memory) (ch : Char) (enc : List UInt8) (a : Address),
            m.Holds start.toNat bytes → m.Holds start'.toNat bytes' →
            c.encoding.encode? ch = some enc →
            start ≤ a → a.toNat + enc.length ≤ start.toNat + bytes.length →
            start' ≤ a → a.toNat + enc.length ≤ start'.toNat + bytes'.length →
            (ShownOnce runs ch a ↔ ShownOnce runs' ch a) := by
  obtain ⟨runs, hall, hruns⟩ := exists_runs c hfit
  refine ⟨runs, hall, fun ch p haligned hs => ?_, fun bytes' start' hfit' => ?_⟩
  · have hlt : p < bytes.length := Nat.lt_of_not_le fun hle =>
      hs.ne_nil (List.drop_eq_nil_of_le hle)
    have hp : (start.advance p).toNat = start.toNat + p := by
      rw [Address.toNat_advance]
      omega
    rw [hruns.shownOnce_iff hfit, Charset.standsIn_singleton]
    refine ⟨Address.le_advance start p, haligned, ?_⟩
    rwa [hp, Nat.add_sub_cancel_left]
  · obtain ⟨runs', hall', hruns'⟩ := exists_runs c hfit'
    refine ⟨runs', hall', fun m ch enc a hm hm' henc h1 h2 h1' h2' => ?_⟩
    rw [hruns.shownOnce_iff_holds hfit hm henc h1 h2,
      hruns'.shownOnce_iff_holds hfit' hm' henc h1' h2']

/-- The second window begins inside a pair of surrogates. -/
theorem runs_selfSynchronizing_cut :
    let bytes : List UInt8 := [0x3D, 0xD8, 0x00, 0xDE, 0x41, 0x00]
    (0x10 : Address).toNat + bytes.length ≤ 0xFFFF_FFFF_FFFF_FFFF ∧
      ∃ runs, all? .utf16Even bytes 0x10 = some runs ∧ ShownOnce runs '😀' 0x10 ∧
        ∃ runs', all? .utf16Even (bytes.drop 2) 0x12 = some runs' ∧
          ShownOnce runs 'A' 0x14 ∧ ShownOnce runs' 'A' 0x14 := by
  intro bytes
  have hfit : (0x10 : Address).toNat + bytes.length ≤ 0xFFFF_FFFF_FFFF_FFFF := by decide
  have hfit' : (0x12 : Address).toNat + (bytes.drop 2).length ≤ 0xFFFF_FFFF_FFFF_FFFF := by decide
  obtain ⟨runs, hall, hshown, hwindows⟩ := runs_selfSynchronizing .utf16Even hfit
  obtain ⟨runs', hall', hsame⟩ := hwindows (bytes.drop 2) 0x12 hfit'
  have hpair : ShownOnce runs '😀' 0x10 :=
    hshown '😀' 0 (by decide) ⟨[0x3D, 0xD8, 0x00, 0xDE], by decide, by decide⟩
  have hletter : ShownOnce runs 'A' 0x14 :=
    hshown 'A' 4 (by decide) ⟨[0x41, 0x00], by decide, by decide⟩
  let m : Memory := fun n => if 0x10 ≤ n then bytes[n - 0x10]? else none
  have hm : ∀ i < 6, m (0x10 + i) = bytes[i]? := by decide
  have hm' : ∀ i < 4, m (0x12 + i) = (bytes.drop 2)[i]? := by decide
  have hletter' := (hsame m 'A' [0x41, 0x00] 0x14 hm hm' (by decide) (by decide) (by decide)
    (by decide) (by decide)).1 hletter
  exact ⟨hfit, runs, hall, hpair, runs', hall', hletter, hletter'⟩

end TextRun
end ProcessMemory
