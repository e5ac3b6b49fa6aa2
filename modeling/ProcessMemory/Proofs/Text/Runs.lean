import ProcessMemory.Proofs.Text.Codec
import ProcessMemory.TextRun

/-!
# What text runs hold

A run is a series of characters that stand one after another (`Reads`), with garbage before it and
no character after it (`Splits`). The runs of a buffer follow each other (`Runs`): a character that
stands where its charset allows one is in one of them, at its own address, since neither garbage nor
another character can step over it.
-/
namespace ProcessMemory

namespace Encoding

variable {e : Encoding} {bytes enc : List UInt8} {c : Char}

theorem StartsWith.ne_nil (h : e.StartsWith c bytes) : bytes ≠ [] := by
  obtain ⟨enc, henc, hpre⟩ := h
  rintro rfl
  rw [List.prefix_nil.1 hpre] at henc
  exact absurd (encode?_length henc).1 (Nat.lt_irrefl 0)

theorem not_starts_nil : ¬e.Starts [] := fun ⟨_, h⟩ => h.ne_nil rfl

theorem encodeText?_length {text : List Char} (h : e.encodeText? text = some enc) :
    enc.length % e.unit = 0 := by
  induction text generalizing enc with
  | nil =>
    cases h
    exact Nat.zero_mod _
  | cons c text ih =>
    obtain ⟨first, after, hfirst, hafter, rfl⟩ := encodeText?_cons_eq_some.1 h
    rw [List.length_append, Nat.add_mod, (encode?_length hfirst).2, ih hafter, Nat.zero_mod]

theorem starts_of_text {text : List Char} (ht : text ≠ []) (h : e.encodeText? text = some enc)
    (hpre : enc <+: bytes) : e.Starts bytes := by
  obtain ⟨c, text, rfl⟩ := List.exists_cons_of_ne_nil ht
  obtain ⟨first, after, hfirst, -, rfl⟩ := encodeText?_cons_eq_some.1 h
  exact ⟨c, first, hfirst, (List.prefix_append _ _).trans hpre⟩

/-! ## Garbage -/

/-- What is dropped ends at a unit that starts a character, or at the end, and no unit in it starts
one. -/
theorem dropGarbage_eq (e : Encoding) (bytes : List UInt8) :
    ∃ count, e.dropGarbage bytes = bytes.drop count ∧ count ≤ bytes.length ∧
      (count < bytes.length → count % e.unit = 0 ∧ e.Starts (bytes.drop count)) ∧
      ∀ p < count, p % e.unit = 0 → ¬e.Starts (bytes.drop p) := by
  fun_induction dropGarbage e bytes with
  | case1 => exact ⟨0, rfl, Nat.le_refl 0, fun h => absurd h (Nat.lt_irrefl 0), nofun⟩
  | case2 b rest width hfront ih =>
    obtain ⟨count, heq, hle, hstop, hnone⟩ := ih
    obtain ⟨hpos, hunit, hshort⟩ := garbage_width (List.cons_ne_nil b rest) hfront
    have hdrop (n : Nat) : (rest.drop (width - 1)).drop n = (b :: rest).drop (width + n) := by
      rw [List.drop_drop, ← List.drop_succ_cons (a := b)]
      congr 1
      omega
    have hfirst {p : Nat} (hp : p < width) (hmod : p % e.unit = 0) :
        ¬e.Starts ((b :: rest).drop p) := by
      rw [Nat.mod_eq_of_lt (by omega)] at hmod
      rw [hmod]
      exact not_starts_of_garbage hfront
    have hlen : (rest.drop (width - 1)).length = (b :: rest).length - width := by
      rw [List.length_drop, List.length_cons]
      omega
    rw [hlen] at hle hstop
    by_cases hend : (b :: rest).length ≤ width
    · refine ⟨(b :: rest).length, ?_, Nat.le_refl _, fun h => absurd h (Nat.lt_irrefl _), ?_⟩
      · rw [heq, hdrop, List.drop_length, List.drop_eq_nil_of_le (by omega)]
      · exact fun p hp => hfirst (Nat.lt_of_lt_of_le hp hend)
    · have hwidth : width = e.unit := Nat.le_antisymm hunit (by omega)
      refine ⟨width + count, by rw [heq, hdrop], by omega, fun h => ?_, fun p hp hmod => ?_⟩
      · obtain ⟨hmod, hstarts⟩ := hstop (by omega)
        rw [hdrop] at hstarts
        exact ⟨by rw [hwidth, Nat.add_mod_left, hmod], hstarts⟩
      · by_cases hlt : p < width
        · exact hfirst hlt hmod
        · obtain ⟨j, rfl⟩ := Nat.exists_eq_add_of_le (Nat.le_of_not_lt hlt)
          rw [← hdrop]
          rw [hwidth, Nat.add_mod_left] at hmod
          exact hnone j (by omega) hmod
  | case3 b rest c width hfront =>
    refine ⟨0, rfl, Nat.zero_le _, fun _ => ⟨Nat.zero_mod _, ?_⟩, nofun⟩
    exact starts_of_char hfront

/-! ## Characters -/

/-- Characters stand one after another at the front of some bytes, the first one at `offset`, and
none comes after the last, which ends at `stop`. -/
inductive Reads (e : Encoding) :
    (offset : Nat) → (bytes : List UInt8) → (chars : List (Nat × Char)) → (stop : Nat) → Prop where
  | done {offset : Nat} {bytes : List UInt8} (h : ¬e.Starts bytes) : Reads e offset bytes [] offset
  | char {offset stop : Nat} {bytes enc : List UInt8} {c : Char} {chars : List (Nat × Char)}
    (henc : e.encode? c = some enc) (h : Reads e (offset + enc.length) bytes chars stop) :
    Reads e offset (enc ++ bytes) ((offset, c) :: chars) stop

theorem reads_readChars (e : Encoding) (offset : Nat) (read : List (Nat × Char))
    (bytes : List UInt8) :
    ∃ chars stop, e.readChars offset read bytes = (chars.reverse ++ read, stop) ∧
      e.Reads offset bytes chars stop := by
  fun_induction readChars e offset read bytes with
  | case1 offset read => exact ⟨[], offset, rfl, .done not_starts_nil⟩
  | case2 offset read b rest width hfront =>
    exact ⟨[], offset, rfl, .done (not_starts_of_garbage hfront)⟩
  | case3 offset read b rest c width hfront ih =>
    obtain ⟨chars, stop, heq, hreads⟩ := ih
    obtain ⟨enc, henc, ⟨after, hafter⟩, rfl⟩ := front_eq_char.1 hfront
    have hpos := (encode?_length henc).1
    have hdrop : rest.drop (enc.length - 1) = after := by
      rw [← List.drop_succ_cons (a := b), ← hafter, Nat.sub_add_cancel hpos,
        List.drop_left' rfl]
    rw [hdrop] at hreads
    refine ⟨(offset, c) :: chars, stop, ?_, hafter ▸ .char henc hreads⟩
    rw [heq, List.reverse_cons, List.append_assoc, List.singleton_append]

namespace Reads

variable {offset stop : Nat} {chars : List (Nat × Char)}

theorem of_nil (h : e.Reads offset [] chars stop) : chars = [] ∧ stop = offset := by
  generalize hbytes : ([] : List UInt8) = bytes at h
  cases h with
  | done hno => exact ⟨rfl, rfl⟩
  | char henc h =>
    have hpos := (encode?_length henc).1
    have hlen := congrArg List.length hbytes
    rw [List.length_nil, List.length_append] at hlen
    omega

theorem le_stop (h : e.Reads offset bytes chars stop) : offset ≤ stop := by
  induction h with
  | done h => exact Nat.le_refl _
  | char henc h ih => omega

theorem stop_le (h : e.Reads offset bytes chars stop) : stop ≤ offset + bytes.length := by
  induction h with
  | done h => omega
  | char henc h ih =>
    rw [List.length_append]
    omega

theorem not_starts_after (h : e.Reads offset bytes chars stop) :
    ¬e.Starts (bytes.drop (stop - offset)) := by
  induction h with
  | done h =>
    rw [Nat.sub_self]
    exact h
  | @char offset stop bytes enc c chars henc h ih =>
    have := h.le_stop
    have hdrop : (enc ++ bytes).drop (stop - offset) =
        bytes.drop (stop - (offset + enc.length)) := by
      rw [List.drop_append, List.drop_eq_nil_of_le (by omega), List.nil_append, Nat.sub_sub]
    rw [hdrop]
    exact ih

/-- The bytes are those of the characters read first, and then those that the others were read
from. -/
theorem split {before after : List (Nat × Char)} (h : e.Reads offset bytes (before ++ after) stop) :
    ∃ enc rest, e.encodeText? (before.map Prod.snd) = some enc ∧ bytes = enc ++ rest ∧
      e.Reads (offset + enc.length) rest after stop := by
  induction before generalizing offset bytes with
  | nil => exact ⟨[], bytes, rfl, rfl, h⟩
  | cons head before ih =>
    cases h with
    | @char _ _ bytes first c _ hfirst h =>
      obtain ⟨enc, rest, henc, rfl, hrest⟩ := ih h
      refine ⟨first ++ enc, rest, encodeText?_cons_eq_some.2 ⟨first, enc, hfirst, henc, rfl⟩,
        (List.append_assoc _ _ _).symm, ?_⟩
      rw [List.length_append, ← Nat.add_assoc]
      exact hrest

/-- Writing the characters gives back the bytes that were read. -/
theorem encodeText?_eq (h : e.Reads offset bytes chars stop) :
    e.encodeText? (chars.map Prod.snd) = some (bytes.take (stop - offset)) := by
  rw [← List.append_nil chars] at h
  obtain ⟨enc, rest, henc, rfl, hrest⟩ := h.split
  cases hrest with
  | done hno => rw [henc, Nat.add_sub_cancel_left, List.take_left' rfl]

theorem first_place {place : Nat} (h : e.Reads offset bytes ((place, c) :: chars) stop) :
    place = offset := by
  cases h
  rfl

/-- At each character stand its own bytes. -/
theorem at_char {before after : List (Nat × Char)} {place : Nat}
    (h : e.Reads offset bytes (before ++ (place, c) :: after) stop) :
    offset ≤ place ∧ place < stop ∧
      ∃ enc, e.encode? c = some enc ∧ enc <+: bytes.drop (place - offset) := by
  obtain ⟨text, rest, htext, rfl, hrest⟩ := h.split
  cases hrest with
  | @char _ _ rest enc _ _ henc h =>
    have hle := h.le_stop
    have hpos := (encode?_length henc).1
    refine ⟨Nat.le_add_right _ _, by omega, enc, henc, ?_⟩
    rw [Nat.add_sub_cancel_left, List.drop_left' rfl]
    exact List.prefix_append _ _

theorem place_lt {before mid after : List (Nat × Char)} {c' : Char} {place place' : Nat}
    (h : e.Reads offset bytes (before ++ (place, c) :: (mid ++ (place', c') :: after)) stop) :
    place < place' := by
  obtain ⟨text, rest, htext, rfl, hrest⟩ := h.split
  cases hrest with
  | char henc h =>
    have hpos := (encode?_length henc).1
    have hle := h.at_char.1
    omega

/-- Reading does not step over a character. -/
theorem split_at (h : e.Reads offset bytes chars stop) {p : Nat} (hp : offset + p < stop)
    (hunit : p % e.unit = 0) (hs : e.Starts (bytes.drop p)) :
    ∃ before after, chars = before ++ after ∧ e.Reads (offset + p) (bytes.drop p) after stop := by
  induction h generalizing p with
  | done h => omega
  | @char offset stop bytes enc c chars henc h ih =>
    cases p with
    | zero => exact ⟨[], _, rfl, .char henc h⟩
    | succ p =>
      by_cases hlt : p + 1 < enc.length
      · rw [List.drop_append_of_le_length (Nat.le_of_lt hlt)] at hs
        exact absurd hs (not_starts_inside henc (Nat.succ_pos p) hlt hunit)
      · obtain ⟨q, hq⟩ := Nat.exists_eq_add_of_le (Nat.le_of_not_lt hlt)
        have hmod := (encode?_length henc).2
        have hdrop : (enc ++ bytes).drop (p + 1) = bytes.drop q := by
          rw [hq, List.drop_append, List.drop_eq_nil_of_le (Nat.le_add_right _ _),
            List.nil_append, Nat.add_sub_cancel_left]
        rw [hdrop] at hs ⊢
        have hq' : q % e.unit = 0 := by
          rw [hq, Nat.add_mod, hmod, Nat.zero_add, Nat.mod_mod] at hunit
          exact hunit
        obtain ⟨before, after, rfl, hafter⟩ := ih (by omega) hq' hs
        refine ⟨(offset, c) :: before, after, rfl, ?_⟩
        rw [hq, ← Nat.add_assoc]
        exact hafter

/-- What is read from the bytes of a text is that text. -/
theorem of_text {text : List Char} {rest : List UInt8} (henc : e.encodeText? text = some enc)
    (h : e.Reads offset (enc ++ rest) chars stop) :
    ∃ read after, chars = read ++ after ∧ read.map Prod.snd = text ∧
      e.Reads (offset + enc.length) rest after stop := by
  induction text generalizing offset enc chars with
  | nil =>
    cases henc
    exact ⟨[], chars, rfl, rfl, h⟩
  | cons c text ih =>
    obtain ⟨first, enc, hfirst, htext, rfl⟩ := encodeText?_cons_eq_some.1 henc
    rw [List.append_assoc] at h
    have hc : e.StartsWith c (first ++ (enc ++ rest)) := ⟨first, hfirst, List.prefix_append _ _⟩
    generalize hbytes : first ++ (enc ++ rest) = bytes at h hc
    cases h with
    | done hno => exact absurd ⟨c, hc⟩ hno
    | @char _ _ bytes first' c' chars hfirst' h =>
      obtain rfl := hc.unique ⟨first', hfirst', List.prefix_append _ _⟩
      obtain rfl := Option.some.inj (hfirst.symm.trans hfirst')
      rw [← List.append_cancel_left hbytes] at h
      obtain ⟨read, after, rfl, hread, hafter⟩ := ih htext h
      refine ⟨(offset, c) :: read, after, rfl, congrArg (c :: ·) hread, ?_⟩
      rw [List.length_append, ← Nat.add_assoc]
      exact hafter

/-- A text among the bytes that were read is a piece of what was read. -/
theorem exists_piece {text : List Char} (h : e.Reads offset bytes chars stop) (ht : text ≠ [])
    (henc : e.encodeText? text = some enc) {p : Nat} (hpre : enc <+: bytes.drop p)
    (hp : offset + p < stop) (hunit : p % e.unit = 0) :
    ∃ read ch piece after, chars = read ++ (offset + p, ch) :: (piece ++ after) ∧
      ch :: piece.map Prod.snd = text := by
  obtain ⟨read, others, rfl, hreads⟩ := h.split_at hp hunit (starts_of_text ht henc hpre)
  obtain ⟨rest, hrest⟩ := hpre
  rw [← hrest] at hreads
  obtain ⟨piece, after, rfl, hpiece, -⟩ := hreads.of_text henc
  cases piece with
  | nil => exact absurd hpiece.symm ht
  | cons head piece =>
    obtain ⟨place, ch⟩ := head
    obtain rfl := hreads.first_place
    exact ⟨read, ch, piece, after, rfl, hpiece⟩

end Reads

end Encoding

namespace Address

theorem advance_zero (start : Address) : start.advance 0 = start := by
  have := start.isLt
  rw [Address.ext_iff, toNat_advance]
  omega

theorem advance_advance (start : Address) (a b : Nat) :
    (start.advance a).advance b = start.advance (a + b) := by
  simp only [Address.ext_iff, toNat_advance]
  omega

end Address

namespace Charset

/-- Where there is an address further up, it can be told where the next unit starts. -/
theorem exists_skip? (c : Charset) {a : Address} (h : a.toNat < 0xFFFF_FFFF_FFFF_FFFF) :
    ∃ n, c.skip? a = some n := by
  cases c with
  | utf16Odd => exact ⟨_, skip?_odd.2 ⟨by omega, rfl⟩⟩
  | _ => exact ⟨_, rfl⟩

end Charset

namespace TextRun

variable {c : Charset} {bytes : List UInt8} {start : Address} {run : TextRun}

/-! ## Places in the text of a run -/

theorem lookup_sourcesFrom {address a : Address} {chars : List (Nat × Char)} {first place : Nat} :
    (sourcesFrom address first chars).lookup place = some a ↔
      ∃ before offset ch after, chars = before ++ (offset, ch) :: after ∧
        place = first + (Utf8.encodeAll (before.map Prod.snd)).length ∧
        a = address.advance offset := by
  induction chars generalizing first with
  | nil =>
    simp only [sourcesFrom, List.lookup_nil, reduceCtorEq, false_iff]
    rintro ⟨before, offset, ch, after, h, -⟩
    exact absurd (congrArg List.length h) (by simp)
  | cons head chars ih =>
    obtain ⟨offset, ch⟩ := head
    have hsize (before : List (Nat × Char)) :
        (Utf8.encodeAll (((offset, ch) :: before).map Prod.snd)).length =
          ch.utf8Size + (Utf8.encodeAll (before.map Prod.snd)).length := by
      rw [List.map_cons, Utf8.encodeAll, List.flatMap_cons, List.length_append,
        Utf8.length_encode, Utf8.encodeAll]
    have hpos := ch.utf8Size_pos
    rw [sourcesFrom, List.lookup_cons]
    by_cases hp : place = first
    · rw [hp, beq_self_eq_true, Option.some.injEq]
      constructor
      · rintro rfl
        exact ⟨[], offset, ch, chars, rfl, rfl, rfl⟩
      · rintro ⟨before, offset', ch', after, h, hplace, rfl⟩
        cases before with
        | nil => cases h; rfl
        | cons head' before =>
          cases h
          rw [hsize] at hplace
          omega
    · rw [beq_eq_false_iff_ne.2 hp, ih]
      constructor
      · rintro ⟨before, offset', ch', after, rfl, rfl, rfl⟩
        refine ⟨(offset, ch) :: before, offset', ch', after, rfl, ?_, rfl⟩
        rw [hsize, Nat.add_assoc]
      · rintro ⟨before, offset', ch', after, h, hplace, rfl⟩
        cases before with
        | nil => exact absurd hplace hp
        | cons head' before =>
          cases h
          refine ⟨before, offset', ch', after, rfl, ?_, rfl⟩
          rw [hplace, hsize, Nat.add_assoc]

theorem source?_eq_some {place : Nat} {a : Address} :
    run.source? place = some a ↔
      ∃ before offset ch after, run.chars = before ++ (offset, ch) :: after ∧
        place = (Utf8.encodeAll (before.map Prod.snd)).length ∧ a = run.address.advance offset := by
  rw [source?, sources, lookup_sourcesFrom]
  simp only [Nat.zero_add]

theorem exists_chars {before after : List Char} {ch : Char} (h : run.text = before ++ ch :: after) :
    ∃ read offset rest, run.chars = read ++ (offset, ch) :: rest ∧ read.map Prod.snd = before := by
  obtain ⟨read, rest, hchars, hread, hrest⟩ := List.map_eq_append_iff.1 h
  obtain ⟨⟨offset, _⟩, rest, rfl, rfl, -⟩ := List.map_eq_cons_iff.1 hrest
  exact ⟨read, offset, rest, hchars, hread⟩

/-- Just the places at which characters start have an address. -/
theorem source?_isSome {place : Nat} :
    (run.source? place).isSome ↔
      ∃ before ch after, run.text = before ++ ch :: after ∧
        place = (Utf8.encodeAll before).length := by
  rw [Option.isSome_iff_exists]
  constructor
  · rintro ⟨a, ha⟩
    obtain ⟨read, offset, ch, rest, hchars, hplace, -⟩ := source?_eq_some.1 ha
    refine ⟨read.map Prod.snd, ch, rest.map Prod.snd, ?_, hplace⟩
    rw [text, hchars, List.map_append, List.map_cons]
  · rintro ⟨before, ch, after, htext, rfl⟩
    obtain ⟨read, offset, rest, hchars, rfl⟩ := exists_chars htext
    exact ⟨_, source?_eq_some.2 ⟨read, offset, ch, rest, hchars, rfl, rfl⟩⟩

/-! ## A run and the runs after it -/

/-- The run is read from `bytes`, which lie at `start`, after the first `lead` of them, and its
characters take `size` bytes. -/
structure Splits (c : Charset) (bytes : List UInt8) (start : Address) (run : TextRun)
    (lead size : Nat) : Prop where
  within : lead + size ≤ bytes.length
  address : run.address.toNat = start.toNat + lead
  consumed : run.consumed = lead + size
  /-- Where anything is left, it starts with a character. -/
  starts : lead < bytes.length → c.Aligned run.address ∧ c.encoding.Starts (bytes.drop lead)
  /-- Nothing that might start a character is passed over. -/
  passed : ∀ p < lead, (start.toNat + p) % c.encoding.unit = c.residue →
    ¬c.encoding.Starts (bytes.drop p)
  reads : c.encoding.Reads 0 (bytes.drop lead) run.chars size

/-- What is dropped before a run holds no place at which a character might start. -/
theorem exists_lead {skip : Nat} (h : c.skip? start = some skip) (bytes : List UInt8) :
    ∃ lead, c.encoding.dropGarbage (bytes.drop skip) = bytes.drop lead ∧ lead ≤ bytes.length ∧
      (lead < bytes.length → (start.toNat + lead) % c.encoding.unit = c.residue ∧
        c.encoding.Starts (bytes.drop lead)) ∧
      ∀ p < lead, (start.toNat + p) % c.encoding.unit = c.residue →
        ¬c.encoding.Starts (bytes.drop p) := by
  have haligned := Charset.skip?_aligned h
  have hlt := Charset.skip?_lt_unit h
  have hskip {p : Nat} (hp : p < skip) : (start.toNat + p) % c.encoding.unit ≠ c.residue := by
    intro hmod
    have hzero := Nat.sub_mod_eq_zero_of_mod_eq (haligned.trans hmod.symm)
    rw [Nat.mod_eq_of_lt (by omega)] at hzero
    omega
  by_cases hle : skip ≤ bytes.length
  · obtain ⟨count, hdrop, hcount, hstop, hnone⟩ := c.encoding.dropGarbage_eq (bytes.drop skip)
    simp only [List.length_drop, List.drop_drop] at hdrop hcount hstop hnone
    refine ⟨skip + count, hdrop, by omega, fun hl => ?_, fun p hp hmod => ?_⟩
    · obtain ⟨hunit, hstarts⟩ := hstop (by omega)
      refine ⟨?_, hstarts⟩
      rw [← Nat.add_assoc, Nat.add_mod, hunit, Nat.add_zero, Nat.mod_mod, haligned]
    · by_cases hps : p < skip
      · exact absurd hmod (hskip hps)
      · obtain ⟨q, rfl⟩ := Nat.exists_eq_add_of_le (Nat.le_of_not_lt hps)
        refine hnone q (by omega) ?_
        have hzero := Nat.sub_mod_eq_zero_of_mod_eq (hmod.trans haligned.symm)
        rwa [← Nat.add_assoc, Nat.add_sub_cancel_left] at hzero
  · refine ⟨bytes.length, ?_, Nat.le_refl _, fun hl => absurd hl (Nat.lt_irrefl _), fun p hp => ?_⟩
    · rw [List.drop_eq_nil_of_le (Nat.le_of_not_le hle), List.drop_length, Encoding.dropGarbage]
    · exact fun hmod => absurd hmod (hskip (by omega))

theorem exists_splits (c : Charset) (hb : bytes ≠ [])
    (hfit : start.toNat + bytes.length ≤ 0xFFFF_FFFF_FFFF_FFFF) :
    ∃ run lead size, next? c bytes start = some run ∧ Splits c bytes start run lead size := by
  have hlen := List.length_pos_iff.2 hb
  obtain ⟨skip, hskip⟩ := c.exists_skip? (a := start) (by omega)
  obtain ⟨lead, hdrop, hle, hstop, hnone⟩ := exists_lead hskip bytes
  obtain ⟨chars, size, hread, hreads⟩ := c.encoding.reads_readChars 0 [] (bytes.drop lead)
  have hsize := hreads.stop_le
  rw [List.length_drop] at hsize
  have haddress : (start.advance lead).toNat = start.toNat + lead := by
    rw [Address.toNat_advance]
    omega
  have hback : bytes.length - (bytes.length - lead) = lead := by omega
  refine ⟨⟨start.advance lead, lead + size, chars⟩, lead, size, ?_, ?_⟩
  · simp only [next?, hskip, Option.map_some, after, hdrop, List.length_drop, hback, hread,
      List.append_nil, List.reverse_reverse]
  · refine ⟨by omega, haddress, rfl, fun hl => ?_, hnone, hreads⟩
    rw [Charset.Aligned, haddress]
    exact hstop hl

namespace Splits

variable {lead size : Nat}

theorem size_pos (h : Splits c bytes start run lead size) (hlead : lead < bytes.length) :
    0 < size := by
  have hreads := h.reads
  generalize run.chars = chars at hreads
  generalize hoff : bytes.drop lead = rest at hreads
  cases hreads with
  | done hno => exact absurd (hoff ▸ (h.starts hlead).2) hno
  | char henc hrest =>
    have hle := hrest.le_stop
    have hpos := (Encoding.encode?_length henc).1
    omega

/-- A run without characters comes at the end. -/
theorem chars_isEmpty (h : Splits c bytes start run lead size) :
    run.chars.isEmpty ↔ lead = bytes.length := by
  have hreads := h.reads
  rw [List.isEmpty_iff]
  constructor
  · intro hnil
    have hle := h.within
    have hstarts := h.starts
    rw [hnil] at hreads
    generalize bytes.drop lead = rest at hreads hstarts
    cases hreads with
    | done hno => exact Decidable.byContradiction fun hne => hno (hstarts (by omega)).2
  · rintro rfl
    rw [List.drop_length] at hreads
    exact hreads.of_nil.1

theorem text_ne_nil (h : Splits c bytes start run lead size) (hlead : lead < bytes.length) :
    run.text ≠ [] := by
  intro hnil
  have hempty := h.chars_isEmpty.1 (List.isEmpty_iff.2 (List.map_eq_nil_iff.1 hnil))
  exact absurd hempty (Nat.ne_of_lt hlead)

/-- A character of the run has the address that its bytes lie at. -/
theorem at_source (h : Splits c bytes start run lead size)
    (hfit : start.toNat + bytes.length ≤ 0xFFFF_FFFF_FFFF_FFFF)
    {before after : List (Nat × Char)} {offset : Nat} {ch : Char}
    (hchars : run.chars = before ++ (offset, ch) :: after) :
    offset < size ∧ (run.address.advance offset).toNat = start.toNat + lead + offset ∧
      c.encoding.StartsWith ch (bytes.drop (lead + offset)) := by
  have hwithin := h.within
  have haddress := h.address
  obtain ⟨-, hlt, enc, henc, hpre⟩ := (hchars ▸ h.reads).at_char
  rw [Nat.sub_zero, List.drop_drop] at hpre
  refine ⟨hlt, ?_, enc, henc, hpre⟩
  rw [Address.toNat_advance]
  omega

/-- Addresses rise along the text. -/
theorem source_lt (h : Splits c bytes start run lead size)
    (hfit : start.toNat + bytes.length ≤ 0xFFFF_FFFF_FFFF_FFFF) {place place' : Nat}
    {a b : Address} (hlt : place < place') (ha : run.source? place = some a)
    (hb : run.source? place' = some b) : a < b := by
  obtain ⟨read, offset, ch, rest, hchars, rfl, rfl⟩ := source?_eq_some.1 ha
  obtain ⟨read', offset', ch', rest', hchars', rfl, rfl⟩ := source?_eq_some.1 hb
  have haddr := (h.at_source hfit hchars).2.1
  have haddr' := (h.at_source hfit hchars').2.1
  have hoffset : offset < offset' := by
    rcases List.append_eq_append_iff.1 (hchars.symm.trans hchars') with
      ⟨mid, rfl, hmid⟩ | ⟨mid, rfl, -⟩
    · cases mid with
      | nil =>
        rw [List.append_nil] at hlt
        exact absurd hlt (Nat.lt_irrefl _)
      | cons head mid =>
        cases hmid
        exact (hchars ▸ h.reads).place_lt
    · simp only [List.map_append, Utf8.encodeAll, List.flatMap_append, List.length_append] at hlt
      omega
  rw [Address.lt_def]
  omega

end Splits

/-- The runs of `bytes`, which lie at `start`, one after another. -/
inductive Runs (c : Charset) : (bytes : List UInt8) → (start : Address) → List TextRun → Prop where
  | done {bytes : List UInt8} {start : Address} (h : ∀ p, p < bytes.length →
      (start.toNat + p) % c.encoding.unit = c.residue → ¬c.encoding.Starts (bytes.drop p)) :
    Runs c bytes start []
  | run {bytes : List UInt8} {start : Address} {run : TextRun} {runs : List TextRun}
    {lead size : Nat} (hnext : next? c bytes start = some run)
    (h : Splits c bytes start run lead size) (hlead : lead < bytes.length)
    (hruns : Runs c (bytes.drop run.consumed) (start.advance run.consumed) runs) :
    Runs c bytes start (run :: runs)

theorem exists_runs (c : Charset) (hfit : start.toNat + bytes.length ≤ 0xFFFF_FFFF_FFFF_FFFF) :
    ∃ runs, all? c bytes start = some runs ∧ Runs c bytes start runs := by
  fun_induction all? c bytes start with
  | case1 start => exact ⟨[], rfl, .done nofun⟩
  | case2 bytes start hb hnone =>
    obtain ⟨run, lead, size, hnext, -⟩ := exists_splits c hb hfit
    rw [hnone] at hnext
    cases hnext
  | case3 bytes start hb run hnext hc =>
    obtain ⟨run', lead, size, hnext', h⟩ := exists_splits c hb hfit
    obtain rfl := Option.some.inj (hnext.symm.trans hnext')
    have hlen := List.length_pos_iff.2 hb
    have hconsumed := h.consumed
    have hpos := h.size_pos (by omega)
    omega
  | case4 bytes start hb run hnext hc ih =>
    obtain ⟨run', lead, size, hnext', h⟩ := exists_splits c hb hfit
    obtain rfl := Option.some.inj (hnext.symm.trans hnext')
    have hwithin := h.within
    have hconsumed := h.consumed
    obtain ⟨runs, hall, hruns⟩ := ih (by rw [Address.toNat_advance, List.length_drop]; omega)
    rw [hall, Option.map_some]
    refine ⟨_, rfl, ?_⟩
    by_cases hlead : lead = bytes.length
    · rw [if_pos (h.chars_isEmpty.2 hlead)]
      rw [List.drop_eq_nil_of_le (by omega)] at hruns
      cases hruns with
      | done hno => exact .done (hlead ▸ h.passed)
      | run hnext h hlead hruns => exact absurd hlead (Nat.not_lt_zero _)
    · rw [if_neg (fun he => hlead (h.chars_isEmpty.1 he))]
      exact .run hnext h (by omega) hruns

def usedUp : List TextRun → Nat
  | [] => 0
  | run :: rest => run.consumed + usedUp rest

/-- Each run is read after what the runs before it used up. -/
theorem Runs.at_run {before after : List TextRun}
    (h : Runs c bytes start (before ++ run :: after))
    (hfit : start.toNat + bytes.length ≤ 0xFFFF_FFFF_FFFF_FFFF) :
    let offset := usedUp before
    next? c (bytes.drop offset) (start.advance offset) = some run ∧
      ∃ lead size, Splits c (bytes.drop offset) (start.advance offset) run lead size ∧
        offset + lead < bytes.length := by
  induction before generalizing bytes start with
  | nil =>
    cases h with
    | run hnext h hlead hruns =>
      simp only [usedUp, List.drop_zero, Address.advance_zero, Nat.zero_add]
      exact ⟨hnext, _, _, h, hlead⟩
  | cons first before ih =>
    cases h with
    | run hnext h hlead hruns =>
      have hwithin := h.within
      have hconsumed := h.consumed
      have hrest := ih hruns (by rw [Address.toNat_advance, List.length_drop]; omega)
      simp only [List.drop_drop, List.length_drop, Address.advance_advance] at hrest
      obtain ⟨hnext, lead, size, hsplits, hlt⟩ := hrest
      exact ⟨hnext, lead, size, hsplits, by simp only [usedUp]; omega⟩

end TextRun
end ProcessMemory
