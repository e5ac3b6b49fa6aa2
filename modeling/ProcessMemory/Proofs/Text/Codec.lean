import ProcessMemory.Proofs.Text.Utf8
import ProcessMemory.Text.Encoding

/-!
# Decoders and encoders

Every decoder gives the character whose bytes its encoder writes, and tells garbage just where no
encoder would have written anything (`front_eq_char`). Units keep step: no character starts at a
unit inside another one or inside garbage (`not_starts_inside`). All that follows about decoded text
rests on these two facts, whatever the encoding.
-/
namespace ProcessMemory.Encoding

variable {e : Encoding} {bytes rest enc : List UInt8} {c : Char} {width : Nat}

/-- The bytes of the character `c` stand at the front. -/
def StartsWith (e : Encoding) (c : Char) (bytes : List UInt8) : Prop :=
  ∃ enc, e.encode? c = some enc ∧ enc <+: bytes

def Starts (e : Encoding) (bytes : List UInt8) : Prop := ∃ c, e.StartsWith c bytes

/-! ## UTF-16 -/

theorem unitBytes_prefix_cons {a b : UInt8} {n : Nat} (hn : n < 0x10000) :
    unitBytes n <+: a :: b :: rest ↔ wordUnit a b = n := by
  have ha := a.toNat_lt
  have hb := b.toNat_lt
  simp only [unitBytes, List.cons_prefix_cons, List.nil_prefix, and_true, ← UInt8.toNat_inj,
    UInt8.toNat_ofNat', wordUnit]
  omega

theorem wordUnit_lt (a b : UInt8) : wordUnit a b < 0x10000 := by
  have ha := a.toNat_lt
  have hb := b.toNat_lt
  unfold wordUnit
  omega

def unit? : List UInt8 → Option Nat
  | a :: b :: _ => some (wordUnit a b)
  | _ => none

theorem unitBytes_append_prefix_iff {n : Nat} (hn : n < 0x10000) :
    unitBytes n ++ enc <+: bytes ↔ unit? bytes = some n ∧ enc <+: bytes.drop 2 := by
  rcases bytes with _ | ⟨a, _ | ⟨b, rest⟩⟩
  · simp [unitBytes, unit?]
  · simp [unitBytes, unit?]
  · have hunit : unitBytes n <+: a :: b :: rest ↔ wordUnit a b = n := unitBytes_prefix_cons hn
    simp only [unitBytes, List.cons_prefix_cons, List.nil_prefix, and_true] at hunit
    simp only [unitBytes, List.cons_append, List.nil_append, List.cons_prefix_cons, ← and_assoc,
      unit?, Option.some.injEq, ← hunit, List.drop_succ_cons, List.drop_zero]

theorem unitBytes_prefix_iff {n : Nat} (hn : n < 0x10000) :
    unitBytes n <+: bytes ↔ unit? bytes = some n := by
  have happend : unitBytes n ++ [] <+: bytes ↔ _ := unitBytes_append_prefix_iff hn
  simpa only [List.append_nil, List.nil_prefix, and_true] using happend

/-- The two ways in which a character is made of units. -/
inductive IsUnits (c : Char) : List Nat → Prop where
  | one (h : c.toNat < 0x10000) : IsUnits c [c.toNat]
  | pair {high low : Nat} (hh : isHighSurrogate high) (hl : isLowSurrogate low)
    (h : c.toNat = 0x10000 + (high - 0xD800) * 0x400 + (low - 0xDC00)) : IsUnits c [high, low]

theorem isUnits_encodeUnits (c : Char) : IsUnits c (encodeUnits c) := by
  have hvalid := codePoint_valid c
  unfold encodeUnits
  dsimp only
  by_cases h : c.toNat < 0x10000
  · rw [if_pos h]
    exact .one h
  · rw [if_neg h]
    refine .pair ?_ ?_ (by omega)
    · simp only [isHighSurrogate, Bool.and_eq_true, decide_eq_true_eq]
      omega
    · simp only [isLowSurrogate, Bool.and_eq_true, decide_eq_true_eq]
      omega

theorem IsUnits.encodeUnits_eq {units : List Nat} (h : IsUnits c units) :
    encodeUnits c = units := by
  unfold encodeUnits
  dsimp only
  cases h with
  | one h => rw [if_pos h]
  | pair hh hl h =>
    simp only [isHighSurrogate, isLowSurrogate, Bool.and_eq_true, decide_eq_true_eq] at hh hl
    rw [if_neg (by omega), List.cons.injEq, List.cons.injEq]
    exact ⟨by omega, by omega, rfl⟩

theorem not_surrogate (c : Char) : ¬isHighSurrogate c.toNat ∧ ¬isLowSurrogate c.toNat := by
  have hvalid := codePoint_valid c
  simp only [isHighSurrogate, isLowSurrogate, Bool.and_eq_true, decide_eq_true_eq]
  omega

theorem map_charOf?_eq_some {n count : Nat} :
    (charOf? n).map (·, count) = some (c, width) ↔ c.toNat = n ∧ count = width := by
  simp only [Option.map_eq_some_iff, charOf?_eq_some, Prod.mk.injEq]
  constructor
  · rintro ⟨d, hd, rfl, hw⟩
    exact ⟨hd, hw⟩
  · rintro ⟨hc, hw⟩
    exact ⟨c, hc, rfl, hw⟩

/-- The decoder takes the units of a character, and leaves those that follow. -/
theorem decodeUnits?_eq_some {unit count : Nat} {next : Option Nat} :
    decodeUnits? (unit :: next.toList) = some (c, count) ↔
      (c.toNat = unit ∧ 1 = count) ∨
        ∃ low, next = some low ∧ isHighSurrogate unit ∧ isLowSurrogate low ∧
          c.toNat = 0x10000 + (unit - 0xD800) * 0x400 + (low - 0xDC00) ∧ 2 = count := by
  cases next with
  | none =>
    simp only [Option.toList_none, decodeUnits?, map_charOf?_eq_some, reduceCtorEq, false_and,
      exists_false, or_false]
  | some low =>
    by_cases hpair : isHighSurrogate unit && isLowSurrogate low
    · obtain ⟨hh, hl⟩ := Bool.and_eq_true_iff.1 hpair
      have hne : c.toNat ≠ unit := fun h => (not_surrogate c).1 (h ▸ hh)
      rw [Option.toList_some, decodeUnits?, if_pos hpair, map_charOf?_eq_some]
      simp only [hne, false_and, false_or, Option.some.injEq, exists_eq_left', hh, hl, true_and]
    · have hno : ¬(isHighSurrogate unit ∧ isLowSurrogate low) := fun h =>
        hpair (Bool.and_eq_true_iff.2 h)
      simp only [Option.toList_some, decodeUnits?, if_neg hpair, map_charOf?_eq_some,
        Option.some.injEq, exists_eq_left']
      exact ⟨.inl, fun h => h.resolve_right fun hp => hno ⟨hp.1, hp.2.1⟩⟩

theorem front_utf16 (bytes : List UInt8) :
    front .utf16 bytes =
      match unit? bytes with
      | none => .garbage 1
      | some unit =>
        match decodeUnits? (unit :: (unit? (bytes.drop 2)).toList) with
        | some (c, count) => .char c (2 * count)
        | none => .garbage 2 := by
  rcases bytes with _ | ⟨a, _ | ⟨b, _ | ⟨d, _ | ⟨f, rest⟩⟩⟩⟩ <;> rfl

theorem encode?_utf16_eq_some :
    encode? .utf16 c = some enc ↔
      ∃ units, IsUnits c units ∧ units.flatMap unitBytes = enc := by
  rw [encode?, Option.some.injEq]
  constructor
  · intro h
    exact ⟨_, isUnits_encodeUnits c, h⟩
  · rintro ⟨units, hunits, rfl⟩
    rw [hunits.encodeUnits_eq]

theorem length_flatMap_unitBytes (units : List Nat) :
    (units.flatMap unitBytes).length = 2 * units.length := by
  induction units with
  | nil => rfl
  | cons n units ih =>
    rw [List.flatMap_cons, List.length_append, ih, List.length_cons, unitBytes, List.length_cons,
      List.length_cons, List.length_nil]
    omega

theorem lt_of_surrogate {n : Nat} (h : isHighSurrogate n ∨ isLowSurrogate n) : n < 0x10000 := by
  simp only [isHighSurrogate, isLowSurrogate, Bool.and_eq_true, decide_eq_true_eq] at h
  omega

theorem unit?_lt {unit : Nat} (h : unit? bytes = some unit) : unit < 0x10000 := by
  rcases bytes with _ | ⟨a, _ | ⟨b, rest⟩⟩
  · cases h
  · cases h
  · exact Option.some.inj h ▸ wordUnit_lt a b

/-- No character starts with a low surrogate. -/
theorem not_low_of_starts (h : Starts .utf16 bytes) :
    ∃ unit, unit? bytes = some unit ∧ ¬isLowSurrogate unit := by
  obtain ⟨d, enc, henc, hpre⟩ := h
  obtain ⟨units, hunits, rfl⟩ := encode?_utf16_eq_some.1 henc
  cases hunits with
  | one h => exact ⟨_, ((unitBytes_append_prefix_iff h).1 hpre).1, (not_surrogate d).2⟩
  | pair hh hl h =>
    refine ⟨_, ((unitBytes_append_prefix_iff (lt_of_surrogate (.inl hh))).1 hpre).1, ?_⟩
    simp only [isHighSurrogate, isLowSurrogate, Bool.and_eq_true, decide_eq_true_eq] at hh ⊢
    omega

/-- Characters that are told from the front are those whose units stand there. -/
theorem front_utf16_eq_char :
    front .utf16 bytes = .char c width ↔
      ∃ enc, encode? .utf16 c = some enc ∧ enc <+: bytes ∧ enc.length = width := by
  have hone (h : c.toNat < 0x10000) :
      unitBytes c.toNat <+: bytes ↔ unit? bytes = some c.toNat := unitBytes_prefix_iff h
  have hpair {high low : Nat} (hh : isHighSurrogate high) (hl : isLowSurrogate low) :
      unitBytes high ++ unitBytes low <+: bytes ↔
        unit? bytes = some high ∧ unit? (bytes.drop 2) = some low := by
    rw [unitBytes_append_prefix_iff (lt_of_surrogate (.inl hh)),
      unitBytes_prefix_iff (lt_of_surrogate (.inr hl))]
  rw [front_utf16]
  constructor
  · intro h
    cases hunit : unit? bytes with
    | none => rw [hunit] at h; cases h
    | some unit =>
      rw [hunit] at h
      dsimp only at h
      cases hdecode : decodeUnits? (unit :: (unit? (bytes.drop 2)).toList) with
      | none => rw [hdecode] at h; cases h
      | some found =>
        obtain ⟨d, count⟩ := found
        rw [hdecode] at h
        cases h
        rcases decodeUnits?_eq_some.1 hdecode with
          ⟨rfl, rfl⟩ | ⟨low, hlow, hh, hl, hc, rfl⟩
        · have hlt := unit?_lt hunit
          exact ⟨_, encode?_utf16_eq_some.2 ⟨_, .one hlt, rfl⟩,
            by simpa using (hone hlt).2 hunit, rfl⟩
        · exact ⟨_, encode?_utf16_eq_some.2 ⟨_, .pair hh hl hc, rfl⟩,
            by simpa using (hpair hh hl).2 ⟨hunit, hlow⟩, rfl⟩
  · rintro ⟨enc, henc, hpre, rfl⟩
    obtain ⟨units, hunits, rfl⟩ := encode?_utf16_eq_some.1 henc
    cases hunits with
    | one h =>
      have hunit := (hone h).1 (by simpa using hpre)
      have hdecode : decodeUnits? (c.toNat :: (unit? (bytes.drop 2)).toList) = some (c, 1) :=
        decodeUnits?_eq_some.2 (.inl ⟨rfl, rfl⟩)
      simp only [hunit, hdecode]
      rfl
    | pair hh hl h =>
      obtain ⟨hhigh, hlow⟩ := (hpair hh hl).1 (by simpa using hpre)
      have hdecode := decodeUnits?_eq_some.2 (.inr ⟨_, hlow, hh, hl, h, rfl⟩)
      simp only [hhigh, hdecode]
      rfl

/-! ## UTF-32 -/

theorem front_utf32_eq_char :
    front .utf32 bytes = .char c width ↔
      ∃ enc, encode? .utf32 c = some enc ∧ enc <+: bytes ∧ enc.length = width := by
  have hvalid := codePoint_valid c
  have hpre : unitBytes (c.toNat % 0x10000) ++ unitBytes (c.toNat / 0x10000) <+: bytes ↔
      unit? bytes = some (c.toNat % 0x10000) ∧ unit? (bytes.drop 2) = some (c.toNat / 0x10000) := by
    rw [unitBytes_append_prefix_iff (by omega), unitBytes_prefix_iff (by omega)]
  simp only [encode?, Option.some.injEq, exists_eq_left', hpre]
  rcases bytes with _ | ⟨a, _ | ⟨b, _ | ⟨a', _ | ⟨b', rest⟩⟩⟩⟩
  · simp [front, unit?]
  · simp [front, unit?]
  · simp [front, unit?]
  · simp [front, unit?]
  · have hlow := wordUnit_lt a b
    have hhigh := wordUnit_lt a' b'
    have hchar : c.toNat = wordUnit a b + 0x10000 * wordUnit a' b' ↔
        wordUnit a b = c.toNat % 0x10000 ∧ wordUnit a' b' = c.toNat / 0x10000 := by
      omega
    simp only [front, unit?, List.drop_succ_cons, List.drop_zero, Option.some.injEq, ← hchar,
      ← charOf?_eq_some]
    cases charOf? (wordUnit a b + 0x10000 * wordUnit a' b') with
    | none => simp
    | some d => simp [unitBytes]

/-! ## Windows code page 1252 -/

theorem windowsByte?_windowsChar (b : UInt8) : windowsByte? (windowsChar b) = some b := by
  have hall : ∀ n : Fin 256, windowsByte? (windowsChar (UInt8.ofFin n)) = some (UInt8.ofFin n) := by
    decide +kernel
  exact hall b.toFin

theorem windowsByte?_eq_some {b : UInt8} : windowsByte? c = some b ↔ windowsChar b = c := by
  constructor
  · intro h
    unfold windowsByte? at h
    split at h
    · rename_i i hi
      obtain ⟨hlt, hget, -⟩ := List.idxOf?_eq_some_iff.1 hi
      have hsize : i < 32 := hlt
      have hb := toNat_ofNat_of_lt (n := 0x80 + i) (by omega)
      cases h
      rw [windowsChar, hb, if_pos (by omega), Nat.add_sub_cancel_left, List.getD_eq_getElem?_getD,
        List.getElem?_eq_getElem hlt]
      exact hget
    · dsimp only at h
      split at h
      · rename_i hn
        have hb := toNat_ofNat_of_lt (n := c.toNat) (by omega)
        cases h
        rw [windowsChar, hb, if_neg (by omega), Char.ofNat_toNat]
      · cases h
  · rintro rfl
    exact windowsByte?_windowsChar b

/-! ## All of them -/

/-- A decoder tells the character that the encoder's bytes stand for. -/
theorem front_eq_char :
    e.front bytes = .char c width ↔
      ∃ enc, e.encode? c = some enc ∧ enc <+: bytes ∧ enc.length = width := by
  cases e with
  | utf8 =>
    simp only [encode?, Option.some.injEq, exists_eq_left', ← Utf8.decode?_eq_some_iff, front]
    cases Utf8.decode? bytes with
    | none => simp
    | some found => simp [Prod.ext_iff]
  | utf16 => exact front_utf16_eq_char
  | utf32 => exact front_utf32_eq_char
  | windows1252 =>
    simp only [encode?, Option.map_eq_some_iff, windowsByte?_eq_some]
    cases bytes with
    | nil => simp [front]
    | cons b rest =>
      simp only [front, Front.char.injEq]
      constructor
      · rintro ⟨hb, rfl⟩
        exact ⟨[b], ⟨b, hb, rfl⟩, ⟨rest, rfl⟩, rfl⟩
      · rintro ⟨_, ⟨b', hb, rfl⟩, hpre, rfl⟩
        exact ⟨(List.cons_prefix_cons.1 hpre).1 ▸ hb, rfl⟩

theorem front_char_of_startsWith (h : e.StartsWith c bytes) :
    ∃ width, e.front bytes = .char c width := by
  obtain ⟨enc, henc, hpre⟩ := h
  exact ⟨_, front_eq_char.2 ⟨enc, henc, hpre, rfl⟩⟩

theorem not_starts_of_garbage (h : e.front bytes = .garbage width) : ¬e.Starts bytes := by
  rintro ⟨c, hc⟩
  obtain ⟨width, hchar⟩ := front_char_of_startsWith hc
  rw [h] at hchar
  cases hchar

theorem starts_of_char (h : e.front bytes = .char c width) : e.Starts bytes := by
  obtain ⟨enc, henc, hpre, -⟩ := front_eq_char.1 h
  exact ⟨c, enc, henc, hpre⟩

/-- What stands at the front is told by its bytes. -/
theorem StartsWith.unique {d : Char} (hc : e.StartsWith c bytes) (hd : e.StartsWith d bytes) :
    c = d := by
  obtain ⟨width, hc⟩ := front_char_of_startsWith hc
  obtain ⟨width', hd⟩ := front_char_of_startsWith hd
  rw [hc] at hd
  cases hd
  rfl

/-- Characters are made of whole units. -/
theorem encode?_length (h : e.encode? c = some enc) : 0 < enc.length ∧ enc.length % e.unit = 0 := by
  cases e with
  | utf8 =>
    obtain ⟨a, rest, heq, -, -⟩ := Utf8.encode_eq_cons c
    cases h
    rw [heq, unit]
    exact ⟨Nat.succ_pos _, Nat.mod_one _⟩
  | utf16 =>
    obtain ⟨units, hunits, rfl⟩ := encode?_utf16_eq_some.1 h
    have hpos : 0 < units.length := by cases hunits <;> exact Nat.succ_pos _
    rw [length_flatMap_unitBytes, unit]
    omega
  | utf32 =>
    cases h
    exact ⟨Nat.succ_pos 3, Nat.mod_self 4⟩
  | windows1252 =>
    obtain ⟨b, -, rfl⟩ := Option.map_eq_some_iff.1 h
    exact ⟨Nat.succ_pos 0, Nat.mod_self 1⟩

theorem encodeText?_cons_eq_some {text : List Char} :
    e.encodeText? (c :: text) = some enc ↔
      ∃ first after, e.encode? c = some first ∧ e.encodeText? text = some after ∧
        first ++ after = enc := by
  simp only [encodeText?, List.mapM_cons, Option.bind_eq_bind, Option.pure_def,
    Option.map_eq_some_iff, Option.bind_eq_some_iff, Option.some.injEq]
  constructor
  · rintro ⟨_, ⟨first, hfirst, encs, hencs, rfl⟩, rfl⟩
    exact ⟨first, encs.flatten, hfirst, ⟨encs, hencs, rfl⟩, rfl⟩
  · rintro ⟨first, _, hfirst, ⟨encs, hencs, rfl⟩, rfl⟩
    exact ⟨first :: encs, ⟨first, hfirst, encs, hencs, rfl⟩, rfl⟩

/-- Garbage is given up a unit at a time, or all that is left of one. -/
theorem garbage_width (hb : bytes ≠ []) (h : e.front bytes = .garbage width) :
    0 < width ∧ width ≤ e.unit ∧ (width < e.unit → bytes.length ≤ width) := by
  cases e with
  | utf8 =>
    simp only [front] at h
    split at h
    · cases h
    · cases h
      exact ⟨by decide, by decide, fun hlt => absurd hlt (by decide)⟩
  | utf16 =>
    rcases bytes with _ | ⟨a, _ | ⟨b, rest⟩⟩
    · exact absurd rfl hb
    · cases h
      exact ⟨by decide, by decide, fun _ => Nat.le_refl 1⟩
    · rw [front_utf16] at h
      simp only [unit?] at h
      split at h
      · cases h
      · cases h
        exact ⟨by decide, by decide, fun hlt => absurd hlt (by decide)⟩
  | utf32 =>
    rcases bytes with _ | ⟨a, _ | ⟨b, _ | ⟨a', _ | ⟨b', rest⟩⟩⟩⟩
    · exact absurd rfl hb
    · cases h
      simp [unit]
    · cases h
      simp [unit]
    · cases h
      simp [unit]
    · simp only [front] at h
      split at h
      · cases h
      · cases h
        exact ⟨by decide, by decide, fun hlt => absurd hlt (by decide)⟩
  | windows1252 =>
    cases bytes with
    | nil => exact absurd rfl hb
    | cons b rest => cases h

/-- No character starts at a unit inside another one. -/
theorem not_starts_inside {p : Nat} (h : e.encode? c = some enc) (hpos : 0 < p)
    (hlt : p < enc.length) (hunit : p % e.unit = 0) : ¬e.Starts (enc.drop p ++ rest) := by
  rintro ⟨d, inner, hinner, hpre⟩
  cases e with
  | utf8 =>
    -- What stands there continues the sequence, and no sequence starts with that.
    obtain ⟨a, tail, heq, -, htail⟩ := Utf8.encode_eq_cons c
    obtain ⟨b, tail', heq', hb, -⟩ := Utf8.encode_eq_cons d
    cases h
    cases hinner
    rw [heq] at hlt hpre
    rw [heq'] at hpre
    obtain ⟨n, rfl⟩ := Nat.exists_eq_succ_of_ne_zero (Nat.ne_of_gt hpos)
    have hn : n < tail.length := Nat.lt_of_succ_lt_succ hlt
    rw [List.drop_succ_cons, List.drop_eq_getElem_cons hn, List.cons_append,
      List.cons_prefix_cons] at hpre
    exact hb (hpre.1 ▸ htail _ (List.getElem_mem hn))
  | utf16 =>
    -- It is the second of two units, a low surrogate.
    obtain ⟨units, hunits, rfl⟩ := encode?_utf16_eq_some.1 h
    rw [length_flatMap_unitBytes] at hlt
    rw [unit] at hunit
    cases hunits with
    | one h =>
      rw [List.length_cons, List.length_nil] at hlt
      omega
    | @pair high low hh hl h =>
      obtain rfl : p = 2 := by
        rw [List.length_cons, List.length_cons, List.length_nil] at hlt
        omega
      obtain ⟨unit, heq, hno⟩ := not_low_of_starts ⟨d, inner, hinner, hpre⟩
      have hfirst := (unitBytes_append_prefix_iff (lt_of_surrogate (.inr hl))).1
        (List.prefix_refl (unitBytes low ++ rest))
      have hdrop : [high, low].flatMap unitBytes = unitBytes high ++ unitBytes low := by simp
      rw [hdrop] at heq
      exact hno (Option.some.inj (hfirst.1.symm.trans heq) ▸ hl)
  | utf32 =>
    cases h
    have hlt : p < 4 := hlt
    simp only [unit] at hunit
    omega
  | windows1252 =>
    obtain ⟨b, -, rfl⟩ := Option.map_eq_some_iff.1 h
    have hlt : p < 1 := hlt
    omega

end ProcessMemory.Encoding
