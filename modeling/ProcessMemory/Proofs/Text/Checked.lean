import ProcessMemory.Charset
import ProcessMemory.Proofs.Text.Codec

/-!
# Decoding in words

A place in a buffer is a word of 64 bits, and so are the sums that lead from one place to another.
The decoders are written here once more with every sum, every difference and every slice checked
(`checkedSkip?`, `checkedFront?`). The checks never fail, but for one sum: the address after the
highest one.
-/
namespace ProcessMemory

/-! ## Words -/

namespace Word

def add? (a b : Nat) : Option Nat := if a + b < 0x1_0000_0000_0000_0000 then some (a + b) else none

def sub? (a b : Nat) : Option Nat := if b ≤ a then some (a - b) else none

def slice? (bytes : List UInt8) (lo hi : Nat) : Option (List UInt8) :=
  if lo ≤ hi ∧ hi ≤ bytes.length then some ((bytes.take hi).drop lo) else none

variable {a b lo hi : Nat} {bytes : List UInt8}

theorem add?_of_lt (h : a + b < 0x1_0000_0000_0000_0000) : add? a b = some (a + b) := if_pos h

theorem eq_of_add? {sum : Nat} (h : add? a b = some sum) : a + b = sum := by
  unfold add? at h
  split at h
  · exact Option.some.inj h
  · cases h

theorem sub?_of_le (h : b ≤ a) : sub? a b = some (a - b) := if_pos h

theorem slice?_zero (h : hi ≤ bytes.length) : slice? bytes 0 hi = some (bytes.take hi) :=
  if_pos ⟨Nat.zero_le hi, h⟩

theorem slice?_length (h : lo ≤ bytes.length) :
    slice? bytes lo bytes.length = some (bytes.drop lo) := by
  rw [slice?, if_pos ⟨h, Nat.le_refl _⟩, List.take_length]

end Word

/-! ## The first unit -/

namespace Charset

variable {c : Charset} {a : Address}

/-- The number of bytes from `a` to the next address that a unit may start at. -/
def checkedSkip? (c : Charset) (a : Address) : Option Nat :=
  match c with
  | .utf8 => some 0
  | .utf16Even => some (a.toNat % 2)
  | .utf16Odd => (Word.add? a.toNat 1).map (· % 2)
  | .utf32Mod0 => (Word.sub? 4 (a.toNat % 4)).map (· % 4)
  | .utf32Mod1 => (Word.sub? 5 (a.toNat % 4)).map (· % 4)
  | .utf32Mod2 => (Word.sub? 6 (a.toNat % 4)).map (· % 4)
  | .utf32Mod3 => (Word.sub? 7 (a.toNat % 4)).map (· % 4)
  | .windows1252 => some 0

theorem checkedSkip?_eq (c : Charset) (a : Address) : c.checkedSkip? a = c.skip? a := by
  cases c with
  | utf16Odd =>
    simp only [checkedSkip?, skip?, Word.add?, Address.advance?, Address.ofNat?]
    split <;> rfl
  | utf32Mod0 | utf32Mod1 | utf32Mod2 | utf32Mod3 =>
    rw [checkedSkip?, Word.sub?_of_le (by omega)]
    rfl
  | _ => rfl

/-- Only the sum for units at odd addresses can fail, and only at the top. -/
theorem skip?_eq_none : c.skip? a = none ↔ c = .utf16Odd ∧ a = .top := by
  have ha := a.isLt
  cases c with
  | utf16Odd =>
    simp only [skip?, Option.map_eq_none_iff, Address.advance?, Address.ofNat?, Address.ext_iff,
      Address.toNat_top]
    split <;> simp <;> omega
  | _ => simp [skip?]

end Charset

/-! ## UTF-8 -/

namespace Utf8

variable {bytes rest : List UInt8} {c : Char} {size : Nat}

def widthOf (lead : Nat) : Nat :=
  if lead < 0x80 then 1
  else if 0xC2 ≤ lead ∧ lead < 0xE0 then 2
  else if 0xE0 ≤ lead ∧ lead < 0xF0 then 3
  else if 0xF0 ≤ lead ∧ lead < 0xF5 then 4
  else 0

/-- The byte may come second. Some lead bytes do not go with all that continue a sequence. -/
def mayFollow (lead second : Nat) : Bool :=
  let least := if lead = 0xE0 then 0xA0 else if lead = 0xF0 then 0x90 else 0x80
  let limit := if lead = 0xED then 0xA0 else if lead = 0xF4 then 0x90 else 0xC0
  least ≤ second && second < limit

def isCut : List UInt8 → Bool
  | [] => false
  | [lead] => 1 < widthOf lead.toNat
  | lead :: second :: rest =>
    rest.length + 2 < widthOf lead.toNat && mayFollow lead.toNat second.toNat &&
      rest.all fun b => (continuation? b).isSome

/-- Tries the pieces at the front with so many bytes, until one is a character or the next ones
cannot be. -/
def checkedPieces? (bytes : List UInt8) : (sizes : List Nat) → Option Front
  | [] => some (.garbage 1)
  | size :: sizes =>
    match Word.slice? bytes 0 size with
    | none => none
    | some piece =>
      match decodeAll? piece with
      | some (c :: _) => some (.char c size)
      | some [] => checkedPieces? bytes sizes
      | none => if isCut piece then checkedPieces? bytes sizes else some (.garbage 1)

theorem widthOf_lead {lead : UInt8} (h : encode c = lead :: rest) :
    widthOf lead.toNat = rest.length + 1 := by
  have hvalid := codePoint_valid c
  have hseq := isSequence_encode c
  rw [h] at hseq
  unfold widthOf
  cases hseq with
  | one h ha => rw [if_pos (by omega)]; rfl
  | two h h' ha => rw [if_neg (by omega), if_pos (by omega), length_tails]
  | three h h' ha =>
    rw [if_neg (by omega), if_neg (by omega), if_pos (by omega), length_tails]
  | four h ha =>
    rw [if_neg (by omega), if_neg (by omega), if_neg (by omega), if_pos (by omega), length_tails]

theorem mayFollow_lead {lead second : UInt8} (h : encode c = lead :: second :: rest) :
    mayFollow lead.toNat second.toNat := by
  have hvalid := codePoint_valid c
  have hseq := isSequence_encode c
  rw [h] at hseq
  simp only [mayFollow, Bool.and_eq_true, decide_eq_true_eq]
  cases hseq with
  | two h h' ha =>
    rw [toNat_tail, above, ha]
    repeat' split
    all_goals omega
  | three h h' ha =>
    rw [toNat_tail]
    simp only [above]
    repeat' split
    all_goals omega
  | four h ha =>
    rw [toNat_tail]
    simp only [above]
    repeat' split
    all_goals omega

/-- The front of a sequence is cut, whatever its size. -/
theorem isCut_take_encode (c : Char) (hpos : 0 < size) (hlt : size < (encode c).length) :
    isCut ((encode c).take size) := by
  obtain ⟨lead, rest, hseq, -, htails⟩ := encode_eq_cons c
  have hwidth := widthOf_lead hseq
  obtain ⟨n, rfl⟩ := Nat.exists_eq_add_of_lt hpos
  rw [hseq, List.length_cons] at hlt
  rw [hseq, Nat.zero_add, List.take_succ_cons]
  cases rest with
  | nil => simp at hlt
  | cons second rest =>
    cases n with
    | zero => simp [isCut, hwidth]
    | succ n =>
      have hsecond := mayFollow_lead hseq
      have hrest : ∀ b ∈ rest.take n, (continuation? b).isSome := by
        intro b hb
        have htail : 0x80 ≤ b.toNat ∧ b.toNat < 0xC0 :=
          htails b (List.mem_cons_of_mem _ (List.mem_of_mem_take hb))
        rw [continuation?, if_pos htail, Option.isSome_some]
      simp only [List.take_succ_cons, isCut, hwidth, hsecond, Bool.and_true, Bool.and_eq_true,
        decide_eq_true_eq, List.all_eq_true, List.length_take, List.length_cons] at hlt ⊢
      exact ⟨by omega, hrest⟩

/-! ### Pieces -/

theorem decodeAll?_go_eq_some {read cs : List Char} (h : decodeAll?.go read bytes = some cs) :
    cs = read.reverse ∧ bytes = [] ∨ ∃ c width, decode? bytes = some (c, width) := by
  unfold decodeAll?.go at h
  split at h
  · exact .inl ⟨(Option.some.inj h).symm, rfl⟩
  · split at h
    · cases h
    · rename_i c width hdecode
      exact .inr ⟨c, width, hdecode⟩

theorem decodeAll?_encode (c : Char) : decodeAll? (encode c) = some [c] := by
  obtain ⟨lead, rest, hseq, -, -⟩ := encode_eq_cons c
  have hdecode : decode? (encode c) = some (c, (encode c).length) :=
    decode?_eq_some_iff.2 ⟨List.prefix_refl _, rfl⟩
  rw [hseq] at hdecode ⊢
  simp [decodeAll?, decodeAll?.go, hdecode]

/-- A piece that is not empty and can be decoded begins with the character at the front. -/
theorem decode?_of_decodeAll? {piece : List UInt8} {cs : List Char} (hpre : piece <+: bytes)
    (hne : piece ≠ []) (h : decodeAll? piece = some cs) :
    ∃ c width, decode? bytes = some (c, width) ∧ width ≤ piece.length := by
  obtain ⟨-, hnil⟩ | ⟨c, width, hdecode⟩ := decodeAll?_go_eq_some h
  · exact absurd hnil hne
  · obtain ⟨henc, hwidth⟩ := decode?_eq_some_iff.1 hdecode
    exact ⟨c, width, decode?_eq_some_iff.2 ⟨henc.trans hpre, hwidth⟩, hwidth ▸ henc.length_le⟩

/-- Where no character stands at the front no piece is one. -/
theorem checkedPieces?_garbage (h : decode? bytes = none) (sizes : List Nat)
    (hsizes : ∀ n ∈ sizes, 0 < n ∧ n ≤ bytes.length) :
    checkedPieces? bytes sizes = some (.garbage 1) := by
  induction sizes with
  | nil => rfl
  | cons size sizes ih =>
    obtain ⟨⟨hpos, hle⟩, hsizes⟩ := List.forall_mem_cons.1 hsizes
    have hne : bytes.take size ≠ [] := by
      rw [Ne, List.take_eq_nil_iff, not_or]
      exact ⟨by omega, List.length_pos_iff.1 (by omega)⟩
    have hnone : decodeAll? (bytes.take size) = none := by
      cases hall : decodeAll? (bytes.take size) with
      | none => rfl
      | some cs =>
        obtain ⟨c, width, hdecode, -⟩ := decode?_of_decodeAll? (List.take_prefix _ _) hne hall
        cases h.symm.trans hdecode
    simp only [checkedPieces?, Word.slice?_zero hle, hnone, ih hsizes, ite_self]

/-- A character at the front is found as the first of the pieces that can be decoded. -/
theorem checkedPieces?_char {width : Nat} (h : decode? bytes = some (c, width)) (count : Nat)
    (hpos : 0 < size) (hle : size ≤ width) (hlt : width < size + count)
    (hcount : size + count ≤ bytes.length + 1) :
    checkedPieces? bytes (List.range' size count) = some (.char c width) := by
  obtain ⟨hpre, hwidth⟩ := decode?_eq_some_iff.1 h
  induction count generalizing size with
  | zero => omega
  | succ count ih =>
    have hslice : Word.slice? bytes 0 size = some ((encode c).take size) := by
      obtain ⟨rest, hrest⟩ := hpre
      rw [Word.slice?_zero (by omega), ← hrest, List.take_append_of_le_length (by omega)]
    rw [List.range'_succ, checkedPieces?, hslice]
    rcases Nat.lt_or_eq_of_le hle with hshort | rfl
    · have hne : (encode c).take size ≠ [] := by
        rw [Ne, List.take_eq_nil_iff, not_or]
        exact ⟨by omega, List.length_pos_iff.1 (by omega)⟩
      have hnone : decodeAll? ((encode c).take size) = none := by
        cases hall : decodeAll? ((encode c).take size) with
        | none => rfl
        | some cs =>
          obtain ⟨d, width', hdecode, hle'⟩ :=
            decode?_of_decodeAll? ((List.take_prefix _ _).trans hpre) hne hall
          rw [List.length_take] at hle'
          cases h.symm.trans hdecode
          omega
      have hcut : isCut ((encode c).take size) := isCut_take_encode c hpos (by omega)
      simp only [hnone, hcut, if_true]
      exact ih (by omega) (by omega) (by omega) (by omega)
    · have hall : (encode c).take size = encode c := List.take_of_length_le (by omega)
      simp only [hall, decodeAll?_encode]

end Utf8

/-! ## All encodings -/

def Front.width : Front → Nat
  | .char _ width => width
  | .garbage width => width

namespace Encoding

variable {e : Encoding} {bytes : List UInt8}

def checkedUnit? (bytes : List UInt8) (i : Nat) : Option Nat := do
  let pair ← Word.slice? bytes (2 * i) (2 * i + 2)
  return wordUnit (← pair[0]?) (← pair[1]?)

def checkedFront? (e : Encoding) (bytes : List UInt8) : Option Front :=
  match e with
  | .utf8 => Utf8.checkedPieces? bytes (List.range' 1 (min bytes.length 4))
  | .utf16 =>
    if bytes.length < 2 then some (.garbage (max bytes.length 1))
    else do
      let units ← (List.range (min 2 (bytes.length / 2))).mapM (checkedUnit? bytes)
      match decodeUnits? units with
      | some (c, count) => return .char c (2 * count)
      | none => return .garbage 2
  | .utf32 =>
    if bytes.length < 4 then some (.garbage (max bytes.length 1))
    else do
      let low := wordUnit (← bytes[0]?) (← bytes[1]?)
      let high := wordUnit (← bytes[2]?) (← bytes[3]?)
      match charOf? (low + 0x10000 * high) with
      | some c => return .char c 4
      | none => return .garbage 4
  | .windows1252 => do
    match ← Word.slice? bytes 0 1 with
    | b :: _ => return .char (windowsChar b) 1
    | [] => return .garbage 1

theorem checkedFront?_utf8 (hb : bytes ≠ []) :
    checkedFront? .utf8 bytes = some (front .utf8 bytes) := by
  have hpos := List.length_pos_iff.2 hb
  rw [checkedFront?, front]
  cases h : Utf8.decode? bytes with
  | none =>
    apply Utf8.checkedPieces?_garbage h
    intro n hn
    have := List.mem_range'_1.1 hn
    omega
  | some found =>
    obtain ⟨c, width⟩ := found
    obtain ⟨hpre, hwidth⟩ := Utf8.decode?_eq_some_iff.1 h
    have hle := hpre.length_le
    have hsize := Utf8.length_encode c
    have hmost := c.utf8Size_le_four
    have hleast := c.utf8Size_pos
    exact Utf8.checkedPieces?_char h _ (by omega) (by omega) (by omega) (by omega)

theorem unit?_isSome_iff : (unit? bytes).isSome ↔ 2 ≤ bytes.length := by
  rcases bytes with _ | ⟨a, _ | ⟨b, rest⟩⟩ <;> simp [unit?]

theorem checkedUnit?_eq {i : Nat} (h : 2 * i + 2 ≤ bytes.length) :
    checkedUnit? bytes i = unit? (bytes.drop (2 * i)) := by
  have hslice : Word.slice? bytes (2 * i) (2 * i + 2) = some ((bytes.drop (2 * i)).take 2) := by
    rw [Word.slice?, if_pos ⟨by omega, h⟩, List.drop_take, Nat.add_sub_cancel_left]
  have hlen : 2 ≤ (bytes.drop (2 * i)).length := by
    rw [List.length_drop]
    omega
  rw [checkedUnit?, hslice]
  generalize bytes.drop (2 * i) = rest at hlen
  rcases rest with _ | ⟨a, _ | ⟨b, rest⟩⟩
  · cases hlen
  · simp at hlen
  · rfl

/-- The units that a character may be made of: the first, and the one after it if there is one. -/
theorem mapM_checkedUnit? {unit : Nat} (h : unit? bytes = some unit) :
    (List.range (min 2 (bytes.length / 2))).mapM (checkedUnit? bytes) =
      some (unit :: (unit? (bytes.drop 2)).toList) := by
  have hlen : 2 ≤ bytes.length := unit?_isSome_iff.1 (by rw [h]; rfl)
  have hfirst : checkedUnit? bytes 0 = some unit := (checkedUnit?_eq hlen).trans h
  have hnext : (unit? (bytes.drop 2)).isSome ↔ 4 ≤ bytes.length := by
    rw [unit?_isSome_iff, List.length_drop]
    omega
  cases hunit : unit? (bytes.drop 2) with
  | none =>
    rw [hunit] at hnext
    have hcount : min 2 (bytes.length / 2) = 1 := by
      simp at hnext
      omega
    simp [hcount, hfirst, List.range_succ]
  | some next =>
    rw [hunit] at hnext
    have hlong : 4 ≤ bytes.length := hnext.1 rfl
    have hsecond : checkedUnit? bytes 1 = some next := (checkedUnit?_eq hlong).trans hunit
    have hcount : min 2 (bytes.length / 2) = 2 := by omega
    simp [hcount, hfirst, hsecond, List.range_succ]

theorem checkedFront?_utf16 (bytes : List UInt8) :
    checkedFront? .utf16 bytes = some (front .utf16 bytes) := by
  rw [front_utf16, checkedFront?]
  cases hunit : unit? bytes with
  | none =>
    have hshort : ¬2 ≤ bytes.length := fun h => by simpa [hunit] using unit?_isSome_iff.2 h
    have hmax : max bytes.length 1 = 1 := by omega
    rw [if_pos (Nat.lt_of_not_le hshort), hmax]
  | some unit =>
    have hlen : 2 ≤ bytes.length := unit?_isSome_iff.1 (by rw [hunit]; rfl)
    rw [if_neg (Nat.not_lt_of_le hlen), mapM_checkedUnit? hunit]
    dsimp only [Option.bind_eq_bind, Option.bind_some]
    cases decodeUnits? (unit :: (unit? (bytes.drop 2)).toList) <;> rfl

theorem checkedFront?_utf32 (bytes : List UInt8) :
    checkedFront? .utf32 bytes = some (front .utf32 bytes) := by
  rcases bytes with _ | ⟨a, _ | ⟨b, _ | ⟨a', _ | ⟨b', rest⟩⟩⟩⟩
  · rfl
  · rfl
  · rfl
  · rfl
  · have hlong : ¬(a :: b :: a' :: b' :: rest).length < 4 := by simp
    rw [checkedFront?, if_neg hlong, front]
    dsimp only [List.getElem?_cons_zero, List.getElem?_cons_succ, Option.bind_eq_bind,
      Option.bind_some]
    cases charOf? (wordUnit a b + 0x10000 * wordUnit a' b') <;> rfl

/-- The decoders read nothing that is not there. -/
theorem checkedFront?_eq (e : Encoding) (hb : bytes ≠ []) :
    e.checkedFront? bytes = some (e.front bytes) := by
  cases e with
  | utf8 => exact checkedFront?_utf8 hb
  | utf16 => exact checkedFront?_utf16 bytes
  | utf32 => exact checkedFront?_utf32 bytes
  | windows1252 =>
    obtain ⟨b, rest, rfl⟩ := List.exists_cons_of_ne_nil hb
    rw [checkedFront?, Word.slice?_zero (Nat.succ_le_of_lt (List.length_pos_iff.2 hb))]
    rfl

/-- No more bytes are given up than there are. -/
theorem garbage_le_length {width : Nat} (hb : bytes ≠ []) (h : e.front bytes = .garbage width) :
    width ≤ bytes.length := by
  have hpos := List.length_pos_iff.2 hb
  cases e with
  | utf8 =>
    simp only [front] at h
    split at h
    · cases h
    · cases h
      exact hpos
  | utf16 =>
    rw [front_utf16] at h
    cases hunit : unit? bytes with
    | none =>
      rw [hunit] at h
      cases h
      exact hpos
    | some unit =>
      have hlen : 2 ≤ bytes.length := unit?_isSome_iff.1 (by rw [hunit]; rfl)
      rw [hunit] at h
      dsimp only at h
      split at h
      · cases h
      · cases h
        exact hlen
  | utf32 =>
    have hwidth := (garbage_width hb h).2.1
    by_cases hlong : 4 ≤ bytes.length
    · exact Nat.le_trans hwidth hlong
    · rcases bytes with _ | ⟨a, _ | ⟨b, _ | ⟨a', _ | ⟨b', rest⟩⟩⟩⟩
      · cases h
        exact hpos
      · cases h
        exact Nat.le_refl _
      · cases h
        exact Nat.le_refl _
      · cases h
        exact Nat.le_refl _
      · simp at hlong
  | windows1252 =>
    obtain ⟨b, rest, rfl⟩ := List.exists_cons_of_ne_nil hb
    cases h

/-- Every step takes at least one byte and at most all that are left. -/
theorem width_front (e : Encoding) (hb : bytes ≠ []) :
    0 < (e.front bytes).width ∧ (e.front bytes).width ≤ bytes.length := by
  cases h : e.front bytes with
  | char c width =>
    obtain ⟨enc, henc, hpre, rfl⟩ := front_eq_char.1 h
    exact ⟨(encode?_length henc).1, hpre.length_le⟩
  | garbage width => exact ⟨(garbage_width hb h).1, garbage_le_length hb h⟩

end Encoding
end ProcessMemory
