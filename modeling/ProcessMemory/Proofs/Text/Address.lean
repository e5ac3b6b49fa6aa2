import ProcessMemory.Error
import ProcessMemory.Proofs.Text.Fields
import ProcessMemory.Proofs.Text.Numeral

/-!
# Addresses in writing

Which texts are read as an address, said without a reader: a hexadecimal numeral after a prefix, or
a numeral whose letters tell its base. All written forms of an address are among them, so each is
read back, whatever blanks stand around it.
-/
namespace ProcessMemory

namespace Numeral

theorem digit?_toUpper_digitChar {d : Nat} (h : d < 16) :
    digit? 16 (digitChar d).toUpper = some d := by
  have hall : ∀ k : Fin 16, digit? 16 (digitChar k).toUpper = some k.val := by decide
  exact hall ⟨d, h⟩

theorem digit?_decimal {d : Nat} (h : d < 10) : digit? 10 d.digitChar = some d := by
  have hall : ∀ k : Fin 10, digit? 10 k.val.digitChar = some k.val := by decide
  exact hall ⟨d, h⟩

/-- Decimal printing writes the digits of ten. -/
theorem toDigits_eq (n : Nat) : Nat.toDigits 10 n = (digits 10 n).map Nat.digitChar := by
  fun_induction digits 10 n with
  | case1 n h => rw [Nat.toDigits_of_lt_base (by omega), List.map_singleton]
  | case2 n h ih =>
    rw [Nat.toDigits_eq_if (by decide), if_neg (by omega), ih, List.map_append, List.map_singleton]

theorem denotes_hexPadded (width n : Nat) : Denotes 16 (hexPadded width n) n :=
  (denotes_print (by decide) (Nat.le_refl 16) n).zeros (by decide) _

theorem denotes_upper (width n : Nat) :
    Denotes 16 ((hexPadded width n).map Char.toUpper) n := by
  have hdigits : Denotes 16 ((digits 16 n).map fun d => (digitChar d).toUpper) n :=
    denotes_digits (by decide) (fun _ hd => digit?_toUpper_digitChar hd) n
  have hzero : '0'.toUpper = '0' := by decide
  rw [hexPadded, List.map_append, List.map_replicate, hzero, print, List.map_map]
  exact hdigits.zeros (by decide) _

theorem denotes_decimal (n : Nat) : Denotes 10 (toString n).toList n := by
  have htext : (toString n).toList = (digits 10 n).map Nat.digitChar := by
    rw [← toDigits_eq]
    exact String.toList_ofList
  rw [htext]
  exact denotes_digits (by decide) (fun _ hd => digit?_decimal hd) n

/-- A digit of ten is no letter. -/
theorem not_isAlpha_of_digit? {c : Char} {d : Nat} (h : digit? 10 c = some d) :
    c.isAlpha = false := by
  have hall : ∀ k : Fin 10, (Char.ofNat (k + 0x30)).isAlpha = false := by decide
  obtain ⟨hlt, hrange⟩ := digit?_eq_some.1 h
  have hc : c.toNat = d + 0x30 := by omega
  rw [← Char.ofNat_toNat c, hc]
  exact hall ⟨d, hlt⟩

theorem DenotesSigned.unbroken {base n : Nat} {cs : List Char} (h : DenotesSigned base cs n) :
    ∀ c ∈ cs, Text.isBlank c = false := by
  have hdigits {cs : List Char} (h : Denotes base cs n) : ∀ c ∈ cs, Text.isBlank c = false := by
    intro c hc
    obtain ⟨d, hd⟩ := h.exists_digit hc
    exact (not_parts_of_digit? hd).1
  rcases h with h | ⟨unsigned, rfl, h⟩
  · exact hdigits h
  · exact List.forall_mem_cons.2 ⟨by decide, hdigits h⟩

end Numeral

namespace Address

variable {cs hex : List Char} {n : Nat} {a : Address}

/-- The text writes the number: in hexadecimal after a prefix, or without one where a letter occurs,
and in decimal otherwise. A plus sign may stand in front of the digits. -/
inductive Spells : List Char → Nat → Prop where
  | prefixed {x : Char} {hex : List Char} {n : Nat} (hx : x = 'x' ∨ x = 'X')
    (hhex : Numeral.DenotesSigned 16 hex n) : Spells ('0' :: x :: hex) n
  | bare {cs : List Char} {n : Nat} (hx : ¬['0', 'x'] <+: cs) (hX : ¬['0', 'X'] <+: cs)
    (hcs : Numeral.DenotesSigned (if cs.any Char.isAlpha then 16 else 10) cs n) : Spells cs n

def number? (cs : List Char) : Option Nat :=
  match cs with
  | '0' :: 'x' :: hex => Numeral.read? 16 0x1_0000_0000_0000_0000 hex
  | '0' :: 'X' :: hex => Numeral.read? 16 0x1_0000_0000_0000_0000 hex
  | _ => Numeral.read? (if cs.any Char.isAlpha then 16 else 10) 0x1_0000_0000_0000_0000 cs

theorem parse_eq (s : String) :
    parse s = match (number? (Text.trim s.toList)).bind ofNat? with
      | some a => .ok a
      | none => .error (String.ofList (Text.trim s.toList)) := rfl

theorem ofNat?_read?_eq_some {base : Nat} (hb : 0 < base) :
    (Numeral.read? base 0x1_0000_0000_0000_0000 cs).bind ofNat? = some a ↔
      Numeral.DenotesSigned base cs a.toNat := by
  rw [Option.bind_eq_some_iff]
  constructor
  · rintro ⟨n, hread, ha⟩
    rw [← ofNat?_eq_some.1 ha] at hread
    exact ((Numeral.read?_eq_some hb (by decide)).1 hread).1
  · intro h
    exact ⟨a.toNat, (Numeral.read?_eq_some hb (by decide)).2 ⟨h, a.isLt⟩, ofNat?_eq_some.2 rfl⟩

theorem number?_eq_some : (number? cs).bind ofNat? = some a ↔ Spells cs a.toNat := by
  unfold number?
  split
  · rw [ofNat?_read?_eq_some (by decide)]
    constructor
    · exact .prefixed (.inl rfl)
    · intro h
      cases h with
      | prefixed hx hhex => exact hhex
      | bare hx hX hcs => exact absurd (by simp) hx
  · rw [ofNat?_read?_eq_some (by decide)]
    constructor
    · exact .prefixed (.inr rfl)
    · intro h
      cases h with
      | prefixed hx hhex => exact hhex
      | bare hx hX hcs => exact absurd (by simp) hX
  · rename_i hlower hupper
    rw [ofNat?_read?_eq_some (by split <;> decide)]
    constructor
    · refine .bare ?_ ?_
      · rintro ⟨hex, rfl⟩
        exact hlower hex rfl
      · rintro ⟨hex, rfl⟩
        exact hupper hex rfl
    · intro h
      cases h with
      | @prefixed x hex n hx hhex =>
        rcases hx with rfl | rfl
        · exact absurd rfl (hlower hex)
        · exact absurd rfl (hupper hex)
      | bare hx hX hcs => exact hcs

theorem ofText_eq_ok (s : String) : ofText s = .ok a ↔ Spells (Text.trim s.toList) a.toNat := by
  rw [ofText, parse_eq, ← number?_eq_some]
  cases (number? (Text.trim s.toList)).bind ofNat? with
  | none => exact ⟨nofun, nofun⟩
  | some b =>
    constructor
    · intro h
      exact congrArg some (Except.ok.inj h)
    · intro h
      exact congrArg Except.ok (Option.some.inj h)

theorem ofText_eq_error {s : String}
    (h : ∀ a : Address, ¬Spells (Text.trim s.toList) a.toNat) :
    ofText s = .error (.invalidAddress (String.ofList (Text.trim s.toList))) := by
  have hnone : (number? (Text.trim s.toList)).bind ofNat? = none :=
    Option.eq_none_iff_forall_ne_some.2 fun a ha => h a (number?_eq_some.1 ha)
  rw [ofText, parse_eq, hnone]
  rfl

/-! ## Written forms -/

theorem Spells.unbroken (h : Spells cs n) : ∀ c ∈ cs, Text.isBlank c = false := by
  cases h with
  | @prefixed x hex n hx hhex =>
    have hx' : Text.isBlank x = false := by rcases hx with rfl | rfl <;> decide
    rw [List.forall_mem_cons, List.forall_mem_cons]
    exact ⟨by decide, hx', hhex.unbroken⟩
  | bare hx hX hcs => exact hcs.unbroken

/-- Whatever spells an address is read as it, with blanks around it or without. -/
theorem Spells.ofText (h : Spells cs a.toNat) {left right : List Char}
    (hleft : ∀ c ∈ left, Text.isBlank c) (hright : ∀ c ∈ right, Text.isBlank c) :
    Address.ofText (String.ofList (left ++ (cs ++ right))) = .ok a := by
  have hunbroken := h.unbroken
  have htrims : Text.Trims (left ++ (cs ++ right)) cs :=
    .text hleft hright (fun c hc => hunbroken c (List.mem_of_mem_head? hc))
      (fun c hc => hunbroken c (List.mem_of_mem_getLast? hc))
  rw [ofText_eq_ok, String.toList_ofList, htrims.trim_eq]
  exact h

theorem toList_prefixed (hex : List Char) :
    ("0x" ++ String.ofList hex).toList = '0' :: 'x' :: hex := by
  simp

theorem spells_upperHex (a : Address) : Spells a.upperHex.toList a.toNat := by
  rw [upperHex, toList_prefixed]
  exact .prefixed (.inl rfl) (.inl (Numeral.denotes_upper 16 a.toNat))

theorem spells_lowerHex (a : Address) : Spells a.lowerHex.toList a.toNat := by
  rw [lowerHex, toList_prefixed]
  exact .prefixed (.inl rfl) (.inl (Numeral.denotes_hexPadded 16 a.toNat))

/-- Decimal numerals hold no letter, so they have no prefix either. -/
theorem spells_decimal (a : Address) : Spells (toString a.toNat).toList a.toNat := by
  have hdenotes := Numeral.denotes_decimal a.toNat
  have hdigits : ∀ c ∈ (toString a.toNat).toList, c.isAlpha = false := by
    intro c hc
    obtain ⟨d, hd⟩ := hdenotes.exists_digit hc
    exact Numeral.not_isAlpha_of_digit? hd
  have hmark {x : Char} (hx : x.isAlpha) : ¬['0', x] <+: (toString a.toNat).toList := by
    intro hp
    rw [hdigits x (hp.subset (by simp))] at hx
    cases hx
  refine .bare (hmark (by decide)) (hmark (by decide)) ?_
  rw [if_neg]
  · exact .inl hdenotes
  · intro hany
    obtain ⟨c, hc, hletter⟩ := List.any_eq_true.1 hany
    rw [hdigits c hc] at hletter
    cases hletter

/-- Every written form of an address is read back, whatever blanks stand around it, and nothing is
read as an address but what spells it once it is trimmed. An error holds the trimmed text. -/
theorem ofText_spelling :
    (∀ (a : Address) (left right : String), (∀ c ∈ left.toList, Text.isBlank c) →
      (∀ c ∈ right.toList, Text.isBlank c) →
        ∀ form ∈ [a.upperHex, a.lowerHex, toString a.toNat],
          ofText (left ++ form ++ right) = .ok a) ∧
      ∀ s : String, ∃ trimmed, Text.Trims s.toList trimmed ∧
        (∀ a, ofText s = .ok a ↔ Spells trimmed a.toNat) ∧
        ((∀ a : Address, ¬Spells trimmed a.toNat) →
          ofText s = .error (.invalidAddress (String.ofList trimmed))) := by
  constructor
  · intro a left right hleft hright form hform
    have hspells : Spells form.toList a.toNat := by
      simp only [List.mem_cons, List.not_mem_nil, or_false] at hform
      rcases hform with rfl | rfl | rfl
      · exact a.spells_upperHex
      · exact a.spells_lowerHex
      · exact a.spells_decimal
    have htext : left ++ form ++ right =
        String.ofList (left.toList ++ (form.toList ++ right.toList)) := by
      rw [← String.toList_append, ← String.toList_append, String.ofList_toList, String.append_assoc]
    rw [htext]
    exact hspells.ofText hleft hright
  · intro s
    exact ⟨Text.trim s.toList, Text.trims_trim _, fun a => ofText_eq_ok s, ofText_eq_error⟩

/-- The highest address between blanks of three kinds, and blanks alone. -/
theorem ofText_spelling_padded :
    (∀ c ∈ "\u00a0\t".toList, Text.isBlank c) ∧ (∀ c ∈ "\u3000".toList, Text.isBlank c) ∧
      ofText ("\u00a0\t" ++ toString Address.top.toNat ++ "\u3000") = .ok Address.top ∧
      Text.Trims "\t".toList [] ∧ (∀ a : Address, ¬Spells [] a.toNat) ∧
      ofText "\t" = .error (.invalidAddress "") := by
  have hleft : ∀ c ∈ "\u00a0\t".toList, Text.isBlank c := List.all_eq_true.1 (by decide)
  have hright : ∀ c ∈ "\u3000".toList, Text.isBlank c := List.all_eq_true.1 (by decide)
  obtain ⟨hforms, htexts⟩ := ofText_spelling
  have htop := hforms Address.top _ _ hleft hright (toString Address.top.toNat) (by simp)
  obtain ⟨trimmed, htrims, -, herror⟩ := htexts "\t"
  obtain rfl : [] = trimmed := htrims.trim_eq
  have hnone : ∀ a : Address, ¬Spells [] a.toNat := by
    intro a h
    cases h with
    | bare hx hX hcs =>
      rcases hcs with ⟨hne, -⟩ | ⟨unsigned, hcs, -⟩
      · exact hne rfl
      · cases hcs
  exact ⟨hleft, hright, htop, htrims, hnone, herror hnone⟩

end Address
end ProcessMemory
