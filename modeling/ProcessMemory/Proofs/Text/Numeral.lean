import ProcessMemory.Text.Blank
import ProcessMemory.Text.Numeral

/-!
# What numerals denote

A numeral denotes the number that its digits make up, of either case and after any zeros. Reading
gives just that number where it lies below the limit, and what is printed denotes what it was
printed from.
-/
namespace ProcessMemory.Numeral

/-- The number that digits make up after `acc`, most significant first. -/
def value (base acc : Nat) (ds : List Nat) : Nat := ds.foldl (fun n d => n * base + d) acc

/-- The characters are digits, one at least, and make up `n`. -/
def Denotes (base : Nat) (cs : List Char) (n : Nat) : Prop :=
  cs ≠ [] ∧ ∃ ds, cs.map (digit? base) = ds.map some ∧ value base 0 ds = n

variable {base limit acc n d : Nat} {c : Char} {cs : List Char}

@[simp] theorem value_nil : value base acc [] = acc := rfl

@[simp] theorem value_cons (ds : List Nat) :
    value base acc (d :: ds) = value base (acc * base + d) ds := rfl

theorem value_append (ds es : List Nat) :
    value base acc (ds ++ es) = value base (value base acc ds) es := List.foldl_append

/-- More digits never make a number smaller. -/
theorem le_value (hb : 0 < base) (acc : Nat) (ds : List Nat) : acc ≤ value base acc ds := by
  induction ds generalizing acc with
  | nil => exact Nat.le_refl _
  | cons d ds ih =>
    rw [value_cons]
    have hacc : acc ≤ acc * base := Nat.le_mul_of_pos_right acc hb
    exact Nat.le_trans (Nat.le_trans hacc (Nat.le_add_right _ _)) (ih _)

theorem ite_some_eq_some {value : Nat} :
    (if value < base then some value else none) = some d ↔ value = d ∧ d < base := by
  by_cases h : value < base
  · rw [if_pos h, Option.some.injEq]
    exact ⟨fun he => ⟨he, he ▸ h⟩, And.left⟩
  · rw [if_neg h]
    exact ⟨nofun, fun he => absurd (he.1 ▸ he.2) h⟩

/-- The digits are those of ten and the letters from A to F, as far as the base goes. -/
theorem digit?_eq_some : digit? base c = some d ↔ d < base ∧
    ((0x30 ≤ c.toNat ∧ c.toNat ≤ 0x39 ∧ c.toNat = d + 0x30) ∨
      (0x41 ≤ c.toNat ∧ c.toNat ≤ 0x46 ∧ c.toNat + 10 = d + 0x41) ∨
      (0x61 ≤ c.toNat ∧ c.toNat ≤ 0x66 ∧ c.toNat + 10 = d + 0x61)) := by
  rw [digit?, ite_some_eq_some]
  by_cases h1 : 0x30 ≤ c.toNat ∧ c.toNat ≤ 0x39
  · rw [if_pos h1]
    omega
  · by_cases h2 : 0x41 ≤ c.toNat ∧ c.toNat ≤ 0x46
    · rw [if_neg h1, if_pos h2]
      omega
    · by_cases h3 : 0x61 ≤ c.toNat ∧ c.toNat ≤ 0x66
      · rw [if_neg h1, if_neg h2, if_pos h3]
        omega
      · rw [if_neg h1, if_neg h2, if_neg h3]
        omega

/-- A digit is none of the characters that part fields or numerals. -/
theorem not_parts_of_digit? (h : digit? base c = some d) :
    Text.isBlank c = false ∧ c ≠ '-' ∧ c ≠ '+' := by
  have hrange := (digit?_eq_some.1 h).2
  refine ⟨?_, ?_, ?_⟩
  · simp only [Text.isBlank, Bool.or_eq_false_iff, Bool.and_eq_false_iff, decide_eq_false_iff_not,
      beq_eq_false_iff_ne]
    omega
  · rintro rfl
    have hcode : '-'.toNat = 0x2D := rfl
    omega
  · rintro rfl
    have hcode : '+'.toNat = 0x2B := rfl
    omega

theorem toNat_digitChar (h : d < 16) :
    (digitChar d).toNat = if d < 10 then 0x30 + d else 0x61 + (d - 10) := by
  have hall : ∀ k : Fin 16,
      (digitChar k).toNat = if k.val < 10 then 0x30 + k.val else 0x61 + (k.val - 10) := by decide
  exact hall ⟨d, h⟩

theorem digit?_digitChar (hb : base ≤ 16) (h : d < base) : digit? base (digitChar d) = some d := by
  rw [digit?_eq_some, toNat_digitChar (Nat.lt_of_lt_of_le h hb)]
  refine ⟨h, ?_⟩
  split <;> omega

/-! ## Printing -/

theorem digits_lt (hb : 2 ≤ base) (n : Nat) : ∀ d ∈ digits base n, d < base := by
  fun_induction digits base n with
  | case1 n h =>
    intro d hd
    rw [List.mem_singleton.1 hd]
    omega
  | case2 n h ih =>
    intro d hd
    rcases List.mem_append.1 hd with hd | hd
    · exact ih d hd
    · rw [List.mem_singleton.1 hd]
      exact Nat.mod_lt n (by omega)

theorem value_digits (base n : Nat) : value base 0 (digits base n) = n := by
  fun_induction digits base n with
  | case1 n h => simp
  | case2 n h ih =>
    rw [value_append, ih, value_cons, value_nil]
    exact Nat.div_add_mod' n base

theorem digits_ne_nil (base n : Nat) : digits base n ≠ [] := by
  rw [digits]
  split <;> simp

/-- Digits written in any way that reads back as them denote what they make up. -/
theorem denotes_digits (hb : 2 ≤ base) {write : Nat → Char}
    (hwrite : ∀ d < base, digit? base (write d) = some d) (n : Nat) :
    Denotes base ((digits base n).map write) n := by
  refine ⟨?_, digits base n, ?_, value_digits base n⟩
  · rw [ne_eq, List.map_eq_nil_iff]
    exact digits_ne_nil base n
  · rw [List.map_map]
    apply List.map_congr_left
    intro d hd
    exact hwrite d (digits_lt hb n d hd)

/-- What is printed denotes what it was printed from. -/
theorem denotes_print (hb : 2 ≤ base) (hb' : base ≤ 16) (n : Nat) :
    Denotes base (print base n) n :=
  denotes_digits hb (fun _ hd => digit?_digitChar hb' hd) n

theorem digit?_zero (hb : 0 < base) : digit? base '0' = some 0 :=
  digit?_eq_some.2 ⟨hb, .inl (by decide)⟩

/-- Zeros in front change nothing. -/
theorem Denotes.zeros (h : Denotes base cs n) (hb : 0 < base) (k : Nat) :
    Denotes base (List.replicate k '0' ++ cs) n := by
  induction k with
  | zero => exact h
  | succ k ih =>
    obtain ⟨-, ds, hds, hvalue⟩ := ih
    rw [List.replicate_succ, List.cons_append]
    refine ⟨List.cons_ne_nil _ _, 0 :: ds, ?_, ?_⟩
    · rw [List.map_cons, List.map_cons, digit?_zero hb, hds]
    · rwa [value_cons, Nat.zero_mul]

/-! ## Reading -/

theorem readDigits_eq_ok (hb : 0 < base) (hacc : acc < limit) :
    readDigits base limit acc cs = .ok n ↔
      ∃ ds, cs.map (digit? base) = ds.map some ∧ value base acc ds = n ∧ n < limit := by
  induction cs generalizing acc with
  | nil =>
    rw [readDigits]
    constructor
    · rintro h
      cases h
      exact ⟨[], rfl, rfl, hacc⟩
    · rintro ⟨ds, hds, hvalue, -⟩
      cases ds with
      | nil => exact congrArg Except.ok hvalue
      | cons d ds => cases hds
  | cons c rest ih =>
    rw [readDigits]
    cases hd : digit? base c with
    | none =>
      simp only [reduceCtorEq, false_iff]
      rintro ⟨ds, hds, -⟩
      cases ds with
      | nil => cases hds
      | cons d ds => simp [hd] at hds
    | some d =>
      have hsplit : (∃ ds, (c :: rest).map (digit? base) = ds.map some ∧ value base acc ds = n ∧
            n < limit) ↔
          ∃ ds, rest.map (digit? base) = ds.map some ∧ value base (acc * base + d) ds = n ∧
            n < limit := by
        constructor
        · rintro ⟨ds, hds, hvalue⟩
          cases ds with
          | nil => cases hds
          | cons e ds =>
            simp only [List.map_cons, List.cons.injEq, hd, Option.some.injEq] at hds
            obtain ⟨rfl, hds⟩ := hds
            exact ⟨ds, hds, hvalue⟩
        · rintro ⟨ds, hds, hvalue⟩
          refine ⟨d :: ds, ?_, hvalue⟩
          rw [List.map_cons, List.map_cons, hd, hds]
      rw [hsplit]
      dsimp only
      by_cases hlt : acc * base + d < limit
      · rw [if_pos hlt]
        exact ih hlt
      · rw [if_neg hlt]
        simp only [reduceCtorEq, false_iff]
        rintro ⟨ds, -, hvalue, hn⟩
        have hle := le_value hb (acc * base + d) ds
        omega

namespace Denotes

theorem exists_digit (h : Denotes base cs n) (hc : c ∈ cs) : ∃ d, digit? base c = some d := by
  obtain ⟨-, ds, hds, -⟩ := h
  have hmem : digit? base c ∈ ds.map some := hds ▸ List.mem_map_of_mem hc
  obtain ⟨d, -, hd⟩ := List.mem_map.1 hmem
  exact ⟨d, hd.symm⟩

/-- Reading a numeral gives the number that it denotes. -/
theorem read? (h : Denotes base cs n) (hb : 0 < base) (hn : n < limit) :
    Numeral.read? base limit cs = some n := by
  have hread : read base limit cs = readDigits base limit 0 cs := by
    unfold read
    split
    · exact absurd rfl h.1
    · obtain ⟨d, hd⟩ := h.exists_digit List.mem_cons_self
      exact absurd rfl (not_parts_of_digit? hd).2.2
    · obtain ⟨d, hd⟩ := h.exists_digit List.mem_cons_self
      exact absurd rfl (not_parts_of_digit? hd).2.2
    · rfl
  obtain ⟨-, ds, hds, hvalue⟩ := h
  have hok := (readDigits_eq_ok hb (Nat.zero_lt_of_lt hn)).2 ⟨ds, hds, hvalue, hn⟩
  rw [Numeral.read?, hread, hok]
  rfl

end Denotes

def DenotesSigned (base : Nat) (cs : List Char) (n : Nat) : Prop :=
  Denotes base cs n ∨ ∃ unsigned, cs = '+' :: unsigned ∧ Denotes base unsigned n

theorem denotes_of_readDigits (hb : 0 < base) (hl : 0 < limit) (hne : cs ≠ [])
    (h : (readDigits base limit 0 cs).toOption = some n) : Denotes base cs n ∧ n < limit := by
  cases hread : readDigits base limit 0 cs with
  | error e =>
    rw [hread] at h
    cases h
  | ok m =>
    rw [hread] at h
    cases h
    obtain ⟨ds, hds, hvalue, hlt⟩ := (readDigits_eq_ok hb hl).1 hread
    exact ⟨⟨hne, ds, hds, hvalue⟩, hlt⟩

theorem read?_plus (h : cs ≠ []) :
    read? base limit ('+' :: cs) = (readDigits base limit 0 cs).toOption := by
  cases cs with
  | nil => exact absurd rfl h
  | cons c cs => rfl

/-- What can be read are the signed numerals that denote numbers below the limit. -/
theorem read?_eq_some (hb : 0 < base) (hl : 0 < limit) :
    read? base limit cs = some n ↔ DenotesSigned base cs n ∧ n < limit := by
  constructor
  · intro h
    unfold read? read at h
    split at h
    · cases h
    · cases h
    · rename_i unsigned hne
      obtain ⟨hdenotes, hlt⟩ := denotes_of_readDigits hb hl (by rintro rfl; exact hne rfl) h
      exact ⟨.inr ⟨unsigned, rfl, hdenotes⟩, hlt⟩
    · rename_i hne _ _
      obtain ⟨hdenotes, hlt⟩ := denotes_of_readDigits hb hl (by rintro rfl; exact hne rfl) h
      exact ⟨.inl hdenotes, hlt⟩
  · rintro ⟨hdenotes | ⟨unsigned, rfl, hdenotes⟩, hlt⟩
    · exact hdenotes.read? hb hlt
    · obtain ⟨hne, ds, hds, hvalue⟩ := hdenotes
      rw [read?_plus hne, (readDigits_eq_ok hb hl).2 ⟨ds, hds, hvalue, hlt⟩]
      rfl

end ProcessMemory.Numeral
