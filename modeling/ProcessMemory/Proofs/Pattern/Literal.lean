import ProcessMemory.Proofs.Pattern.Follow
import ProcessMemory.Proofs.Text.Runs

/-!
# Patterns that stand for a text

The program of a literal spells its bytes from the last instruction down to the first. Where the
bytes of a text stand in the bytes of another text, the one is a piece of the other, so the pattern
finds the first piece (`literal_findsFirst`).
-/
namespace ProcessMemory

/-- The set that one number makes up. -/
theorem CharSet.contains_range_self {n m : Nat} : (range n n).contains m ↔ m = n := by
  have hrank : rank #[n, n + 1] m 0 2 = if n + 1 ≤ m then 2 else if n ≤ m then 1 else 0 := by
    simp [rank]
  rw [contains, range, beq_iff_eq]
  change rank #[n, n + 1] m 0 2 % 2 = 1 ↔ m = n
  rw [hrank]
  by_cases hhigh : n + 1 ≤ m
  · rw [if_pos hhigh]
    omega
  · rw [if_neg hhigh]
    by_cases hlow : n ≤ m
    · rw [if_pos hlow]
      omega
    · rw [if_neg hlow]
      omega

theorem Utf8.isTail_iff {b : UInt8} : (b &&& 0xC0 == 0x80) = true ↔ IsTail b := by
  have hall : ∀ n : Fin 256, (UInt8.ofFin n &&& 0xC0 == 0x80) = true ↔
      0x80 ≤ (UInt8.ofFin n).toNat ∧ (UInt8.ofFin n).toNat < 0xC0 := by
    decide +kernel
  exact hall b.toFin

namespace Pattern

/-- The pattern finds the first piece of a text that is `text`. -/
def FindsFirst (p : Pattern) (text : List Char) : Prop :=
  ∀ whole, Least (fun place => ∃ before after, whole = before ++ text ++ after ∧
    place = (Utf8.encodeAll before).length) (p.findText? whole)

def literal (text : List Char) : Pattern := ⟨.ofNode (.literal (Utf8.encodeAll text)), true⟩

/-- The code accepts some bytes, counted down to the instruction that accepts. -/
structure Spells (code : Code) (bytes : List UInt8) : Prop where
  size : code.size = bytes.length + 1
  accept : code[0]? = some .accept
  atom : ∀ before b rest, bytes = before ++ b :: rest →
    code[rest.length + 1]? = some (.atom (.byte (.range b.toNat b.toNat)) rest.length)

variable {code : Code} {bytes hay : List UInt8}

theorem Spells.push (h : Spells code bytes) (b : UInt8) :
    Spells (code.push (.atom (.byte (.range b.toNat b.toNat)) bytes.length)) (b :: bytes) := by
  have hsize := h.size
  refine ⟨?_, ?_, fun before b' rest heq => ?_⟩
  · rw [Array.size_push, hsize, List.length_cons]
  · rw [Array.getElem?_push, if_neg (by omega)]
    exact h.accept
  · rw [Array.getElem?_push]
    cases before with
    | nil =>
      cases heq
      rw [if_pos hsize.symm]
    | cons head before =>
      rw [List.cons_append, List.cons.injEq] at heq
      obtain ⟨rfl, rfl⟩ := heq
      rw [List.length_append, List.length_cons] at hsize
      rw [if_neg (by omega)]
      exact h.atom before b' rest rfl

theorem write_literal (bytes : List UInt8) :
    ((Node.literal bytes).write 0 #[.accept]).1 = bytes.length ∧
      Spells ((Node.literal bytes).write 0 #[.accept]).2 bytes := by
  rw [Node.write]
  induction bytes with
  | nil =>
    refine ⟨rfl, rfl, rfl, fun before b rest h => ?_⟩
    exact absurd (congrArg List.length h) (by simp)
  | cons b bytes ih =>
    rw [List.foldr_cons]
    generalize bytes.foldr _ _ = written at ih ⊢
    obtain ⟨entry, code⟩ := written
    obtain ⟨rfl, h⟩ := ih
    exact ⟨h.size, h.push b⟩

theorem spells_literal (text : List Char) :
    (literal text).program.entry = (Utf8.encodeAll text).length ∧
      Spells (literal text).program.code (Utf8.encodeAll text) :=
  write_literal (Utf8.encodeAll text)

theorem Spells.closed (h : Spells code bytes) : code.Closed := by
  intro state instr hinstr
  have hlt := (getElem?_eq_some_iff.1 hinstr).1
  rw [h.size] at hlt
  cases state with
  | zero =>
    rw [h.accept] at hinstr
    cases hinstr
    exact nofun
  | succ n =>
    have hsplit := List.take_append_drop (bytes.length - (n + 1)) bytes
    have hlen : (bytes.drop (bytes.length - (n + 1))).length = n + 1 := by
      rw [List.length_drop]
      omega
    obtain ⟨b, rest, hrest⟩ := List.exists_cons_of_length_eq_add_one hlen
    rw [hrest] at hsplit hlen
    obtain rfl : rest.length = n := Nat.succ.inj hlen
    have hatom := h.atom _ _ _ hsplit.symm
    rw [hinstr] at hatom
    cases hatom
    intro next hnext
    rw [List.mem_singleton.1 hnext, h.size]
    omega

theorem byte?_eq (hay : List UInt8) (i : Nat) : Haystack.byte? ⟨hay.toArray⟩ i = hay[i]? := by
  rw [Haystack.byte?]
  by_cases hi : i < hay.length
  · rw [List.getElem?_eq_getElem hi, getElem?_pos (⟨hay.toArray⟩ : Haystack) i hi]
    rfl
  · rw [List.getElem?_eq_none (Nat.le_of_not_lt hi), getElem?_neg (⟨hay.toArray⟩ : Haystack) i hi]

theorem step?_eq_some {b : UInt8} {i j : Nat} :
    Haystack.step? ⟨hay.toArray⟩ (.byte (.range b.toNat b.toNat)) i = some j ↔
      hay[i]? = some b ∧ j = i + 1 := by
  simp only [Haystack.step?, byte?_eq, Option.bind_eq_some_iff, CharSet.contains_range_self,
    UInt8.toNat_inj, Option.ite_none_right_eq_some, Option.some.injEq]
  constructor
  · rintro ⟨_, hb, rfl, rfl⟩
    exact ⟨hb, rfl⟩
  · rintro ⟨hb, rfl⟩
    exact ⟨b, hb, rfl, rfl⟩

theorem cons_prefix_drop {b : UInt8} {i : Nat} :
    b :: bytes <+: hay.drop i ↔ hay[i]? = some b ∧ bytes <+: hay.drop (i + 1) := by
  rw [← List.head?_drop, ← List.tail_drop]
  cases hay.drop i with
  | nil => simp
  | cons a tail => simp [List.cons_prefix_cons, eq_comm]

/-- From an instruction down the code accepts the bytes that are left to spell. -/
theorem Spells.accepts_iff (h : Spells code bytes) {before rest : List UInt8}
    (hb : bytes = before ++ rest) {i : Nat} :
    Accepts code ⟨hay.toArray⟩ (rest.length, i) ↔ rest <+: hay.drop i := by
  induction rest generalizing before i with
  | nil => exact ⟨fun _ => List.nil_prefix, fun _ => .here h.accept⟩
  | cons b rest ih =>
    have hatom := h.atom before b rest hb
    have hnexts : ∀ y, y ∈ nexts code ⟨hay.toArray⟩ (rest.length + 1, i) ↔
        hay[i]? = some b ∧ y = (rest.length, i + 1) := by
      intro y
      simp only [nexts, hatom, List.mem_map, Option.mem_toList, step?_eq_some]
      constructor
      · rintro ⟨j, ⟨hbyte, rfl⟩, rfl⟩
        exact ⟨hbyte, rfl⟩
      · rintro ⟨hbyte, rfl⟩
        exact ⟨i + 1, ⟨hbyte, rfl⟩, rfl⟩
    have hsplit : bytes = (before ++ [b]) ++ rest := by rw [hb, List.append_cons]
    have hrest : Accepts code ⟨hay.toArray⟩ (rest.length, i + 1) ↔ rest <+: hay.drop (i + 1) :=
      ih hsplit
    rw [cons_prefix_drop, ← hrest]
    constructor
    · intro ha
      cases ha with
      | here hx => cases hatom.symm.trans hx
      | step hy ha =>
        obtain ⟨hbyte, rfl⟩ := (hnexts _).1 hy
        exact ⟨hbyte, ha⟩
    · rintro ⟨hbyte, ha⟩
      exact .step ((hnexts _).2 ⟨hbyte, rfl⟩) ha

theorem isInner_iff {i : Nat} :
    Haystack.isInner ⟨hay.toArray⟩ i ↔ ∃ b, hay[i]? = some b ∧ Utf8.IsTail b := by
  rw [Haystack.isInner, byte?_eq]
  cases hay[i]? with
  | none => simp
  | some b => simp only [Option.any_some, Utf8.isTail_iff, Option.some.injEq, exists_eq_left']

/-! ## Pieces of a text -/

theorem encodeText?_utf8 (text : List Char) :
    Encoding.utf8.encodeText? text = some (Utf8.encodeAll text) := by
  induction text with
  | nil => rfl
  | cons c text ih => exact Encoding.encodeText?_cons_eq_some.2 ⟨_, _, rfl, ih, rfl⟩

/-- The bytes of a text stand only where the text does. -/
theorem prefix_iff_piece {text whole : List Char} (ht : text ≠ []) {place : Nat} :
    Utf8.encodeAll text <+: (Utf8.encodeAll whole).drop place ↔
      ∃ before after, whole = before ++ text ++ after ∧
        place = (Utf8.encodeAll before).length := by
  constructor
  · intro hpre
    have hplace : place < (Utf8.encodeAll whole).length := by
      refine Nat.lt_of_not_le fun hle => ?_
      have hstarts := Encoding.starts_of_text ht (encodeText?_utf8 text) hpre
      rw [List.drop_eq_nil_of_le hle] at hstarts
      exact Encoding.not_starts_nil hstarts
    obtain ⟨chars, stop, -, hreads⟩ := Encoding.utf8.reads_readChars 0 [] (Utf8.encodeAll whole)
    have hwhole := hreads
    rw [← List.append_nil (Utf8.encodeAll whole)] at hwhole
    obtain ⟨all, after, hchars, hall, hafter⟩ := hwhole.of_text (encodeText?_utf8 whole)
    obtain ⟨rfl, rfl⟩ := hafter.of_nil
    obtain ⟨read, ch, piece, after, rfl, hpiece⟩ :=
      hreads.exists_piece ht (encodeText?_utf8 text) hpre (by omega) (Nat.mod_one _)
    obtain ⟨enc, rest, henc, -, hrest⟩ := hreads.split
    refine ⟨read.map Prod.snd, after.map Prod.snd, ?_, ?_⟩
    · rw [← hall, ← List.append_nil all, ← hchars, ← hpiece]
      simp only [List.map_append, List.map_cons, List.append_assoc, List.cons_append]
    · have hfirst := hrest.first_place
      rw [encodeText?_utf8, Option.some.injEq] at henc
      rw [henc]
      omega
  · rintro ⟨before, after, rfl, rfl⟩
    simp only [Utf8.encodeAll, List.flatMap_append, List.append_assoc]
    rw [List.drop_left' rfl]
    exact List.prefix_append _ _

/-- Neither a piece of a text nor what comes after it starts inside a character. -/
theorem not_isInner_of_prefix {text : List Char} (ht : text ≠ []) {i : Nat}
    (hpre : Utf8.encodeAll text <+: hay.drop i) :
    i ≤ hay.length ∧ ¬Haystack.isInner ⟨hay.toArray⟩ i := by
  obtain ⟨c, text, rfl⟩ := List.exists_cons_of_ne_nil ht
  obtain ⟨a, tail, heq, ha, -⟩ := Utf8.encode_eq_cons c
  have hfirst : hay[i]? = some a := by
    obtain ⟨rest, hrest⟩ := hpre
    rw [← List.head?_drop, ← hrest, Utf8.encodeAll, List.flatMap_cons, heq]
    rfl
  refine ⟨Nat.le_of_lt (List.getElem?_eq_some_iff.1 hfirst).1, fun hinner => ?_⟩
  obtain ⟨b, hb, htail⟩ := isInner_iff.1 hinner
  cases hfirst.symm.trans hb
  exact ha htail

theorem literal_sound (text : List Char) : (literal text).program.Sound := by
  obtain ⟨hentry, h⟩ := spells_literal text
  refine ⟨h.closed, ?_⟩
  rw [hentry, h.size]
  exact Nat.lt_succ_self _

/-- The pattern that stands for a text finds the first piece. -/
theorem literal_findsFirst {text : List Char} (ht : text ≠ []) :
    (literal text).FindsFirst text := by
  intro whole
  obtain ⟨hentry, h⟩ := spells_literal text
  refine (find?_least (literal_sound text) (Utf8.encodeAll whole)).congr fun i => ?_
  rw [← prefix_iff_piece ht]
  have haccepts : Accepts (literal text).program.code ⟨(Utf8.encodeAll whole).toArray⟩
      ((literal text).program.entry, i) ↔
        Utf8.encodeAll text <+: (Utf8.encodeAll whole).drop i := by
    rw [hentry]
    exact h.accepts_iff (List.nil_append _).symm
  constructor
  · exact fun hm => haccepts.1 hm.accepts
  · intro hpre
    obtain ⟨hle, hinner⟩ := not_isInner_of_prefix ht hpre
    exact ⟨hle, fun _ => hinner, haccepts.2 hpre⟩

/-- A word without signs of its own is read as the literal of its bytes. -/
example :
    (parse? true "né").any (·.same (.literal (Utf8.encodeAll ['n', 'é']))) := by
  decide +kernel

end Pattern
end ProcessMemory
