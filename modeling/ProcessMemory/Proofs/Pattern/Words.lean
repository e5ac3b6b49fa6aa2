import ProcessMemory.Proofs.Pattern.Literal

/-!
# Patterns that stand for one of several words

The program of an alternation is written branch by branch, each in front of what follows them all.
What is written later leaves alone what the earlier instructions accept (`Extends`), so from its
entry the code goes on after any of the words (`Offers`), and the pattern finds the first place
where one of them stands.
-/
namespace ProcessMemory.Pattern

/-- The pattern finds the first place in some bytes where one of the words stands. -/
def FindsAny (p : Pattern) (words : List (List UInt8)) : Prop :=
  ∀ bytes, Least (fun place => ∃ word ∈ words, word <+: bytes.drop place) (p.find? bytes)

def anyOf (words : List (List UInt8)) : Pattern := ⟨.ofNode (.alt (words.map .literal)), false⟩

variable {code more : Code} {h : Haystack} {x y : Nat × Nat} {instr : Instr} {state i : Nat}

/-! ## Code that grows -/

/-- The instructions of the code stand unchanged in more code. -/
structure Extends (code more : Code) : Prop where
  size_le : code.size ≤ more.size
  kept : ∀ state < code.size, more[state]? = code[state]?

theorem Extends.trans {most : Code} (hc : Extends code more) (hm : Extends more most) :
    Extends code most where
  size_le := Nat.le_trans hc.size_le hm.size_le
  kept state hs := (hm.kept state (Nat.lt_of_lt_of_le hs hc.size_le)).trans (hc.kept state hs)

theorem size_lt_push (code : Code) (instr : Instr) : code.size < (code.push instr).size := by
  rw [Array.size_push]
  exact Nat.lt_succ_self _

theorem extends_push (code : Code) (instr : Instr) : Extends code (code.push instr) where
  size_le := Nat.le_of_lt (size_lt_push code instr)
  kept state hs := by rw [Array.getElem?_push, if_neg (Nat.ne_of_lt hs)]

theorem getElem?_push_size (code : Code) (instr : Instr) :
    (code.push instr)[code.size]? = some instr := by
  rw [Array.getElem?_push, if_pos rfl]

theorem closed_push (hc : code.Closed) (ht : ∀ next ∈ instr.targets, next < code.size) :
    Code.Closed (code.push instr) := by
  intro state instr' hinstr next hnext
  have hlt := (getElem?_eq_some_iff.1 hinstr).1
  rw [Array.size_push] at hlt ⊢
  rw [Array.getElem?_push] at hinstr
  split at hinstr
  · cases hinstr
    exact Nat.lt_succ_of_lt (ht next hnext)
  · exact Nat.lt_succ_of_lt (hc state instr' hinstr next hnext)

theorem closed_push_atom {next : Nat} (hc : code.Closed) (hn : next < code.size) (a : Atom) :
    Code.Closed (code.push (.atom a next)) :=
  closed_push hc fun _ ht => List.mem_singleton.1 ht ▸ hn

theorem closed_push_fork {first second : Nat} (hc : code.Closed) (hf : first < code.size)
    (hs : second < code.size) : Code.Closed (code.push (.fork first second)) := by
  refine closed_push hc fun next hnext => ?_
  simp only [Instr.targets, List.mem_cons, List.not_mem_nil, or_false] at hnext
  rcases hnext with rfl | rfl
  · exact hf
  · exact hs

/-- More code accepts from the earlier instructions what the code itself accepts. -/
theorem Extends.accepts_iff (he : Extends code more) (hc : code.Closed) (hs : state < code.size) :
    Accepts more h (state, i) ↔ Accepts code h (state, i) := by
  have hnexts {x : Nat × Nat} (hx : x.1 < code.size) : nexts more h x = nexts code h x := by
    rw [nexts, he.kept x.1 hx, nexts]
  generalize hx : (state, i) = x
  have hlt : x.1 < code.size := hx ▸ hs
  clear hx
  constructor
  · intro ha
    induction ha with
    | here hinstr => exact .here ((he.kept _ hlt).symm.trans hinstr)
    | step hy _ ih =>
      rw [hnexts hlt] at hy
      exact .step hy (ih (lt_size_of_mem_nexts hc hy))
  · intro ha
    induction ha with
    | here hinstr => exact .here ((he.kept _ hlt).trans hinstr)
    | step hy _ ih =>
      have hnext := lt_size_of_mem_nexts hc hy
      rw [← hnexts hlt] at hy
      exact .step hy (ih hnext)

theorem accepts_atom {a : Atom} {next : Nat} (hinstr : code[state]? = some (.atom a next)) :
    Accepts code h (state, i) ↔ ∃ j, h.step? a i = some j ∧ Accepts code h (next, j) := by
  constructor
  · intro ha
    cases ha with
    | here haccept => cases hinstr.symm.trans haccept
    | step hy ha =>
      simp only [nexts, hinstr, List.mem_map, Option.mem_toList] at hy
      obtain ⟨j, hj, rfl⟩ := hy
      exact ⟨j, hj, ha⟩
  · rintro ⟨j, hj, ha⟩
    refine .step ?_ ha
    simp only [nexts, hinstr, List.mem_map, Option.mem_toList]
    exact ⟨j, hj, rfl⟩

theorem accepts_fork {first second : Nat} (hinstr : code[state]? = some (.fork first second)) :
    Accepts code h (state, i) ↔ Accepts code h (first, i) ∨ Accepts code h (second, i) := by
  have hnexts : nexts code h (state, i) = [(first, i), (second, i)] := by
    simp only [nexts, hinstr]
  constructor
  · intro ha
    cases ha with
    | here haccept => cases hinstr.symm.trans haccept
    | step hy ha =>
      simp only [hnexts, List.mem_cons, List.not_mem_nil, or_false] at hy
      rcases hy with rfl | rfl
      · exact .inl ha
      · exact .inr ha
  · rintro (ha | ha)
    · exact .step (by simp [hnexts]) ha
    · exact .step (by simp [hnexts]) ha

/-! ## Words -/

/-- What was written in front of `next`, where it starts and the code with it: it goes on at `next`
after one of the words. -/
structure Offers (code : Code) (next : Nat) (words : List (List UInt8)) (written : Nat × Code) :
    Prop where
  keeps : Extends code written.2
  closed : written.2.Closed
  entry_lt : written.1 < written.2.size
  accepts_iff : ∀ (hay : List UInt8) (i : Nat), Accepts written.2 ⟨hay.toArray⟩ (written.1, i) ↔
    ∃ word ∈ words, word <+: hay.drop i ∧ Accepts code ⟨hay.toArray⟩ (next, i + word.length)

variable {next : Nat} {words : List (List UInt8)} {written : Nat × Code} {word : List UInt8}

theorem offers_empty (hc : code.Closed) (hn : next < code.size) :
    Offers code next [[]] (next, code) where
  keeps := ⟨Nat.le_refl _, fun _ _ => rfl⟩
  closed := hc
  entry_lt := hn
  accepts_iff hay i := by simp

theorem Offers.atom {b : UInt8} (ho : Offers code next [word] written) :
    Offers code next [b :: word]
      (Writer.atom (.byte (.range b.toNat b.toNat)) written.1 written.2) where
  keeps := ho.keeps.trans (extends_push _ _)
  closed := closed_push_atom ho.closed ho.entry_lt _
  entry_lt := size_lt_push _ _
  accepts_iff hay i := by
    rw [Writer.atom, accepts_atom (getElem?_push_size _ _)]
    simp only [step?_eq_some, (extends_push _ _).accepts_iff ho.closed ho.entry_lt,
      ho.accepts_iff, List.mem_singleton, exists_eq_left, cons_prefix_drop, List.length_cons]
    constructor
    · rintro ⟨_, ⟨hb, rfl⟩, hpre, ha⟩
      rw [Nat.add_assoc, Nat.add_comm 1] at ha
      exact ⟨⟨hb, hpre⟩, ha⟩
    · rintro ⟨⟨hb, hpre⟩, ha⟩
      refine ⟨_, ⟨hb, rfl⟩, hpre, ?_⟩
      rwa [Nat.add_assoc, Nat.add_comm 1]

theorem literal_offers (hc : code.Closed) (hn : next < code.size) (word : List UInt8) :
    Offers code next [word] ((Node.literal word).write next code) := by
  rw [Node.write]
  induction word with
  | nil => exact offers_empty hc hn
  | cons b word ih => exact ih.atom

theorem step?_empty : h.step? (.byte .empty) i = none := by
  simp [Haystack.step?, CharSet.contains, CharSet.empty, CharSet.rank]

theorem dead_offers (hc : code.Closed) (hn : next < code.size) :
    Offers code next [] (Writer.atom (.byte .empty) next code) where
  keeps := extends_push _ _
  closed := closed_push_atom hc hn _
  entry_lt := size_lt_push _ _
  accepts_iff hay i := by
    rw [Writer.atom, accepts_atom (getElem?_push_size _ _)]
    constructor
    · rintro ⟨j, hj, -⟩
      rw [step?_empty] at hj
      cases hj
    · rintro ⟨word, hword, -⟩
      cases hword

/-- One branch in front of the others. -/
theorem Offers.fork {first second : Nat × Code} (hn : next < code.size) (hc : code.Closed)
    (hs : Offers code next words second) (hf : Offers second.2 next [word] first) :
    Offers code next (word :: words)
      (first.2.size, first.2.push (.fork first.1 second.1)) where
  keeps := (hs.keeps.trans hf.keeps).trans (extends_push _ _)
  closed := closed_push_fork hf.closed hf.entry_lt
    (Nat.lt_of_lt_of_le hs.entry_lt hf.keeps.size_le)
  entry_lt := size_lt_push _ _
  accepts_iff hay i := by
    have hpush := extends_push first.2 (.fork first.1 second.1)
    have hfirst : Accepts (first.2.push (.fork first.1 second.1)) ⟨hay.toArray⟩ (first.1, i) ↔
        word <+: hay.drop i ∧ Accepts code ⟨hay.toArray⟩ (next, i + word.length) := by
      rw [hpush.accepts_iff hf.closed hf.entry_lt, hf.accepts_iff]
      simp only [List.mem_singleton, exists_eq_left, hs.keeps.accepts_iff hc hn]
    have hsecond : Accepts (first.2.push (.fork first.1 second.1)) ⟨hay.toArray⟩ (second.1, i) ↔
        ∃ word ∈ words, word <+: hay.drop i ∧
          Accepts code ⟨hay.toArray⟩ (next, i + word.length) := by
      rw [(hf.keeps.trans hpush).accepts_iff hs.closed hs.entry_lt, hs.accepts_iff]
    rw [accepts_fork (getElem?_push_size _ _), hfirst, hsecond]
    simp only [List.mem_cons, or_and_right, exists_or, exists_eq_left]

theorem writeAlt_offers (hc : code.Closed) (hn : next < code.size) (words : List (List UInt8)) :
    Offers code next words (Node.writeAlt (words.map .literal) next code) := by
  induction words with
  | nil =>
    rw [List.map_nil, Node.writeAlt]
    exact dead_offers hc hn
  | cons word words ih =>
    rw [List.map_cons, Node.writeAlt]
    exact ih.fork hn hc (literal_offers ih.closed (Nat.lt_of_lt_of_le hn ih.keeps.size_le) word)

theorem anyOf_offers (words : List (List UInt8)) :
    Offers #[.accept] 0 words ((anyOf words).program.entry, (anyOf words).program.code) := by
  have hc : Code.Closed #[.accept] := by
    intro state instr hinstr
    cases state with
    | zero =>
      cases hinstr
      exact nofun
    | succ n => cases hinstr
  have ho := writeAlt_offers hc Nat.one_pos words
  rwa [← Node.write] at ho

/-- The pattern that stands for one of some words finds the first place where one of them stands. -/
theorem anyOf_findsAny {words : List (List UInt8)} (hne : ∀ word ∈ words, word ≠ []) :
    (anyOf words).FindsAny words := by
  intro bytes
  have ho := anyOf_offers words
  refine (find?_least ⟨ho.closed, ho.entry_lt⟩ bytes).congr fun i => ?_
  have haccepts : Accepts (anyOf words).program.code ⟨bytes.toArray⟩
      ((anyOf words).program.entry, i) ↔ ∃ word ∈ words, word <+: bytes.drop i := by
    rw [ho.accepts_iff]
    have hend (place : Nat) : Accepts #[.accept] ⟨bytes.toArray⟩ (0, place) := .here rfl
    simp only [hend, and_true]
  constructor
  · exact fun hm => haccepts.1 hm.accepts
  · rintro ⟨word, hword, hpre⟩
    have hlen := hpre.length_le
    have hpos := List.length_pos_iff.2 (hne word hword)
    rw [List.length_drop] at hlen
    have hle : i ≤ bytes.length := by omega
    exact ⟨hle, nofun, haccepts.2 ⟨word, hword, hpre⟩⟩

/-- Words with bars between them are read as their alternation. -/
example :
    (parse? false "abc|b").any (·.same (.alt [.literal [97, 98, 99], .literal [98]])) := by
  decide +kernel

end ProcessMemory.Pattern
