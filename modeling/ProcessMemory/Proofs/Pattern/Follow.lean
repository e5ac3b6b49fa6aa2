import ProcessMemory.Pattern
import ProcessMemory.Proofs.Text.Utf8

/-!
# Following a program

A program accepts at a position if some way through it ends in acceptance. What has been tried is
never tried again, not even from a later position: a pair that was tried without success leads only
to pairs that were tried too (`Tried`), so no way from it ends in acceptance. The fuel is enough to
try every pair, so the first place that is found is the first one that the program accepts at.
-/
namespace ProcessMemory

/-- The answer is the least number with a property, or nothing where no number has it. -/
def Least (P : Nat → Prop) : Option Nat → Prop
  | some n => P n ∧ ∀ k < n, ¬P k
  | none => ∀ k, ¬P k

theorem Least.congr {P Q : Nat → Prop} {answer : Option Nat} (h : Least P answer)
    (heq : ∀ k, P k ↔ Q k) : Least Q answer := by
  obtain rfl : P = Q := funext fun k => propext (heq k)
  exact h

theorem Least.eq_some {P : Nat → Prop} {answer : Option Nat} {n : Nat} (h : Least P answer)
    (hn : P n) (hlow : ∀ k < n, ¬P k) : answer = some n := by
  cases answer with
  | none => exact absurd hn (h n)
  | some k =>
    refine congrArg some (Nat.le_antisymm (Nat.le_of_not_lt fun hlt => h.2 n hlt hn) ?_)
    exact Nat.le_of_not_lt fun hlt => hlow k hlt h.1

namespace Pattern

def Instr.targets : Instr → List Nat
  | .accept => []
  | .atom _ next => [next]
  | .look _ next => [next]
  | .fork first second => [first, second]

/-- Every instruction goes on with one that there is. -/
def Code.Closed (code : Code) : Prop :=
  ∀ (state : Nat) (instr : Instr), code[state]? = some instr →
    ∀ next ∈ instr.targets, next < code.size

def nexts (code : Code) (h : Haystack) (x : Nat × Nat) : List (Nat × Nat) :=
  match code[x.1]? with
  | some (.atom a next) => (Haystack.step? h a x.2).toList.map (next, ·)
  | some (.look l next) => if Haystack.holds h l x.2 then [(next, x.2)] else []
  | some (.fork first second) => [(first, x.2), (second, x.2)]
  | _ => []

/-- Some way from an instruction and a position ends in acceptance. -/
inductive Accepts (code : Code) (h : Haystack) : Nat × Nat → Prop where
  | here {x : Nat × Nat} (hx : code[x.1]? = some .accept) : Accepts code h x
  | step {x y : Nat × Nat} (hy : y ∈ nexts code h x) (ha : Accepts code h y) : Accepts code h x

variable {code : Code} {h : Haystack} {seen : Seen} {x y : Nat × Nat} {todo : List (Nat × Nat)}

/-! ## Pairs -/

def InRange (code : Code) (h : Haystack) (x : Nat × Nat) : Prop := x.1 < code.size ∧ x.2 ≤ h.size

theorem lt_size_of_byte? {i : Nat} {b : UInt8} (hb : Haystack.byte? h i = some b) : i < h.size :=
  (getElem?_eq_some_iff.1 hb).1

theorem step?_le {a : Atom} {i j : Nat} (hs : Haystack.step? h a i = some j) : j ≤ h.size := by
  cases a with
  | byte set =>
    obtain ⟨b, hb, hj⟩ := Option.bind_eq_some_iff.1 hs
    have hi := lt_size_of_byte? hb
    split at hj
    · cases hj
      exact hi
    · cases hj
  | scalar set =>
    obtain ⟨⟨c, width⟩, hc, hj⟩ := Option.bind_eq_some_iff.1 hs
    obtain ⟨b, hb, hc⟩ := Option.bind_eq_some_iff.1 hc
    have hi := lt_size_of_byte? hb
    have hwidth : i + width ≤ h.size := by
      split at hc
      · cases hc
        exact hi
      · obtain ⟨hpre, rfl⟩ := Utf8.decode?_eq_some_iff.1 hc
        have hlen := Nat.le_trans hpre.length_le (List.length_filterMap_le _ _)
        rw [List.length_range] at hlen
        omega
    dsimp only at hj
    split at hj
    · cases hj
      exact hwidth
    · cases hj

theorem lt_size_of_mem_nexts (hcode : code.Closed) (hy : y ∈ nexts code h x) : y.1 < code.size := by
  unfold nexts at hy
  split at hy
  · rename_i a next hinstr
    obtain ⟨j, -, rfl⟩ := List.mem_map.1 hy
    exact hcode _ _ hinstr _ (List.mem_singleton_self _)
  · rename_i l next hinstr
    split at hy
    · obtain rfl := List.mem_singleton.1 hy
      exact hcode _ _ hinstr _ (List.mem_singleton_self _)
    · cases hy
  · rename_i first second hinstr
    have htargets := hcode _ _ hinstr
    simp only [Instr.targets, List.forall_mem_cons] at htargets
    simp only [List.mem_cons, List.not_mem_nil, or_false] at hy
    rcases hy with rfl | rfl
    · exact htargets.1
    · exact htargets.2.1
  · cases hy

theorem inRange_nexts (hcode : code.Closed) (hx : InRange code h x) (hy : y ∈ nexts code h x) :
    InRange code h y := by
  refine ⟨lt_size_of_mem_nexts hcode hy, ?_⟩
  unfold nexts at hy
  split at hy
  · obtain ⟨j, hj, rfl⟩ := List.mem_map.1 hy
    exact step?_le (Option.mem_toList.1 hj)
  · split at hy
    · obtain rfl := List.mem_singleton.1 hy
      exact hx.2
    · cases hy
  · simp only [List.mem_cons, List.not_mem_nil, or_false] at hy
    rcases hy with rfl | rfl
    · exact hx.2
    · exact hx.2
  · cases hy

theorem length_nexts_le (code : Code) (h : Haystack) (x : Nat × Nat) :
    (nexts code h x).length ≤ 2 := by
  unfold nexts
  split
  · cases Haystack.step? h _ x.2 <;> simp
  · split <;> simp
  · simp
  · simp

def key (code : Code) (x : Nat × Nat) : Nat := x.2 * code.size + x.1

theorem key_inj (hx : x.1 < code.size) (hy : y.1 < code.size) (hk : key code x = key code y) :
    x = y := by
  have hstate : x.1 = y.1 := by
    have := congrArg (· % code.size) hk
    simpa only [key, Nat.mul_add_mod_self_right, Nat.mod_eq_of_lt hx, Nat.mod_eq_of_lt hy]
      using this
  have hplace : x.2 = y.2 := by
    rw [key, key, hstate, Nat.add_left_inj] at hk
    exact Nat.mul_right_cancel (Nat.zero_lt_of_lt hx) hk
  exact Prod.ext hstate hplace

theorem key_lt (hx : InRange code h x) : key code x < code.size * (h.size + 1) := by
  have hle := Nat.mul_le_mul_right code.size hx.2
  have hlt := hx.1
  rw [key, Nat.mul_add_one, Nat.mul_comm code.size]
  omega

/-! ## What has been tried -/

namespace Seen

def Marked (seen : Seen) (k : Nat) : Prop := seen.get! k ≠ 0

theorem marked_set {k j : Nat} (hk : k < seen.size) :
    Marked (seen.set! k 1) j ↔ j = k ∨ Marked seen j := by
  have hget : (seen.set! k 1).get! j = if k = j then 1 else seen.get! j := by
    change (seen.data.setIfInBounds k 1)[j]! = if k = j then 1 else seen.data[j]!
    have hk' : k < seen.data.size := hk
    rw [getElem!_def, getElem!_def, Array.getElem?_setIfInBounds]
    by_cases hj : k = j
    · rw [if_pos hj, if_pos hk', if_pos hj]
    · rw [if_neg hj, if_neg hj]
  rw [Marked, hget]
  by_cases hj : k = j
  · simp [hj]
  · simp [hj, Ne.symm hj, Marked]

theorem size_set {k : Nat} : (seen.set! k 1).size = seen.size :=
  Array.size_setIfInBounds

def untried (seen : Seen) : Nat := seen.data.count 0

theorem untried_le_size (seen : Seen) : seen.untried ≤ seen.size := Array.count_le_size

theorem untried_set {k : Nat} (hk : k < seen.size) (hno : ¬Marked seen k) :
    untried (seen.set! k 1) + 1 = untried seen := by
  have hk' : k < seen.data.size := hk
  have hzero : seen.data[k] = 0 := by
    refine Decidable.byContradiction fun hne => hno ?_
    change seen.data[k]! ≠ 0
    rwa [getElem!_pos seen.data k hk']
  change (seen.data.setIfInBounds k 1).count 0 + 1 = seen.data.count 0
  have hpos : 0 < seen.data.count 0 := Array.count_pos_iff.2 (hzero ▸ Array.getElem_mem hk')
  rw [Array.setIfInBounds, dif_pos hk', Array.count_set, hzero, if_pos (beq_self_eq_true 0),
    if_neg (by decide)]
  omega

theorem size_fresh (pairs : Nat) : (fresh pairs).size = pairs := by
  fun_induction fresh pairs with
  | case1 => rfl
  | case2 pairs h half heven ih =>
    rw [ByteArray.size_append, ih]
    omega
  | case3 pairs h half hodd ih =>
    rw [ByteArray.size_push, ByteArray.size_append, ih]
    omega

theorem eq_zero_of_mem_fresh {pairs : Nat} {b : UInt8} (hb : b ∈ (fresh pairs).data) : b = 0 := by
  fun_induction fresh pairs with
  | case1 => exact absurd hb (Array.not_mem_empty b)
  | case2 pairs h half heven ih =>
    rw [ByteArray.data_append, Array.mem_append] at hb
    exact hb.elim ih ih
  | case3 pairs h half hodd ih =>
    rw [ByteArray.data_push, Array.mem_push, ByteArray.data_append, Array.mem_append] at hb
    exact hb.elim (fun hb => hb.elim ih ih) id

theorem not_marked_fresh (pairs k : Nat) : ¬Marked (fresh pairs) k := by
  intro hk
  change (fresh pairs).data[k]! ≠ 0 at hk
  rw [getElem!_def] at hk
  cases hget : (fresh pairs).data[k]? with
  | none => exact hk (by rw [hget]; rfl)
  | some b =>
    rw [hget] at hk
    exact hk (eq_zero_of_mem_fresh (Array.mem_of_getElem? hget))

end Seen

/-- What is known where some pairs are left to do: a pair that was tried does not accept by itself,
and what it leads to was tried too or is among those left. -/
structure Tried (code : Code) (h : Haystack) (seen : Seen) (todo : List (Nat × Nat)) : Prop where
  size : seen.size = code.size * (h.size + 1)
  inRange : ∀ x ∈ todo, InRange code h x
  not_accept : ∀ x, InRange code h x → seen.Marked (key code x) → code[x.1]? ≠ some .accept
  nexts : ∀ x, InRange code h x → seen.Marked (key code x) → ∀ y ∈ nexts code h x,
    seen.Marked (key code y) ∨ y ∈ todo

/-! ## Following -/

variable {fuel : Nat}

theorem follow_of_marked (hm : seen.Marked (key code x)) :
    follow code h (fuel + 1) (x :: todo) seen = follow code h fuel todo seen := by
  obtain ⟨state, i⟩ := x
  rw [follow]
  exact if_pos (bne_iff_ne.2 hm)

theorem follow_of_accept (hm : ¬seen.Marked (key code x)) (hc : code[x.1]? = some .accept) :
    follow code h (fuel + 1) (x :: todo) seen = (true, seen.set! (key code x) 1) := by
  obtain ⟨state, i⟩ := x
  have hno : ¬(seen.get! (i * code.size + state) != 0) = true := fun hne => hm (bne_iff_ne.1 hne)
  rw [follow]
  dsimp only at hc ⊢
  rw [if_neg hno, hc]
  rfl

theorem follow_of_not_accept (hm : ¬seen.Marked (key code x)) (hc : code[x.1]? ≠ some .accept) :
    follow code h (fuel + 1) (x :: todo) seen =
      follow code h fuel (nexts code h x ++ todo) (seen.set! (key code x) 1) := by
  obtain ⟨state, i⟩ := x
  have hno : ¬(seen.get! (i * code.size + state) != 0) = true := fun hne => hm (bne_iff_ne.1 hne)
  rw [follow]
  dsimp only at hc ⊢
  rw [if_neg hno]
  cases hinstr : code[state]? with
  | none => simp only [nexts, hinstr, key, List.nil_append]
  | some instr =>
    cases instr with
    | accept => exact absurd hinstr hc
    | atom a next =>
      cases hs : Haystack.step? h a i with
      | none =>
        simp only [nexts, hinstr, key, hs, Option.toList_none, List.map_nil, List.nil_append]
      | some j =>
        simp only [nexts, hinstr, key, hs, Option.toList_some, List.map_cons, List.map_nil,
          List.cons_append, List.nil_append]
    | look l next =>
      by_cases hl : Haystack.holds h l i
      · simp only [nexts, hinstr, key, if_pos hl, List.cons_append, List.nil_append]
      · simp only [nexts, hinstr, key, if_neg hl, List.nil_append]
    | fork first second =>
      simp only [nexts, hinstr, key, List.cons_append, List.nil_append]

namespace Tried

theorem tail (ht : Tried code h seen (x :: todo)) (hm : seen.Marked (key code x)) :
    Tried code h seen todo where
  size := ht.size
  inRange z hz := ht.inRange z (List.mem_cons_of_mem _ hz)
  not_accept := ht.not_accept
  nexts z hz hzm y hy := by
    rcases ht.nexts z hz hzm y hy with hmy | hmem
    · exact .inl hmy
    · rcases List.mem_cons.1 hmem with rfl | hmem
      · exact .inl hm
      · exact .inr hmem

/-- The pair in front is tried, and what it leads to comes in its place. -/
theorem replace (ht : Tried code h seen (x :: todo)) (hcode : code.Closed)
    (hc : code[x.1]? ≠ some .accept) :
    Tried code h (seen.set! (key code x) 1) (Pattern.nexts code h x ++ todo) := by
  have hx := ht.inRange x List.mem_cons_self
  have hkey : key code x < seen.size := ht.size ▸ key_lt hx
  have hmarked {z : Nat × Nat} (hz : InRange code h z)
      (hm : Seen.Marked (seen.set! (key code x) 1) (key code z)) :
      z = x ∨ seen.Marked (key code z) := by
    rcases (Seen.marked_set hkey).1 hm with hk | hm
    · exact .inl (key_inj hz.1 hx.1 hk)
    · exact .inr hm
  refine ⟨Seen.size_set.trans ht.size, fun z hz => ?_, fun z hz hm => ?_, fun z hz hm y hy => ?_⟩
  · rcases List.mem_append.1 hz with hz | hz
    · exact inRange_nexts hcode hx hz
    · exact ht.inRange z (List.mem_cons_of_mem _ hz)
  · rcases hmarked hz hm with rfl | hm
    · exact hc
    · exact ht.not_accept z hz hm
  · rcases hmarked hz hm with rfl | hm
    · exact .inr (List.mem_append_left _ hy)
    · rcases ht.nexts z hz hm y hy with hmy | hmem
      · exact .inl ((Seen.marked_set hkey).2 (.inr hmy))
      · rcases List.mem_cons.1 hmem with rfl | hmem
        · exact .inl ((Seen.marked_set hkey).2 (.inl rfl))
        · exact .inr (List.mem_append_right _ hmem)

/-- With nothing left to do, nothing that was tried accepts. -/
theorem not_accepts (ht : Tried code h seen []) (hcode : code.Closed) (hx : InRange code h x)
    (hm : seen.Marked (key code x)) : ¬Accepts code h x := by
  intro ha
  induction ha with
  | here hc => exact ht.not_accept _ hx hm hc
  | step hy ha ih =>
    rcases ht.nexts _ hx hm _ hy with hmy | hmem
    · exact ih (inRange_nexts hcode hx hy) hmy
    · cases hmem

end Tried

/-- Either one of the pairs to do accepts, or all of them have been tried in the end, and nothing
that was tried before is forgotten. -/
theorem follow_spec (hcode : code.Closed) (ht : Tried code h seen todo)
    (hfuel : todo.length + 2 * seen.untried ≤ fuel) :
    (∃ after, follow code h fuel todo seen = (true, after) ∧ ∃ x ∈ todo, Accepts code h x) ∨
      ∃ after, follow code h fuel todo seen = (false, after) ∧ Tried code h after [] ∧
        (∀ k, seen.Marked k → after.Marked k) ∧ ∀ x ∈ todo, after.Marked (key code x) := by
  induction fuel generalizing seen todo with
  | zero =>
    obtain rfl : todo = [] := List.length_eq_zero_iff.1 (by omega)
    exact .inr ⟨seen, rfl, ht, fun _ hk => hk, nofun⟩
  | succ fuel ih =>
    cases todo with
    | nil => exact .inr ⟨seen, rfl, ht, fun _ hk => hk, nofun⟩
    | cons x todo =>
      rw [List.length_cons] at hfuel
      by_cases hm : seen.Marked (key code x)
      · rw [follow_of_marked hm]
        rcases ih (ht.tail hm) (by omega) with
          ⟨after, heq, y, hy, ha⟩ | ⟨after, heq, htried, hgrow, hall⟩
        · exact .inl ⟨after, heq, y, List.mem_cons_of_mem _ hy, ha⟩
        · exact .inr ⟨after, heq, htried, hgrow, List.forall_mem_cons.2 ⟨hgrow _ hm, hall⟩⟩
      · by_cases hc : code[x.1]? = some .accept
        · exact .inl ⟨_, follow_of_accept hm hc, x, List.mem_cons_self, .here hc⟩
        · have hkey : key code x < seen.size := by
            rw [ht.size]
            exact key_lt (ht.inRange x List.mem_cons_self)
          have huntried := Seen.untried_set hkey hm
          have hnexts := length_nexts_le code h x
          rw [follow_of_not_accept hm hc]
          rcases ih (ht.replace hcode hc) (by rw [List.length_append]; omega) with
            ⟨after, heq, y, hy, ha⟩ | ⟨after, heq, htried, hgrow, hall⟩
          · refine .inl ⟨after, heq, ?_⟩
            rcases List.mem_append.1 hy with hy | hy
            · exact ⟨x, List.mem_cons_self, .step hy ha⟩
            · exact ⟨y, List.mem_cons_of_mem _ hy, ha⟩
          · have hgrow' (k : Nat) (hk : seen.Marked k) : after.Marked k :=
              hgrow k ((Seen.marked_set hkey).2 (.inr hk))
            refine .inr ⟨after, heq, htried, hgrow', List.forall_mem_cons.2 ⟨?_, fun y hy => ?_⟩⟩
            · exact hgrow _ ((Seen.marked_set hkey).2 (.inl rfl))
            · exact hall y (List.mem_append_right _ hy)

/-! ## Places -/

structure MatchesAt (p : Pattern) (h : Haystack) (i : Nat) : Prop where
  le_size : i ≤ h.size
  /-- In text no match starts inside a character. -/
  boundary : p.textOnly → ¬Haystack.isInner h i
  accepts : Accepts p.program.code h (p.program.entry, i)

structure Program.Sound (program : Program) : Prop where
  closed : program.code.Closed
  entry_lt : program.entry < program.code.size

theorem findFrom_least {p : Pattern} (hp : p.program.Sound) {count i : Nat}
    (hcount : count + i = h.size + 1) (ht : Tried p.program.code h seen [])
    (hfuel : 1 + 2 * seen.size ≤ fuel) (hbelow : ∀ k < i, ¬p.MatchesAt h k) :
    Least (p.MatchesAt h) (findFrom p h fuel count i seen) := by
  induction count generalizing i seen with
  | zero =>
    intro k hk
    exact hbelow k (by have := hk.le_size; omega) hk
  | succ count ih =>
    have hnext (hno : ¬p.MatchesAt h i) : ∀ k < i + 1, ¬p.MatchesAt h k := by
      intro k hk
      rcases Nat.lt_or_eq_of_le (Nat.le_of_lt_succ hk) with hlt | rfl
      · exact hbelow k hlt
      · exact hno
    rw [findFrom]
    by_cases hinner : (p.textOnly && Haystack.isInner h i) = true
    · rw [if_pos hinner]
      rw [Bool.and_eq_true] at hinner
      refine ih (by omega) ht hfuel (hnext fun hm => hm.boundary hinner.1 hinner.2)
    · rw [if_neg hinner]
      have hx : InRange p.program.code h (p.program.entry, i) := ⟨hp.entry_lt, by dsimp only; omega⟩
      have htodo : Tried p.program.code h seen [(p.program.entry, i)] :=
        ⟨ht.size, fun x hmem => List.mem_singleton.1 hmem ▸ hx, ht.not_accept,
          fun x hx hm y hy => (ht.nexts x hx hm y hy).imp_right nofun⟩
      have huntried := seen.untried_le_size
      have hfuel' : [(p.program.entry, i)].length + 2 * seen.untried ≤ fuel := by
        rw [List.length_singleton]
        omega
      rcases follow_spec hp.closed htodo hfuel' with
        ⟨after, heq, x, hmem, ha⟩ | ⟨after, heq, htried, hgrow, hall⟩
      · rw [heq]
        obtain rfl := List.mem_singleton.1 hmem
        refine ⟨⟨by omega, fun ht hi => hinner ?_, ha⟩, hbelow⟩
        rw [ht, hi]
        rfl
      · rw [heq]
        have hno := htried.not_accepts hp.closed hx (hall _ (List.mem_singleton_self _))
        have hsize := htried.size.trans ht.size.symm
        exact ih (by omega) htried (hsize ▸ hfuel) (hnext fun hm => hno hm.accepts)

/-- The place that is found is the first one at which a match starts. -/
theorem find?_least {p : Pattern} (hp : p.program.Sound) (bytes : List UInt8) :
    Least (p.MatchesAt ⟨bytes.toArray⟩) (p.find? bytes) := by
  let h : Haystack := ⟨bytes.toArray⟩
  have ht : Tried p.program.code h (Seen.fresh (p.program.code.size * (h.size + 1))) [] :=
    ⟨Seen.size_fresh _, nofun, fun _ _ hm => absurd hm (Seen.not_marked_fresh _ _),
      fun _ _ hm => absurd hm (Seen.not_marked_fresh _ _)⟩
  refine findFrom_least hp (Nat.add_zero _) ht ?_ nofun
  rw [Seen.size_fresh]
  omega

end Pattern
end ProcessMemory
