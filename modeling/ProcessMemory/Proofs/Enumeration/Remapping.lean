import ProcessMemory.Proofs.Walk.Agreement

/-!
# Enumerations of a target that maps memory anew

A target may change its layout between two lookups. Each lookup keeps its contract for the layout
that is there when it is made (`Target.Tracks`), and still a region may reach back below the stop of
one yielded before: the enumeration asks for the region that holds that stop, and memory on both
sides of it may have become one region. Nothing else lets two regions overlap (`yields_apart`).
-/
namespace ProcessMemory

/-- Lookups that do not fail keep their contract for the layout at hand: a region holds the address
or is the next one above, and it ends where readable memory does. -/
structure Target.Tracks {σ : Type} (t : Target σ) (layout : σ → Memory) : Prop where
  region : ∀ {a : Address} {s : σ} {r : Region}, (t.lookup a s).1.result = .ok (some r) →
    (layout s).Meets a r ∧ layout s (r.start.toNat + r.size) = none
  nothing : ∀ {a : Address} {s : σ}, (t.lookup a s).1.result = .ok none →
    ∀ b : Address, a ≤ b → layout s b.toNat = none

namespace Enumeration

variable {σ : Type} {t : Target σ} {layout : σ → Memory} {e : Enumeration} {s : σ}

/-- The regions that `n` advances yield, each with the state of the target it was looked up in. -/
def yields (t : Target σ) : Nat → Enumeration → σ → List (σ × Region)
  | 0, _, _ => []
  | n + 1, e, s =>
    let advanced := e.advance t s
    match advanced.item with
    | some (.ok region) => (s, region) :: yields t n advanced.enumeration advanced.state
    | _ => yields t n advanced.enumeration advanced.state

/-- Past the stop of the first region, where nothing could be read when it was found, there is
readable memory when the second one is, and it goes down to where that one starts. -/
def Regrown (layout : σ → Memory) (x y : σ × Region) : Prop :=
  layout x.1 x.2.stop.toNat = none ∧
    ∀ n, y.2.start.toNat ≤ n → n ≤ x.2.stop.toNat → (layout y.1 n).isSome

theorem yields_of_over (n : Nat) (h : e.next = none) : yields t n e s = [] := by
  induction n with
  | zero => rfl
  | succ n ih => simpa only [yields, advance, h] using ih

/-- The first advance yields the region found, or none is yielded at all. -/
theorem yields_succ (t : Target σ) (n : Nat) (e : Enumeration) (s : σ) :
    yields t (n + 1) e s = [] ∨
      ∃ a region soft s', e.next = some a ∧
        t.lookup a s = (⟨.ok (some region), soft⟩, s') ∧ a < region.stop ∧
        yields t (n + 1) e s =
          (s, region) :: yields t n ⟨region.next?, e.softErrors ++ soft⟩ s' := by
  have hadv := advances t e s
  generalize hd : e.advance t s = advanced at hadv
  cases hadv with
  | atEnd hn => exact .inl (yields_of_over (n + 1) hn)
  | nothing hn hq | failed hn hq | misplaced hn hq hr =>
    refine .inl ?_
    simp only [yields, hd]
    exact yields_of_over n rfl
  | found hn hq hr =>
    refine .inr ⟨_, _, _, _, hn, hq, hr, ?_⟩
    simp only [yields, hd]

/-- Each region yielded was looked up at or above where the enumeration stood, and reaches past the
address it was looked up at. -/
theorem exists_lookup_of_mem {n : Nat} {a : Address} (hn : e.next = some a) {y : σ × Region}
    (hy : y ∈ yields t n e s) :
    ∃ b, a ≤ b ∧ (t.lookup b y.1).1.result = .ok (some y.2) ∧ b < y.2.stop := by
  induction n generalizing e s a with
  | zero => cases hy
  | succ n ih =>
    rcases yields_succ t n e s with hnil | ⟨a', region, soft, s', hn', hq, hr, hcons⟩
    · rw [hnil] at hy
      cases hy
    · cases hn.symm.trans hn'
      rw [hcons] at hy
      rcases List.mem_cons.1 hy with rfl | hy
      · exact ⟨a, Nat.le_refl _, congrArg (·.1.result) hq, hr⟩
      · cases hnext : region.next? with
        | none =>
          rw [yields_of_over n hnext] at hy
          cases hy
        | some stop =>
          obtain ⟨b, hb, hlookup, hreaches⟩ := ih hnext hy
          rw [next?_eq_stop hnext] at hb
          exact ⟨b, Nat.le_trans (Nat.le_of_lt hr) hb, hlookup, hreaches⟩

/-- A region found at or above the stop of another one starts there, or lies across that stop. -/
theorem apart_or_regrown (ht : t.Tracks layout) {x y : σ × Region} {a b : Address}
    (hx : (t.lookup a x.1).1.result = .ok (some x.2)) (hnext : x.2.next? = some x.2.stop)
    (hy : (t.lookup b y.1).1.result = .ok (some y.2)) (hb : x.2.stop ≤ b) :
    x.2.stop ≤ y.2.start ∨ Regrown layout x y := by
  have hstop : x.2.stop.toNat = x.2.start.toNat + x.2.size := Address.ofNat?_eq_some.1 hnext
  have hmeets := (ht.region hy).1
  have hreaches := hmeets.reaches
  -- A region that starts below the stop reaches past it, so it holds the bytes on both sides.
  rcases Nat.lt_or_ge y.2.start.toNat x.2.stop.toNat with hlt | hge
  · refine .inr ⟨?_, fun n h1 h2 => ?_⟩
    · rw [hstop]
      exact (ht.region hx).2
    · rw [Address.le_def] at hb
      exact hmeets.readable.isSome h1 (by omega)
  · exact .inl hge

/-- Of two regions that an enumeration yields the later one stops above the earlier one. It starts
at or above the stop of the earlier one too, unless memory has been mapped past that stop since. -/
theorem yields_apart (ht : t.Tracks layout) (start : Address) (s : σ) (n : Nat) :
    (yields t n (startingAt start) s).Pairwise fun x y =>
      x.2.stop < y.2.stop ∧ (x.2.stop ≤ y.2.start ∨ Regrown layout x y) := by
  generalize startingAt start = e
  induction n generalizing e s with
  | zero => exact .nil
  | succ n ih =>
    rcases yields_succ t n e s with hnil | ⟨a, region, soft, s', hn, hq, hr, hcons⟩
    · rw [hnil]
      exact .nil
    · rw [hcons]
      refine .cons (fun y hy => ?_) (ih _ _)
      cases hnext : region.next? with
      | none =>
        rw [yields_of_over n hnext] at hy
        cases hy
      | some stop =>
        obtain ⟨b, hb, hlookup, hreaches⟩ := exists_lookup_of_mem hnext hy
        rw [next?_eq_stop hnext] at hb
        have hfound : (t.lookup a s).1.result = .ok (some region) := congrArg (·.1.result) hq
        exact ⟨Nat.lt_of_le_of_lt hb hreaches,
          apart_or_regrown ht hfound (next?_eq_stop hnext ▸ hnext) hlookup hb⟩

end Enumeration

/-! ## A mapping that grows -/

/-- The region owed by a lookup, as long as it ends below the top, meets the contract byte for
byte. -/
theorem Memory.Next.meets {m : Memory} {a : Address} {r : Region} (h : m.Next a r)
    (he : r.Exact) : m.Meets a r where
  nonempty := he.pos
  fits := Nat.le_of_lt he.fits
  reaches := he.toNat_stop ▸ h.reaches
  readable i hi := h.readable _ (Nat.le_add_right _ _) (by rw [he.toNat_stop]; omega)
  first := h.first

namespace SegmentedProcess

/-- A process that another one takes the place of, once it has been asked for a region. -/
def replacedBy (p q : SegmentedProcess) : Target Bool where
  pid := p.pid
  lookup a replaced := ((if replaced then q else p).lookup a, true)
  read a n replaced := ((if replaced then q else p).fill a n, replaced)

def layouts (p q : SegmentedProcess) (replaced : Bool) : Memory :=
  (if replaced then q else p).memory

theorem tracks_replacedBy {p q : SegmentedProcess} (hp : p.Fits) (hq : q.Fits) :
    (p.replacedBy q).Tracks (p.layouts q) := by
  have hcase (replaced : Bool) : (if replaced then q else p).Fits := by
    cases replaced <;> assumption
  constructor
  · intro a replaced r h
    have hfound := lookup_found (hcase replaced) a
    have hexact : r.Exact := lookup_exact _ h
    rw [show (lookup _ a).result = _ from h] at hfound
    cases hfound with
    | region hnext => exact ⟨hnext.meets hexact, hexact.toNat_stop ▸ hnext.ends⟩
  · intro a replaced h b hb
    have hfound := lookup_found (hcase replaced) a
    rw [show (lookup _ a).result = _ from h] at hfound
    cases hfound with
    | nothing hnone => exact hnone _ hb

def short : SegmentedProcess := ⟨1, [⟨0x10, [1, 2, 3], true⟩], by decide, by decide⟩

def grown : SegmentedProcess := ⟨1, [⟨0x10, [1, 2, 3, 4, 5], true⟩], by decide, by decide⟩

open Enumeration in
/-- While the mapping grows, it is yielded twice, and memory has been mapped past the first stop. -/
theorem yields_apart_grown :
    let t := short.replacedBy grown
    t.Tracks (short.layouts grown) ∧
      yields t 3 (startingAt 0) false = [(false, ⟨0x10, 3⟩), (true, ⟨0x10, 5⟩)] ∧
      Regrown (short.layouts grown) (false, ⟨0x10, 3⟩) (true, ⟨0x10, 5⟩) := by
  intro t
  have ht : t.Tracks (short.layouts grown) := tracks_replacedBy (by decide) (by decide)
  have hyields : yields t 3 (startingAt 0) false =
      [(false, ⟨0x10, 3⟩), (true, ⟨0x10, 5⟩)] := rfl
  have hapart := yields_apart ht 0 false 3
  rw [hyields] at hapart
  obtain ⟨-, hstart | hregrown⟩ := (List.pairwise_cons.1 hapart).1 _ List.mem_cons_self
  · exact absurd hstart (by decide)
  · exact ⟨ht, hyields, hregrown⟩

open Enumeration in
/-- Regions that one enumeration yields may overlap. -/
theorem yields_overlap :
    let t := short.replacedBy grown
    t.Tracks (short.layouts grown) ∧
      yields t 3 (startingAt 0) false = [(false, ⟨0x10, 3⟩), (true, ⟨0x10, 5⟩)] ∧
      ¬(⟨0x10, 3⟩ : Region).stop ≤ (⟨0x10, 5⟩ : Region).start :=
  ⟨tracks_replacedBy (by decide) (by decide), rfl, by decide⟩

end SegmentedProcess
end ProcessMemory
