import ProcessMemory.Target

/-!
# Region enumeration

The readable regions of a target in address order: each is looked up at the end of the one before.
An enumeration ends where no region is left, or with the first hard error, which it gives once. It
never asks twice at one address, because a region that does not reach past the address it was
looked up at is an error.
-/
namespace ProcessMemory

structure Enumeration where
  /-- Where to look next, `none` once the enumeration has ended. -/
  next : Option Address
  softErrors : List MemoryError := []

namespace Enumeration

variable {σ : Type}

def startingAt (address : Address) : Enumeration := ⟨some address, []⟩

def takeSoftErrors (e : Enumeration) : List MemoryError × Enumeration :=
  (e.softErrors, { e with softErrors := [] })

/-- One step's answer, with all that it changes. -/
structure Advance (σ : Type) where
  item : Option (Except MemoryError Region)
  enumeration : Enumeration
  state : σ
  events : List Event := []

def advance (t : Target σ) (e : Enumeration) (s : σ) : Advance σ :=
  match e.next with
  | none => ⟨none, e, s, []⟩
  | some address =>
    let (answer, s') := t.lookup address s
    let soft := e.softErrors ++ answer.softErrors
    match answer.result with
    | .error error => ⟨some (.error error), ⟨none, soft⟩, s', []⟩
    | .ok none => ⟨none, ⟨none, soft⟩, s', []⟩
    | .ok (some region) =>
      if region.stop ≤ address then
        ⟨some (.error (t.misplaced region address)), ⟨none, soft⟩, s', []⟩
      else ⟨some (.ok region), ⟨region.next?, soft⟩, s', [.readableRegion t.pid region]⟩

/-- A bound on the regions still to come. -/
def remaining (e : Enumeration) : Nat :=
  match e.next with
  | none => 0
  | some address => 0x1_0000_0000_0000_0000 - address.toNat

/-- A region that is found leaves fewer to come. -/
theorem remaining_lt_of_advance {t : Target σ} {e e' : Enumeration} {s s' : σ} {region : Region}
    {events : List Event} (h : e.advance t s = ⟨some (.ok region), e', s', events⟩) :
    e'.remaining < e.remaining := by
  unfold advance at h
  split at h
  · simp at h
  · rename_i address hnext
    split at h
    rename_i answer s'' _
    dsimp only at h
    split at h
    · simp at h
    · simp at h
    · rename_i r _
      split at h
      · simp at h
      · rename_i hstop
        simp only [Advance.mk.injEq, Option.some.injEq, Except.ok.injEq] at h
        obtain ⟨rfl, rfl, -, -⟩ := h
        rw [Address.le_def, Region.toNat_stop] at hstop
        have ha := address.isLt
        simp only [remaining, hnext]
        split
        · omega
        · rename_i next hn
          have := Address.ofNat?_eq_some.1 (show Address.ofNat? _ = some next from hn)
          omega

def collect (t : Target σ) (e : Enumeration) (s : σ) (regions : List Region)
    (events : List Event) : Report σ (List Region) :=
  match _h : e.advance t s with
  | ⟨none, e', s', new⟩ => ⟨⟨.ok regions, e'.softErrors⟩, s', events ++ new⟩
  | ⟨some (.error error), e', s', new⟩ => ⟨⟨.error error, e'.softErrors⟩, s', events ++ new⟩
  | ⟨some (.ok region), e', s', new⟩ =>
    e'.collect t s' (regions ++ [region]) (events ++ new)
termination_by e.remaining
decreasing_by exact remaining_lt_of_advance _h

end Enumeration

/-- Every readable region at or above `start`. -/
def readableRegions {σ : Type} (t : Target σ) (start : Address) (s : σ) : Report σ (List Region) :=
  (Enumeration.startingAt start).collect t s [] []

end ProcessMemory
