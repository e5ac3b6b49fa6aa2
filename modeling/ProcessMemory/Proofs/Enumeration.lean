import ProcessMemory.Enumeration
import ProcessMemory.Proofs.Segmented

/-!
# The regions of a target

Where lookups do not depend on a target's state, the regions found one after another, each at the
stop of the one before, are a list of their own (`Lists`). Enumerating the regions gives that list,
and so its order is the one in which a walk comes upon them.
-/
namespace ProcessMemory

/-- Lookups from `cursor` on find `regions`, one above the other, and then nothing. -/
inductive Lists (lookup : Address → Outcome (Option Region)) : Address → List Region → Prop where
  | nil {cursor : Address} (h : (lookup cursor).result = .ok none) : Lists lookup cursor []
  | cons {cursor : Address} {region : Region} {rest : List Region}
    (h : (lookup cursor).result = .ok (some region)) (reaches : cursor < region.stop)
    (exact : region.Exact) (above : ∀ r ∈ rest, region.stop ≤ r.start)
    (tail : Lists lookup region.stop rest) : Lists lookup cursor (region :: rest)

/-- Lookups that tell of one memory wherever they do not fail, and of no region that reaches past
the highest address. -/
structure Charts (lookup : Address → Outcome (Option Region)) (m : Memory) : Prop where
  found : ∀ {a found}, (lookup a).result = .ok found → m.Found a (.ok found)
  exact : ∀ {a region}, (lookup a).result = .ok (some region) → region.Exact

def reported (lookup : Address → Outcome (Option Region)) :
    Address → List Region → List MemoryError
  | cursor, [] => (lookup cursor).softErrors
  | cursor, region :: rest => (lookup cursor).softErrors ++ reported lookup region.stop rest

theorem Region.Exact.next? {r : Region} (h : r.Exact) : r.next? = some r.stop :=
  Address.ofNat?_eq_some.2 h.toNat_stop

namespace Enumeration

variable {σ : Type} {t : Target σ} {lookup : Address → Outcome (Option Region)}
  {cursor : Address} {regions : List Region}

theorem collect_of_end {e e' : Enumeration} {s s' : σ} {events : List Event}
    (h : e.advance t s = ⟨none, e', s', events⟩) (before : List Region) (earlier : List Event) :
    e.collect t s before earlier = ⟨⟨.ok before, e'.softErrors⟩, s', earlier ++ events⟩ := by
  rw [collect]
  split
  all_goals
    rename_i heq
    rw [h] at heq
    cases heq
  rfl

theorem collect_of_failed {e e' : Enumeration} {s s' : σ} {error : MemoryError}
    {events : List Event} (h : e.advance t s = ⟨some (.error error), e', s', events⟩)
    (before : List Region) (earlier : List Event) :
    e.collect t s before earlier = ⟨⟨.error error, e'.softErrors⟩, s', earlier ++ events⟩ := by
  rw [collect]
  split
  all_goals
    rename_i heq
    rw [h] at heq
    cases heq
  rfl

theorem collect_of_error {e e' : Enumeration} {s s' : σ} {error : MemoryError}
    {events : List Event} (h : e.advance t s = ⟨some (.error error), e', s', events⟩)
    (before : List Region) (earlier : List Event) :
    (e.collect t s before earlier).outcome.result = .error error := by
  rw [collect_of_failed h]

theorem collect_of_region {e e' : Enumeration} {s s' : σ} {region : Region} {events : List Event}
    (h : e.advance t s = ⟨some (.ok region), e', s', events⟩) (before : List Region)
    (earlier : List Event) :
    e.collect t s before earlier = e'.collect t s' (before ++ [region]) (earlier ++ events) := by
  rw [collect]
  split
  all_goals
    rename_i heq
    rw [h] at heq
    cases heq
  rfl

theorem advance_found {answer : Outcome (Option Region)} {s s' : σ}
    (hq : t.lookup cursor s = (answer, s')) {region : Region}
    (h : answer.result = .ok (some region)) (reaches : cursor < region.stop)
    (soft : List MemoryError) :
    advance t ⟨some cursor, soft⟩ s =
      ⟨some (.ok region), ⟨region.next?, soft ++ answer.softErrors⟩, s',
        [.readableRegion t.pid region]⟩ := by
  have hstop : ¬region.stop ≤ cursor := Nat.not_le_of_lt reaches
  simp only [advance, hq, h, if_neg hstop]

theorem advance_region (ht : ∀ a s, t.lookup a s = (lookup a, s)) {region : Region}
    (h : (lookup cursor).result = .ok (some region)) (reaches : cursor < region.stop)
    (exact : region.Exact) (soft : List MemoryError) (s : σ) :
    advance t ⟨some cursor, soft⟩ s =
      ⟨some (.ok region), ⟨some region.stop, soft ++ (lookup cursor).softErrors⟩, s,
        [.readableRegion t.pid region]⟩ := by
  rw [advance_found (ht cursor s) h reaches, exact.next?]

/-- An enumeration gives the regions that lookups find, and their soft errors. -/
theorem collect_lists (ht : ∀ a s, t.lookup a s = (lookup a, s)) (h : Lists lookup cursor regions)
    (soft : List MemoryError) (s : σ) (before : List Region) (events : List Event) :
    let collected := collect t ⟨some cursor, soft⟩ s before events
    collected.outcome = ⟨.ok (before ++ regions), soft ++ reported lookup cursor regions⟩ ∧
      collected.state = s := by
  induction h generalizing soft before events with
  | @nil cursor h =>
    have hadv : advance t ⟨some cursor, soft⟩ s =
        ⟨none, ⟨none, soft ++ (lookup cursor).softErrors⟩, s, []⟩ := by
      simp only [advance, ht, h]
    rw [collect_of_end hadv]
    simp only [List.append_nil, reported, and_self]
  | @cons cursor region rest h reaches exact above tail ih =>
    have hadv := advance_region ht h reaches exact soft s
    have hrest := ih (soft ++ (lookup cursor).softErrors) (before ++ [region])
      (events ++ [.readableRegion t.pid region])
    simp only [List.append_assoc, List.singleton_append] at hrest
    rw [collect_of_region hadv]
    exact hrest

end Enumeration

section
variable {σ : Type} {t : Target σ} {lookup : Address → Outcome (Option Region)} {start : Address}
  {regions : List Region}

theorem readableRegions_reported (ht : ∀ a s, t.lookup a s = (lookup a, s))
    (h : Lists lookup start regions) (s : σ) :
    (readableRegions t start s).outcome = ⟨.ok regions, reported lookup start regions⟩ ∧
      (readableRegions t start s).state = s :=
  Enumeration.collect_lists ht h [] s [] []

theorem readableRegions_lists (ht : ∀ a s, t.lookup a s = (lookup a, s))
    (h : Lists lookup start regions) (s : σ) :
    (readableRegions t start s).outcome.result = .ok regions := by
  rw [(readableRegions_reported ht h s).1]

end

/-- From `cursor` on, enumerations break off with a hard error, which is that of a lookup. -/
def Breaks {σ : Type} (t : Target σ) (lookup : Address → Outcome (Option Region))
    (cursor : Address) : Prop :=
  ∃ a error, (lookup a).result = .error error ∧
    ∀ (soft : List MemoryError) (s : σ) (before : List Region) (events : List Event),
      (Enumeration.collect t ⟨some cursor, soft⟩ s before events).outcome.result = .error error

/-- The regions that lookups tell of can be listed, or a lookup fails. From an address without a
byte on, all regions start at or above it. -/
theorem Charts.lists_or_breaks {σ : Type} {t : Target σ}
    {lookup : Address → Outcome (Option Region)} {m : Memory} (hm : Charts lookup m)
    (ht : ∀ a s, t.lookup a s = (lookup a, s)) (cursor : Address) :
    (∃ regions, Lists lookup cursor regions ∧
      (m cursor.toNat = none → ∀ r ∈ regions, cursor ≤ r.start)) ∨ Breaks t lookup cursor := by
  induction hd : 0x1_0000_0000_0000_0000 - cursor.toNat using Nat.strongRecOn
    generalizing cursor with
  | ind d ih =>
    cases hr : (lookup cursor).result with
    | error error =>
      refine .inr ⟨cursor, error, hr, fun soft s before events => ?_⟩
      have hadv : Enumeration.advance t ⟨some cursor, soft⟩ s =
          ⟨some (.error error), ⟨none, soft ++ (lookup cursor).softErrors⟩, s, []⟩ := by
        simp only [Enumeration.advance, ht, hr]
      exact Enumeration.collect_of_error hadv before events
    | ok found =>
      have hfound := hm.found hr
      cases hfound with
      | nothing => exact .inl ⟨[], .nil hr, fun _ r hmem => nomatch hmem⟩
      | @region region hnext =>
        have hlt : cursor.toNat < region.stop.toNat := hnext.reaches
        have hstop := region.stop.isLt
        rcases ih _ (by omega) region.stop rfl with ⟨rest, hlists, habove⟩ | ⟨a, error, ha, hall⟩
        · have hrest := habove hnext.ends
          refine .inl ⟨region :: rest, .cons hr hlt (hm.exact hr) hrest hlists, fun hnone => ?_⟩
          refine List.forall_mem_cons.2 ⟨hnext.le_start hnone, fun r hmem => ?_⟩
          exact Nat.le_trans (Nat.le_of_lt hlt) (hrest r hmem)
        · refine .inr ⟨a, error, ha, fun soft s before events => ?_⟩
          have hadv := Enumeration.advance_region ht hr hlt (hm.exact hr) soft s
          rw [Enumeration.collect_of_region hadv]
          exact hall _ _ _ _

namespace SegmentedProcess

variable {p : SegmentedProcess}

theorem charts (hp : p.Fits) : Charts p.lookup p.memory where
  found {a _} h := h ▸ lookup_found hp a
  exact h := p.lookup_exact h

/-- The regions of a segmented process can be listed. From an address without a byte on, all of them
start at or above it. -/
theorem exists_lists (hp : p.Fits) (cursor : Address) :
    ∃ regions, Lists p.lookup cursor regions ∧
      (p.memory cursor.toNat = none → ∀ r ∈ regions, cursor ≤ r.start) := by
  rcases (charts hp).lists_or_breaks (t := p.target) (fun _ _ => rfl) cursor with
    hlists | ⟨a, error, ha, -⟩
  · exact hlists
  · have hfound := lookup_found hp a
    rw [ha] at hfound
    cases hfound

end SegmentedProcess
end ProcessMemory
