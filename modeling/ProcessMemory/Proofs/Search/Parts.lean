import ProcessMemory.Proofs.Walk.Parts
import ProcessMemory.Search

/-!
# Searches part by part

A search without a limit goes through the parts of a walk, so it answers with the first hit among
the windows shown there. Without a hit it goes through them all, and keeps the error of every window
that is lost.
-/
namespace ProcessMemory

def hitOf (m : Matcher) (visits : List Visit) : Option Address := (shownOf visits).findSome? m

theorem hitOf_append (m : Matcher) (visits rest : List Visit) :
    hitOf m (visits ++ rest) = (hitOf m visits).or (hitOf m rest) := by
  rw [hitOf, shownOf_append, List.findSome?_append]
  rfl

theorem hitOf_lost (m : Matcher) (losses : List MemoryError) :
    hitOf m (losses.map .error) = none := by
  rw [hitOf, shownOf_lost]
  rfl

theorem hitOf_shown (m : Matcher) (chunk : Chunk) (rest : List Visit) :
    hitOf m (.ok chunk :: rest) = (m chunk).or (hitOf m rest) := by
  rw [hitOf, shownOf_shown, List.findSome?_cons]
  cases m chunk <;> rfl

section
open SegmentedProcess

variable {g : Grid} {p : SegmentedProcess} {m : Matcher} {faults : List Fault}

theorem hitOf_visitsOf (m : Matcher) (parts : List Region) :
    hitOf m (p.visitsOf g faults parts) =
      parts.findSome? fun r => hitOf m (p.partVisits g faults r) := by
  induction parts with
  | nil => rfl
  | cons r rest ih =>
    rw [visitsOf, List.flatMap_cons, hitOf_append, ← visitsOf, ih, List.findSome?_cons]
    cases hitOf m (p.partVisits g faults r) <;> rfl

theorem lossesOf_visitsOf (parts : List Region) :
    lossesOf (p.visitsOf g faults parts) =
      parts.flatMap fun r => lossesOf (p.partVisits g faults r) := by
  induction parts with
  | nil => rfl
  | cons r rest ih =>
    rw [visitsOf, List.flatMap_cons, lossesOf_append, ← visitsOf, ih, List.flatMap_cons]

/-- A search stops at the first hit among the chunks. -/
theorem feed_receive (m : Matcher) (chunks : List Chunk) :
    feed m.receive none chunks =
      (chunks.findSome? m).elim (none, .goOn) fun hit => (some hit, .stop) := by
  induction chunks with
  | nil => rfl
  | cons chunk rest ih =>
    rw [feed, Matcher.receive, List.findSome?_cons]
    cases m chunk with
    | none => exact ih
    | some hit => rfl

end

namespace SegmentedProcess

variable {p : SegmentedProcess}

/-- A sequential search answers with the first hit of all parts. Without one it keeps the errors of
the windows lost and of the lookups. -/
theorem search_parts (hp : p.Fits) (choose : Nat → Nat) {start : Address} {parts : List Region}
    {errors : List MemoryError} (h : Parts p start parts errors) {size : Nat} (hsize : 0 < size)
    (m : Matcher) (w : Wear) :
    let outcome := (search (p.targetChoosing choose) start size m w).outcome
    let visits := p.visitsOf (Grid.sliding size hsize) w.faults parts
    outcome.result = .ok (hitOf m visits) ∧
      (hitOf m visits = none → outcome.softErrors.Perm (lossesOf visits ++ errors)) := by
  intro outcome visits
  obtain ⟨ran, hran, hreceiver, hstopped, hexhausted⟩ :=
    walkGrid_fulfils (g := Grid.sliding size hsize) hp choose h m.receive none w
  have hfed : feed m.receive none (shownOf visits) =
      (hitOf m visits).elim (none, .goOn) fun hit => (some hit, .stop) := feed_receive m _
  have houtcome : outcome = ⟨ran.1.map fun _ => ran.2.receiver, ran.2.walker.softErrors⟩ := by
    simp only [outcome, search, walkSliding, dif_pos hsize, hran]
    rfl
  simp only [Walker.Course.starting] at hreceiver hstopped hexhausted
  rw [hfed] at hreceiver hstopped hexhausted
  rw [houtcome]
  cases hhit : hitOf m visits with
  | some hit =>
    rw [hhit] at hreceiver hstopped
    rw [hstopped rfl, hreceiver]
    exact ⟨rfl, fun hnone => by cases hnone⟩
  | none =>
    rw [hhit] at hreceiver hexhausted
    obtain ⟨hresult, hperm⟩ := hexhausted rfl
    rw [hresult, hreceiver]
    exact ⟨rfl, fun _ => hperm⟩

/-- Two segments with a gap between them, and the same bytes in both. -/
def parted : SegmentedProcess where
  pid := 1
  segments := [⟨0x10, [3, 4], true⟩, ⟨0x20, [3, 4], true⟩]
  nonempty := by decide
  ordered := by decide

theorem parted_lists : Lists parted.lookup 0 [⟨0x10, 2⟩, ⟨0x20, 2⟩] := by
  refine .cons rfl (by decide) ⟨by decide, by decide⟩ (by decide) ?_
  exact .cons rfl (by decide) ⟨by decide, by decide⟩ nofun (.nil rfl)

theorem parted_parts : Parts parted 0 [⟨0x10, 2⟩, ⟨0x20, 2⟩] [] := parted_lists.parts (by decide)

/-- A fault that never wears out costs the window of the first segment. -/
theorem parted_partVisits :
    let g := Grid.sliding 4 (by decide)
    let faults : List Fault := [⟨0x11, .always⟩]
    parted.partVisits g faults ⟨0x10, 2⟩ = [.error (.readFailed 0x10 2 "injected fault")] ∧
      parted.partVisits g faults ⟨0x20, 2⟩ = [.ok ⟨0x20, [3, 4]⟩] := by
  intro g faults
  have hholds : parted.memory.Holds 0x20 [3, 4] := by decide
  constructor
  · exact (dif_pos (by decide)).trans (visits_lost (by decide))
  · refine (dif_pos (by decide)).trans ((visits_shown (by decide)).trans ?_)
    rw [shown_eq (by decide) hholds rfl]
    rfl

theorem parted_visitsOf :
    parted.visitsOf (Grid.sliding 4 (by decide)) [⟨0x11, .always⟩] [⟨0x10, 2⟩, ⟨0x20, 2⟩] =
      [.error (.readFailed 0x10 2 "injected fault"), .ok ⟨0x20, [3, 4]⟩] := by
  obtain ⟨hlost, hshown⟩ := parted_partVisits
  rw [visitsOf, List.flatMap_cons, hlost, List.flatMap_cons, hshown]
  rfl

/-- So a search passes over the bytes in the first segment. -/
theorem parted_search (choose : Nat → Nat) :
    (search (parted.targetChoosing choose) 0 4 (.literal [3, 4])
      { faults := [⟨0x11, .always⟩] }).outcome.result = .ok (some 0x20) := by
  have hp : parted.Fits := by decide
  obtain ⟨hresult, -⟩ := search_parts hp choose parted_parts (by decide : 0 < 4) (.literal [3, 4])
    { faults := [⟨0x11, .always⟩] }
  rw [hresult, parted_visitsOf]
  rfl

end SegmentedProcess
end ProcessMemory
