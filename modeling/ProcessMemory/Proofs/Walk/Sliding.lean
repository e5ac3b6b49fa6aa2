import ProcessMemory.Proofs.Segmented
import ProcessMemory.Proofs.Walk.Receivers
import ProcessMemory.Proofs.Walk.Reliable

/-!
# Walks in chunks that overlap by half

Bytes that fill no more than half a chunk lie whole in one, wherever they start: the next window
starts half a chunk further at most. Under faults they do, or meet a span that was given up.
-/
namespace ProcessMemory

/-- Half a chunk and as many bytes again fit in a chunk. -/
theorem Grid.sliding_wide {size n : Nat} (h : 0 < size) (hn : 2 * n ≤ size) :
    n + (Grid.sliding size h).stride ≤ (Grid.sliding size h).size + 1 := by
  simp only [Grid.sliding]
  omega

namespace SegmentedProcess

variable {p : SegmentedProcess}

/-- Readable bytes that fill no more than half a chunk are shown whole, or some of them were
skipped. Without faults they are shown whole. -/
theorem walkSliding_shows_whole (hp : p.Fits) (choose : Nat → Nat) (start : Address) {size : Nat}
    (hsize : 2 ≤ size) {β : Type} {receive : Receiver β}
    (hgo : ∀ b chunk, (receive b chunk).2 = .goOn) (receiver : β) (w : Wear) :
    let t := p.targetChoosing choose
    let walked := walkSliding t start size keepAll [] w
    walkSliding t start size receive receiver w =
        (walked.1, walked.2.foldl (fun r chunk => (receive r chunk).1) receiver) ∧
      walked.1.outcome.result = .ok .exhausted ∧
      (∀ chunk ∈ walked.2, p.memory.Holds chunk.address.toNat chunk.bytes) ∧
      ∀ a n, start.toNat ≤ a → 0 < n → n ≤ size / 2 → p.memory.Readable a n →
        Seen walked.2 walked.1.outcome.softErrors a n ∧
          (w.faults = [] → ∃ chunk ∈ walked.2, chunk.Covers a n) := by
  intro t walked
  have hpos : 0 < size := by omega
  have hwalk {β : Type} (receive : Receiver β) (receiver : β) :
      walkSliding t start size receive receiver w =
        walkGrid t (Grid.sliding size hpos) start none receive receiver w := dif_pos hpos
  have hshows := shows hp choose
  have hdone := walkGrid_completes hshows (Grid.sliding size hpos) start w
  simp only [walked, hwalk]
  refine ⟨walkGrid_receiver hgo start none receiver w, hdone.exhausted, hdone.holds, ?_⟩
  intro a n hs hn hhalf hread
  have hseen := hdone.seen a n ⟨hn, Grid.sliding_wide hpos (by omega), hread, hs, nofun⟩
  refine ⟨hseen, fun hw => hseen.resolve_right ?_⟩
  have hnone := walkGrid_noReadFailed (g := Grid.sliding size hpos) hshows (reliable hp choose)
    start none keepAll [] hw
  exact hnone.not_skipped a n

/-- Two bytes in chunks of five, across two segments. -/
theorem walkSliding_shows_whole_touching :
    touching.Fits ∧ 2 ≤ 5 ∧ (∀ b chunk, (keepAll b chunk).2 = .goOn) ∧
      touching.memory.Readable 0x12 2 ∧
      ∃ chunk ∈ (walkSliding (touching.targetChoosing fun _ => 0) 0x11 5 keepAll [] {}).2,
        chunk.Covers 0x12 2 := by
  have hp : touching.Fits := by decide
  have hread : touching.memory.Readable 0x12 2 := by
    have hholds : touching.memory.Holds 0x12 [3, 4] := by decide
    exact hholds.readable
  obtain ⟨-, -, -, hshown⟩ :=
    walkSliding_shows_whole hp (fun _ => 0) 0x11 (by decide : 2 ≤ 5) keepAll_goOn [] {}
  obtain ⟨-, hwhole⟩ := hshown 0x12 2 (by decide) (by decide) (by decide) hread
  exact ⟨hp, by decide, keepAll_goOn, hread, hwhole rfl⟩

end SegmentedProcess
end ProcessMemory
