import ProcessMemory.Proofs.Segmented
import ProcessMemory.Proofs.Walk.Receivers
import ProcessMemory.Proofs.Walk.Safety

/-!
# Walks in chunks side by side

Where the windows of a grid lie side by side, chunks overlap only where a run of readable bytes ends
with the later of them, and that whatever reads fail. The address that is due lies past every chunk,
unless what is left of its run is one last window (`Rests`).
-/
namespace ProcessMemory

def Chunk.finish (c : Chunk) : Nat := c.address.toNat + c.bytes.length

def Clear (chunks : List Chunk) (a : Nat) : Prop := ∀ chunk ∈ chunks, chunk.finish ≤ a

/-- No chunk reaches past `a`, or else one window shows all that is left there of a run, and no
chunk reaches past the run. -/
def Rests (m : Memory) (g : Grid) (chunks : List Chunk) (a : Nat) : Prop :=
  Clear chunks a ∨
    ∃ stop, a < stop ∧ stop ≤ a + g.size ∧ Clear chunks stop ∧
      (∀ n, a ≤ n → n < stop → (m n).isSome) ∧ m stop = none

/-- The later chunk starts past the earlier one, or ends with its run. -/
def Apart (m : Memory) (earlier later : Chunk) : Prop :=
  earlier.finish ≤ later.address.toNat ∨ m later.finish = none

theorem Clear.mono {chunks : List Chunk} {a b : Nat} (h : Clear chunks a) (hab : a ≤ b) :
    Clear chunks b := fun chunk hc => Nat.le_trans (h chunk hc) hab

theorem Clear.concat {chunks : List Chunk} {chunk : Chunk} {a : Nat} (h : Clear chunks a)
    (hc : chunk.finish ≤ a) : Clear (chunks ++ [chunk]) a := by
  intro other ho
  rcases List.mem_append.1 ho with ho | ho
  · exact h other ho
  · rwa [List.mem_singleton.1 ho]

section
variable {m : Memory} {g : Grid} {chunks : List Chunk}

/-- A lookup goes up only past bytes that cannot be read. -/
theorem Rests.toRegion {cursor : Address} {region : Region} (h : Rests m g chunks cursor.toNat)
    (hr : m.Next cursor region) : Rests m g chunks (max region.start cursor).toNat := by
  rcases h with h | ⟨stop, hlt, hsize, hclear, hread, hends⟩
  · exact .inl (h.mono (Address.le_max_right region.start cursor))
  · have hstart : region.start.toNat ≤ cursor.toNat := hr.start_le (hread _ (Nat.le_refl _) hlt)
    rw [Address.toNat_max, Nat.max_eq_right hstart]
    exact .inr ⟨stop, hlt, hsize, hclear, hread, hends⟩

variable {window following : Window g}

/-- Where chunks reach into a window, it ends with its run, and none reaches past it. -/
theorem Rests.clear_or_last (h : Rests m g chunks window.address.toNat)
    (hw : window.Lies m none) :
    Clear chunks window.address.toNat ∨
      (Clear chunks window.finish ∧ window.finish = window.stop.toNat) := by
  rcases h with h | ⟨stop, hlt, hsize, hclear, hread, hends⟩
  · exact .inl h
  · have hle : window.address.toNat ≤ window.stop.toNat := Nat.le_of_lt window.address_lt_stop
    have heq := Memory.end_unique hread hends (Nat.le_of_lt hlt) hw.readable hw.ends hle
    have hfinish : window.finish = window.stop.toNat := by
      have := window.size_le
      have := window.short
      have := window.fits
      unfold Window.finish
      omega
    exact .inr ⟨by rwa [hfinish, ← heq], hfinish⟩

theorem Rests.clear_finish (h : Rests m g chunks window.address.toNat)
    (hw : window.Lies m none) : Clear chunks window.finish :=
  (h.clear_or_last hw).elim (fun h => h.mono (Nat.le_add_right _ _)) And.left

theorem chunk_finish (window : Window g) (bytes : Bytes window.size) :
    (⟨window.address, bytes.val⟩ : Chunk).finish = window.finish :=
  congrArg (window.address.toNat + ·) bytes.property

theorem Rests.handOver (h : Rests m g chunks window.address.toNat) (hw : window.Lies m none)
    (bytes : Bytes window.size) :
    Clear (chunks ++ [⟨window.address, bytes.val⟩]) window.finish :=
  (h.clear_finish hw).concat (Nat.le_of_eq (chunk_finish window bytes))

theorem Rests.apart (h : Rests m g chunks window.address.toNat) (hw : window.Lies m none)
    (bytes : Bytes window.size) :
    ∀ chunk ∈ chunks, Apart m chunk ⟨window.address, bytes.val⟩ := by
  intro chunk hc
  rcases h.clear_or_last hw with h | ⟨-, hfinish⟩
  · exact .inl (h chunk hc)
  · refine .inr ?_
    rw [chunk_finish, hfinish]
    exact hw.ends

/-- The window that follows lies past the one before it, or is the last of its run. -/
theorem Rests.toNext (hg : g.stride = g.size) (h : Rests m g chunks window.address.toNat)
    (hw : window.Lies m none) (bytes : Bytes window.size) (hn : window.next? = some following) :
    Rests m g (chunks ++ [⟨window.address, bytes.val⟩]) following.address.toNat := by
  have hclear := h.handOver hw bytes
  obtain ⟨hmore, hsize, hstop, haddress⟩ := Window.follows_of_next? hn
  have hwhole := Window.size_eq_of_next? hn
  have hlies := hw.next hn
  rw [Address.ext_iff] at hstop
  unfold Window.finish at hmore hclear
  split at haddress
  · exact .inl (hclear.mono (by omega))
  · refine .inr ⟨following.stop.toNat, following.address_lt_stop, by omega,
      hclear.mono (by omega), hlies.readable, hlies.ends⟩

end

namespace Walker

def Spaced {g : Grid} (m : Memory) (chunks : List Chunk) : Phase g → Prop
  | .seeking cursor => Rests m g chunks cursor.toNat
  | .reading window => Rests m g chunks window.address.toNat
  | .delivering window _ => Rests m g chunks window.address.toNat
  | .finished _ => True

namespace Course

variable {g : Grid} {σ β : Type} {t : Target σ} {m : Memory} {start : Address}
  {receive : Receiver β} {c d : Course g σ β} {ms : List Move} {move? : Option Move}

theorem Transition.spaced (ht : Transition t none receive c move? d) (hg : g.stride = g.size)
    (hm : t.Shows m) (hs : Settled m start none ms c.walker.softErrors c.walker.phase)
    (h : Spaced m (delivered ms) c.walker.phase) :
    Spaced m (delivered (ms ++ move?.toList)) d.walker.phase := by
  cases ht with
  | @entered cursor region soft s events hp hl hq hc hspan =>
    rw [hp] at h
    have hf := hm.lookup cursor c.state
    rw [hq] at hf
    cases hf with
    | region hnext => simpa [Spaced] using Rests.toRegion h hnext
  | @fetched window bytes soft s events hp hq =>
    rw [hp] at h
    simpa [Spaced] using h
  | @retried window error soft s events hp hq hr =>
    rw [hp] at h
    simpa [Spaced] using h
  | @skipped window error soft s events hp hq hr =>
    rw [hp] at h hs
    have hrests : Rests m g (delivered ms) (window.address.advance window.size).toNat :=
      .inl (window.toNat_advance_size ▸ Rests.clear_finish h hs.1)
    simpa [Spaced] using hrests
  | @advanced window next bytes receiver hp hv hn =>
    rw [hp] at h hs
    simpa [Spaced] using Rests.toNext hg h hs.1 bytes hn
  | @left window bytes receiver hp hv hn =>
    rw [hp] at h hs
    have hclear := Rests.handOver h hs.1 bytes
    rw [Window.finish_eq_of_next? hn] at hclear
    have hrests : Rests m g (delivered ms ++ [⟨window.address, bytes.val⟩]) window.stop.toNat :=
      .inl hclear
    simpa [Spaced] using hrests
  | rested hp => simpa only [Option.toList_none, List.append_nil] using h
  | _ => exact trivial

theorem Transition.apart (ht : Transition t none receive c move? d)
    (hs : Settled m start none ms c.walker.softErrors c.walker.phase)
    (hspaced : Spaced m (delivered ms) c.walker.phase)
    (h : (delivered ms).Pairwise (Apart m)) :
    (delivered (ms ++ move?.toList)).Pairwise (Apart m) := by
  have hchunk {window : Window g} {bytes : Bytes window.size}
      (hp : c.walker.phase = .delivering window bytes) :
      (delivered ms ++ [(⟨window.address, bytes.val⟩ : Chunk)]).Pairwise (Apart m) := by
    rw [hp] at hs hspaced
    refine List.pairwise_append.2 ⟨h, List.pairwise_singleton _ _, ?_⟩
    intro earlier he later hl
    rw [List.mem_singleton.1 hl]
    exact Rests.apart hspaced hs.1 bytes earlier he
  cases ht with
  | stopped hp hv | advanced hp hv hn | left hp hv hn =>
    simpa only [delivered_append, Option.toList_some, delivered_handOver] using hchunk hp
  | _ => simpa using h

theorem apart_after (hm : t.Shows m) (hg : g.stride = g.size) (receive : Receiver β)
    (start : Address) (receiver : β) (s : σ) (n : Nat) :
    (delivered (moves t none receive n (starting t g start receiver s))).Pairwise (Apart m) := by
  let P (ms : List Move) (d : Course g σ β) : Prop :=
    Settled m start none ms d.walker.softErrors d.walker.phase ∧
      Spaced m (delivered ms) d.walker.phase ∧ (delivered ms).Pairwise (Apart m)
  have h0 : P [] (starting t g start receiver s) :=
    ⟨settled_starting t m g start none receiver s, .inl (fun chunk hc => nomatch hc), .nil⟩
  refine (moves_induction t none receive h0 ?_ n).2.2
  intro ms d move? d' ⟨hset, hspaced, hapart⟩ ht
  exact ⟨ht.settled hm hset, ht.spaced hg hm hset hspaced, ht.apart hset hspaced hapart⟩

end Course
end Walker

open Walker Walker.Course in
theorem walkGrid_apart {g : Grid} {σ : Type} {t : Target σ} {m : Memory} (hm : t.Shows m)
    (hg : g.stride = g.size) (start : Address) (s : σ) :
    (walkGrid t g start none keepAll [] s).2.Pairwise (Apart m) := by
  obtain ⟨n, result, -, hkept, heq⟩ := exists_keepAll t g start none s
  have hapart := apart_after hm hg keepAll start [] s n
  rw [heq]
  rwa [← hkept] at hapart

/-- Of two chunks that share a byte, the later one ends with its run. -/
theorem Apart.isRun {m : Memory} {top a : Nat} {earlier later : Chunk}
    (htop : ∀ k, top ≤ k → m k = none) (hold : m.Holds later.address.toNat later.bytes)
    (h : Apart m earlier later) (he : earlier.Covers a 1) (hl : later.Covers a 1) :
    ∃ first, m.IsRun first later.finish ∧ first ≤ later.address.toNat := by
  obtain ⟨he₁, he₂⟩ := he
  obtain ⟨hl₁, hl₂⟩ := hl
  obtain ⟨first, stop, hrun, hfirst, hstop⟩ := hold.readable.inRun htop (by omega)
  have hends : m later.finish = none := h.resolve_left fun hle => by
    unfold Chunk.finish at hle
    omega
  have hle : first ≤ later.finish := Nat.le_trans hfirst (Nat.le_add_right _ _)
  have heq : later.finish = stop := Nat.le_antisymm hstop (Memory.end_le hrun.readable hends hle)
  exact ⟨first, heq ▸ hrun, hfirst⟩

namespace SegmentedProcess

variable {p : SegmentedProcess}

/-- Whatever faults strike, a walk comes to the end of memory without losing a byte in silence: each
byte is handed over or lies in a span that was given up. Chunks lie inside runs, and share bytes
only where the later one ends its run. -/
theorem walk_no_byte_lost (hp : p.Fits) (choose : Nat → Nat) (start : Address) {size : Nat}
    (hsize : 0 < size) {β : Type} {receive : Receiver β}
    (hgo : ∀ b chunk, (receive b chunk).2 = .goOn) (receiver : β) (w : Wear) :
    let t := p.targetChoosing choose
    let walked := walk t start size keepAll [] w
    walk t start size receive receiver w =
        (walked.1, walked.2.foldl (fun r chunk => (receive r chunk).1) receiver) ∧
      walked.1.outcome.result = .ok .exhausted ∧
      (∀ a, start.toNat ≤ a → (p.memory a).isSome →
        Seen walked.2 walked.1.outcome.softErrors a 1) ∧
      (∀ chunk ∈ walked.2, p.memory.Holds chunk.address.toNat chunk.bytes ∧
        ∃ first stop, p.memory.IsRun first stop ∧ first ≤ chunk.address.toNat ∧
          chunk.finish ≤ stop) ∧
      walked.2.Pairwise fun earlier later => ∀ a, earlier.Covers a 1 → later.Covers a 1 →
        ∃ first, p.memory.IsRun first later.finish ∧ first ≤ later.address.toNat := by
  intro t walked
  let g := Grid.disjoint size hsize
  have hwalk {β : Type} (receive : Receiver β) (receiver : β) :
      walk t start size receive receiver w = walkGrid t g start none receive receiver w :=
    dif_pos hsize
  have hshows := shows hp choose
  have hdone := walkGrid_completes hshows g start w
  have hapart := walkGrid_apart hshows (g := g) rfl start w
  have htop : ∀ k, 0xFFFF_FFFF_FFFF_FFFF ≤ k → p.memory k = none :=
    fun k hk => memory_eq_none_of_le hp hk
  simp only [walked, hwalk]
  refine ⟨walkGrid_receiver hgo start none receiver w, hdone.exhausted, fun a hs ha => ?_,
    fun chunk hc => ⟨hdone.holds chunk hc, hdone.inRun htop chunk hc⟩, ?_⟩
  · have hread : p.memory.Readable a 1 := fun i hi => by rwa [Nat.lt_one_iff.1 hi]
    have hnarrow : 1 + g.stride ≤ g.size + 1 := by
      rw [Nat.add_comm]
      exact Nat.succ_le_succ g.stride_le
    exact hdone.seen a 1 ⟨Nat.one_pos, hnarrow, hread, hs, nofun⟩
  · refine hapart.imp_of_mem fun {earlier later} _ hl h a he hl' => ?_
    exact h.isRun htop (hdone.holds later hl) he hl'

/-- A byte that can never be read costs the chunk around it. -/
theorem walk_no_byte_lost_touching :
    let w : Wear := { faults := [⟨0x12, .always⟩] }
    let walked := walk (touching.targetChoosing fun _ => 0) 0 2 keepAll [] w
    touching.Fits ∧ 0 < 2 ∧ (∀ b chunk, (keepAll b chunk).2 = .goOn) ∧
      walked.1.outcome.result = .ok .exhausted ∧
      Seen walked.2 walked.1.outcome.softErrors 0x13 1 := by
  intro w walked
  have hp : touching.Fits := by decide
  obtain ⟨-, hend, hseen, -⟩ :=
    walk_no_byte_lost hp (fun _ => 0) 0 (by decide : 0 < 2) keepAll_goOn [] w
  exact ⟨hp, by decide, keepAll_goOn, hend, hseen 0x13 (by decide) (by decide)⟩

end SegmentedProcess
end ProcessMemory
