import ProcessMemory.Proofs.Enumeration
import ProcessMemory.Proofs.Walk.Receivers
import ProcessMemory.Proofs.Walk.Reliable
import ProcessMemory.Proofs.Walk.Spans

/-!
# The chunks of a walk

On a target that does not fail, and with a receiver that never stops, a walk hands over the windows
of one region after another, in the order in which an enumeration lists the regions. Each of its
phases leads to the next in known steps (`Leads`), and the phases are put together along the windows
of a span and along the list of regions.
-/
namespace ProcessMemory

def Chunk.span (c : Chunk) : Nat × Nat := (c.address.toNat, c.bytes.length)

namespace Walker.Course

variable {g : Grid} {σ β : Type} {t : Target σ} {m : Memory} {ok : σ → Prop}
  {limit : Option Address} {receive : Receiver β} {c d e : Course g σ β}

def Leads (t : Target σ) (limit : Option Address) (receive : Receiver β) (c d : Course g σ β)
    (chunks : List Chunk) : Prop :=
  ∃ n, after t limit receive n c = d ∧ delivered (moves t limit receive n c) = chunks

theorem Leads.trans {xs ys : List Chunk} (h : Leads t limit receive c d xs)
    (h' : Leads t limit receive d e ys) : Leads t limit receive c e (xs ++ ys) := by
  obtain ⟨n, rfl, rfl⟩ := h
  obtain ⟨k, rfl, rfl⟩ := h'
  exact ⟨n + k, after_add n k c, by rw [moves_add, delivered_append]⟩

theorem leads_step (t : Target σ) (limit : Option Address) (receive : Receiver β)
    (c : Course g σ β) :
    Leads t limit receive c (c.step t limit receive)
      (delivered (c.move? t limit receive).toList) :=
  ⟨1, rfl, by rw [moves, moves, List.append_nil]⟩

theorem leads_closed (receive : Receiver β) {cursor : Address}
    (hp : c.walker.phase = .seeking cursor)
    (h : (t.lookup cursor c.state).1.result = .ok none) :
    ∃ d, Leads t none receive c d [] ∧ d.walker.phase = .finished (.ok .exhausted) := by
  refine ⟨c.step t none receive, ?_, ?_⟩
  · simpa [move?, hp] using leads_step t none receive c
  · simp [step, hp, ask, seek, h]

theorem leads_entered (receive : Receiver β) {cursor : Address} {region : Region}
    (hp : c.walker.phase = .seeking cursor)
    (h : (t.lookup cursor c.state).1.result = .ok (some region))
    (hspan : max region.start cursor < region.stop) :
    ∃ d, Leads t none receive c d [] ∧ d.walker.phase = .reading (Window.first g _ _ hspan) ∧
      d.state = (t.lookup cursor c.state).2 := by
  have hstop : ¬region.stop ≤ cursor := by
    rw [Address.lt_def, Address.toNat_max] at hspan
    rw [Address.le_def]
    omega
  refine ⟨c.step t none receive, ?_, ?_, ?_⟩
  · simpa [move?, hp] using leads_step t none receive c
  · simp [step, hp, ask, seek, h, hstop, spanStop, hspan]
  · simp [step, hp, ask, seek, h, hstop, spanStop, hspan]

theorem leads_fetched {window : Window g} (hm : t.Reliable m ok)
    (hp : c.walker.phase = .reading window) (hok : ok c.state)
    (hr : m.Readable window.address.toNat window.size) :
    ∃ d bytes, Leads t limit receive c d [] ∧ d.walker.phase = .delivering window bytes ∧
      ok d.state := by
  obtain ⟨hres, hok', -⟩ := hm.read window.address window.size c.state hok hr
  rcases hq : t.read window.address window.size c.state with ⟨⟨result, soft⟩, s⟩
  rw [hq] at hres hok'
  cases result with
  | error error => cases hres
  | ok bytes =>
    refine ⟨c.step t limit receive, bytes, ?_, ?_, ?_⟩
    · simpa [move?, hp] using leads_step t limit receive c
    · simp [step, hp, ask, fetch, hq]
    · simpa [step, hp, ask, fetch, hq] using hok'

theorem leads_delivered {window : Window g} {bytes : Bytes window.size}
    (hgo : ∀ b chunk, (receive b chunk).2 = .goOn)
    (hp : c.walker.phase = .delivering window bytes) :
    ∃ d, Leads t limit receive c d [⟨window.address, bytes.val⟩] ∧ d.state = c.state ∧
      d.walker = c.walker.proceed window .goOn := by
  have hv := hgo c.receiver ⟨window.address, bytes.val⟩
  refine ⟨c.step t limit receive, ?_, ?_, ?_⟩
  · simpa [move?, hp] using leads_step t limit receive c
  · simp [step, hp]
  · simp [step, hp, hv]

/-- From a window on, the windows that are left in the span are handed over. -/
theorem leads_span {window : Window g} (hm : t.Reliable m ok)
    (hgo : ∀ b chunk, (receive b chunk).2 = .goOn) (hw : window.Lies m none)
    (hp : c.walker.phase = .reading window) (hok : ok c.state) :
    ∃ d chunks, Leads t none receive c d chunks ∧ d.walker.phase = .seeking window.stop ∧
      ok d.state ∧ chunks.map Chunk.span = window.chain.map Window.span := by
  fun_induction Window.chain window generalizing c with
  | case1 window next hn ih =>
    obtain ⟨c₁, bytes, h₁, hp₁, hok₁⟩ := leads_fetched hm hp hok hw.readable_size
    obtain ⟨c₂, h₂, hs₂, hw₂⟩ := leads_delivered hgo hp₁
    have hp₂ : c₂.walker.phase = .reading next := by rw [hw₂, proceed, hn, enter_phase]
    obtain ⟨d, chunks, h₃, hp₃, hok₃, hspans⟩ := ih (hw.next hn) hp₂ (hs₂ ▸ hok₁)
    refine ⟨d, _, (h₁.trans h₂).trans h₃, ?_, hok₃, ?_⟩
    · rw [hp₃, Window.stop_of_next? hn]
    · simp [Chunk.span, Window.span, bytes.property, hspans]
  | case2 window hn =>
    obtain ⟨c₁, bytes, h₁, hp₁, hok₁⟩ := leads_fetched hm hp hok hw.readable_size
    obtain ⟨c₂, h₂, hs₂, hw₂⟩ := leads_delivered hgo hp₁
    refine ⟨c₂, _, h₁.trans h₂, ?_, hs₂ ▸ hok₁, ?_⟩
    · rw [hw₂, proceed, hn, enter_phase]
    · simp [Chunk.span, Window.span, bytes.property]

/-- From a cursor on, the windows of the region found there are handed over. -/
theorem leads_region {cursor : Address} {region : Region} (hshows : t.Shows m)
    (hm : t.Reliable m ok) (hgo : ∀ b chunk, (receive b chunk).2 = .goOn)
    (hp : c.walker.phase = .seeking cursor) (hok : ok c.state)
    (h : (t.lookup cursor c.state).1.result = .ok (some region)) :
    ∃ d chunks, Leads t none receive c d chunks ∧ d.walker.phase = .seeking region.stop ∧
      ok d.state ∧
      chunks.map Chunk.span = g.spans (max region.start cursor).toNat region.stop.toNat := by
  have hfound := hshows.lookup cursor c.state
  rw [h] at hfound
  cases hfound with
  | region hnext =>
    have hspan := hnext.span_lt
    have hlies : (Window.first g _ _ hspan).Lies m none := lies_first none hnext hspan
    obtain ⟨c₁, h₁, hp₁, hs₁⟩ := leads_entered receive hp h hspan
    have hok₁ : ok c₁.state := by
      rw [hs₁]
      exact (hm.lookup cursor c.state hok).1
    obtain ⟨d, chunks, h₂, hp₂, hok₂, hspans⟩ := leads_span hm hgo hlies hp₁ hok₁
    refine ⟨d, chunks, h₁.trans h₂, hp₂, hok₂, ?_⟩
    rw [hspans, Window.chain_first]

/-- From a cursor on, the windows of the regions that lookups find are handed over. -/
theorem leads_lists {lookup : Address → Outcome (Option Region)} {cursor : Address}
    {regions : List Region} (hshows : t.Shows m) (hm : t.Reliable m ok)
    (ht : ∀ a s, t.lookup a s = (lookup a, s)) (hgo : ∀ b chunk, (receive b chunk).2 = .goOn)
    (h : Lists lookup cursor regions) (hp : c.walker.phase = .seeking cursor) (hok : ok c.state) :
    ∃ d chunks, Leads t none receive c d chunks ∧
      d.walker.phase = .finished (.ok .exhausted) ∧
      chunks.map Chunk.span =
        regions.flatMap fun r => g.spans (max r.start cursor).toNat r.stop.toNat := by
  induction h generalizing c with
  | nil h =>
    obtain ⟨d, hd, hpd⟩ := leads_closed receive hp (by rw [ht]; exact h)
    exact ⟨d, [], hd, hpd, rfl⟩
  | @cons cursor region rest h reaches exact above tail ih =>
    obtain ⟨c₁, xs, h₁, hp₁, hok₁, hxs⟩ :=
      leads_region hshows hm hgo hp hok (by rw [ht]; exact h)
    obtain ⟨d, ys, h₂, hp₂, hys⟩ := ih hp₁ hok₁
    refine ⟨d, _, h₁.trans h₂, hp₂, ?_⟩
    rw [List.map_append, hxs, hys, List.flatMap_cons]
    refine congrArg (_ ++ ·) (congrArg List.flatten (List.map_congr_left fun r hr => ?_))
    -- The regions still to come lie above both addresses, so clipping leaves them whole.
    have hclip : max r.start region.stop = max r.start cursor := by
      have habove := above r hr
      rw [Address.le_def] at habove
      rw [Address.lt_def] at reaches
      rw [Address.ext_iff, Address.toNat_max, Address.toNat_max]
      omega
    rw [hclip]

end Walker.Course

/-- What a walk gives back that has handed over the windows of `regions`, clipped at `start`, one
after another with the bytes of the memory, and has ended where no region was left. -/
structure Tours {σ β : Type} (m : Memory) (g : Grid) (start : Address) (regions : List Region)
    (receive : Receiver β) (receiver : β) (walked : Report σ Ending × β) : Prop where
  exhausted : walked.1.outcome.result = .ok .exhausted
  chunks : ∃ chunks : List Chunk,
    walked.2 = chunks.foldl (fun r chunk => (receive r chunk).1) receiver ∧
      chunks.map Chunk.span =
        regions.flatMap (fun r => g.spans (max r.start start).toNat r.stop.toNat) ∧
      ∀ chunk ∈ chunks, m.Holds chunk.address.toNat chunk.bytes

section
variable {g : Grid} {σ β : Type} {t : Target σ} {m : Memory} {ok : σ → Prop} {receive : Receiver β}

open Walker Walker.Course in
theorem walkGrid_tours {lookup : Address → Outcome (Option Region)} {start : Address}
    {regions : List Region} (hshows : t.Shows m) (hm : t.Reliable m ok)
    (ht : ∀ a s, t.lookup a s = (lookup a, s)) (hgo : ∀ b chunk, (receive b chunk).2 = .goOn)
    (h : Lists lookup start regions) (receiver : β) {s : σ} (hs : ok s) :
    Tours m g start regions receive receiver (walkGrid t g start none receive receiver s) := by
  have hp : (starting t g start receiver s).walker.phase = .seeking start := rfl
  obtain ⟨d, chunks, ⟨n, rfl, rfl⟩, hd, hspans⟩ := leads_lists hshows hm ht hgo h hp hs
  rw [walkGrid_of_finished hd]
  refine ⟨rfl, _, receiver_after n _, hspans, ?_⟩
  exact (settled_after hshows none receive start receiver s n).2

end

namespace SegmentedProcess

variable {p : SegmentedProcess}

/-- Without faults, a walk hands over exactly the windows of each region in turn: side by side, or
half overlapping. -/
theorem walk_chunks (hp : p.Fits) (choose : Nat → Nat) (start : Address) {size : Nat}
    (hsize : 0 < size) {β : Type} {receive : Receiver β}
    (hgo : ∀ b chunk, (receive b chunk).2 = .goOn) (receiver : β) {w : Wear} (hw : w.faults = []) :
    let t := p.targetChoosing choose
    ∃ regions, (readableRegions t start w).outcome.result = .ok regions ∧
      Tours p.memory (Grid.disjoint size hsize) start regions receive receiver
        (walk t start size receive receiver w) ∧
      Tours p.memory (Grid.sliding size hsize) start regions receive receiver
        (walkSliding t start size receive receiver w) := by
  intro t
  have hlookup : ∀ a s, t.lookup a s = (p.lookup a, s) := fun _ _ => rfl
  obtain ⟨regions, hlists, -⟩ := exists_lists hp start
  refine ⟨regions, readableRegions_lists hlookup hlists w, ?_, ?_⟩
  · rw [walk, dif_pos hsize]
    exact walkGrid_tours (shows hp choose) (reliable hp choose) hlookup hgo hlists receiver hw
  · rw [walkSliding, dif_pos hsize]
    exact walkGrid_tours (shows hp choose) (reliable hp choose) hlookup hgo hlists receiver hw

/-- Five bytes in chunks of two: the last one repeats a byte. -/
theorem walk_chunks_touching :
    touching.Fits ∧ 0 < 2 ∧ (∀ b chunk, (keepAll b chunk).2 = .goOn) ∧
      (readableRegions touching.target 0 {}).outcome.result = .ok [⟨0x10, 5⟩] ∧
      (walk touching.target 0 2 keepAll [] {}).2.map Chunk.span =
        [(0x10, 2), (0x12, 2), (0x13, 2)] := by
  have hp : touching.Fits := by decide
  have hgo : ∀ b chunk, (keepAll b chunk).2 = .goOn := fun _ _ => rfl
  obtain ⟨regions, hregions, ⟨-, chunks, hkept, hspans, -⟩, -⟩ :=
    walk_chunks hp (fun _ => 0) 0 (by decide : 0 < 2) hgo [] (w := {}) rfl
  have hlists : Lists touching.lookup 0 [⟨0x10, 5⟩] := by
    refine .cons rfl (by decide) ⟨by decide, by decide⟩ (fun r hr => nomatch hr) ?_
    exact .nil rfl
  have hlisted := readableRegions_lists (t := touching.target) (fun _ _ => rfl) hlists {}
  cases hregions.symm.trans hlisted
  rw [foldl_keepAll, List.nil_append] at hkept
  refine ⟨hp, by decide, hgo, hlisted, ?_⟩
  change (walk (touching.targetChoosing fun _ => 0) 0 2 keepAll [] {}).2.map Chunk.span = _
  rw [hkept, hspans]
  decide

end SegmentedProcess
end ProcessMemory
