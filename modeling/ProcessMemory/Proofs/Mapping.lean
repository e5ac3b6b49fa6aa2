import ProcessMemory.Mapping
import ProcessMemory.Proofs.Memory

/-!
# Looking a region up

What `regionAt` answers on mappings in ascending order: the region from the first readable mapping
that reaches past the address to the first byte that cannot be read. The lookup is followed in its
two phases, while no region has started (`Lookup.feedAll_none`) and while one grows
(`Lookup.feedAll_some`), and in both up to any point of the listing.
-/
namespace ProcessMemory

namespace Mapping

def Has (m : Mapping) (n : Nat) : Prop := m.start.toNat ≤ n ∧ n < m.stop.toNat

/-- Mappings in ascending order, no two overlapping. Some may be empty. -/
structure Ascending (ms : List Mapping) : Prop where
  bounds : ∀ m ∈ ms, m.start ≤ m.stop
  pairwise : ms.Pairwise fun a b => a.stop ≤ b.start

def ReadableAt (ms : List Mapping) (n : Nat) : Prop := ∃ m ∈ ms, m.readable ∧ m.Has n

/-- A mapping that a lookup at `address` does not pass over: it has a byte at or above. -/
def Reaches (address : Address) (m : Mapping) : Prop := address < m.stop ∧ m.start < m.stop

instance (address : Address) (m : Mapping) : Decidable (m.Reaches address) :=
  inferInstanceAs (Decidable (_ ∧ _))

def Past (m : Mapping) (r : Region) : Prop := m.start < m.stop ∧ r.stop ≤ m.start

instance (m : Mapping) (r : Region) : Decidable (m.Past r) := inferInstanceAs (Decidable (_ ∧ _))

/-- The soft errors for the unreadable mappings that a lookup at `address` crosses. -/
def crossed (address : Address) (ms : List Mapping) : List MemoryError :=
  (ms.filter fun m => !m.readable && decide (m.Reaches address)).map fun m =>
    .unreadable m.start m.stop

variable {m : Mapping} {ms rest : List Mapping} {address : Address}

theorem Ascending.tail (h : Ascending (m :: rest)) : Ascending rest :=
  ⟨fun k hk => h.bounds k (List.mem_cons_of_mem _ hk), (List.pairwise_cons.1 h.pairwise).2⟩

theorem Ascending.stop_le (h : Ascending (m :: rest)) : ∀ k ∈ rest, m.stop ≤ k.start :=
  (List.pairwise_cons.1 h.pairwise).1

theorem readableAt_cons {n : Nat} :
    ReadableAt (m :: rest) n ↔ (m.readable ∧ m.Has n) ∨ ReadableAt rest n := by
  simp [ReadableAt]

theorem readableAt_append {n : Nat} :
    ReadableAt (ms ++ rest) n ↔ ReadableAt ms n ∨ ReadableAt rest n := by
  simp [ReadableAt, or_and_right, exists_or]

/-- Below the first mapping nothing can be read. -/
theorem not_readableAt_of_lt {n : Nat} (h : ∀ k ∈ ms, n < k.start.toNat) : ¬ReadableAt ms n := by
  rintro ⟨k, hk, -, hstart, -⟩
  exact Nat.not_le_of_lt (h k hk) hstart

theorem region?_eq_none (h : ¬m.start < m.stop) : m.region? = none := by
  rw [Address.lt_def] at h
  have hd : ¬0 < m.start.distanceTo m.stop := by
    simp only [Address.distanceTo]
    omega
  rw [region?, Region.ofBounds?, Region.make?, if_neg hd]

theorem region?_eq_some (h : m.start < m.stop) :
    m.region? = some ⟨m.start, m.stop.toNat - m.start.toNat⟩ := by
  rw [Address.lt_def] at h
  have hd : 0 < m.start.distanceTo m.stop := by
    simp only [Address.distanceTo]
    omega
  rw [region?, Region.ofBounds?, Region.make?, if_pos hd]
  rfl

end Mapping

namespace Region

/-- The region is not empty, and its stop needs no clamping. -/
structure Exact (r : Region) : Prop where
  pos : 0 < r.size
  fits : r.start.toNat + r.size < 0x1_0000_0000_0000_0000

theorem Exact.toNat_stop {r : Region} (h : r.Exact) :
    r.stop.toNat = r.start.toNat + r.size := by
  have := h.fits
  rw [Region.toNat_stop]
  omega

theorem Exact.start_lt_stop {r : Region} (h : r.Exact) : r.start < r.stop := by
  have := h.pos
  rw [Address.lt_def, h.toNat_stop]
  omega

theorem exact_of_lt {start stop : Address} (h : start < stop) :
    Exact ⟨start, stop.toNat - start.toNat⟩ := by
  have := stop.isLt
  rw [Address.lt_def] at h
  exact ⟨by simp only; omega, by simp only; omega⟩

theorem stop_of_lt {start stop : Address} (h : start < stop) :
    (⟨start, stop.toNat - start.toNat⟩ : Region).stop = stop := by
  have := stop.isLt
  rw [Address.lt_def] at h
  rw [Address.ext_iff, Region.toNat_stop]
  simp only
  omega

theorem Exact.extend? {r : Region} (h : r.Exact) {start stop : Address} (hlt : start < stop)
    (hs : start = r.stop) :
    ∃ grown, r.extend? ⟨start, stop.toNat - start.toNat⟩ = some grown ∧ grown.Exact ∧
      grown.start = r.start ∧ grown.stop = stop := by
  have hstop := h.toNat_stop
  have hpos := h.pos
  have hlt' := stop.isLt
  rw [Address.lt_def] at hlt
  have hsum : min (r.size + (stop.toNat - start.toNat)) 0xFFFF_FFFF_FFFF_FFFF =
      stop.toNat - r.start.toNat := by
    rw [← hs] at hstop
    omega
  have hrs : r.start < stop := by
    rw [Address.lt_def, ← hs] at *
    omega
  refine ⟨⟨r.start, stop.toNat - r.start.toNat⟩, ?_, exact_of_lt hrs, rfl, stop_of_lt hrs⟩
  rw [Region.extend?, if_pos hs, hsum]

end Region

namespace Lookup

open Mapping

variable {address : Address}

def feedAll (address : Address) (l : Lookup) : List Mapping → Step
  | [] => .more l
  | m :: rest =>
    match l.feed address (.ok m) with
    | .more l' => l'.feedAll address rest
    | .done outcome => .done outcome

def Step.resume (address : Address) (tail : List (Except MemoryError Mapping)) :
    Step → Outcome (Option Region)
  | .more l => l.run address tail
  | .done outcome => outcome

theorem run_append (l : Lookup) (ms : List Mapping) (tail : List (Except MemoryError Mapping)) :
    l.run address (ms.map .ok ++ tail) = (l.feedAll address ms).resume address tail := by
  induction ms generalizing l with
  | nil => rfl
  | cons m rest ih =>
    rw [List.map_cons, List.cons_append, run, feedAll]
    cases l.feed address (.ok m) with
    | more l' => exact ih l'
    | done outcome => rfl

theorem feed_of_not_reaches {l : Lookup} {m : Mapping} (h : ¬m.Reaches address) :
    l.feed address (.ok m) = .more l := by
  by_cases hs : m.stop ≤ address
  · simp only [feed, hs, if_true]
  · have hstart : ¬m.start < m.stop := fun hlt => h ⟨Nat.lt_of_not_le hs, hlt⟩
    simp only [feed, hs, if_false, region?_eq_none hstart]

theorem feedAll_cons_of_not_reaches {l : Lookup} {m : Mapping} (rest : List Mapping)
    (h : ¬m.Reaches address) : l.feedAll address (m :: rest) = l.feedAll address rest := by
  rw [feedAll, feed_of_not_reaches h]

/-- Empty mappings are passed over, wherever they lie. -/
theorem feedAll_filter (l : Lookup) (ms : List Mapping) :
    l.feedAll address (ms.filter fun m => m.start < m.stop) = l.feedAll address ms := by
  induction ms generalizing l with
  | nil => rfl
  | cons m rest ih =>
    by_cases hm : m.start < m.stop
    · rw [List.filter_cons_of_pos (by simpa using hm), feedAll, feedAll]
      cases l.feed address (.ok m) with
      | more l' => exact ih l'
      | done outcome => rfl
    · have hpass : ¬m.Reaches address := fun h => hm h.2
      rw [List.filter_cons_of_neg (by simpa using hm), feedAll_cons_of_not_reaches rest hpass]
      exact ih l

/-! What a lookup does with a mapping that it does not pass over. -/

section
variable {m : Mapping} {soft : List MemoryError} {region grown : Region}

theorem feed_grown (h : m.Reaches address) (hr : m.readable)
    (hext : region.extend? ⟨m.start, m.stop.toNat - m.start.toNat⟩ = some grown) :
    feed address ⟨some region, soft⟩ (.ok m) = .more ⟨some grown, soft⟩ := by
  have hna : ¬m.stop ≤ address := Nat.not_le_of_lt h.1
  simp only [feed, hna, if_false, region?_eq_some h.2, hr, if_true, hext]

theorem feed_ended (h : m.Reaches address) (hn : ¬(m.readable ∧ m.start = region.stop)) :
    feed address ⟨some region, soft⟩ (.ok m) = .done ⟨.ok (some region), soft⟩ := by
  have hna : ¬m.stop ≤ address := Nat.not_le_of_lt h.1
  by_cases hr : m.readable
  · have hne : m.start ≠ region.stop := fun he => hn ⟨hr, he⟩
    simp only [feed, hna, if_false, region?_eq_some h.2, hr, if_true, Region.extend?, hne, outcome]
  · simp only [feed, hna, if_false, region?_eq_some h.2, hr, outcome]
    rfl

theorem feed_started (h : m.Reaches address) (hr : m.readable) :
    feed address ⟨none, soft⟩ (.ok m) =
      .more ⟨some ⟨m.start, m.stop.toNat - m.start.toNat⟩, soft⟩ := by
  have hna : ¬m.stop ≤ address := Nat.not_le_of_lt h.1
  simp only [feed, hna, if_false, region?_eq_some h.2, hr, if_true]

theorem feed_crossed (h : m.Reaches address) (hr : ¬m.readable) :
    feed address ⟨none, soft⟩ (.ok m) = .more ⟨none, soft ++ [.unreadable m.start m.stop]⟩ := by
  have hna : ¬m.stop ≤ address := Nat.not_le_of_lt h.1
  simp only [feed, hna, if_false, region?_eq_some h.2, hr]
  rfl

end

/-- A region from `start` that has reached `stop` grows to `grown` with the bytes of `ms`, and no
byte follows it there. -/
structure Grows (ms : List Mapping) (start stop : Address) (grown : Region) : Prop where
  exact : grown.Exact
  start_eq : grown.start = start
  stop_le : stop ≤ grown.stop
  readable : ∀ n, stop.toNat ≤ n → n < grown.stop.toNat → ReadableAt ms n
  ends : ¬ReadableAt ms grown.stop.toNat

namespace Grows

variable {m : Mapping} {rest ms : List Mapping} {start stop : Address} {region grown : Region}

theorem self (hr : region.Exact) (h : ¬ReadableAt ms region.stop.toNat) :
    Grows ms region.start region.stop region := by
  refine ⟨hr, rfl, Nat.le_refl _, fun n h1 h2 => ?_, h⟩
  omega

/-- A mapping that does not reach past where the region stops changes nothing. -/
theorem pass (h : Grows rest start stop grown) (hm : ¬m.Has grown.stop.toNat) :
    Grows (m :: rest) start stop grown := by
  refine ⟨h.exact, h.start_eq, h.stop_le, fun n h1 h2 => ?_, ?_⟩
  · exact readableAt_cons.2 (.inr (h.readable n h1 h2))
  · rw [readableAt_cons]
    rintro (⟨-, hn⟩ | hn)
    · exact hm hn
    · exact h.ends hn

/-- A readable mapping that touches the region is part of it. -/
theorem touch (h : Grows rest start m.stop grown) (hr : m.readable) (hlt : m.start < m.stop) :
    Grows (m :: rest) start m.start grown := by
  have hstop : m.stop.toNat ≤ grown.stop.toNat := h.stop_le
  refine ⟨h.exact, h.start_eq, Nat.le_trans (Nat.le_of_lt hlt) hstop, fun n h1 h2 => ?_, ?_⟩
  · rw [readableAt_cons]
    by_cases hn : n < m.stop.toNat
    · exact .inl ⟨hr, h1, hn⟩
    · exact .inr (h.readable n (Nat.le_of_not_lt hn) h2)
  · rw [readableAt_cons]
    rintro (⟨-, -, hn⟩ | hn)
    · exact Nat.not_le_of_lt hn hstop
    · exact h.ends hn

end Grows

/-- A lookup that has found `region` among `ms`: it has ended where a mapping with bytes lies past
the region, and else goes on. -/
inductive Reached (ms : List Mapping) (region : Region) (soft : List MemoryError) :
    Step → Prop where
  | going (h : ∀ m ∈ ms, ¬m.Past region) : Reached ms region soft (.more ⟨some region, soft⟩)
  | ended {m : Mapping} (hm : m ∈ ms) (h : m.Past region) :
    Reached ms region soft (.done ⟨.ok (some region), soft⟩)

theorem Reached.cons {m : Mapping} {ms : List Mapping} {region : Region}
    {soft : List MemoryError} {step : Step} (h : Reached ms region soft step)
    (hm : ¬m.Past region) : Reached (m :: ms) region soft step := by
  cases h with
  | going h => exact .going (List.forall_mem_cons.2 ⟨hm, h⟩)
  | ended hk h => exact .ended (List.mem_cons_of_mem _ hk) h

/-- While a region grows, it ends at the first byte above it that cannot be read. -/
theorem feedAll_some (soft : List MemoryError) {ms : List Mapping} {region : Region}
    (hms : Ascending ms) (hr : region.Exact) (ha : address < region.stop)
    (hle : ∀ m ∈ ms, region.stop ≤ m.start) :
    ∃ grown, Reached ms grown soft (feedAll address ⟨some region, soft⟩ ms) ∧
      Grows ms region.start region.stop grown := by
  induction ms generalizing region with
  | nil => exact ⟨region, .going (by simp), .self hr (not_readableAt_of_lt (by simp))⟩
  | cons m rest ih =>
    have hstart := hle m List.mem_cons_self
    have hnext : ∀ k ∈ rest, m.stop ≤ k.start := hms.stop_le
    by_cases hm : m.Reaches address
    · by_cases hgrow : m.readable ∧ m.start = region.stop
      · obtain ⟨grown, hext, hexact, hgs, hgstop⟩ := hr.extend? hm.2 hgrow.2
        obtain ⟨last, hreached, hlast⟩ :=
          ih hms.tail hexact (hgstop ▸ hm.1) (fun k hk => hgstop ▸ hnext k hk)
        rw [hgs, hgstop] at hlast
        have hpast : ¬m.Past last := fun hp =>
          Nat.not_lt_of_le (Nat.le_trans hlast.stop_le hp.2) hp.1
        rw [feedAll, feed_grown hm hgrow.1 hext]
        exact ⟨last, hreached.cons hpast, hgrow.2 ▸ hlast.touch hgrow.1 hm.2⟩
      · rw [feedAll, feed_ended hm hgrow]
        refine ⟨region, .ended List.mem_cons_self ⟨hm.2, hstart⟩, .self hr ?_⟩
        rw [readableAt_cons]
        rintro (⟨hread, hn, -⟩ | hn)
        · exact hgrow ⟨hread, Address.ext (Nat.le_antisymm hn hstart)⟩
        · refine not_readableAt_of_lt (fun k hk => ?_) hn
          exact Nat.lt_of_le_of_lt hstart (Nat.lt_of_lt_of_le hm.2 (hnext k hk))
    · obtain ⟨grown, hreached, hgrows⟩ :=
        ih hms.tail hr ha (fun k hk => hle k (List.mem_cons_of_mem _ hk))
      -- Were there more of `m` past the stop, it would reach past the address.
      have hbelow (hlt : m.start < m.stop) : m.stop.toNat ≤ grown.stop.toNat :=
        Nat.le_of_not_lt fun hs =>
          hm ⟨Nat.lt_trans ha (Nat.lt_of_le_of_lt hgrows.stop_le hs), hlt⟩
      rw [feedAll_cons_of_not_reaches _ hm]
      refine ⟨grown, hreached.cons fun hp => ?_, hgrows.pass fun hn => ?_⟩
      · exact Nat.not_le_of_lt hp.1 (Nat.le_trans (hbelow hp.1) hp.2)
      · exact Nat.not_le_of_lt hn.2 (hbelow (Nat.lt_of_le_of_lt hn.1 hn.2))

/-- Where and how a lookup finds a region: from the first readable mapping that reaches past the
address, after the unreadable ones before it. -/
structure Starts (address : Address) (ms before after : List Mapping) (m : Mapping)
    (region : Region) : Prop where
  split : ms = before ++ m :: after
  readable : m.readable
  reaches : m.Reaches address
  passed : ∀ k ∈ before, k.readable → ¬k.Reaches address
  grows : Grows after m.start m.stop region

theorem crossed_cons_of_not_reaches {m : Mapping} (ms : List Mapping) (h : ¬m.Reaches address) :
    crossed address (m :: ms) = crossed address ms := by
  simp [crossed, h]

theorem crossed_cons_of_unreadable {m : Mapping} (ms : List Mapping) (h : m.Reaches address)
    (hr : ¬m.readable) :
    crossed address (m :: ms) = .unreadable m.start m.stop :: crossed address ms := by
  simp [crossed, h, hr]

theorem Starts.cons {ms before after : List Mapping} {k m : Mapping} {region : Region}
    (h : Starts address ms before after m region) (hk : k.readable → ¬k.Reaches address) :
    Starts address (k :: ms) (k :: before) after m region :=
  { h with
    split := by rw [h.split, List.cons_append]
    passed := List.forall_mem_cons.2 ⟨hk, h.passed⟩ }

/-- Until a region starts, unreadable mappings are crossed. -/
theorem feedAll_none (address : Address) (soft : List MemoryError) {ms : List Mapping}
    (hms : Ascending ms) :
    ((∀ m ∈ ms, m.readable → ¬m.Reaches address) ∧
      feedAll address ⟨none, soft⟩ ms = .more ⟨none, soft ++ crossed address ms⟩) ∨
    ∃ before m after region, Starts address ms before after m region ∧
      Reached after region (soft ++ crossed address before) (feedAll address ⟨none, soft⟩ ms) := by
  induction ms generalizing soft with
  | nil => exact .inl ⟨by simp, by simp [feedAll, crossed]⟩
  | cons m rest ih =>
    by_cases hm : m.Reaches address
    · obtain ⟨hreach, hlt⟩ := id hm
      by_cases hr : m.readable
      · have hstop := Region.stop_of_lt hlt
        obtain ⟨region, hreached, hgrows⟩ := feedAll_some soft hms.tail
          (Region.exact_of_lt hlt) (hstop.symm ▸ hreach) (fun k hk => hstop.symm ▸ hms.stop_le k hk)
        rw [hstop] at hgrows
        refine .inr ⟨[], m, rest, region, ⟨rfl, hr, hm, by simp, hgrows⟩, ?_⟩
        rw [feedAll, feed_started hm hr]
        simpa only [crossed, List.filter_nil, List.map_nil, List.append_nil] using hreached
      · have hfeed : feedAll address ⟨none, soft⟩ (m :: rest) =
            feedAll address ⟨none, soft ++ [.unreadable m.start m.stop]⟩ rest := by
          rw [feedAll, feed_crossed hm hr]
        have hcrossed (ks : List Mapping) :
            soft ++ crossed address (m :: ks) =
              soft ++ [.unreadable m.start m.stop] ++ crossed address ks := by
          rw [crossed_cons_of_unreadable _ hm hr, List.append_assoc]
          rfl
        have hpass : m.readable → ¬m.Reaches address := fun h => absurd h hr
        rw [hfeed]
        rcases ih _ hms.tail with ⟨hnone, heq⟩ | ⟨before, k, after, region, hs, hreached⟩
        · exact .inl ⟨List.forall_mem_cons.2 ⟨hpass, hnone⟩, hcrossed rest ▸ heq⟩
        · exact .inr ⟨m :: before, k, after, region, hs.cons hpass, hcrossed before ▸ hreached⟩
    · rw [feedAll_cons_of_not_reaches _ hm]
      rcases ih _ hms.tail with ⟨hnone, heq⟩ | ⟨before, k, after, region, hs, hreached⟩
      · refine .inl ⟨List.forall_mem_cons.2 ⟨fun _ => hm, hnone⟩, ?_⟩
        rw [heq, crossed_cons_of_not_reaches _ hm]
      · refine .inr ⟨m :: before, k, after, region, hs.cons fun _ => hm, ?_⟩
        rwa [crossed_cons_of_not_reaches _ hm]

theorem regionAt_eq_resume (ms : List Mapping) (address : Address) :
    regionAt (ms.map .ok) address = (feedAll address {} ms).resume address [] := by
  rw [← run_append, List.append_nil]
  rfl

theorem regionAt_filter (ms : List Mapping) (address : Address) :
    regionAt ((ms.filter fun m => m.start < m.stop).map .ok) address =
      regionAt (ms.map .ok) address := by
  rw [regionAt_eq_resume, regionAt_eq_resume, feedAll_filter]

/-- What a lookup answers that reads its listing to the end. -/
theorem run_none (address : Address) {ms : List Mapping} (hms : Ascending ms) :
    ((∀ m ∈ ms, m.readable → ¬m.Reaches address) ∧
      regionAt (ms.map .ok) address = ⟨.ok none, crossed address ms⟩) ∨
    ∃ before m after region, Starts address ms before after m region ∧
      regionAt (ms.map .ok) address = ⟨.ok (some region), crossed address before⟩ := by
  rcases feedAll_none address [] hms with ⟨hnone, heq⟩ | ⟨before, m, after, region, hs, hreached⟩
  · refine .inl ⟨hnone, ?_⟩
    rw [regionAt_eq_resume, heq]
    rfl
  · refine .inr ⟨before, m, after, region, hs, ?_⟩
    rw [regionAt_eq_resume]
    generalize feedAll address {} ms = step at hreached
    cases hreached with
    | going h => rfl
    | ended hm h => rfl

/-- A mapping that is passed over has no byte at or above the address. -/
theorem not_readableAt_of_passed {ms : List Mapping} {n : Nat}
    (h : ∀ m ∈ ms, m.readable → ¬m.Reaches address) (hn : address.toNat ≤ n) :
    ¬ReadableAt ms n := by
  rintro ⟨m, hm, hr, hstart, hstop⟩
  exact h m hm hr ⟨Nat.lt_of_le_of_lt hn hstop, Nat.lt_of_le_of_lt hstart hstop⟩

namespace Starts

variable {ms before after : List Mapping} {m : Mapping} {region : Region}

theorem ascending (h : Starts address ms before after m region) (hms : Ascending ms) :
    (∀ k ∈ before, k.stop ≤ m.start) ∧ ∀ k ∈ after, m.stop ≤ k.start := by
  have hp := hms.pairwise
  rw [h.split, List.pairwise_append] at hp
  exact ⟨fun k hk => hp.2.2 k hk m List.mem_cons_self, (List.pairwise_cons.1 hp.2.1).1⟩

theorem readableAt (h : Starts address ms before after m region) {n : Nat}
    (h1 : region.start.toNat ≤ n) (h2 : n < region.stop.toNat) : ReadableAt ms n := by
  rw [h.grows.start_eq] at h1
  rw [h.split, readableAt_append, readableAt_cons]
  by_cases hn : n < m.stop.toNat
  · exact .inr (.inl ⟨h.readable, h1, hn⟩)
  · exact .inr (.inr (h.grows.readable n (Nat.le_of_not_lt hn) h2))

theorem not_readableAt_stop (h : Starts address ms before after m region) (hms : Ascending ms) :
    ¬ReadableAt ms region.stop.toNat := by
  have hlt : m.start.toNat < region.stop.toNat := h.grows.start_eq ▸ h.grows.exact.start_lt_stop
  rw [h.split, readableAt_append, readableAt_cons]
  rintro (⟨k, hk, -, -, hn⟩ | ⟨-, -, hn⟩ | hn)
  · have : k.stop.toNat ≤ m.start.toNat := (h.ascending hms).1 k hk
    omega
  · exact Nat.not_le_of_lt hn h.grows.stop_le
  · exact h.grows.ends hn

theorem not_readableAt_below (h : Starts address ms before after m region) (hms : Ascending ms)
    {n : Nat} (h1 : address.toNat ≤ n) (h2 : n < region.start.toNat) : ¬ReadableAt ms n := by
  rw [h.grows.start_eq] at h2
  rw [h.split, readableAt_append, readableAt_cons]
  rintro (hn | ⟨-, hn, -⟩ | hn)
  · exact not_readableAt_of_passed h.passed h1 hn
  · exact Nat.not_le_of_lt h2 hn
  · refine not_readableAt_of_lt (fun k hk => ?_) hn
    have : m.stop.toNat ≤ k.start.toNat := (h.ascending hms).2 k hk
    have := h.reaches.2
    rw [Address.lt_def] at this
    omega

end Starts
end Lookup

theorem Mapping.unreadable_of_mem_crossed {address : Address} {ms : List Mapping}
    {error : MemoryError} (h : error ∈ Mapping.crossed address ms) :
    ∃ start stop, error = .unreadable start stop := by
  obtain ⟨m, -, rfl⟩ := List.mem_map.1 h
  exact ⟨m.start, m.stop, rfl⟩

open Mapping in
theorem regionAt_softErrors {ms : List Mapping} (hms : Ascending ms) (address : Address) :
    ∀ error ∈ (regionAt (ms.map .ok) address).softErrors,
      ∃ start stop, error = .unreadable start stop := by
  intro error he
  rcases Lookup.run_none address hms with
    ⟨-, heq⟩ | ⟨before, m, after, region, -, heq⟩
  all_goals
    rw [heq] at he
    exact unreadable_of_mem_crossed he

open Mapping in
theorem regionAt_exact {ms : List Mapping} (hms : Ascending ms) {address : Address}
    {region : Region} (h : (regionAt (ms.map .ok) address).result = .ok (some region)) :
    region.Exact := by
  rcases Lookup.run_none address hms with
    ⟨-, heq⟩ | ⟨before, m, after, found, hs, heq⟩
  all_goals
    rw [heq] at h
    cases h
  exact hs.grows.exact

open Mapping in
/-- What a lookup finds in mappings in ascending order is what a memory with their bytes has. -/
theorem regionAt_found {memory : Memory} {ms : List Mapping} (hms : Ascending ms)
    (hm : ∀ n, (memory n).isSome ↔ ReadableAt ms n) (address : Address) :
    memory.Found address (regionAt (ms.map .ok) address).result := by
  have hnone {n : Nat} (h : ¬ReadableAt ms n) : memory n = none := by
    rw [← hm] at h
    exact Option.not_isSome_iff_eq_none.1 h
  rcases Lookup.run_none address hms with
    ⟨hp, heq⟩ | ⟨before, m, after, region, hs, heq⟩
  · rw [heq]
    exact .nothing fun n hn => hnone (Lookup.not_readableAt_of_passed hp hn)
  · rw [heq]
    refine .region ⟨?_, hs.grows.exact.start_lt_stop, ?_, ?_, ?_⟩
    · exact Nat.lt_of_lt_of_le hs.reaches.1 hs.grows.stop_le
    · exact fun n h1 h2 => (hm n).2 (hs.readableAt h1 h2)
    · exact hnone (hs.not_readableAt_stop hms)
    · exact fun n h1 h2 => hnone (hs.not_readableAt_below hms h1 h2)

end ProcessMemory
