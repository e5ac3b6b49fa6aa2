import ProcessMemory.Proofs.Enumeration
import ProcessMemory.Proofs.Lookup

/-!
# The regions of an address space

Where all lookups answer from one listing of mappings, an enumeration gives the runs of readable
bytes one after another, and each unreadable mapping is crossed by just one of its lookups: those
that a lookup leaves, the lookup at the stop of its region takes up (`Starts.crossed_eq`).
-/
namespace ProcessMemory

namespace Mapping

variable {ms : List Mapping}

/-- The regions, in ascending order and with a byte between any two that cannot be read, have all
the readable bytes from `cursor` on, and no others. -/
structure Separates (ms : List Mapping) (cursor : Address) (regions : List Region) : Prop where
  nonempty : ∀ r ∈ regions, r.start < r.stop
  apart : regions.Pairwise fun a b => a.stop < b.start
  readable_iff : ∀ a : Address, cursor ≤ a → ((∃ r ∈ regions, a ∈ r) ↔ ReadableAt ms a.toNat)

theorem crossed_append (address : Address) (ms rest : List Mapping) :
    crossed address (ms ++ rest) = crossed address ms ++ crossed address rest := by
  rw [crossed, List.filter_append, List.map_append]
  rfl

/-- No byte lies in two mappings. -/
theorem Ascending.eq_of_has (h : Ascending ms) {a b : Mapping} {n : Nat} (ha : a ∈ ms)
    (hb : b ∈ ms) (han : a.Has n) (hbn : b.Has n) : a = b := by
  have hne {a b : Mapping} (han : a.Has n) (hbn : b.Has n) : ¬a.stop ≤ b.start := fun hle =>
    Nat.not_le_of_lt han.2 (Nat.le_trans hle hbn.1)
  induction ms with
  | nil => cases ha
  | cons m rest ih =>
    rcases List.mem_cons.1 ha with rfl | ha'
    · rcases List.mem_cons.1 hb with rfl | hb'
      · rfl
      · exact absurd (h.stop_le b hb') (hne han hbn)
    · rcases List.mem_cons.1 hb with rfl | hb'
      · exact absurd (h.stop_le a ha') (hne hbn han)
      · exact ih h.tail ha' hb'

namespace FirstRegion

variable {address : Address} {region : Region} {regions : List Region}

theorem lt_start (h : FirstRegion ms address region) (hnot : ¬ReadableAt ms address.toNat) :
    address < region.start :=
  Nat.lt_of_not_le fun hle => hnot (h.readable _ hle h.reaches)

/-- The first region and the regions past it, with a gap between. -/
theorem separates (h : FirstRegion ms address region) (hne : region.start < region.stop)
    (hsep : Separates ms region.stop regions) (hgap : ∀ r ∈ regions, region.stop < r.start) :
    Separates ms address (region :: regions) where
  nonempty := List.forall_mem_cons.2 ⟨hne, hsep.nonempty⟩
  apart := List.pairwise_cons.2 ⟨hgap, hsep.apart⟩
  readable_iff a ha := by
    by_cases hlt : a < region.stop
    · -- Below the stop of the region only the region itself has bytes.
      have hrest : ¬∃ r ∈ regions, a ∈ r := by
        rintro ⟨r, hr, hmem⟩
        exact Nat.lt_asymm hlt (Nat.lt_of_lt_of_le (hgap r hr) hmem.1)
      simp only [List.mem_cons, or_and_right, exists_or, exists_eq_left, hrest, or_false]
      constructor
      · exact fun hmem => h.readable _ hmem.1 hmem.2
      · intro hread
        refine ⟨Nat.le_of_not_lt fun hbelow => ?_, hlt⟩
        exact h.first _ ha hbelow hread
    · have hle : region.stop ≤ a := Nat.le_of_not_lt hlt
      rw [← hsep.readable_iff a hle]
      simp only [List.mem_cons, or_and_right, exists_or, exists_eq_left]
      exact or_iff_right fun hmem => hlt hmem.2

end FirstRegion
end Mapping

namespace Lookup

open Mapping

variable {address : Address} {ms before after : List Mapping} {m : Mapping} {region : Region}

namespace Starts

/-- Past the mapping that starts the region, an unreadable one with bytes lies past the region. -/
theorem stop_le_of_unreadable (h : Starts address ms before after m region) (hms : Ascending ms)
    {k : Mapping} (hk : k ∈ after) (hr : ¬k.readable) (hlt : k.start < k.stop) :
    region.stop ≤ k.start := by
  have hsplit := h.split
  subst hsplit
  refine Nat.le_of_not_lt fun hin => hr ?_
  -- Otherwise its first byte is one of those that the region grew by.
  have hstart : m.stop ≤ k.start := (h.ascending hms).2 k hk
  obtain ⟨j, hj, hjr, hjn⟩ := h.grows.readable _ hstart hin
  have hmem {i : Mapping} (hi : i ∈ after) : i ∈ before ++ m :: after :=
    List.mem_append_right _ (List.mem_cons_of_mem _ hi)
  rwa [hms.eq_of_has (hmem hk) (hmem hj) ⟨Nat.le_refl _, hlt⟩ hjn]

/-- What this lookup does not cross of the unreadable mappings, the next one does. -/
theorem crossed_eq (h : Starts address ms before after m region) (hms : Ascending ms) :
    crossed address ms = crossed address before ++ crossed region.stop ms := by
  have hlt : m.start < region.stop := h.grows.start_eq ▸ h.grows.exact.start_lt_stop
  have hbefore : crossed region.stop before = [] := by
    rw [crossed, List.map_eq_nil_iff, List.filter_eq_nil_iff]
    intro k hk hcross
    have hbelow : k.stop.toNat ≤ m.start.toNat := (h.ascending hms).1 k hk
    obtain ⟨-, hreaches⟩ := Bool.and_eq_true_iff.1 hcross
    have hreach : region.stop < k.stop := (of_decide_eq_true hreaches).1
    exact Nat.lt_asymm hreach (Nat.lt_of_le_of_lt hbelow hlt)
  have hafter : crossed address (m :: after) = crossed region.stop (m :: after) := by
    refine congrArg (List.map _) (List.filter_congr fun k hk => ?_)
    rcases List.mem_cons.1 hk with rfl | hk
    · simp [h.readable]
    · by_cases hr : k.readable
      · simp [hr]
      · by_cases hbytes : k.start < k.stop
        · have hpast := Nat.lt_of_le_of_lt (h.stop_le_of_unreadable hms hk hr hbytes) hbytes
          have hreach : address < region.stop :=
            Nat.lt_of_lt_of_le h.reaches.1 h.grows.stop_le
          have hfar : address < k.stop := Nat.lt_trans hreach hpast
          have hpast : region.stop < k.stop := hpast
          simp [Reaches, hbytes, hpast, hfar]
        · simp [Reaches, hbytes]
  rw [h.split, crossed_append, crossed_append, hbefore, hafter, List.nil_append]

end Starts
end Lookup

/-- Lookups answer from one listing of mappings, whatever state the target is in. -/
def Target.Maps {σ : Type} (t : Target σ) (ms : List Mapping) : Prop :=
  ∀ a s, (t.lookup a s).1 = regionAt (ms.map .ok) a

namespace Enumeration

open Mapping

variable {σ : Type} {t : Target σ} {ms : List Mapping}

/-- An enumeration that stands at `cursor` goes on to give the runs from there on, and to cross the
unreadable mappings that are left. -/
theorem collect_separates (hms : Ascending ms) (ht : t.Maps ms) (cursor : Address)
    (soft : List MemoryError) (s : σ) (found : List Region) (events : List Event) :
    ∃ regions, Separates ms cursor regions ∧
      (¬ReadableAt ms cursor.toNat → ∀ r ∈ regions, cursor < r.start) ∧
      (collect t ⟨some cursor, soft⟩ s found events).outcome =
        ⟨.ok (found ++ regions), soft ++ crossed cursor ms⟩ := by
  induction hd : 0x1_0000_0000_0000_0000 - cursor.toNat using Nat.strongRecOn
    generalizing cursor soft s found events with
  | ind d ih =>
    have hlook := ht cursor s
    rcases hq : t.lookup cursor s with ⟨answer, s'⟩
    rw [hq] at hlook
    rcases Lookup.run_none cursor hms with ⟨hnone, heq⟩ | ⟨before, m, after, region, hs, heq⟩
    · rw [heq] at hlook
      have hadv : advance t ⟨some cursor, soft⟩ s =
          ⟨none, ⟨none, soft ++ crossed cursor ms⟩, s', []⟩ := by
        simp only [advance, hq, hlook]
      have hnot (r : Region) : r ∉ [] := List.not_mem_nil
      refine ⟨[], ⟨fun r hr => absurd hr (hnot r), .nil, fun a ha => ?_⟩,
        fun _ r hr => absurd hr (hnot r), ?_⟩
      · refine iff_of_false ?_ (Lookup.not_readableAt_of_passed hnone ha)
        rintro ⟨r, hr, -⟩
        exact hnot r hr
      · simp only [collect_of_end hadv, List.append_nil]
    · rw [heq] at hlook
      have hfirst := hs.firstRegion hms
      have hexact := hs.grows.exact
      have hreach : cursor.toNat < region.stop.toNat := hfirst.reaches
      have hstop : ¬region.stop ≤ cursor := Nat.not_le_of_lt hreach
      have hadv : advance t ⟨some cursor, soft⟩ s =
          ⟨some (.ok region), ⟨some region.stop, soft ++ crossed cursor before⟩, s',
            [.readableRegion t.pid region]⟩ := by
        simp only [advance, hq, hlook, if_neg hstop, hexact.next?]
      have htop := region.stop.isLt
      obtain ⟨rest, hsep, habove, hrest⟩ := ih _ (by omega) region.stop
        (soft ++ crossed cursor before) s' (found ++ [region])
        (events ++ [.readableRegion t.pid region]) rfl
      have hgap := habove hfirst.ends
      refine ⟨region :: rest, hfirst.separates hexact.start_lt_stop hsep hgap, fun hnot => ?_, ?_⟩
      · refine List.forall_mem_cons.2 ⟨hfirst.lt_start hnot, fun r hr => ?_⟩
        exact Nat.lt_trans hreach (hgap r hr)
      · rw [collect_of_region hadv, hrest, hs.crossed_eq hms]
        simp only [List.append_assoc, List.singleton_append]

end Enumeration

open Mapping in
/-- Enumerating the regions of an address space from `start` on gives its runs of readable bytes in
ascending order, and reports each unreadable mapping that ends above `start` once, in order. -/
theorem readableRegions_exact {σ : Type} {t : Target σ} {ms : List Mapping} (hms : Ascending ms)
    (ht : t.Maps ms) (start : Address) (s : σ) :
    ∃ regions, (readableRegions t start s).outcome = ⟨.ok regions, crossed start ms⟩ ∧
      Separates ms start regions := by
  obtain ⟨regions, hsep, -, heq⟩ := Enumeration.collect_separates hms ht start [] s [] []
  exact ⟨regions, heq, hsep⟩

open Mapping in
/-- The enumeration starts inside an unreadable mapping, an empty one lies where two readable ones
touch, and another unreadable one follows the last region. -/
theorem readableRegions_exact_touching :
    let ms : List Mapping :=
      [⟨0x10, 0x20, false⟩, ⟨0x20, 0x30, true⟩, ⟨0x30, 0x30, false⟩, ⟨0x30, 0x40, true⟩,
        ⟨0x40, 0x50, false⟩, ⟨0x60, Address.top, true⟩]
    let t := Target.stateless 1 (regionAt (ms.map .ok)) fun _ _ => .fail (.io "busy")
    Ascending ms ∧ t.Maps ms ∧
      crossed 0x18 ms = [.unreadable 0x10 0x20, .unreadable 0x40 0x50] ∧
      ∃ regions, (readableRegions t 0x18 ()).outcome =
          ⟨.ok regions, [.unreadable 0x10 0x20, .unreadable 0x40 0x50]⟩ ∧
        Separates ms 0x18 regions := by
  intro ms t
  have hasc : Ascending ms := ⟨by decide, by decide⟩
  have ht : t.Maps ms := fun _ _ => rfl
  exact ⟨hasc, ht, rfl, readableRegions_exact hasc ht 0x18 ()⟩

namespace Mapping

variable {ms : List Mapping}

instance (m : Mapping) (n : Nat) : Decidable (m.Has n) := inferInstanceAs (Decidable (_ ∧ _))

instance (ms : List Mapping) (n : Nat) : Decidable (ReadableAt ms n) :=
  inferInstanceAs (Decidable (∃ m ∈ ms, m.readable ∧ m.Has n))

/-- A memory with a byte just where the mappings can be read. -/
def blank (ms : List Mapping) : Memory := fun n => if ReadableAt ms n then some 0 else none

theorem isSome_blank (ms : List Mapping) (n : Nat) : (blank ms n).isSome ↔ ReadableAt ms n := by
  by_cases h : ReadableAt ms n
  · simp [blank, h]
  · simp [blank, h]

/-- Regions that lie apart share no byte. -/
theorem countP_mem_of_apart {regions : List Region} (a : Address)
    (h : regions.Pairwise fun r r' => r.stop < r'.start) :
    regions.countP (fun r => a ∈ r) = if ∃ r ∈ regions, a ∈ r then 1 else 0 := by
  induction regions with
  | nil => rfl
  | cons r rest ih =>
    obtain ⟨hfirst, hrest⟩ := List.pairwise_cons.1 h
    rw [List.countP_cons, ih hrest]
    by_cases hr : a ∈ r
    · have hnone : ¬∃ r' ∈ rest, a ∈ r' := by
        rintro ⟨r', hr', hmem⟩
        exact Nat.lt_asymm hr.2 (Nat.lt_of_lt_of_le (hfirst r' hr') hmem.1)
      simp [hr, hnone]
    · simp [hr]

/-- Every byte that can be read lies in just one of the regions, and no other byte in any. -/
theorem Separates.countP_mem {regions : List Region} (h : Separates ms 0 regions) (a : Address) :
    regions.countP (fun r => a ∈ r) = if ReadableAt ms a.toNat then 1 else 0 := by
  rw [countP_mem_of_apart a h.apart]
  simp only [h.readable_iff a (Nat.zero_le _)]

theorem charts (hms : Ascending ms) : Charts (regionAt (ms.map .ok)) (blank ms) where
  found {a _} h := h ▸ regionAt_found hms (isSome_blank ms) a
  exact := regionAt_exact hms

/-- Looked up one after another, each at the stop of the one before, the regions come to an end. -/
theorem exists_lists (hms : Ascending ms) (start : Address) :
    ∃ regions, Lists (regionAt (ms.map .ok)) start regions ∧ Separates ms start regions := by
  let t := Target.stateless 0 (regionAt (ms.map .ok)) fun _ _ => .fail (.io "")
  have hlookup : ∀ a s, t.lookup a s = (regionAt (ms.map .ok) a, s) := fun _ _ => rfl
  rcases (charts hms).lists_or_breaks hlookup start with ⟨regions, hlists, -⟩ | ⟨a, error, ha, -⟩
  · obtain ⟨found, houtcome, hsep⟩ := readableRegions_exact hms (t := t) (fun _ _ => rfl) start ()
    have hresult := readableRegions_lists hlookup hlists ()
    rw [houtcome] at hresult
    cases hresult
    exact ⟨regions, hlists, hsep⟩
  · obtain ⟨found, hfound, -⟩ := Lookup.regionAt_owes hms a
    rw [ha] at hfound
    cases hfound

end Mapping
end ProcessMemory
