import ProcessMemory.Proofs.Mapping

/-!
# The contract of a region lookup

What a lookup owes, said of bytes alone: the first run of readable bytes at or above the address,
from the start of the mapping in which it is entered. A listing may break off with an error. The
lookup meets it only where no mapping before the error ends the search.
-/
namespace ProcessMemory

namespace Mapping

def ofListing (items : List (Except MemoryError Mapping)) : List Mapping :=
  items.filterMap Except.toOption

/-- The region that a lookup at `address` owes. -/
structure FirstRegion (ms : List Mapping) (address : Address) (r : Region) : Prop where
  reaches : address < r.stop
  readable : ∀ n, r.start.toNat ≤ n → n < r.stop.toNat → ReadableAt ms n
  ends : ¬ReadableAt ms r.stop.toNat
  first : ∀ n, address.toNat ≤ n → n < r.start.toNat → ¬ReadableAt ms n
  /-- The mapping that holds the first readable byte starts the region. -/
  starts : ∃ m ∈ ms, m.readable ∧ m.start = r.start ∧ ∃ n, m.Has n ∧ address.toNat ≤ n ∧
    ∀ k, address.toNat ≤ k → k < n → ¬ReadableAt ms k

/-- What a lookup at `address` owes, with the soft errors it keeps: one for each unreadable mapping
that it crosses below the region. -/
structure Owes (ms : List Mapping) (address : Address) (found : Option Region)
    (errors : List MemoryError) : Prop where
  none_iff : found = none ↔ ∀ n, address.toNat ≤ n → ¬ReadableAt ms n
  region : ∀ r, found = some r → FirstRegion ms address r
  softErrors : errors = crossed address (ms.filter fun m => found.all fun r => m.stop ≤ r.start)

/-- A lookup at `address` reads no further than `m`, which has bytes past the region. -/
def EndsSearch (ms : List Mapping) (address : Address) (m : Mapping) : Prop :=
  ∃ r, FirstRegion ms address r ∧ m.Past r

variable {m : Mapping} {ms rest : List Mapping} {address : Address} {r : Region}

theorem map_ok_ofListing {items : List (Except MemoryError Mapping)} (h : ∀ e, .error e ∉ items) :
    (ofListing items).map .ok = items := by
  induction items with
  | nil => rfl
  | cons item rest ih =>
    have hrest := ih fun e he => h e (List.mem_cons_of_mem _ he)
    cases item with
    | error e => exact absurd List.mem_cons_self (h e)
    | ok m => exact congrArg (.ok m :: ·) hrest

theorem ofListing_append (ms : List Mapping) (e : MemoryError)
    (items : List (Except MemoryError Mapping)) :
    ofListing (ms.map .ok ++ .error e :: items) = ms ++ ofListing items := by
  have hms : ofListing (ms.map .ok) = ms := by
    rw [ofListing, List.filterMap_map]
    exact List.filterMap_some
  rw [ofListing, List.filterMap_append, ← ofListing, hms]
  rfl

theorem Ascending.left (h : Ascending (ms ++ rest)) : Ascending ms :=
  ⟨fun m hm => h.bounds m (List.mem_append_left _ hm), (List.pairwise_append.1 h.pairwise).1⟩

/-- The first readable byte at or above the address, which lies in the region. -/
theorem FirstRegion.exists_first (h : FirstRegion ms address r) :
    ∃ n, address.toNat ≤ n ∧ r.start.toNat ≤ n ∧ n < r.stop.toNat ∧ ReadableAt ms n ∧
      ∀ k, address.toNat ≤ k → k < n → ¬ReadableAt ms k := by
  obtain ⟨m, hm, hr, hstart, n, hn, ha, hlow⟩ := h.starts
  have hread : ReadableAt ms n := ⟨m, hm, hr, hn⟩
  have hle : r.start.toNat ≤ n := hstart ▸ hn.1
  refine ⟨n, ha, hle, Nat.lt_of_not_le fun hstop => ?_, hread, hlow⟩
  -- The stop would lie in the mapping that starts the region, yet it cannot be read.
  have hs : r.start.toNat ≤ r.stop.toNat := by
    have := r.start.isLt
    rw [Region.toNat_stop]
    omega
  exact h.ends ⟨m, hm, hr, hstart ▸ hs, Nat.lt_of_le_of_lt hstop hn.2⟩

end Mapping

namespace Lookup

open Mapping

variable {address : Address} {ms before after : List Mapping} {m : Mapping} {region : Region}

theorem owes_none (h : ∀ m ∈ ms, m.readable → ¬m.Reaches address) :
    Owes ms address none (crossed address ms) where
  none_iff := iff_of_true rfl fun _ hn => not_readableAt_of_passed h hn
  region := nofun
  softErrors := congrArg (crossed address) (List.filter_eq_self.2 fun _ _ => rfl).symm

namespace Starts

theorem firstRegion (h : Starts address ms before after m region) (hms : Ascending ms) :
    FirstRegion ms address region where
  reaches := Nat.lt_of_lt_of_le h.reaches.1 h.grows.stop_le
  readable _ := h.readableAt
  ends := h.not_readableAt_stop hms
  first _ := h.not_readableAt_below hms
  starts := by
    have hmem : m ∈ ms := h.split ▸ List.mem_append_right _ List.mem_cons_self
    have hstart : (m.start : Address) = region.start := h.grows.start_eq.symm
    have hr := h.reaches
    rw [Reaches, Address.lt_def, Address.lt_def] at hr
    refine ⟨m, hmem, h.readable, hstart, max address.toNat m.start.toNat, ?_, ?_, ?_⟩
    · exact ⟨Nat.le_max_right _ _, Nat.max_lt.2 hr⟩
    · exact Nat.le_max_left _ _
    · intro k h1 h2
      exact h.not_readableAt_below hms h1 (by rw [← hstart]; omega)

/-- The mappings below the region are those before the one that starts it. -/
theorem filter_below (h : Starts address ms before after m region) (hms : Ascending ms) :
    (ms.filter fun k => k.stop ≤ region.start) = before := by
  have hlt := h.reaches.2
  obtain ⟨hbefore, hafter⟩ := h.ascending hms
  have hbounds := hms.bounds
  rw [h.split] at hbounds
  have habove : ∀ k ∈ m :: after, ¬k.stop ≤ m.start := by
    rw [List.forall_mem_cons]
    refine ⟨Nat.not_le_of_lt hlt, fun k hk => Nat.not_le_of_lt ?_⟩
    have hle := hbounds k (List.mem_append_right _ (List.mem_cons_of_mem _ hk))
    exact Nat.lt_of_lt_of_le hlt (Nat.le_trans (hafter k hk) hle)
  rw [h.split, h.grows.start_eq, List.filter_append,
    List.filter_eq_self.2 fun k hk => decide_eq_true (hbefore k hk),
    List.filter_eq_nil_iff.2 fun k hk => by simpa using habove k hk, List.append_nil]

theorem not_past (h : Starts address ms before after m region) (hms : Ascending ms)
    (hafter : ∀ k ∈ after, ¬k.Past region) : ∀ k ∈ ms, ¬k.Past region := by
  have hbelow {k : Mapping} (hk : k.start ≤ m.start) : ¬k.Past region := fun hp =>
    Nat.not_lt_of_le (Nat.le_trans hp.2 hk) (h.grows.start_eq ▸ h.grows.exact.start_lt_stop)
  intro k hk
  rw [h.split, List.mem_append, List.mem_cons] at hk
  rcases hk with hk | rfl | hk
  · have hle := hms.bounds k (h.split ▸ List.mem_append_left _ hk)
    exact hbelow (Nat.le_trans hle ((h.ascending hms).1 k hk))
  · exact hbelow (Nat.le_refl _)
  · exact hafter k hk

theorem owes (h : Starts address ms before after m region) (hms : Ascending ms) :
    Owes ms address (some region) (crossed address before) where
  none_iff := by
    obtain ⟨n, ha, -, -, hread, -⟩ := (h.firstRegion hms).exists_first
    exact iff_of_false nofun fun hnone => hnone n ha hread
  region r hr := Option.some.inj hr ▸ h.firstRegion hms
  softErrors := by simp only [Option.all_some, h.filter_below hms]

end Starts

theorem regionAt_owes (hms : Ascending ms) (address : Address) :
    ∃ found, (regionAt (ms.map .ok) address).result = .ok found ∧
      Owes ms address found (regionAt (ms.map .ok) address).softErrors := by
  rcases run_none address hms with ⟨hnone, heq⟩ | ⟨before, m, after, region, hs, heq⟩
  · rw [heq]
    exact ⟨none, rfl, owes_none hnone⟩
  · rw [heq]
    exact ⟨some region, rfl, hs.owes hms⟩

/-- A lookup at a byte that can be read crosses nothing. -/
theorem regionAt_quiet (hms : Ascending ms) (h : ReadableAt ms address.toNat) :
    (regionAt (ms.map .ok) address).softErrors = [] := by
  obtain ⟨found, -, howes⟩ := regionAt_owes hms address
  cases found with
  | none => exact absurd h (howes.none_iff.1 rfl _ (Nat.le_refl _))
  | some r =>
    have hstart : r.start.toNat ≤ address.toNat := Nat.le_of_not_lt fun hlt =>
      (howes.region r rfl).first _ (Nat.le_refl _) hlt h
    rw [howes.softErrors, crossed, List.map_eq_nil_iff, List.filter_eq_nil_iff]
    intro m hm hcross
    obtain ⟨-, hbelow⟩ := List.mem_filter.1 hm
    simp only [Option.all_some, decide_eq_true_eq, Address.le_def] at hbelow
    simp only [Bool.and_eq_true, decide_eq_true_eq, Reaches, Address.lt_def] at hcross
    omega

/-- Where a mapping that was read ends the search, so was the first readable byte. -/
theorem exists_readableAt_of_past {rest : List Mapping} {r : Region}
    (hms : Ascending (ms ++ rest)) (hr : FirstRegion (ms ++ rest) address r) (hm : m ∈ ms)
    (hp : m.Past r) : ∃ n, address.toNat ≤ n ∧ n < r.stop.toNat ∧ ReadableAt ms n := by
  obtain ⟨n, ha, -, hn, hread, -⟩ := hr.exists_first
  obtain ⟨hlt, hstop⟩ := hp
  refine ⟨n, ha, hn, (readableAt_append.1 hread).resolve_right ?_⟩
  rintro ⟨k, hk, -, hhas, -⟩
  have hle : m.stop ≤ k.start := (List.pairwise_append.1 hms.pairwise).2.2 m hm k hk
  rw [Address.le_def] at hle hstop
  rw [Address.lt_def] at hlt
  omega

theorem not_endsSearch_of_passed {rest : List Mapping} (hms : Ascending (ms ++ rest))
    (h : ∀ k ∈ ms, k.readable → ¬k.Reaches address) (hm : m ∈ ms) :
    ¬EndsSearch (ms ++ rest) address m := by
  rintro ⟨r, hr, hp⟩
  obtain ⟨n, ha, -, hread⟩ := exists_readableAt_of_past hms hr hm hp
  exact not_readableAt_of_passed h ha hread

theorem not_endsSearch_of_going {rest : List Mapping} {k : Mapping}
    (hms : Ascending (ms ++ rest)) (hs : Starts address ms before after m region) (hk : k ∈ ms)
    (h : ¬k.Past region) : ¬EndsSearch (ms ++ rest) address k := by
  rintro ⟨r, hr, hp⟩
  obtain ⟨n, ha, hn, hread⟩ := exists_readableAt_of_past hms hr hk hp
  have hstart : region.start.toNat ≤ n := Nat.le_of_not_lt fun hlt =>
    hs.not_readableAt_below hms.left ha hlt hread
  -- The stop of `r` lies inside the region that was found, so it can be read.
  have hstop : r.stop.toNat < region.stop.toNat :=
    Nat.lt_of_not_le fun hle => h ⟨hp.1, Nat.le_trans hle hp.2⟩
  have hread' := hs.readableAt (Nat.le_trans hstart (Nat.le_of_lt hn)) hstop
  exact hr.ends (readableAt_append.2 (.inl hread'))

/-- The search either ended among the mappings before the error, and then nothing after them
matters, or the error is its result. -/
theorem regionAt_error {rest : List (Except MemoryError Mapping)} (e : MemoryError)
    (hms : Ascending (ms ++ ofListing rest)) (address : Address) :
    let outcome := regionAt (ms.map .ok ++ .error e :: rest) address
    ((∃ m ∈ ms, EndsSearch (ms ++ ofListing rest) address m) ∧
      ∃ found, outcome.result = .ok found ∧
        Owes (ms ++ ofListing rest) address found outcome.softErrors) ∨
    ((∀ m ∈ ms, ¬EndsSearch (ms ++ ofListing rest) address m) ∧ outcome.result = .error e ∧
      ∃ found, Owes ms address found outcome.softErrors) := by
  have hrun (tail : List (Except MemoryError Mapping)) :
      regionAt (ms.map .ok ++ tail) address = (feedAll address {} ms).resume address tail :=
    run_append _ _ _
  simp only [hrun]
  rcases feedAll_none address [] hms.left with
    ⟨hnone, heq⟩ | ⟨before, m, after, region, hs, hreached⟩
  · rw [heq]
    exact .inr ⟨fun m => not_endsSearch_of_passed hms hnone, rfl, none, owes_none hnone⟩
  · have howes := hs.owes hms.left
    generalize feedAll address {} ms = step at hrun hreached
    cases hreached with
    | going hgoing =>
      have hpast := hs.not_past hms.left hgoing
      have hgo (k : Mapping) (hk : k ∈ ms) := not_endsSearch_of_going hms hs hk (hpast k hk)
      exact .inr ⟨hgo, rfl, some region, howes⟩
    | @ended k hk hpast =>
      obtain ⟨found, hok, howes⟩ := regionAt_owes hms address
      rw [List.map_append, hrun] at hok howes
      have hmem : k ∈ ms := hs.split ▸ List.mem_append_right _ (List.mem_cons_of_mem _ hk)
      cases hok
      exact .inl ⟨⟨k, hmem, region, howes.region region rfl, hpast⟩, some region, rfl, howes⟩

/-- Looking a region up meets its contract, and an error in the listing is the result just where it
comes before the mapping that ends the search. Soft errors found before it are kept. -/
theorem regionAt_contract {items : List (Except MemoryError Mapping)}
    (h : Ascending (ofListing items)) (address : Address) :
    let outcome := regionAt items address
    ((∀ e, .error e ∉ items) → ∃ found, outcome.result = .ok found ∧
      Owes (ofListing items) address found outcome.softErrors) ∧
    ∀ before e rest, items = before.map .ok ++ .error e :: rest →
      (outcome.result = .error e ↔ ∀ m ∈ before, ¬EndsSearch (ofListing items) address m) ∧
      (outcome.result = .error e → ∃ found, Owes before address found outcome.softErrors) ∧
      (outcome.result ≠ .error e → ∃ found, outcome.result = .ok found ∧
        Owes (ofListing items) address found outcome.softErrors) := by
  refine ⟨fun hok => ?_, ?_⟩
  · have howes := regionAt_owes h address
    rwa [map_ok_ofListing hok] at howes
  · rintro before e rest rfl
    rw [ofListing_append] at h ⊢
    rcases regionAt_error e h address with
      ⟨⟨m, hm, hends⟩, found, hok, howes⟩ | ⟨hnone, herr, howes⟩
    · have hne : (regionAt (before.map .ok ++ .error e :: rest) address).result ≠ .error e := by
        rw [hok]
        exact nofun
      exact ⟨⟨fun he => absurd he hne, fun hnone => absurd hends (hnone m hm)⟩,
        fun he => absurd he hne, fun _ => ⟨found, hok, howes⟩⟩
    · exact ⟨iff_of_true herr hnone, fun _ => howes, fun hne => absurd herr hne⟩

/-- Empty mappings lie where two readable ones touch, and the listing breaks off only after the
mapping that ends the search. -/
theorem regionAt_contract_touching :
    let before : List Mapping :=
      [⟨0x10, 0x20, false⟩, ⟨0x20, 0x20, true⟩, ⟨0x20, 0x30, true⟩, ⟨0x30, 0x30, false⟩,
        ⟨0x30, 0x40, true⟩, ⟨0x40, 0x50, false⟩]
    let items := before.map .ok ++ [.error (.io "broken")]
    Ascending (ofListing items) ∧ (∃ m ∈ before, EndsSearch (ofListing items) 0x18 m) ∧
      Owes (ofListing items) 0x18 (some ⟨0x20, 0x20⟩) [.unreadable 0x10 0x20] := by
  intro before items
  have hasc : Ascending (ofListing items) := ⟨by decide, by decide⟩
  have hresult : (regionAt items 0x18).result = .ok (some ⟨0x20, 0x20⟩) := rfl
  have hne : (regionAt items 0x18).result ≠ .error (.io "broken") := nofun
  obtain ⟨hiff, -, hok⟩ := (regionAt_contract hasc 0x18).2 before (.io "broken") [] rfl
  obtain ⟨found, hfound, howes⟩ := hok hne
  cases hresult.symm.trans hfound
  refine ⟨hasc, Classical.byContradiction fun hnone => hne (hiff.2 fun m hm hends => ?_), howes⟩
  exact hnone ⟨m, hm, hends⟩

end Lookup
end ProcessMemory
