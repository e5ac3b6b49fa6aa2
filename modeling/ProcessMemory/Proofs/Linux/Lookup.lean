import ProcessMemory.Linux.Host
import ProcessMemory.Proofs.Regions

/-!
# Lookups by a listing

Lookups in a Linux process go by the mappings that its listing tells of, the kernel's own left out.
Leaving these out lets no region grow across them, for they have bytes that no other entry has.
-/
namespace ProcessMemory.Linux

open Mapping

namespace MapEntry

def Has (e : MapEntry) (n : Nat) : Prop := e.mapping.Has n

instance (e : MapEntry) (n : Nat) : Decidable (e.Has n) := inferInstanceAs (Decidable (_ ∧ _))

end MapEntry

/-- The mappings that lookups go by: those with bytes, the kernel's own left out. -/
def visible (entries : List MapEntry) : List Mapping :=
  ((entries.filter fun e => !e.isPseudo).map MapEntry.mapping).filter fun m => m.start < m.stop

/-- The mappings that lookups go by ascend and share no byte with one another or with one of the
kernel's own. Where an entry without bytes stands does not matter. -/
structure Laid (entries : List MapEntry) : Prop where
  ascending : (visible entries).Pairwise fun a b => a.stop ≤ b.start
  clear : ∀ m ∈ visible entries, ∀ e ∈ entries, e.isPseudo → ∀ n, m.Has n → ¬e.Has n

variable {entries : List MapEntry} {e : MapEntry} {n : Nat}

theorem mem_visible {m : Mapping} :
    m ∈ visible entries ↔
      ∃ e ∈ entries, ¬e.isPseudo ∧ e.mapping = m ∧ m.start < m.stop := by
  simp only [visible, List.mem_filter, List.mem_map, decide_eq_true_eq, Bool.not_eq_true',
    Bool.not_eq_true]
  constructor
  · rintro ⟨⟨e, ⟨he, hpseudo⟩, heq⟩, hlt⟩
    exact ⟨e, he, hpseudo, heq, hlt⟩
  · rintro ⟨e, he, hpseudo, heq, hlt⟩
    exact ⟨⟨e, ⟨he, hpseudo⟩, heq⟩, hlt⟩

theorem Laid.mappings (h : Laid entries) : Ascending (visible entries) where
  bounds m hm := by
    obtain ⟨-, -, -, -, hlt⟩ := mem_visible.1 hm
    exact Nat.le_of_lt hlt
  pairwise := h.ascending

/-- A byte that lookups can find is in no entry of the kernel's own, and in none that is
unreadable. -/
theorem Laid.readable_of_has (h : Laid entries) (hread : ReadableAt (visible entries) n)
    (he : e ∈ entries) (hn : e.Has n) : ¬e.isPseudo ∧ e.readable := by
  obtain ⟨m, hm, hr, hmn⟩ := hread
  have hpseudo : ¬e.isPseudo := fun hpseudo => h.clear m hm e he hpseudo n hmn hn
  have hlt : e.start < e.stop := Nat.lt_of_le_of_lt hn.1 hn.2
  have hvisible : e.mapping ∈ visible entries := mem_visible.2 ⟨e, he, hpseudo, rfl, hlt⟩
  have heq := h.mappings.eq_of_has hm hvisible hmn hn
  rw [heq] at hr
  exact ⟨hpseudo, hr⟩

theorem lookupIn_eq (entries : List MapEntry) (address : Address) :
    lookupIn entries address = regionAt ((visible entries).map .ok) address := by
  rw [visible, Lookup.regionAt_filter, List.map_map]
  rfl

/-- A lookup finds the region that its contract owes, and nothing in it is the kernel's own. -/
theorem Laid.lookupIn_owes (h : Laid entries) (address : Address) :
    ∃ found, (lookupIn entries address).result = .ok found ∧
      Owes (visible entries) address found (lookupIn entries address).softErrors ∧
      ∀ r, found = some r → r.Exact ∧
        ∀ n, r.start.toNat ≤ n → n < r.stop.toNat →
          ∀ e ∈ entries, e.Has n → ¬e.isPseudo ∧ e.readable := by
  obtain ⟨found, hfound, howes⟩ := Lookup.regionAt_owes h.mappings address
  rw [lookupIn_eq]
  refine ⟨found, hfound, howes, ?_⟩
  rintro r rfl
  refine ⟨regionAt_exact h.mappings hfound, ?_⟩
  intro n hstart hstop e he hn
  exact h.readable_of_has ((howes.region r rfl).readable n hstart hstop) he hn

namespace ProcessFiles

variable {f : ProcessFiles} {text : List Char}

theorem entries_of_parse (pid : ProcessId) (hmaps : f.maps = .ok text)
    (hparse : parseMaps text = .ok entries) : f.entries pid = .ok entries := by
  rw [ProcessFiles.entries, hmaps]
  change (parseMaps text).mapError _ = _
  rw [hparse]
  rfl

theorem target_lookup (pid : ProcessId) (hmaps : f.maps = .ok text)
    (hparse : parseMaps text = .ok entries) (address : Address) (s : Unit) :
    (f.target pid).lookup address s = (lookupIn entries address, ()) := by
  simp only [target, Target.stateless, entries_of_parse pid hmaps hparse]

/-- Where a listing can be read and its entries lie in order, every lookup gives the first region at
or above its address, and nothing of an entry that is unreadable or the kernel's own. One after
another, lookups find every readable byte once, and then come to an end. -/
theorem lookup_of_laid (pid : ProcessId) (hmaps : f.maps = .ok text)
    (hparse : parseMaps text = .ok entries) (h : Laid entries) :
    let lookup := fun address => ((f.target pid).lookup address ()).1
    (∀ address, ∃ found, (lookup address).result = .ok found ∧
      Owes (visible entries) address found (lookup address).softErrors ∧
      ∀ r, found = some r → r.Exact ∧
        ∀ n, r.start.toNat ≤ n → n < r.stop.toNat →
          ∀ e ∈ entries, e.Has n → ¬e.isPseudo ∧ e.readable) ∧
    ∃ regions, Lists lookup 0 regions ∧
      (readableRegions (f.target pid) 0 ()).outcome.result = .ok regions ∧
      ∀ a : Address,
        regions.countP (fun r => a ∈ r) = if ReadableAt (visible entries) a.toNat then 1 else 0 := by
  intro lookup
  have hlookup : lookup = lookupIn entries := by
    funext address
    exact congrArg Prod.fst (target_lookup pid hmaps hparse address ())
  have hlisting : regionAt ((visible entries).map .ok) = lookup := by
    funext address
    rw [hlookup, lookupIn_eq]
  obtain ⟨regions, hlists, hsep⟩ := exists_lists h.mappings 0
  rw [hlisting] at hlists
  have hstate : ∀ a s, (f.target pid).lookup a s = (lookup a, s) := fun _ _ => rfl
  refine ⟨?_, regions, hlists, readableRegions_lists hstate hlists (), hsep.countP_mem⟩
  rw [hlookup]
  exact h.lookupIn_owes

set_option maxRecDepth 4000 in
/-- One of the kernel's own between two entries that both touch it, an entry without bytes inside
another, and a lookup that starts in an unreadable one. -/
theorem lookup_of_laid_parted :
    let text := ("10-20 ---p 0 0 0\n20-30 r--p 0 0 0 /a b\n28-28 rw-p 0 0 0\n" ++
      "30-40 r--p 0 0 0 [vvar]\n40-50 rw-p 0 0 0").toList
    let entries : List MapEntry := [⟨0x10, 0x20, false, none⟩, ⟨0x20, 0x30, true, some "/a b"⟩,
      ⟨0x28, 0x28, true, none⟩, ⟨0x30, 0x40, true, some "[vvar]"⟩, ⟨0x40, 0x50, true, none⟩]
    let f : ProcessFiles := { ProcessFiles.missing with maps := .ok text }
    parseMaps text = .ok entries ∧ Laid entries ∧
      Owes (visible entries) 0x18 (some ⟨0x20, 0x10⟩) [.unreadable 0x10 0x20] ∧
      ∃ regions, Lists (fun address => ((f.target 1).lookup address ()).1) 0 regions := by
  intro text entries f
  have hparse : parseMaps text = .ok entries := rfl
  have hvisible : visible entries = [⟨0x10, 0x20, false⟩, ⟨0x20, 0x30, true⟩, ⟨0x40, 0x50, true⟩] :=
    rfl
  have hkernel : ∀ e ∈ entries, e.isPseudo → 0x30 ≤ e.start ∧ e.stop ≤ 0x40 := by
    decide
  have hbeside : ∀ m ∈ visible entries, m.stop ≤ 0x30 ∨ 0x40 ≤ m.start := by
    rw [hvisible]
    decide
  have hlaid : Laid entries := by
    constructor
    · rw [hvisible]
      decide
    · intro m hm e he hpseudo n hmn hen
      obtain ⟨hstart, hstop⟩ := hkernel e he hpseudo
      rcases hbeside m hm with hle | hle
      · exact Nat.not_lt_of_le hen.1 (Nat.lt_of_lt_of_le hmn.2 (Nat.le_trans hle hstart))
      · exact Nat.not_lt_of_le hmn.1 (Nat.lt_of_lt_of_le hen.2 (Nat.le_trans hstop hle))
  obtain ⟨hall, regions, hlists, -⟩ := lookup_of_laid 1 (f := f) rfl hparse hlaid
  obtain ⟨found, hfound, howes, -⟩ := hall 0x18
  have hanswer : ((f.target 1).lookup 0x18 ()).1 =
      ⟨.ok (some ⟨0x20, 0x10⟩), [.unreadable 0x10 0x20]⟩ := by
    rw [target_lookup 1 rfl hparse]
    rfl
  simp only [hanswer, Except.ok.injEq] at hfound howes
  rw [← hfound] at howes
  exact ⟨hparse, hlaid, howes, regions, hlists⟩

end ProcessFiles
end ProcessMemory.Linux
