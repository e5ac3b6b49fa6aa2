import ProcessMemory.Proofs.Search.Unfailing
import ProcessMemory.Settings

/-!
# Searches with checked settings

The check of settings and their conversion to options read the same tags. So of settings that pass
the check nothing is lost, and with the options they give a search fails only if a lookup does.
-/
namespace ProcessMemory

namespace ScanSettings

variable {s : ScanSettings}

theorem check_eq_ok_iff :
    s.check = .ok () ↔ 2 ≤ s.bufferSize ∧ 1 ≤ s.workers ∧ s.workers ≤ 128 ∧
      ∀ tag ∈ s.charsets, (Charset.ofTag? tag).isSome := by
  unfold check
  split
  · exact iff_of_false nofun fun h => by omega
  · split
    · exact iff_of_false nofun fun h => by omega
    · split
      · exact iff_of_false nofun fun h => by omega
      · split
        · rename_i tag htag
          refine iff_of_false nofun fun h => ?_
          have hknown := h.2.2.2 tag (List.mem_of_find?_eq_some htag)
          have hunknown := List.find?_some htag
          rw [Option.isNone_iff_eq_none] at hunknown
          rw [hunknown] at hknown
          cases hknown
        · rename_i hnone
          rw [List.find?_eq_none] at hnone
          refine iff_of_true rfl ⟨by omega, by omega, by omega, fun tag htag => ?_⟩
          exact Option.ne_none_iff_isSome.1 (mt Option.isNone_iff_eq_none.2 (hnone tag htag))

/-- The options say all that the settings do, and no tag was passed over. -/
structure Carried (s : ScanSettings) (options : SearchOptions) (ignored : List Event) : Prop where
  bufferSize : options.bufferSize = s.bufferSize
  workers : options.workers = s.workers
  usual : s.charsets = [] → options.charsets = Charset.defaults
  charsets : s.charsets ≠ [] → options.charsets.map some = s.charsets.map Charset.ofTag?
  ignored : ignored = []

theorem map_some_filterMap {tags : List String}
    (h : ∀ tag ∈ tags, (Charset.ofTag? tag).isSome) :
    (tags.filterMap Charset.ofTag?).map some = tags.map Charset.ofTag? := by
  induction tags with
  | nil => rfl
  | cons tag rest ih =>
    obtain ⟨hfirst, hrest⟩ := List.forall_mem_cons.1 h
    obtain ⟨charset, hcharset⟩ := Option.isSome_iff_exists.1 hfirst
    rw [List.filterMap_cons_some hcharset, List.map_cons, List.map_cons, ih hrest, hcharset]

theorem carried_options (h : s.check = .ok ()) : s.Carried s.options.1 s.options.2 := by
  obtain ⟨-, hworkers, -, htags⟩ := check_eq_ok_iff.1 h
  have hmap := map_some_filterMap htags
  refine ⟨rfl, Nat.max_eq_left hworkers, fun hnil => ?_, fun hne => ?_, ?_⟩
  · simp only [options, hnil]
    rfl
  · have hkept : s.charsets.filterMap Charset.ofTag? ≠ [] := fun hnil => by
      rw [hnil] at hmap
      exact hne (List.map_eq_nil_iff.1 hmap.symm)
    rw [options, if_neg (mt List.isEmpty_iff.1 hkept), hmap]
  · have hnone : (s.charsets.filter fun tag => (Charset.ofTag? tag).isNone) = [] :=
      List.filter_eq_nil_iff.2 fun tag htag =>
        mt Option.isNone_iff_eq_none.1 (Option.ne_none_iff_isSome.2 (htags tag htag))
    rw [options, hnone]
    rfl

end ScanSettings

namespace Settings

variable {settings : Settings}

theorem check_eq_ok_iff :
    settings.check = .ok () ↔
      settings.scan.check = .ok () ∧ (Level.ofText? settings.level.toList).isSome := by
  rw [check]
  cases settings.scan.check with
  | error misfit => exact iff_of_false nofun fun h => nomatch h.1
  | ok =>
    cases Level.ofText? settings.level.toList with
    | none => exact iff_of_false nofun fun h => nomatch h.2
    | some level => exact iff_of_true rfl ⟨rfl, rfl⟩

/-- Settings that pass the check lose nothing on the way to a search, and no search with them fails
on a segmented process, whatever its segments and its faults. -/
theorem check_searchable (h : settings.check = .ok ()) :
    settings.scan.Carried settings.scan.options.1 settings.scan.options.2 ∧
      ∀ (p : SegmentedProcess) (choose : Nat → Nat) (start : Address) (w : SegmentedProcess.Wear),
        (p.targetChoosing choose).Searchable settings.scan.options.1 start w := by
  have hscan := (check_eq_ok_iff.1 h).1
  refine ⟨ScanSettings.carried_options hscan, fun p choose start w => ?_⟩
  have hsize : 0 < settings.scan.bufferSize :=
    Nat.lt_of_lt_of_le Nat.zero_lt_two (ScanSettings.check_eq_ok_iff.1 hscan).1
  exact (p.responds choose).searchable hsize start w

open SegmentedProcess in
/-- Two tags, one of them in another spelling, and a segment with a fault for ever. -/
theorem check_searchable_touching :
    let settings : Settings := { scan := ⟨2, 3, [" CP1252 ", "utf-16-odd"]⟩, level := "warn" }
    let t := touching.targetChoosing fun n => n
    settings.check = .ok () ∧
      settings.scan.options.1.charsets.map some = [some .windows1252, some .utf16Odd] ∧
      (findBytes t settings.scan.options.1 0 [4] ⟨[⟨0x13, .always⟩], 0⟩).outcome.isOk ∧
      (findBytesParallel t settings.scan.options.1 0 [4] ⟨[⟨0x13, .always⟩], 0⟩).outcome.isOk := by
  intro settings t
  have hcheck : settings.check = .ok () := by
    rw [check_eq_ok_iff, ScanSettings.check_eq_ok_iff]
    decide +kernel
  obtain ⟨hcarried, hsearch⟩ := check_searchable hcheck
  have hsearchable := hsearch touching (fun n => n) 0 ⟨[⟨0x13, .always⟩], 0⟩
  have hcharsets := hcarried.charsets (List.cons_ne_nil _ _)
  have htags : settings.scan.charsets.map Charset.ofTag? = [some .windows1252, some .utf16Odd] := by
    decide +kernel
  exact ⟨hcheck, hcharsets.trans htags, hsearchable.bytes [4] (List.cons_ne_nil _ _),
    hsearchable.bytesParallel [4] (List.cons_ne_nil _ _)⟩

end Settings
end ProcessMemory
