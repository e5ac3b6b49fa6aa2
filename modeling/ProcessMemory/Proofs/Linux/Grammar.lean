import Mathlib.Data.List.Forall2
import ProcessMemory.Linux.MapEntry
import ProcessMemory.Proofs.Text.Address
import ProcessMemory.Proofs.Text.Utf8

/-!
# The grammar of listings

Which lines are entries, said without a reader: how a line falls into fields, and what two of the
fields have to look like. A listing is read where each of its lines is an entry or blank, and the
first line that is neither is the one an error names.
-/
namespace ProcessMemory.Linux

open Text

variable {cs line rest field : List Char} {fields ls : List (List Char)} {e : MapEntry}
  {start stop : Address} {number : Nat} {entries : List MapEntry}

/-! ## Fields -/

/-- The text begins with some fields, blanks aside, and `rest` follows them. A field is a longest
run of characters that are not blank. -/
inductive BeginsWith : List Char → List (List Char) → List Char → Prop where
  | nil {rest : List Char} : BeginsWith rest [] rest
  | field {gap field mid rest : List Char} {fields : List (List Char)}
    (hgap : ∀ c ∈ gap, isBlank c) (hne : field ≠ []) (hfield : ∀ c ∈ field, isBlank c = false)
    (hmid : ∀ c ∈ mid.head?, isBlank c) (hrest : BeginsWith mid fields rest) :
    BeginsWith (gap ++ (field ++ mid)) (field :: fields) rest

theorem beginsWith_nil : BeginsWith cs [] rest ↔ cs = rest := by
  constructor
  · intro h
    cases h
    rfl
  · rintro rfl
    exact .nil

/-- The fields of a text are what reading them one after another gives. -/
theorem beginsWith_cons :
    BeginsWith cs (field :: fields) rest ↔
      ∃ mid, nextField? cs = some (field, mid) ∧ BeginsWith mid fields rest := by
  constructor
  · intro h
    cases h with
    | @field gap _ mid _ _ hgap hne hfield hmid hrest =>
      exact ⟨mid, nextField?_append hgap hne hfield hmid, hrest⟩
  · rintro ⟨mid, hnext, hrest⟩
    obtain ⟨gap, rfl, hgap, hne, hfield, hmid⟩ := nextField?_eq_some.1 hnext
    exact .field hgap hne hfield hmid hrest

/-! ## Lines -/

/-- The bounds of a mapping as hexadecimal numerals, with the first dash between them. -/
inductive IsRange : List Char → Address → Address → Prop where
  | range {lower upper : List Char} {start stop : Address} (hdash : '-' ∉ lower)
    (hlower : Numeral.DenotesSigned 16 lower start.toNat)
    (hupper : Numeral.DenotesSigned 16 upper stop.toNat) (hle : start ≤ stop) :
    IsRange (lower ++ '-' :: upper) start stop

theorem bounds?_eq_some :
    MapEntry.bounds? field = some (start, stop) ↔ IsRange field start stop := by
  constructor
  · intro h
    simp only [MapEntry.bounds?, Option.bind_eq_bind, Option.bind_eq_some_iff] at h
    obtain ⟨⟨lower, upper⟩, hsplit, n, hlower, start', hstart, m, hupper, stop', hstop, hle⟩ := h
    obtain ⟨rfl, hdash⟩ := splitFirst?_eq_some.1 hsplit
    split at hle
    · cases hle
    · rename_i hnot
      cases hle
      have hreads {cs : List Char} {n : Nat} {a : Address}
          (hread : Numeral.read? 16 0x1_0000_0000_0000_0000 cs = some n)
          (ha : Address.ofNat? n = some a) : Numeral.DenotesSigned 16 cs a.toNat :=
        (Address.ofNat?_read?_eq_some (by decide)).1 (Option.bind_eq_some_iff.2 ⟨n, hread, ha⟩)
      exact .range hdash (hreads hlower hstart) (hreads hupper hstop) (Nat.not_lt.1 hnot)
  · intro h
    cases h with
    | @range lower upper start stop hdash hlower hupper hle =>
      have hreads {cs : List Char} {a : Address} (h : Numeral.DenotesSigned 16 cs a.toNat) :
          ∃ n, Numeral.read? 16 0x1_0000_0000_0000_0000 cs = some n ∧
            Address.ofNat? n = some a :=
        Option.bind_eq_some_iff.1 ((Address.ofNat?_read?_eq_some (by decide)).2 h)
      obtain ⟨n, hlower, hstart⟩ := hreads hlower
      obtain ⟨m, hupper, hstop⟩ := hreads hupper
      have hnot : ¬stop < start := Nat.not_lt_of_le hle
      simp only [MapEntry.bounds?, splitFirst?_append hdash, hlower, hstart, hupper, hstop, hnot,
        if_false, Option.bind_eq_bind, Option.bind_some, Option.pure_def]

theorem byteCount_eq_length (cs : List Char) :
    MapEntry.byteCount cs = (Utf8.encodeAll cs).length := by
  have hfold : ∀ n, cs.foldl (fun n c => n + c.utf8Size) n = n + (Utf8.encodeAll cs).length := by
    induction cs with
    | nil => exact fun n => rfl
    | cons c cs ih =>
      intro n
      rw [List.foldl_cons, ih, Utf8.encodeAll, Utf8.encodeAll, List.flatMap_cons,
        List.length_append, Utf8.length_encode, Nat.add_assoc]
  rw [MapEntry.byteCount, hfold, Nat.zero_add]

/-- What is left of a line after its fields, without blanks in front, if there is any. -/
def pathOf (rest : List Char) : Option String :=
  if (trimLeft rest).isEmpty then none else some (String.ofList (trimLeft rest))

/-- The line has five fields at least. The first holds the bounds, and the second takes four bytes
in UTF-8 and begins with the letter `r` where the mapping can be read. -/
inductive IsEntry : List Char → MapEntry → Prop where
  | line {line range perms offset device inode rest : List Char} {start stop : Address}
    (hfields : BeginsWith line [range, perms, offset, device, inode] rest)
    (hrange : IsRange range start stop) (hperms : (Utf8.encodeAll perms).length = 4) :
    IsEntry line ⟨start, stop, perms.head? == some 'r', pathOf rest⟩

theorem parse?_eq_some : MapEntry.parse? line = some e ↔ IsEntry line e := by
  constructor
  · intro h
    simp only [MapEntry.parse?, Option.bind_eq_bind, Option.bind_eq_some_iff] at h
    obtain ⟨⟨range, r₁⟩, h₁, ⟨perms, r₂⟩, h₂, ⟨offset, r₃⟩, h₃, ⟨device, r₄⟩, h₄, ⟨inode, r₅⟩, h₅,
      ⟨start, stop⟩, hbounds, h⟩ := h
    split at h
    · cases h
    · rename_i hperms
      cases h
      have hfields : BeginsWith line [range, perms, offset, device, inode] r₅ := by
        simp only [beginsWith_cons, beginsWith_nil]
        exact ⟨r₁, h₁, r₂, h₂, r₃, h₃, r₄, h₄, r₅, h₅, rfl⟩
      have hsize := Decidable.not_not.1 hperms
      rw [byteCount_eq_length] at hsize
      exact .line hfields (bounds?_eq_some.1 hbounds) hsize
  · intro h
    cases h with
    | @line range perms offset device inode rest start stop hfields hrange hperms =>
      simp only [beginsWith_cons, beginsWith_nil] at hfields
      obtain ⟨r₁, h₁, r₂, h₂, r₃, h₃, r₄, h₄, r₅, h₅, rfl⟩ := hfields
      rw [← byteCount_eq_length] at hperms
      simp only [MapEntry.parse?, h₁, h₂, h₃, h₄, h₅, bounds?_eq_some.2 hrange, hperms,
        Option.bind_eq_bind, Option.bind_some, Option.pure_def]
      exact if_neg (fun hne => hne rfl)

theorem IsEntry.unique {e' : MapEntry} (h : IsEntry line e) (h' : IsEntry line e') : e = e' :=
  Option.some.inj ((parse?_eq_some.2 h).symm.trans (parse?_eq_some.2 h'))

theorem IsEntry.not_blank (h : IsEntry line e) : ¬∀ c ∈ line, isBlank c := by
  intro hblank
  cases h with
  | @line range _ _ _ _ _ _ _ hfields _ _ =>
    cases hfields with
    | @field gap _ mid _ _ hgap hne hfield hmid hrest =>
      obtain ⟨c, hc⟩ := List.exists_mem_of_ne_nil range hne
      have hmem : c ∈ gap ++ (range ++ mid) := by simp [hc]
      exact absurd (hblank c hmem) (by simp [hfield c hc])

/-! ## Listings -/

def Passes (line : List Char) : Prop := (∀ c ∈ line, isBlank c) ∨ ∃ e, IsEntry line e

theorem blank_or_entry_or_bad (line : List Char) :
    (∀ c ∈ line, isBlank c) ∨ (∃ e, IsEntry line e) ∨ ¬Passes line := by
  by_cases h : Passes line
  · exact or_assoc.1 (.inl h)
  · exact .inr (.inr h)

/-- The line that `e` names is the first of `ls` that does not pass, where counting starts with
`number`. -/
def Blames (ls : List (List Char)) (number : Nat) (e : MalformedLine) : Prop :=
  ∃ before line after, ls = before ++ line :: after ∧ (∀ l ∈ before, Passes l) ∧ ¬Passes line ∧
    e = ⟨before.length + number, line⟩

theorem not_blames_nil {e : MalformedLine} : ¬Blames [] number e := by
  rintro ⟨before, line, after, hls, -⟩
  cases before <;> cases hls

theorem blames_cons_of_passes {e : MalformedLine} (h : Passes line) :
    Blames (line :: ls) number e ↔ Blames ls (number + 1) e := by
  constructor
  · rintro ⟨before, bad, after, hls, hbefore, hbad, rfl⟩
    cases before with
    | nil =>
      cases hls
      exact absurd h hbad
    | cons head before =>
      cases hls
      refine ⟨before, bad, after, rfl, fun l hl => hbefore l (List.mem_cons_of_mem _ hl), hbad, ?_⟩
      rw [List.length_cons, Nat.add_right_comm, Nat.add_assoc]
  · rintro ⟨before, bad, after, rfl, hbefore, hbad, rfl⟩
    refine ⟨line :: before, bad, after, rfl, List.forall_mem_cons.2 ⟨h, hbefore⟩, hbad, ?_⟩
    rw [List.length_cons, Nat.add_right_comm, Nat.add_assoc]

theorem blames_cons_of_not_passes {e : MalformedLine} (h : ¬Passes line) :
    Blames (line :: ls) number e ↔ e = ⟨number, line⟩ := by
  constructor
  · rintro ⟨before, bad, after, hls, hbefore, -, rfl⟩
    cases before with
    | nil =>
      cases hls
      rw [List.length_nil, Nat.zero_add]
    | cons head before =>
      cases hls
      exact absurd (hbefore line List.mem_cons_self) h
  · rintro rfl
    exact ⟨[], line, ls, rfl, by simp, h, by rw [List.length_nil, Nat.zero_add]⟩

def written (ls : List (List Char)) : List (List Char) := ls.filter fun line => !line.all isBlank

theorem written_cons_of_blank (h : ∀ c ∈ line, isBlank c) (ls : List (List Char)) :
    written (line :: ls) = written ls :=
  List.filter_cons_of_neg (by simpa using h)

theorem written_cons_of_not_blank (h : ¬∀ c ∈ line, isBlank c) (ls : List (List Char)) :
    written (line :: ls) = line :: written ls :=
  List.filter_cons_of_pos (by simpa using h)

def readLines (ls : List (List Char)) (number : Nat) : Except MalformedLine (List MapEntry) :=
  ((ls.zipIdx number).filter fun (line, _) => !(trim line).isEmpty).mapM fun (line, number) =>
    match MapEntry.parse? line with
    | some entry => .ok entry
    | none => .error ⟨number, line⟩

theorem readLines_cons_of_blank (h : ∀ c ∈ line, isBlank c) (ls : List (List Char)) :
    readLines (line :: ls) number = readLines ls (number + 1) := by
  rw [readLines, List.zipIdx_cons, List.filter_cons_of_neg (by simp [trim_eq_nil.2 h])]
  rfl

theorem readLines_cons_of_not_blank (h : ¬∀ c ∈ line, isBlank c) (ls : List (List Char)) :
    readLines (line :: ls) number =
      match MapEntry.parse? line with
      | some e => (readLines ls (number + 1)).map (e :: ·)
      | none => .error ⟨number, line⟩ := by
  rw [readLines, List.zipIdx_cons, List.filter_cons_of_pos (by simpa [← trim_eq_nil] using h),
    List.mapM_cons]
  cases hparse : MapEntry.parse? line with
  | none =>
    simp only [hparse]
    rfl
  | some e =>
    simp only [hparse]
    rfl

theorem readLines_cons_of_entry (he : IsEntry line e) (ls : List (List Char)) :
    readLines (line :: ls) number = (readLines ls (number + 1)).map (e :: ·) := by
  rw [readLines_cons_of_not_blank he.not_blank, parse?_eq_some.2 he]

theorem readLines_cons_of_not_passes (h : ¬Passes line) (ls : List (List Char)) :
    readLines (line :: ls) number = .error ⟨number, line⟩ := by
  have hparse : MapEntry.parse? line = none :=
    Option.eq_none_iff_forall_ne_some.2 fun e he => h (.inr ⟨e, parse?_eq_some.1 he⟩)
  rw [readLines_cons_of_not_blank (fun hblank => h (.inl hblank)), hparse]

theorem map_cons_eq_ok {read : Except MalformedLine (List MapEntry)} :
    read.map (e :: ·) = .ok entries ↔ ∃ later, read = .ok later ∧ entries = e :: later := by
  cases read with
  | error _ => exact ⟨nofun, fun ⟨_, h, _⟩ => nomatch h⟩
  | ok later =>
    constructor
    · intro h
      cases h
      exact ⟨later, rfl, rfl⟩
    · rintro ⟨_, h, rfl⟩
      cases h
      rfl

theorem map_cons_eq_error {read : Except MalformedLine (List MapEntry)} {bad : MalformedLine} :
    read.map (e :: ·) = .error bad ↔ read = .error bad := by
  cases read with
  | error _ => exact Iff.rfl
  | ok later => exact ⟨nofun, nofun⟩

/-- Every line that is not blank has its entry, in order. -/
theorem readLines_eq_ok :
    readLines ls number = .ok entries ↔ List.Forall₂ IsEntry (written ls) entries := by
  induction ls generalizing number entries with
  | nil =>
    rw [written, List.filter_nil, List.forall₂_nil_left_iff, eq_comm (a := entries)]
    exact ⟨Except.ok.inj, congrArg Except.ok⟩
  | cons line ls ih =>
    rcases blank_or_entry_or_bad line with hblank | ⟨e, he⟩ | hbad
    · rw [readLines_cons_of_blank hblank, written_cons_of_blank hblank]
      exact ih
    · rw [readLines_cons_of_entry he, written_cons_of_not_blank he.not_blank, map_cons_eq_ok,
        List.forall₂_cons_left_iff]
      constructor
      · rintro ⟨later, hlater, rfl⟩
        exact ⟨e, later, he, ih.1 hlater, rfl⟩
      · rintro ⟨e', later, he', hlater, rfl⟩
        obtain rfl := he.unique he'
        exact ⟨later, ih.2 hlater, rfl⟩
    · rw [readLines_cons_of_not_passes hbad,
        written_cons_of_not_blank (fun hblank => hbad (.inl hblank)), List.forall₂_cons_left_iff]
      exact ⟨nofun, fun ⟨e, _, he, _⟩ => absurd (.inr ⟨e, he⟩) hbad⟩

theorem exists_readLines :
    (∃ entries, readLines ls number = .ok entries) ↔ ∀ line ∈ ls, Passes line := by
  induction ls generalizing number with
  | nil => exact ⟨fun _ => by simp, fun _ => ⟨[], rfl⟩⟩
  | cons line ls ih =>
    have hlater : (∃ entries, readLines ls (number + 1) = .ok entries) ↔ ∀ line ∈ ls, Passes line :=
      ih
    rw [List.forall_mem_cons, ← hlater]
    rcases blank_or_entry_or_bad line with hblank | ⟨e, he⟩ | hbad
    · rw [readLines_cons_of_blank hblank]
      exact (and_iff_right (.inl hblank)).symm
    · simp only [readLines_cons_of_entry he, map_cons_eq_ok]
      constructor
      · rintro ⟨entries, later, hlater, -⟩
        exact ⟨.inr ⟨e, he⟩, later, hlater⟩
      · rintro ⟨-, later, hlater⟩
        exact ⟨e :: later, later, hlater, rfl⟩
    · rw [readLines_cons_of_not_passes hbad]
      exact ⟨nofun, fun h => absurd h.1 hbad⟩

theorem readLines_eq_error {bad : MalformedLine} :
    readLines ls number = .error bad ↔ Blames ls number bad := by
  induction ls generalizing number with
  | nil => exact ⟨nofun, fun h => absurd h not_blames_nil⟩
  | cons line ls ih =>
    rcases blank_or_entry_or_bad line with hblank | ⟨e, he⟩ | hbad
    · rw [readLines_cons_of_blank hblank, blames_cons_of_passes (.inl hblank)]
      exact ih
    · rw [readLines_cons_of_entry he, blames_cons_of_passes (.inr ⟨e, he⟩), map_cons_eq_error]
      exact ih
    · rw [readLines_cons_of_not_passes hbad, blames_cons_of_not_passes hbad, Except.error.injEq,
        eq_comm]

/-- A listing is read where each line is blank or an entry, with one entry for each line that is not
blank and in order. Otherwise the error names the first line that is neither, by its number among
all lines. -/
theorem parseMaps_grammar (text : List Char) :
    Cuts text (lines text) ∧
      ((∃ entries, parseMaps text = .ok entries) ↔ ∀ line ∈ lines text, Passes line) ∧
      (∀ entries, parseMaps text = .ok entries ↔
        List.Forall₂ IsEntry (written (lines text)) entries) ∧
      ∀ bad, parseMaps text = .error bad ↔ Blames (lines text) 1 bad :=
  ⟨cuts_lines text, exists_readLines, fun _ => readLines_eq_ok, fun _ => readLines_eq_error⟩

end ProcessMemory.Linux
