import ProcessMemory.Linux.MapEntry
import ProcessMemory.Proofs.Text.Fields
import ProcessMemory.Proofs.Text.Numeral

/-!
# Listings read back

Reading a listing gives back what it was written from: an entry for each line, in order, whichever
way the numerals and the gaps are written, and with blank lines anywhere between.
-/
namespace ProcessMemory.Linux

open Text

namespace MapLine

def fields (l : MapLine) : List (List Char) := [l.perms, l.offset, l.device, l.inode]

/-- The fields can be told apart, and the path from what stands around it. -/
structure WellFormed (l : MapLine) : Prop where
  bounds : l.start ≤ l.stop
  perms : MapEntry.byteCount l.perms = 4
  nonempty : ∀ field ∈ l.fields, field ≠ []
  unbroken : ∀ field ∈ l.fields, ∀ c ∈ field, isBlank c = false
  named : ∀ path ∈ l.path, path ≠ []
  unpadded : ∀ path ∈ l.path, ∀ c ∈ path.head?, isBlank c = false
  oneLine : ∀ path ∈ l.path, '\n' ∉ path ∧ path.getLast? ≠ some '\r'

def ending (l : MapLine) (gap padding : Nat) : List Char :=
  l.path.elim (List.replicate padding ' ') (spaces gap ++ ·)

/-- The line is written as some text. The numerals may be of either case and start with zeros; `gap`
tells how many spaces beyond the first follow each field. -/
inductive Writes (l : MapLine) : List Char → Prop where
  | text {start stop : List Char} (hstart : Numeral.Denotes 16 start l.start.toNat)
    (hstop : Numeral.Denotes 16 stop l.stop.toNat) (gap : Nat → Nat) (padding : Nat) :
    Writes l (start ++ '-' :: stop ++ (spaces (gap 0) ++ (l.perms ++ (spaces (gap 1) ++
      (l.offset ++ (spaces (gap 2) ++ (l.device ++ (spaces (gap 3) ++ (l.inode ++
        l.ending (gap 4) padding)))))))))

variable {l : MapLine} {line : List Char}

/-- Printing is one of the ways to write a line. -/
theorem writes_print (gap : Nat → Nat) (l : MapLine) : l.Writes (l.print gap) := by
  have hstart := Numeral.denotes_print (by decide) (Nat.le_refl 16) l.start.toNat
  have hstop := Numeral.denotes_print (by decide) (Nat.le_refl 16) l.stop.toNat
  have htext := Writes.text hstart hstop gap 0
  simpa only [print, ending, List.append_assoc, List.replicate_zero, List.cons_append] using htext

theorem spaces_blank (n : Nat) : ∀ c ∈ spaces n, isBlank c := by
  intro c hc
  rw [List.eq_of_mem_replicate hc]
  rfl

theorem head?_spaces_append (n : Nat) (rest : List Char) :
    ∀ c ∈ (spaces n ++ rest).head?, isBlank c := by
  intro c hc
  simp only [spaces, List.replicate_succ, List.cons_append, List.head?_cons, Option.mem_def,
    Option.some.injEq] at hc
  rw [← hc]
  rfl

theorem head?_ending (l : MapLine) (gap padding : Nat) :
    ∀ c ∈ (l.ending gap padding).head?, isBlank c := by
  unfold ending
  cases l.path with
  | some path => exact head?_spaces_append gap path
  | none =>
    intro c hc
    rw [List.eq_of_mem_replicate (List.mem_of_mem_head? hc)]
    rfl

/-- What is left of a line after its fields is its path, blanks aside. -/
theorem trimLeft_ending (h : l.WellFormed) (gap padding : Nat) :
    trimLeft (l.ending gap padding) = l.path.getD [] := by
  have hunpadded := h.unpadded
  unfold ending
  cases hp : l.path with
  | some path =>
    have htrim := trimLeft_of_head? (hunpadded path hp)
    simpa [trimLeft_append (spaces_blank gap)] using htrim
  | none =>
    apply trimLeft_of_blanks
    intro c hc
    rw [List.eq_of_mem_replicate hc]
    rfl

theorem bounds?_text (h : l.start ≤ l.stop) {start stop : List Char}
    (hstart : Numeral.Denotes 16 start l.start.toNat)
    (hstop : Numeral.Denotes 16 stop l.stop.toNat) :
    MapEntry.bounds? (start ++ '-' :: stop) = some (l.start, l.stop) := by
  have hdash : '-' ∉ start := by
    intro hmem
    obtain ⟨d, hd⟩ := hstart.exists_digit hmem
    exact (Numeral.not_parts_of_digit? hd).2.1 rfl
  have hlow := hstart.read? (by decide) l.start.isLt
  have hhigh := hstop.read? (by decide) l.stop.isLt
  have hnat (a : Address) : Address.ofNat? a.toNat = some a := Address.ofNat?_eq_some.2 rfl
  have hle : ¬l.stop < l.start := Nat.not_lt_of_le h
  simp only [MapEntry.bounds?, splitFirst?_append hdash, hlow, hhigh, hnat, hle, if_false,
    Option.bind_eq_bind, Option.bind_some, Option.pure_def]

theorem range_unbroken {start stop : List Char} {m n : Nat} (hstart : Numeral.Denotes 16 start m)
    (hstop : Numeral.Denotes 16 stop n) : ∀ c ∈ start ++ '-' :: stop, isBlank c = false := by
  intro c hc
  rw [List.mem_append, List.mem_cons] at hc
  rcases hc with hc | rfl | hc
  · obtain ⟨d, hd⟩ := hstart.exists_digit hc
    exact (Numeral.not_parts_of_digit? hd).1
  · rfl
  · obtain ⟨d, hd⟩ := hstop.exists_digit hc
    exact (Numeral.not_parts_of_digit? hd).1

/-- Reading a line gives the entry that it was written from. -/
theorem parse?_of_writes (h : l.WellFormed) (hw : l.Writes line) :
    MapEntry.parse? line = some l.entry := by
  cases hw with
  | @text start stop hstart hstop gap padding =>
    have hbounds := bounds?_text h.bounds hstart hstop
    have hpath := trimLeft_ending h (gap 4) padding
    have hrange (rest : List Char) (hrest : ∀ c ∈ rest.head?, isBlank c) :
        nextField? (start ++ '-' :: stop ++ rest) = some (start ++ '-' :: stop, rest) := by
      have hnone : ∀ c ∈ [], isBlank c := by simp
      exact nextField?_append hnone (by simp) (range_unbroken hstart hstop) hrest
    have hfield {field : List Char} (hmem : field ∈ l.fields) (n : Nat) (rest : List Char)
        (hrest : ∀ c ∈ rest.head?, isBlank c) :
        nextField? (spaces n ++ (field ++ rest)) = some (field, rest) :=
      nextField?_append (spaces_blank n) (h.nonempty field hmem) (h.unbroken field hmem) hrest
    have hperms : l.perms ∈ l.fields := by simp [fields]
    have hoffset : l.offset ∈ l.fields := by simp [fields]
    have hdevice : l.device ∈ l.fields := by simp [fields]
    have hinode : l.inode ∈ l.fields := by simp [fields]
    simp only [MapEntry.parse?, hrange _ (head?_spaces_append _ _),
      hfield hperms _ _ (head?_spaces_append _ _), hfield hoffset _ _ (head?_spaces_append _ _),
      hfield hdevice _ _ (head?_spaces_append _ _), hfield hinode _ _ (head?_ending _ _ _), hbounds,
      h.perms, hpath, Option.bind_eq_bind, Option.bind_some, Option.pure_def]
    have hname : (if (l.path.getD []).isEmpty then none
        else some (String.ofList (l.path.getD []))) = l.path.map String.ofList := by
      cases hp : l.path with
      | none => rfl
      | some path => simp [h.named path hp]
    simp only [ne_eq, not_true_eq_false, if_false, hname, entry]

theorem newline_not_mem {field : List Char} (h : ∀ c ∈ field, isBlank c = false) :
    '\n' ∉ field := by
  intro hmem
  cases h '\n' hmem

theorem newline_not_mem_spaces (n : Nat) : '\n' ∉ spaces n := by
  intro hmem
  cases List.eq_of_mem_replicate hmem

/-- A line is one line. -/
theorem newline_not_mem_of_writes (h : l.WellFormed) (hw : l.Writes line) : '\n' ∉ line := by
  cases hw with
  | @text start stop hstart hstop gap padding =>
    have hrange := newline_not_mem (range_unbroken hstart hstop)
    have hfields : ∀ field ∈ l.fields, '\n' ∉ field := fun field hmem =>
      newline_not_mem (h.unbroken field hmem)
    have hending : '\n' ∉ l.ending (gap 4) padding := by
      have hpath := h.oneLine
      unfold ending
      cases hp : l.path with
      | none =>
        intro hmem
        cases List.eq_of_mem_replicate hmem
      | some path =>
        have hspaces := newline_not_mem_spaces (gap 4)
        simp [hspaces, (hpath path hp).1]
    simp only [fields, List.forall_mem_cons] at hfields
    obtain ⟨hperms, hoffset, hdevice, hinode, -⟩ := hfields
    simp only [List.mem_append, hrange, hperms, hoffset, hdevice, hinode, hending,
      newline_not_mem_spaces, or_self, not_false_eq_true]

/-- The last character of a line is one of its path, or a space, or one of its last field. -/
theorem exists_last (h : l.WellFormed) (gap padding : Nat) :
    ∃ c, (l.ending gap padding).getLast?.or l.inode.getLast? = some c ∧ c ≠ '\r' := by
  have hmem : l.inode ∈ l.fields := by simp [fields]
  have hinode := List.getLast?_eq_some_getLast (h.nonempty _ hmem)
  have hplain : l.inode.getLast (h.nonempty _ hmem) ≠ '\r' := by
    intro heq
    cases h.unbroken _ hmem '\r' (heq ▸ List.getLast_mem _)
  unfold ending
  cases hp : l.path with
  | some path =>
    have hlast := List.getLast?_eq_some_getLast (h.named path hp)
    have hreturn := (h.oneLine path hp).2
    rw [hlast] at hreturn
    refine ⟨_, ?_, fun heq => hreturn (congrArg some heq)⟩
    rw [Option.elim_some, List.getLast?_append, hlast, Option.some_or, Option.some_or]
  | none =>
    cases padding with
    | zero => exact ⟨_, hinode, hplain⟩
    | succ n =>
      refine ⟨' ', ?_, by decide⟩
      rw [Option.elim_none, List.replicate_succ', List.getLast?_concat, Option.some_or]

/-- No part of a line is taken for the end of a line. -/
theorem dropReturn_of_writes (h : l.WellFormed) (hw : l.Writes line) : dropReturn line = line := by
  apply dropReturn_of_getLast?
  cases hw with
  | @text start stop hstart hstop gap padding =>
    obtain ⟨c, hlast, hc⟩ := exists_last h (gap 4) padding
    simp only [List.getLast?_append, hlast, Option.some_or, ne_eq, Option.some.injEq]
    exact hc

/-- A line is not passed over. -/
theorem trim_ne_nil_of_writes (hw : l.Writes line) : trim line ≠ [] := by
  rw [ne_eq, trim_eq_nil]
  intro hblank
  cases hw with
  | @text start stop hstart hstop gap padding =>
    cases hblank '-' (by simp)

end MapLine

/-! ## Whole listings -/

inductive Reads : List (List Char) → List MapEntry → Prop where
  | nil : Reads [] []
  | blank {line : List Char} {lines : List (List Char)} {entries : List MapEntry}
    (hline : trim line = []) (rest : Reads lines entries) : Reads (line :: lines) entries
  | entry {line : List Char} {e : MapEntry} {lines : List (List Char)} {entries : List MapEntry}
    (hline : trim line ≠ []) (he : MapEntry.parse? line = some e) (rest : Reads lines entries) :
    Reads (line :: lines) (e :: entries)

/-- Reading goes line by line, from whatever number on. -/
theorem Reads.readLines {lines : List (List Char)} {entries : List MapEntry}
    (h : Reads lines entries) (number : Nat) :
    (((lines.zipIdx number).filter fun (line, _) => !(trim line).isEmpty).mapM fun (line, number) =>
      match MapEntry.parse? line with
      | some e => Except.ok e
      | none => Except.error (⟨number, line⟩ : MalformedLine)) = .ok entries := by
  induction h generalizing number with
  | nil => rfl
  | blank hline rest ih =>
    rw [List.zipIdx_cons, List.filter_cons_of_neg (by simp [hline])]
    exact ih (number + 1)
  | entry hline he rest ih =>
    rw [List.zipIdx_cons, List.filter_cons_of_pos (by simp [hline]), List.mapM_cons]
    simp only [he, ih]
    rfl

theorem Reads.parse {text : List Char} {entries : List MapEntry} (h : Reads (lines text) entries) :
    parseMaps text = .ok entries :=
  h.readLines 1

/-- A listing of some lines, cut at its line feeds: the lines in order, each written in some way,
and blank lines. -/
inductive Written : List MapLine → List (List Char) → Prop where
  | nil : Written [] []
  | blank {ls : List MapLine} {piece : List Char} {pieces : List (List Char)}
    (hblank : ∀ c ∈ piece, isBlank c) (hline : '\n' ∉ piece) (rest : Written ls pieces) :
    Written ls (piece :: pieces)
  | line {l : MapLine} {ls : List MapLine} {piece : List Char} {pieces : List (List Char)}
    (hwrites : l.Writes piece) (rest : Written ls pieces) : Written (l :: ls) (piece :: pieces)

/-- The lines of a listing are read as the entries that they were written from. -/
theorem Written.reads {ls : List MapLine} {pieces : List (List Char)} (hw : Written ls pieces)
    (hl : ∀ l ∈ ls, l.WellFormed) :
    Reads (lines (['\n'].intercalate pieces)) (ls.map MapLine.entry) := by
  induction hw with
  | nil => exact .nil
  | @blank ls piece pieces hblank hline rest ih =>
    cases pieces with
    | nil =>
      cases rest
      rw [List.intercalate_singleton, lines_of_not_mem hline]
      split
      · exact .nil
      · exact .blank (trim_eq_nil.2 hblank) .nil
    | cons next pieces =>
      rw [lines_intercalate hline]
      apply Reads.blank _ (ih hl)
      rw [trim_eq_nil]
      intro c hc
      exact hblank c (mem_of_mem_dropReturn hc)
  | @line l ls piece pieces hwrites rest ih =>
    obtain ⟨hhead, htail⟩ := List.forall_mem_cons.1 hl
    have hline := MapLine.newline_not_mem_of_writes hhead hwrites
    have htrim := MapLine.trim_ne_nil_of_writes hwrites
    have hparse := MapLine.parse?_of_writes hhead hwrites
    cases pieces with
    | nil =>
      cases rest
      have hne : piece ≠ [] := by
        rintro rfl
        exact htrim rfl
      rw [List.intercalate_singleton, lines_of_not_mem hline, if_neg (by simpa using hne)]
      exact .entry htrim hparse .nil
    | cons next pieces =>
      rw [lines_intercalate hline, MapLine.dropReturn_of_writes hhead hwrites]
      exact .entry htrim hparse (ih htail)

/-- A listing is read back as the entries it was written from, one for each line and in order. -/
theorem parseMaps_written {ls : List MapLine} {pieces : List (List Char)}
    (hl : ∀ l ∈ ls, l.WellFormed) (hw : Written ls pieces) :
    parseMaps (['\n'].intercalate pieces) = .ok (ls.map MapLine.entry) :=
  (hw.reads hl).parse

/-- The highest bounds, a path with blanks inside and at its end, and blank lines. -/
theorem parseMaps_written_padded :
    let plain : MapLine := ⟨0x400000, 0x452000, ['-', '-', '-', 'p'], ['0'], ['0', ':', '0'], ['7'],
      none⟩
    let named : MapLine := ⟨0xFFFFFFFFFF600000, 0xFFFFFFFFFFFFFFFF, ['r', '-', 'x', 'p'], ['0'],
      ['0', ':', '0'], ['7'], some ['/', 'a', ' ', 'b', '\u00a0']⟩
    let pieces := [[], plain.print fun _ => 2, ['\t', '\r'], named.print fun n => n, []]
    (∀ l ∈ [plain, named], l.WellFormed) ∧ Written [plain, named] pieces ∧
      parseMaps (['\n'].intercalate pieces) = .ok [plain.entry, named.entry] := by
  intro plain named pieces
  have hplain : plain.WellFormed := by
    have hunbroken : ∀ field ∈ plain.fields, ∀ c ∈ field, isBlank c = false := by
      simp [plain, MapLine.fields, isBlank]
    exact ⟨by decide, by decide, by decide, hunbroken, by simp [plain], by simp [plain],
      by simp [plain]⟩
  have hnamed : named.WellFormed := by
    have hunbroken : ∀ field ∈ named.fields, ∀ c ∈ field, isBlank c = false := by
      simp [named, MapLine.fields, isBlank]
    have hunpadded : ∀ path ∈ named.path, ∀ c ∈ path.head?, isBlank c = false := by
      simp [named, isBlank]
    exact ⟨by decide, by decide, by decide, hunbroken, by decide, hunpadded, by decide⟩
  have hl : ∀ l ∈ [plain, named], l.WellFormed := by
    simp [hplain, hnamed]
  have hblank : ∀ c ∈ ['\t', '\r'], isBlank c := by
    simp [isBlank]
  have hempty : ∀ c ∈ ([] : List Char), isBlank c := by
    simp
  have hw : Written [plain, named] pieces := by
    apply Written.blank hempty (by decide)
    apply Written.line (MapLine.writes_print _ plain)
    apply Written.blank hblank (by decide)
    apply Written.line (MapLine.writes_print _ named)
    exact Written.blank hempty (by decide) .nil
  exact ⟨hl, hw, parseMaps_written hl hw⟩

end ProcessMemory.Linux
