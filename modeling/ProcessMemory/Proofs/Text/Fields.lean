import Mathlib.Data.List.TakeDrop
import Mathlib.Data.List.TakeWhile
import ProcessMemory.Text.Lines

/-!
# Fields and lines

What cutting gives back of text that was put together: the next field after some blanks, the two
sides of the first separator, the lines between line feeds, and what blanks at both ends stand
around.
-/
namespace ProcessMemory.Text

variable {sep c : Char} {gap field rest cs line core left right : List Char}

theorem trimLeft_append (hgap : ∀ c ∈ gap, isBlank c) (cs : List Char) :
    trimLeft (gap ++ cs) = trimLeft cs := List.dropWhile_append_of_pos hgap

/-- Text that does not start with a blank is left as it is. -/
theorem trimLeft_of_head? (h : ∀ c ∈ cs.head?, isBlank c = false) : trimLeft cs = cs := by
  cases cs with
  | nil => rfl
  | cons c cs => exact trimLeft_of_not_blank (h c rfl) cs

theorem trimLeft_of_blanks (h : ∀ c ∈ cs, isBlank c) : trimLeft cs = [] := by
  have hall := trimLeft_append h []
  rwa [List.append_nil, trimLeft_nil] at hall

/-- The next field ends at a blank, or with the text. -/
theorem nextField?_append (hgap : ∀ c ∈ gap, isBlank c) (hne : field ≠ [])
    (hfield : ∀ c ∈ field, isBlank c = false) (hrest : ∀ c ∈ rest.head?, isBlank c) :
    nextField? (gap ++ (field ++ rest)) = some (field, rest) := by
  have hleft : trimLeft (gap ++ (field ++ rest)) = field ++ rest := by
    rw [trimLeft_append hgap]
    apply trimLeft_of_head?
    intro c hc
    cases field with
    | nil => exact absurd rfl hne
    | cons d field =>
      cases hc
      exact hfield c List.mem_cons_self
  have hkeep : ∀ c ∈ field, (!isBlank c) = true := fun c hc => by rw [hfield c hc]; rfl
  have htake : rest.takeWhile (fun c => !isBlank c) = [] := by
    cases rest with
    | nil => rfl
    | cons c rest => simp [hrest c rfl]
  have hdrop : rest.dropWhile (fun c => !isBlank c) = rest := by
    cases rest with
    | nil => rfl
    | cons c rest => simp [hrest c rfl]
  have hspan : (field ++ rest).span (fun c => !isBlank c) = (field, rest) := by
    rw [List.span_eq_takeWhile_dropWhile, List.takeWhile_append_of_pos hkeep,
      List.dropWhile_append_of_pos hkeep, htake, hdrop, List.append_nil]
  unfold nextField?
  rw [hleft]
  cases field with
  | nil => exact absurd rfl hne
  | cons d field => exact congrArg some hspan

/-- What `dropWhile` leaves begins with something that it does not drop. -/
theorem of_mem_head?_dropWhile {p : Char → Bool} (h : c ∈ (cs.dropWhile p).head?) :
    p c = false := by
  have hnot := List.head?_dropWhile_not p cs
  rw [Option.mem_def.1 h] at hnot
  exact hnot

/-- The next field comes after blanks only, is a longest run of characters that are not blank, and
leaves what follows it. -/
theorem nextField?_eq_some :
    nextField? cs = some (field, rest) ↔
      ∃ gap, cs = gap ++ (field ++ rest) ∧ (∀ c ∈ gap, isBlank c) ∧ field ≠ [] ∧
        (∀ c ∈ field, isBlank c = false) ∧ ∀ c ∈ rest.head?, isBlank c := by
  constructor
  · intro h
    unfold nextField? at h
    split at h
    · cases h
    · rename_i c left hleft
      rw [List.span_eq_takeWhile_dropWhile] at h
      cases h
      have hhead : c ∈ (cs.dropWhile isBlank).head? := by
        rw [← trimLeft, hleft]
        rfl
      have hc := of_mem_head?_dropWhile hhead
      refine ⟨cs.takeWhile isBlank, ?_, fun d hd => List.mem_takeWhile_imp hd, ?_, ?_, ?_⟩
      · rw [List.takeWhile_append_dropWhile, ← hleft]
        exact List.takeWhile_append_dropWhile.symm
      · rw [List.takeWhile_cons_of_pos (by rw [hc]; rfl)]
        exact List.cons_ne_nil _ _
      · intro d hd
        have hkept := List.mem_takeWhile_imp hd
        rwa [Bool.not_eq_true'] at hkept
      · intro d hd
        have hdropped := of_mem_head?_dropWhile hd
        rwa [Bool.not_eq_false'] at hdropped
  · rintro ⟨gap, rfl, hgap, hne, hfield, hrest⟩
    exact nextField?_append hgap hne hfield hrest

theorem splitFirst?_append (h : sep ∉ field) (rest : List Char) :
    splitFirst? sep (field ++ sep :: rest) = some (field, rest) := by
  induction field with
  | nil => simp [splitFirst?]
  | cons c field ih =>
    obtain ⟨hc, hfield⟩ := List.ne_and_not_mem_of_not_mem_cons h
    simp [splitFirst?, ih hfield, Ne.symm hc]

theorem splitFirst?_eq_some :
    splitFirst? sep cs = some (field, rest) ↔ cs = field ++ sep :: rest ∧ sep ∉ field := by
  constructor
  · intro h
    by_cases hmem : sep ∈ cs
    · obtain ⟨before, after, rfl, hbefore⟩ := List.eq_append_cons_of_mem hmem
      rw [splitFirst?_append hbefore] at h
      cases h
      exact ⟨rfl, hbefore⟩
    · exfalso
      induction cs generalizing field with
      | nil => cases h
      | cons c cs ih =>
        obtain ⟨hc, hcs⟩ := List.ne_and_not_mem_of_not_mem_cons hmem
        rw [splitFirst?, if_neg (Ne.symm hc), Option.map_eq_some_iff] at h
        obtain ⟨⟨a, b⟩, hab, heq⟩ := h
        cases heq
        exact ih hab hcs
  · rintro ⟨rfl, hmem⟩
    exact splitFirst?_append hmem rest

/-! ## Lines -/

theorem splitAll_ne_nil (sep : Char) (cs : List Char) : splitAll sep cs ≠ [] := by
  cases cs with
  | nil => exact List.cons_ne_nil _ _
  | cons c cs =>
    unfold splitAll
    split
    · exact List.cons_ne_nil _ _
    · split <;> exact List.cons_ne_nil _ _

theorem splitAll_append (h : sep ∉ line) (rest : List Char) :
    splitAll sep (line ++ sep :: rest) = line :: splitAll sep rest := by
  induction line with
  | nil =>
    rw [List.nil_append, splitAll]
    split
    · rename_i hnil
      exact absurd hnil (splitAll_ne_nil sep rest)
    · rename_i hpieces
      rw [if_pos rfl, hpieces]
  | cons c line ih =>
    obtain ⟨hc, hline⟩ := List.ne_and_not_mem_of_not_mem_cons h
    rw [List.cons_append, splitAll, ih hline]
    exact if_neg (Ne.symm hc)

theorem splitAll_of_not_mem (h : sep ∉ line) : splitAll sep line = [line] := by
  induction line with
  | nil => rfl
  | cons c line ih =>
    obtain ⟨hc, hline⟩ := List.ne_and_not_mem_of_not_mem_cons h
    rw [splitAll, ih hline]
    exact if_neg (Ne.symm hc)

theorem lines_of_not_mem (h : '\n' ∉ line) : lines line = if line.isEmpty then [] else [line] := by
  rw [lines, splitAll_of_not_mem h]
  rfl

/-- The first line, up to its line feed, and the others. -/
theorem lines_append (h : '\n' ∉ line) (rest : List Char) :
    lines (line ++ '\n' :: rest) = dropReturn line :: lines rest := by
  have hne := splitAll_ne_nil '\n' rest
  rw [lines, splitAll_append h, lines, List.dropLast_cons_of_ne_nil hne, List.map_cons,
    List.getLast?_cons, List.getLast?_eq_some_getLast hne]
  rfl

/-- The lines of pieces with line feeds between them. -/
theorem lines_intercalate (h : '\n' ∉ line) (next : List Char) (pieces : List (List Char)) :
    lines (['\n'].intercalate (line :: next :: pieces)) =
      dropReturn line :: lines (['\n'].intercalate (next :: pieces)) := by
  rw [List.intercalate_cons_cons, List.append_assoc]
  exact lines_append h _

theorem dropReturn_of_getLast? (h : line.getLast? ≠ some '\r') : dropReturn line = line := if_neg h

theorem mem_of_mem_dropReturn (h : c ∈ dropReturn line) : c ∈ line := by
  unfold dropReturn at h
  split at h
  · exact List.dropLast_subset line h
  · exact h

theorem dropReturn_concat (line : List Char) : dropReturn (line ++ ['\r']) = line := by
  rw [dropReturn, List.getLast?_concat, if_pos rfl, List.dropLast_concat]

/-- Text cut at each line feed, or at a carriage return with a line feed after it. What follows the
last of them is a line unless it is empty. -/
inductive Cuts : List Char → List (List Char) → Prop where
  | nil : Cuts [] []
  | last {line : List Char} (hne : line ≠ []) (hline : '\n' ∉ line) : Cuts line [line]
  | feed {line rest : List Char} {ls : List (List Char)} (hline : '\n' ∉ line)
    (hreturn : line.getLast? ≠ some '\r') (hrest : Cuts rest ls) :
    Cuts (line ++ '\n' :: rest) (line :: ls)
  | returnFeed {line rest : List Char} {ls : List (List Char)} (hline : '\n' ∉ line)
    (hrest : Cuts rest ls) : Cuts (line ++ '\r' :: '\n' :: rest) (line :: ls)

theorem cuts_lines (cs : List Char) : Cuts cs (lines cs) := by
  induction h : cs.length using Nat.strong_induction_on generalizing cs with
  | _ n ih =>
  by_cases hmem : '\n' ∈ cs
  · obtain ⟨line, rest, rfl, hline⟩ := List.eq_append_cons_of_mem hmem
    rw [lines_append hline]
    have hrest := ih rest.length (by simp [← h]; omega) rest rfl
    by_cases hreturn : line.getLast? = some '\r'
    · obtain ⟨line, rfl⟩ := List.getLast?_eq_some_iff.1 hreturn
      rw [dropReturn_concat, List.append_assoc]
      exact .returnFeed (fun hmem => hline (List.mem_append_left _ hmem)) hrest
    · rw [dropReturn_of_getLast? hreturn]
      exact .feed hline hreturn hrest
  · rw [lines_of_not_mem hmem]
    cases cs with
    | nil => exact .nil
    | cons c cs => exact .last (List.cons_ne_nil _ _) hmem

/-! ## Trimming -/

/-- Only blanks can be trimmed away. -/
theorem trim_eq_nil : trim cs = [] ↔ ∀ c ∈ cs, isBlank c := by
  constructor
  · intro h
    rw [trim, trimRight, List.reverse_eq_nil_iff, List.dropWhile_eq_nil_iff] at h
    intro c hc
    rw [← List.takeWhile_append_dropWhile (p := isBlank) (l := cs), List.mem_append] at hc
    rcases hc with hc | hc
    · exact List.mem_takeWhile_imp hc
    · exact h c (List.mem_reverse.2 hc)
  · intro h
    rw [trim, trimLeft_of_blanks h]
    rfl

/-- The text is `core` with blanks around it, and `core` neither begins nor ends with one. -/
inductive Trims : List Char → List Char → Prop where
  | text {left core right : List Char} (hleft : ∀ c ∈ left, isBlank c)
    (hright : ∀ c ∈ right, isBlank c) (hhead : ∀ c ∈ core.head?, isBlank c = false)
    (hlast : ∀ c ∈ core.getLast?, isBlank c = false) : Trims (left ++ (core ++ right)) core

theorem trimRight_eq (cs : List Char) : trimRight cs = (trimLeft cs.reverse).reverse := rfl

theorem trimRight_append (hright : ∀ c ∈ right, isBlank c) (cs : List Char) :
    trimRight (cs ++ right) = trimRight cs := by
  rw [trimRight_eq, List.reverse_append, trimLeft_append (by simpa using hright)]
  rfl

theorem trimRight_of_getLast? (h : ∀ c ∈ cs.getLast?, isBlank c = false) : trimRight cs = cs := by
  rw [trimRight_eq, trimLeft_of_head? (by simpa using h), List.reverse_reverse]

theorem Trims.trim_eq (h : Trims cs core) : trim cs = core := by
  cases h with
  | @text left core right hleft hright hhead hlast =>
    rw [trim, trimLeft_append hleft]
    cases core with
    | nil =>
      rw [List.nil_append, trimLeft_of_blanks hright]
      rfl
    | cons c rest =>
      have hkept : trimLeft (c :: rest ++ right) = c :: rest ++ right := trimLeft_of_head? hhead
      rw [hkept, trimRight_append hright, trimRight_of_getLast? hlast]

theorem exists_trimRight (cs : List Char) :
    ∃ right, cs = trimRight cs ++ right ∧ ∀ c ∈ right, isBlank c := by
  refine ⟨(cs.reverse.takeWhile isBlank).reverse, ?_, ?_⟩
  · rw [trimRight, ← List.reverse_append, List.takeWhile_append_dropWhile, List.reverse_reverse]
  · intro c hc
    exact List.mem_takeWhile_imp (List.mem_reverse.1 hc)

/-- Trimming leaves what lies between the blanks at both ends. -/
theorem trims_trim (cs : List Char) : Trims cs (trim cs) := by
  obtain ⟨right, hcut, hright⟩ := exists_trimRight (trimLeft cs)
  rw [← trim] at hcut
  have htext : Trims (cs.takeWhile isBlank ++ (trim cs ++ right)) (trim cs) := by
    refine .text (fun c hc => List.mem_takeWhile_imp hc) hright ?_ ?_
    · intro c hc
      have hhead : c ∈ (trimLeft cs).head? := by
        rw [hcut, List.head?_append, Option.mem_def.1 hc]
        rfl
      exact of_mem_head?_dropWhile hhead
    · intro c hc
      rw [trim, trimRight, List.getLast?_reverse] at hc
      exact of_mem_head?_dropWhile hc
  have heq : cs.takeWhile isBlank ++ (trim cs ++ right) = cs := by
    rw [← hcut]
    exact List.takeWhile_append_dropWhile
  rwa [heq] at htext

end ProcessMemory.Text
