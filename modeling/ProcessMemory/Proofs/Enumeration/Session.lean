import ProcessMemory.Enumeration

/-!
# Enumerations in use

A client advances an enumeration, and takes the soft errors whenever it likes. A `Session` is all
that came of its calls. `Advances` says once what an advance can do; what each call keeps
(`Session.Kept`) holds after any calls, on a target that answers as it pleases.
-/
namespace ProcessMemory

namespace Query

def isLookup : Query → Bool
  | .lookup _ _ => true
  | .read _ _ _ => false

def address : Query → Address
  | .lookup address _ => address
  | .read address _ _ => address

def softErrors : Query → List MemoryError
  | .lookup _ answer => answer.softErrors
  | .read _ _ answer => answer.softErrors

end Query

namespace Enumeration

variable {σ : Type} {t : Target σ}

inductive Advances (t : Target σ) (e : Enumeration) (s : σ) : Advance σ → Prop where
  | atEnd (hn : e.next = none) : Advances t e s ⟨none, e, s, []⟩
  | nothing {address : Address} {soft : List MemoryError} {s' : σ} (hn : e.next = some address)
    (hq : t.lookup address s = (⟨.ok none, soft⟩, s')) :
    Advances t e s ⟨none, ⟨none, e.softErrors ++ soft⟩, s', []⟩
  | failed {address : Address} {error : MemoryError} {soft : List MemoryError} {s' : σ}
    (hn : e.next = some address) (hq : t.lookup address s = (⟨.error error, soft⟩, s')) :
    Advances t e s ⟨some (.error error), ⟨none, e.softErrors ++ soft⟩, s', []⟩
  | misplaced {address : Address} {region : Region} {soft : List MemoryError} {s' : σ}
    (hn : e.next = some address) (hq : t.lookup address s = (⟨.ok (some region), soft⟩, s'))
    (hr : region.stop ≤ address) :
    Advances t e s
      ⟨some (.error (t.misplaced region address)), ⟨none, e.softErrors ++ soft⟩, s', []⟩
  | found {address : Address} {region : Region} {soft : List MemoryError} {s' : σ}
    (hn : e.next = some address) (hq : t.lookup address s = (⟨.ok (some region), soft⟩, s'))
    (hr : address < region.stop) :
    Advances t e s
      ⟨some (.ok region), ⟨region.next?, e.softErrors ++ soft⟩, s',
        [.readableRegion t.pid region]⟩

theorem advances (t : Target σ) (e : Enumeration) (s : σ) : Advances t e s (e.advance t s) := by
  unfold advance
  cases hn : e.next with
  | none => exact .atEnd hn
  | some address =>
    rcases hq : t.lookup address s with ⟨⟨result, soft⟩, s'⟩
    simp only [hq]
    cases result with
    | error error => exact .failed hn hq
    | ok found =>
      cases found with
      | none => exact .nothing hn hq
      | some region =>
        by_cases hr : region.stop ≤ address
        · simp only [hr, if_true]
          exact .misplaced hn hq hr
        · simp only [hr, if_false]
          exact .found hn hq (Nat.lt_of_not_le hr)

/-- The soft errors held have no influence on an advance. -/
theorem advance_alike (t : Target σ) {e e' : Enumeration} (h : e'.next = e.next) (s : σ) :
    (e'.advance t s).item = (e.advance t s).item ∧
      (e'.advance t s).enumeration.next = (e.advance t s).enumeration.next ∧
      (e'.advance t s).state = (e.advance t s).state := by
  have hadv := advances t e s
  generalize e.advance t s = advanced at hadv
  cases hadv with
  | atEnd hn => simp only [advance, h, hn, and_self]
  | nothing hn hq | failed hn hq => simp only [advance, h, hn, hq, and_self]
  | misplaced hn hq hr => simp only [advance, h, hn, hq, hr, if_true, and_self]
  | @found address region soft s' hn hq hr =>
    have hstop : ¬region.stop ≤ address := Nat.not_le_of_lt hr
    simp only [advance, h, hn, hq, hstop, if_false, and_self]

/-- Where there is an address past a region, it is the region's stop. -/
theorem next?_eq_stop {region : Region} {address : Address} (h : region.next? = some address) :
    address = region.stop := by
  have hsum : address.toNat = region.start.toNat + region.size := Address.ofNat?_eq_some.1 h
  have htop := address.isLt
  rw [Address.ext_iff, Region.toNat_stop]
  omega

inductive Call where
  | next
  | takeSoftErrors
  deriving DecidableEq

def isLast : Option (Except MemoryError Region) → Bool
  | some (.ok _) => false
  | _ => true

/-- All that came of the calls of a client. -/
structure Session (σ : Type) where
  enumeration : Enumeration
  /-- The state of the target, with the queries it was asked. -/
  state : σ × List Query
  /-- What the calls for the next region answered. -/
  items : List (Option (Except MemoryError Region)) := []
  /-- The lists of soft errors that were handed over. -/
  taken : List (List MemoryError) := []

namespace Session

def starting (start : Address) (s : σ) : Session σ := ⟨startingAt start, (s, []), [], []⟩

def log (c : Session σ) : List Query := c.state.2

def call (t : Target σ) (c : Session σ) : Call → Session σ
  | .next =>
    let advanced := c.enumeration.advance t.recorded c.state
    { c with
      enumeration := advanced.enumeration
      state := advanced.state
      items := c.items ++ [advanced.item] }
  | .takeSoftErrors =>
    let (errors, enumeration) := c.enumeration.takeSoftErrors
    { c with enumeration, taken := c.taken ++ [errors] }

def run (t : Target σ) (calls : List Call) (c : Session σ) : Session σ := calls.foldl (call t) c

/-- Some regions, then perhaps an error, and then nothing, `n` times. -/
def answers (regions : List Region) (error? : Option MemoryError) (n : Nat) :
    List (Option (Except MemoryError Region)) :=
  regions.map (fun r => some (.ok r)) ++ error?.toList.map (fun e => some (.error e)) ++
    List.replicate n none

/-- What the session has asked and yielded lies below the address to be asked next, where there is
one. -/
inductive Stage (start : Address) (c : Session σ) (regions : List Region) : Prop where
  | going {address : Address} (next : c.enumeration.next = some address)
    (items : c.items = answers regions none 0) (asked : ∀ q ∈ c.log, q.address < address)
    (reached : ∀ r ∈ regions, r.stop ≤ address)
    (count : start.toNat + c.log.length ≤ address.toNat) : Stage start c regions
  | atEnd {error? : Option MemoryError} {n : Nat} (next : c.enumeration.next = none)
    (items : c.items = answers regions error? n)
    (count : start.toNat + c.log.length ≤ 0x1_0000_0000_0000_0000) : Stage start c regions

structure Kept (start : Address) (c : Session σ) (regions : List Region) : Prop where
  stage : c.Stage start regions
  lookups : ∀ q ∈ c.log, q.isLookup
  ascending : (c.log.map Query.address).Pairwise (· < ·)
  rising : regions.Pairwise fun a b => a.stop < b.stop
  account : c.taken.flatten ++ c.enumeration.softErrors = c.log.flatMap Query.softErrors

section
variable {start address : Address} {c d : Session σ} {regions : List Region}

theorem answers_concat_region (regions : List Region) (region : Region) :
    answers regions none 0 ++ [some (.ok region)] = answers (regions ++ [region]) none 0 := by
  simp [answers]

theorem answers_concat_error (regions : List Region) (error : MemoryError) :
    answers regions none 0 ++ [some (.error error)] = answers regions (some error) 0 := by
  simp [answers]

theorem answers_concat_none (regions : List Region) (error? : Option MemoryError) (n : Nat) :
    answers regions error? n ++ [none] = answers regions error? (n + 1) := by
  simp [answers, List.replicate_succ']

theorem kept_starting (start : Address) (s : σ) : (starting start s).Kept start [] where
  stage := .going rfl rfl nofun nofun (Nat.le_refl _)
  lookups := nofun
  ascending := .nil
  rising := .nil
  account := rfl

/-- Taking the soft errors moves them, and nothing else. -/
theorem Kept.taken (h : c.Kept start regions) : (c.call t .takeSoftErrors).Kept start regions where
  stage := by
    cases h.stage with
    | going next items asked reached count => exact .going next items asked reached count
    | atEnd next items count => exact .atEnd next items count
  lookups := h.lookups
  ascending := h.ascending
  rising := h.rising
  account := by
    have haccount := h.account
    simpa [call, takeSoftErrors, log] using haccount

/-- The address to be asked next lies above all that was asked and yielded. -/
theorem Kept.going (h : c.Kept start regions) (hn : c.enumeration.next = some address) :
    c.items = answers regions none 0 ∧ (∀ q ∈ c.log, q.address < address) ∧
      (∀ r ∈ regions, r.stop ≤ address) ∧ start.toNat + c.log.length ≤ address.toNat := by
  cases h.stage with
  | going next items asked reached count =>
    cases hn.symm.trans next
    exact ⟨items, asked, reached, count⟩
  | atEnd next items count => cases hn.symm.trans next

/-- What a lookup adds to the log keeps it in order, and brings its soft errors. -/
theorem Kept.asked (h : c.Kept start regions) (hn : c.enumeration.next = some address)
    {answer : Outcome (Option Region)} (hlog : d.log = c.log ++ [.lookup address answer])
    (htaken : d.taken = c.taken)
    (hsoft : d.enumeration.softErrors = c.enumeration.softErrors ++ answer.softErrors)
    {regions' : List Region} (hstage : d.Stage start regions')
    (hrising : regions'.Pairwise fun a b => a.stop < b.stop) : d.Kept start regions' where
  stage := hstage
  lookups := by
    rw [hlog]
    intro q hq
    rcases List.mem_append.1 hq with hq | hq
    · exact h.lookups q hq
    · rw [List.mem_singleton.1 hq]
      rfl
  ascending := by
    obtain ⟨-, hasked, -, -⟩ := h.going hn
    rw [hlog, List.map_append, List.pairwise_append]
    refine ⟨h.ascending, List.pairwise_singleton _ _, ?_⟩
    intro a ha b hb
    obtain ⟨q, hq, rfl⟩ := List.mem_map.1 ha
    rw [List.mem_singleton.1 hb]
    exact hasked q hq
  rising := hrising
  account := by
    rw [hlog, htaken, hsoft, List.flatMap_append, ← h.account, List.append_assoc]
    simp [Query.softErrors]

theorem log_of_lookup {state state' : σ × List Query} {answer : Outcome (Option Region)}
    (h : t.recorded.lookup address state = (answer, state')) :
    state'.2 = state.2 ++ [.lookup address answer] := by
  simp only [Target.recorded, Prod.mk.injEq] at h
  obtain ⟨rfl, rfl⟩ := h
  rfl

/-- The first answer that is no region ends the session. -/
theorem exists_answers_of_isLast (regions : List Region)
    {item : Option (Except MemoryError Region)} (h : isLast item) :
    ∃ error? n, answers regions none 0 ++ [item] = answers regions error? n := by
  cases item with
  | none => exact ⟨none, 1, answers_concat_none regions none 0⟩
  | some result =>
    cases result with
    | ok region => cases h
    | error error => exact ⟨some error, 0, answers_concat_error regions error⟩

theorem Kept.ended (h : c.Kept start regions) (hn : c.enumeration.next = some address)
    {answer : Outcome (Option Region)} {item : Option (Except MemoryError Region)}
    (hlog : d.log = c.log ++ [.lookup address answer]) (htaken : d.taken = c.taken)
    (hd : d.enumeration = ⟨none, c.enumeration.softErrors ++ answer.softErrors⟩)
    (hitems : d.items = c.items ++ [item]) (hlast : isLast item) : d.Kept start regions := by
  obtain ⟨hyielded, -, -, hcount⟩ := h.going hn
  obtain ⟨error?, n, hanswers⟩ := exists_answers_of_isLast regions hlast
  have htop := address.isLt
  rw [hyielded, hanswers] at hitems
  apply h.asked hn hlog htaken (by rw [hd]) _ h.rising
  apply Stage.atEnd (by rw [hd]) hitems
  rw [hlog, List.length_append, List.length_singleton]
  omega

/-- A region that reaches past the address it was looked up at stops above all the earlier ones. -/
theorem Kept.yielded (h : c.Kept start regions) (hn : c.enumeration.next = some address)
    {region : Region} {soft : List MemoryError} (hr : address < region.stop)
    (hlog : d.log = c.log ++ [.lookup address ⟨.ok (some region), soft⟩])
    (htaken : d.taken = c.taken)
    (hd : d.enumeration = ⟨region.next?, c.enumeration.softErrors ++ soft⟩)
    (hitems : d.items = c.items ++ [some (.ok region)]) :
    d.Kept start (regions ++ [region]) := by
  obtain ⟨hyielded, hasked, hreached, hcount⟩ := h.going hn
  have hlt : address.toNat < region.stop.toNat := hr
  have htop := region.stop.isLt
  have hlength : d.log.length = c.log.length + 1 := by
    rw [hlog, List.length_append, List.length_singleton]
  rw [hyielded, answers_concat_region] at hitems
  apply h.asked hn hlog htaken (by rw [hd])
  · cases hnext : region.next? with
    | none =>
      apply Stage.atEnd (by rw [hd, hnext]) hitems
      omega
    | some stop =>
      cases next?_eq_stop hnext
      apply Stage.going (by rw [hd, hnext]) hitems
      · intro q hq
        rw [hlog] at hq
        rcases List.mem_append.1 hq with hq | hq
        · exact Nat.lt_trans (hasked q hq) hlt
        · rw [List.mem_singleton.1 hq]
          exact hr
      · intro r hmem
        rcases List.mem_append.1 hmem with hmem | hmem
        · exact Nat.le_trans (hreached r hmem) (Nat.le_of_lt hlt)
        · rw [List.mem_singleton.1 hmem]
          exact Nat.le_refl _
      · omega
  · rw [List.pairwise_append]
    refine ⟨h.rising, List.pairwise_singleton _ _, ?_⟩
    intro a ha b hb
    rw [List.mem_singleton.1 hb]
    exact Nat.lt_of_le_of_lt (hreached a ha) hlt

/-- One call more. -/
theorem Kept.call (h : c.Kept start regions) (t : Target σ) (call : Call) :
    ∃ regions', (c.call t call).Kept start regions' := by
  cases call with
  | takeSoftErrors => exact ⟨regions, h.taken⟩
  | next =>
    have hadv := advances t.recorded c.enumeration c.state
    generalize hd : c.enumeration.advance t.recorded c.state = advanced at hadv
    simp only [Session.call, hd]
    cases hadv with
    | atEnd hn =>
      refine ⟨regions, ⟨?_, h.lookups, h.ascending, h.rising, h.account⟩⟩
      cases h.stage with
      | going next items asked reached count => cases hn.symm.trans next
      | @atEnd error? n next items count =>
        have hnone := answers_concat_none regions error? n
        exact .atEnd next ((congrArg (· ++ [none]) items).trans hnone) count
    | nothing hn hq => exact ⟨regions, h.ended hn (log_of_lookup hq) rfl rfl rfl rfl⟩
    | failed hn hq => exact ⟨regions, h.ended hn (log_of_lookup hq) rfl rfl rfl rfl⟩
    | misplaced hn hq hr => exact ⟨regions, h.ended hn (log_of_lookup hq) rfl rfl rfl rfl⟩
    | found hn hq hr => exact ⟨_, h.yielded hn hr (log_of_lookup hq) rfl rfl rfl⟩

theorem Kept.run (h : c.Kept start regions) (t : Target σ) (calls : List Call) :
    ∃ regions', (c.run t calls).Kept start regions' := by
  induction calls generalizing c regions with
  | nil => exact ⟨regions, h⟩
  | cons call rest ih =>
    obtain ⟨regions', h'⟩ := h.call t call
    exact ih h'

/-! ## After the last region -/

theorem run_cons (t : Target σ) (call : Call) (calls : List Call) (c : Session σ) :
    c.run t (call :: calls) = (c.call t call).run t calls := rfl

theorem run_of_over (t : Target σ) (calls : List Call) (h : c.enumeration.next = none) :
    (c.run t calls).state = c.state ∧
      (c.run t calls).items = c.items ++ List.replicate (calls.count .next) none := by
  induction calls generalizing c with
  | nil => simp [run]
  | cons call rest ih =>
    rw [run_cons]
    cases call with
    | takeSoftErrors =>
      rw [List.count_cons_of_ne (by decide)]
      exact ih h
    | next =>
      have hadv : c.enumeration.advance t.recorded c.state =
          ⟨none, c.enumeration, c.state, []⟩ := by
        simp only [advance, h]
      have hcall : c.call t .next = { c with items := c.items ++ [none] } := by
        simp only [Session.call, hadv]
      obtain ⟨hstate, hitems⟩ := ih (c := c.call t .next) (by rw [hcall]; exact h)
      rw [hcall] at hstate hitems ⊢
      refine ⟨hstate, ?_⟩
      rw [hitems, List.append_assoc, List.count_cons_self, List.replicate_succ]
      rfl

theorem Kept.next_of_isLast (h : c.Kept start regions) (hlast : ∃ item ∈ c.items, isLast item) :
    c.enumeration.next = none := by
  cases h.stage with
  | atEnd next items count => exact next
  | going next items asked reached count =>
    obtain ⟨item, hmem, hitem⟩ := hlast
    rw [items] at hmem
    simp only [answers, Option.toList_none, List.map_nil, List.append_nil, List.replicate_zero,
      List.mem_map] at hmem
    obtain ⟨r, -, rfl⟩ := hmem
    cases hitem

/-! ## Taking the soft errors -/

/-- The sessions may differ in their soft errors alone. -/
structure Alike (c d : Session σ) : Prop where
  next : d.enumeration.next = c.enumeration.next
  state : d.state = c.state
  items : d.items = c.items

theorem Alike.next_call (h : c.Alike d) (t : Target σ) :
    (c.call t .next).Alike (d.call t .next) := by
  obtain ⟨hitem, hnext, hstate⟩ := advance_alike t.recorded h.next c.state
  simp only [call, h.state, h.items]
  exact ⟨hnext, hstate, congrArg (c.items ++ [·]) hitem⟩

theorem Alike.run (h : c.Alike d) (t : Target σ) (calls : List Call) :
    (c.run t calls).Alike (d.run t (calls.filter (· = .next))) := by
  induction calls generalizing c d with
  | nil => exact h
  | cons call rest ih =>
    cases call with
    | next => exact ih (h.next_call t)
    | takeSoftErrors =>
      have htaken : (c.call t .takeSoftErrors).Alike d := ⟨h.next, h.state, h.items⟩
      exact ih htaken

end

/-- How an enumeration behaves towards its client and its target. -/
structure Orderly (t : Target σ) (start : Address) (c : Session σ) : Prop where
  /-- The target is only asked for regions, at ever higher addresses. -/
  lookups : ∀ q ∈ c.log, q.isLookup
  ascending : (c.log.map Query.address).Pairwise (· < ·)
  bounded : start.toNat + c.log.length ≤ 0x1_0000_0000_0000_0000
  /-- Regions are yielded with rising stops, then one error at most, and then nothing. -/
  yields : ∃ regions error? n, c.items = answers regions error? n ∧
    regions.Pairwise fun a b => a.stop < b.stop
  /-- After the first answer that is no region nothing is asked, and nothing found. -/
  rests : (∃ item ∈ c.items, isLast item) → ∀ later : List Call,
    (c.run t later).state = c.state ∧
      (c.run t later).items = c.items ++ List.replicate (later.count .next) none
  /-- What was taken and what is held are the soft errors of all lookups, in their order. -/
  account : c.taken.flatten ++ c.enumeration.softErrors = c.log.flatMap Query.softErrors

theorem Kept.orderly {start : Address} {c : Session σ} {regions : List Region}
    (h : c.Kept start regions) (t : Target σ) : c.Orderly t start where
  lookups := h.lookups
  ascending := h.ascending
  bounded := by
    cases h.stage with
    | @going address next items asked reached count =>
      have := address.isLt
      omega
    | atEnd next items count => exact count
  yields := by
    cases h.stage with
    | going next items asked reached count => exact ⟨regions, none, 0, items, h.rising⟩
    | @atEnd error? n next items count => exact ⟨regions, error?, n, items, h.rising⟩
  rests hlast later := run_of_over t later (h.next_of_isLast hlast)
  account := h.account

end Session

/-- An enumeration of any target is orderly whatever its client calls, and taking the soft errors
has no influence on what is asked and yielded. -/
theorem session_orderly (t : Target σ) (start : Address) (s : σ) (calls : List Call) :
    let begun := Session.starting start s
    let c := begun.run t calls
    c.Orderly t start ∧
      let d := begun.run t (calls.filter (· = .next))
      d.items = c.items ∧ d.state = c.state := by
  intro begun c
  obtain ⟨regions, hkept⟩ := (Session.kept_starting start s).run t calls
  have hbegun : begun.Alike begun := ⟨rfl, rfl, rfl⟩
  have halike := hbegun.run t calls
  exact ⟨hkept.orderly t, halike.items, halike.state⟩

end Enumeration
end ProcessMemory
