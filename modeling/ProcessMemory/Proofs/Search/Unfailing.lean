import ProcessMemory.Proofs.Enumeration.Session
import ProcessMemory.Proofs.Search.Deeds
import ProcessMemory.Proofs.Search.Literal
import ProcessMemory.Proofs.Text.Runs
import ProcessMemory.Proofs.Walk.Safety

/-!
# Searches that cannot fail

A read that fails costs a search a window at most; what ends a walk or an enumeration with an error
is a lookup. So where each lookup is answered with a region that reaches past the address it was
made at, or with none, no search fails, whatever the reads do and in whatever order the workers
step.
-/
namespace ProcessMemory

/-- Every lookup is answered, and a region it finds reaches past the address it was made at. -/
def Target.Responds {σ : Type} (t : Target σ) : Prop :=
  ∀ a s, ∃ found, (t.lookup a s).1.result = .ok found ∧ ∀ r ∈ found, a < r.stop

namespace Outcome

theorem isOk_of_eq {α : Type} {o : Outcome α} {value : α} (h : o.result = .ok value) : o.isOk := by
  rw [isOk, h]
  rfl

end Outcome

namespace Enumeration

variable {σ : Type} {t : Target σ}

theorem advance_ne_error (ht : t.Responds) (e : Enumeration) (s : σ) (error : MemoryError) :
    (e.advance t s).item ≠ some (.error error) := by
  have hadv := advances t e s
  generalize e.advance t s = advanced at hadv
  cases hadv with
  | atEnd | nothing | found => exact nofun
  | failed hn hq =>
    obtain ⟨found, hresult, -⟩ := ht _ s
    rw [hq] at hresult
    cases hresult
  | misplaced hn hq hr =>
    obtain ⟨found, hresult, hreaches⟩ := ht _ s
    rw [hq] at hresult
    cases hresult
    exact absurd (hreaches _ rfl) (Nat.not_lt_of_le hr)

theorem collect_isOk (ht : t.Responds) (e : Enumeration) (s : σ) (regions : List Region)
    (events : List Event) : (e.collect t s regions events).outcome.isOk := by
  fun_induction collect t e s regions events with
  | case1 => exact Outcome.isOk_of_eq rfl
  | case2 e s regions events error e' s' new h =>
    exact absurd (congrArg Advance.item h) (advance_ne_error ht e s error)
  | case3 e s regions events region e' s' new h ih => exact ih

end Enumeration

namespace Walker

variable {g : Grid} {σ β : Type} {t : Target σ}

def Unfailed (w : Walker g) : Prop := ∀ error, w.phase ≠ .finished (.error error)

theorem unfailed_startingAt (g : Grid) (start : Address) : (startingAt g start).Unfailed := by
  simp [Unfailed, startingAt]

theorem seek_unfailed (ht : t.Responds) (limit : Option Address) (w : Walker g) (cursor : Address)
    (s : σ) : (w.seek t limit cursor s).1.Unfailed := by
  obtain ⟨found, hresult, hreaches⟩ := ht cursor s
  rcases hq : t.lookup cursor s with ⟨⟨result, soft⟩, s'⟩
  rw [hq] at hresult
  cases hresult
  simp only [seek, hq]
  split
  · simp [Unfailed]
  · cases found with
    | none => simp [Unfailed]
    | some region =>
      have hstop : ¬region.stop ≤ cursor := Nat.not_le_of_lt (hreaches region rfl)
      simp only [hstop, if_false]
      split <;> simp [Unfailed]

theorem fetch_unfailed (t : Target σ) (w : Walker g) (window : Window g) (s : σ) :
    (w.fetch t window s).1.Unfailed := by
  rcases hq : t.read window.address window.size s with ⟨⟨result, soft⟩, s'⟩
  simp only [fetch, hq]
  cases result with
  | ok bytes => simp [Unfailed]
  | error error =>
    simp only [recover]
    split <;> simp [Unfailed]

theorem ask_unfailed (ht : t.Responds) (limit : Option Address) {w : Walker g} (h : w.Unfailed)
    (s : σ) : (w.ask t limit s).1.Unfailed := by
  cases hp : w.phase with
  | seeking cursor => simpa only [ask, hp] using seek_unfailed ht limit w cursor s
  | reading window => simpa only [ask, hp] using fetch_unfailed t w window s
  | delivering window bytes => simpa only [ask, hp] using h
  | finished result => simpa only [ask, hp] using h

theorem proceed_unfailed (w : Walker g) (window : Window g) (verdict : Verdict) :
    (w.proceed window verdict).Unfailed := by
  cases verdict with
  | stop => simp [Unfailed, proceed]
  | goOn =>
    simp only [Unfailed, proceed]
    split <;> simp

namespace Course

variable {limit : Option Address} {receive : Receiver β}

theorem step_unfailed (ht : t.Responds) {c : Course g σ β} (h : c.walker.Unfailed) :
    (c.step t limit receive).walker.Unfailed := by
  cases hp : c.walker.phase with
  | seeking cursor =>
    rw [step_seeking hp]
    exact seek_unfailed ht limit c.walker cursor c.state
  | reading window =>
    rw [step_reading hp]
    exact fetch_unfailed t c.walker window c.state
  | delivering window bytes =>
    rw [step_delivering hp]
    exact proceed_unfailed _ _ _
  | finished result => simpa only [step, hp] using ask_unfailed ht limit h c.state

theorem run_ok (ht : t.Responds) (limit : Option Address) (receive : Receiver β)
    {c : Course g σ β} (h : c.walker.Unfailed) :
    ∃ ending, (run t limit receive c).1 = .ok ending := by
  fun_induction run t limit receive c with
  | case1 c result hresult =>
    cases hp : c.walker.phase with
    | finished _ =>
      rw [result?, hp] at hresult
      cases hresult
      cases result with
      | ok ending => exact ⟨ending, rfl⟩
      | error error => exact absurd hp (h error)
    | _ =>
      rw [result?, hp] at hresult
      cases hresult
  | case2 c hresult ih => exact ih (step_unfailed ht h)

/-- The chunks that a walk hands over end at or below the highest address. -/
theorem le_top_of_mem_delivered (t : Target σ) (g : Grid) (start : Address)
    (limit : Option Address) (receive : Receiver β) (receiver : β) (s : σ) (n : Nat) :
    ∀ chunk ∈ delivered (moves t limit receive n (starting t g start receiver s)),
      chunk.address.toNat + chunk.bytes.length ≤ 0xFFFF_FFFF_FFFF_FFFF := by
  intro chunk hc
  obtain ⟨before, hsound⟩ := (sound_after t g start limit receive receiver s n).1.of_mem hc
  obtain ⟨region, soft, -, -, hstop⟩ := hsound.inside
  exact Nat.le_trans hstop (Nat.le_of_lt_succ region.stop.isLt)

end Course
end Walker

theorem search_isOk {σ : Type} {t : Target σ} (ht : t.Responds) (start : Address) {size : Nat}
    (h : 0 < size) (m : Matcher) (s : σ) : (search t start size m s).outcome.isOk := by
  obtain ⟨ending, hrun⟩ := Walker.Course.run_ok ht none m.receive
    (c := .starting t (Grid.sliding size h) start none s) (Walker.unfailed_startingAt _ start)
  have hresult : (walkSliding t start size m.receive none s).1.outcome.result = .ok ending := by
    rw [walkSliding, dif_pos h]
    exact hrun
  simp only [search, Outcome.isOk, Outcome.map, hresult]
  rfl

namespace Job

variable {g : Grid} {σ : Type} {t : Target σ} {job : Job g}

def Unfailed : Job g → Prop
  | .walking _ walker _ => walker.Unfailed
  | .failing _ _ => False
  | .noting _ _ => False
  | _ => True

theorem step_unfailed (ht : t.Responds) (m : Matcher) (h : job.Unfailed) (shared : Shared σ) :
    (job.step t m shared).1.Unfailed ∧
      (job.step t m shared).2.hardError = shared.hardError := by
  cases job with
  | waiting region =>
    simp only [step]
    split
    · exact ⟨trivial, rfl⟩
    · exact ⟨Walker.unfailed_startingAt g region.start, rfl⟩
  | walking limit walker hit =>
    have hasking (hask : walker.isAsking) :
        ((Job.walking limit walker hit).step t m shared).1.Unfailed ∧
          ((Job.walking limit walker hit).step t m shared).2.hardError = shared.hardError := by
      rw [step_of_isAsking t m limit hit shared hask]
      exact ⟨Walker.ask_unfailed ht _ h _, rfl⟩
    cases hp : walker.phase with
    | seeking cursor => exact hasking (by rw [Walker.isAsking, hp])
    | reading window => exact hasking (by rw [Walker.isAsking, hp])
    | delivering window bytes =>
      simp only [step, hp]
      split
      · exact ⟨Walker.proceed_unfailed _ _ _, rfl⟩
      · exact ⟨trivial, rfl⟩
    | finished result =>
      cases result with
      | ok ending =>
        simp only [step, hp, Unfailed, and_self]
      | error error => exact absurd hp (h error)
  | matching limit walker window bytes =>
    simp only [step]
    split
    · exact ⟨trivial, rfl⟩
    · exact ⟨Walker.proceed_unfailed _ _ _, rfl⟩
  | announcing limit walker window hit => exact ⟨Walker.proceed_unfailed _ _ _, rfl⟩
  | failing error hit => exact h.elim
  | noting error hit => exact h.elim
  | ended hit => exact ⟨trivial, rfl⟩

end Job

namespace Pool

variable {g : Grid} {σ : Type} {t : Target σ} {m : Matcher} {p q : Pool g σ}

structure Unfailed (p : Pool g σ) : Prop where
  each : ∀ job ∈ p.jobs, job.Unfailed
  hardError : p.shared.hardError = none

theorem unfailed_begun (parts : List Region) (s : σ) (events : List Event) :
    (begun parts s events : Pool g σ).Unfailed where
  each := List.forall_mem_map.2 fun _ _ => trivial
  hardError := rfl

theorem Unfailed.step (h : p.Unfailed) (ht : t.Responds) (i : Nat) : (p.step t m i).Unfailed := by
  cases hi : p.jobs[i]? with
  | none =>
    rw [Pool.step, hi]
    exact h
  | some job =>
    obtain ⟨hjob, hhard⟩ :=
      Job.step_unfailed ht m (h.each job (List.mem_of_getElem? hi)) p.shared
    rw [step_eq hi]
    refine ⟨fun job' hmem => ?_, hhard.trans h.hardError⟩
    rcases List.mem_or_eq_of_mem_set hmem with hold | rfl
    · exact h.each job' hold
    · exact hjob

theorem Reaches.unfailed (h : Reaches t m p q) (ht : t.Responds) (hp : p.Unfailed) :
    q.Unfailed := by
  induction h with
  | refl => exact hp
  | step i _ ih => exact ih.step ht i

theorem Unfailed.answers {result : Except MemoryError (Option Address)} (h : p.Unfailed)
    (ha : p.Answers result) : ∃ found, result = .ok found := by
  cases ha with
  | hit address job hm hhit => exact ⟨some address, rfl⟩
  | failed error hn herror => cases h.hardError.symm.trans herror
  | nothing hn herror => exact ⟨none, rfl⟩

end Pool

section
variable {σ : Type} {t : Target σ} {start : Address} {size : Nat} {m : Matcher} {s : σ}

theorem Interleaved.isOk {h : 0 < size} {outcome : Outcome (Option Address)}
    (hi : Interleaved t start h m s outcome) (ht : t.Responds) : outcome.isOk := by
  cases hi with
  | @unlisted error soft hl =>
    have hlisted : (readableRegions t start s).outcome.isOk := Enumeration.collect_isOk ht _ s [] []
    rw [hl] at hlisted
    cases hlisted
  | settled hl hr hs ha =>
    obtain ⟨found, hresult⟩ := (hr.unfailed ht (Pool.unfailed_begun _ _ _)).answers ha
    exact Outcome.isOk_of_eq hresult

end

/-- No search with these options fails on the target, nor does one by several workers in any order
of their steps, whatever they match the chunks or the text in them with. The text of every chunk
that a walk hands over can be told. -/
structure Target.Searchable {σ : Type} (t : Target σ) (options : SearchOptions) (start : Address)
    (s : σ) : Prop where
  bytes (needle : List UInt8) (h : needle ≠ []) : (findBytes t options start needle s).outcome.isOk
  pattern (m : Matcher) : (findMatch t options start m s).outcome.isOk
  text (find : List Char → Option Nat) : (findTextMatch t options start find [] s).outcome.isOk
  bytesParallel (needle : List UInt8) (h : needle ≠ []) :
    (findBytesParallel t options start needle s).outcome.isOk
  patternParallel (m : Matcher) : (findMatchParallel t options start m s).outcome.isOk
  interleaved {size : Nat} (h : 0 < size) (m : Matcher) (outcome : Outcome (Option Address))
    (hi : Interleaved t start h m s outcome) : outcome.isOk
  decodes {β : Type} (g : Grid) (receive : Receiver β) (receiver : β) (n : Nat) :
    ∀ chunk ∈ delivered (Walker.Course.moves t none receive n (.starting t g start receiver s)),
      ∀ c, (TextRun.all? c chunk.bytes chunk.address).isSome

theorem needleBufferSize_pos {needle : List UInt8} (h : needle ≠ []) (smallest : Nat) :
    ∃ size, 0 < size ∧ needleBufferSize smallest needle = .ok size := by
  obtain ⟨size, hsize, hle⟩ := exists_needleBufferSize h smallest
  have hlen := List.length_pos_iff.2 h
  exact ⟨size, by omega, hsize⟩

theorem Target.Responds.searchable {σ : Type} {t : Target σ} (ht : t.Responds)
    {options : SearchOptions} (hsize : 0 < options.bufferSize) (start : Address) (s : σ) :
    t.Searchable options start s where
  bytes needle h := by
    obtain ⟨size, hpos, hneedle⟩ := needleBufferSize_pos h options.bufferSize
    rw [findBytes, hneedle]
    exact search_isOk ht start hpos _ s
  pattern m := search_isOk ht start hsize m s
  text find := search_isOk ht start hsize _ s
  bytesParallel needle h := by
    obtain ⟨size, hpos, hneedle⟩ := needleBufferSize_pos h options.bufferSize
    rw [findBytesParallel, hneedle]
    exact (searchParallel_interleaved t _ start hpos _ s).isOk ht
  patternParallel m := (searchParallel_interleaved t _ start hsize m s).isOk ht
  interleaved h m outcome hi := hi.isOk ht
  decodes g receive receiver n chunk hc c := by
    have htop := Walker.Course.le_top_of_mem_delivered t g start none receive receiver s n chunk hc
    obtain ⟨runs, hall, -⟩ := TextRun.exists_runs c htop
    rw [hall]
    rfl

/-- Lookups in a segmented process are answered wherever its segments lie and whatever its
faults. -/
theorem SegmentedProcess.responds (p : SegmentedProcess) (choose : Nat → Nat) :
    (p.targetChoosing choose).Responds := by
  intro a w
  obtain ⟨found, hfound, howes⟩ := Lookup.regionAt_owes p.mappings_ascending a
  refine ⟨found, ?_, fun r hr => (howes.region r hr).reaches⟩
  rw [← p.lookup_eq] at hfound
  exact hfound

end ProcessMemory
