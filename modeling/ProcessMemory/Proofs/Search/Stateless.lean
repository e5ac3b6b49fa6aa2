import ProcessMemory.Proofs.Pattern.Literal
import ProcessMemory.Proofs.Search.Deeds
import ProcessMemory.Proofs.Walk.Foretold

/-!
# Parallel searches of targets with one state

Where a target answers by the question alone, the jobs of a search do not get in each other's way:
what each does is foretold by its part (`Job.Follows`), in every order of steps. A sequential search
goes through the same parts, so the two do not contradict each other.
-/
namespace ProcessMemory

open Walker

namespace Job

variable {g : Grid} {t : Target Unit} {part : Region} {own : List Chunk}
  {ended : Except MemoryError Ending} {deeds : List Deed} {deed : Deed} {job : Job g}

/-- What was done to a part of which `own` and `ended` are foretold. -/
structure Plays (own : List Chunk) (ended : Except MemoryError Ending) (deeds : List Deed) :
    Prop where
  matched : ∀ chunk, .matched chunk ∈ deeds → chunk ∈ own
  failed : ∀ error, .walked (.error error) ∈ deeds → ended = .error error
  walkedOut : .walked (.ok .exhausted) ∈ deeds →
    ended = .ok .exhausted ∧ ∀ chunk ∈ own, .matched chunk ∈ deeds

/-- The deed tells nothing of what was foretold. -/
def isIdle : Deed → Bool
  | .declined => true
  | .begun _ => true
  | .refused _ => true
  | .walked (.ok .stopped) => true
  | _ => false

theorem plays_nil (own : List Chunk) (ended : Except MemoryError Ending) : Plays own ended [] where
  matched := nofun
  failed := nofun
  walkedOut := nofun

theorem Plays.idle (h : Plays own ended deeds) (hidle : isIdle deed) :
    Plays own ended (deeds ++ [deed]) where
  matched chunk hc := by
    rcases List.mem_append.1 hc with hc | hc
    · exact h.matched chunk hc
    · cases List.mem_singleton.1 hc
      cases hidle
  failed error he := by
    rcases List.mem_append.1 he with he | he
    · exact h.failed error he
    · cases List.mem_singleton.1 he
      cases hidle
  walkedOut hw := by
    rcases List.mem_append.1 hw with hw | hw
    · obtain ⟨hended, hown⟩ := h.walkedOut hw
      exact ⟨hended, fun chunk hc => List.mem_append_left _ (hown chunk hc)⟩
    · cases List.mem_singleton.1 hw
      cases hidle

/-- A walk under way. -/
theorem plays_begun {done rest : List Chunk} (h : deeds = .begun part :: done.map .matched)
    (hsplit : own = done ++ rest) : Plays own ended deeds := by
  subst h hsplit
  refine ⟨fun chunk hc => ?_, fun error he => ?_, fun hw => ?_⟩
  · simp only [List.mem_cons, reduceCtorEq, List.mem_map, Deed.matched.injEq, exists_eq_right,
      false_or] at hc
    exact List.mem_append_left _ hc
  · simp at he
  · simp at hw

/-- A walk that has come to the end foretold. -/
theorem plays_walked (h : deeds = .begun part :: own.map .matched) :
    Plays own ended (deeds ++ [.walked ended]) := by
  subst h
  refine ⟨fun chunk hc => ?_, fun error he => ?_, fun hw => ⟨?_, fun chunk hc => ?_⟩⟩
  · simpa using hc
  · simpa [eq_comm] using he
  · simpa [eq_comm] using hw
  · simpa using hc

/-- The walk of the job is over but for what it has to announce. -/
def isClosed : Job g → Prop
  | .walking _ walker _ => walker.phase = .finished (.ok .stopped)
  | .announcing _ _ _ _ => True
  | .failing _ _ => True
  | .noting _ _ => True
  | .ended _ => True
  | _ => False

inductive Follows (t : Target Unit) (part : Region) (own : List Chunk)
    (ended : Except MemoryError Ending) (deeds : List Deed) : Job g → Prop where
  | waiting (h : deeds = []) : Follows t part own ended deeds (.waiting part)
  | walking {walker : Walker g} {done rest : List Chunk} (hsplit : own = done ++ rest)
    (h : deeds = .begun part :: done.map .matched)
    (hrest : Foretold t (some part.stop) walker rest ended) :
    Follows t part own ended deeds (.walking part.stop walker none)
  | matching {walker : Walker g} {w : Window g} {bytes : Bytes w.size} {done rest : List Chunk}
    (hsplit : own = done ++ rest) (h : deeds = .begun part :: done.map .matched)
    (hp : walker.phase = .delivering w bytes)
    (hrest : Foretold t (some part.stop) walker rest ended) :
    Follows t part own ended deeds (.matching part.stop walker w bytes.val)
  | closed {job : Job g} (hclosed : job.isClosed) (plays : Plays own ended deeds) :
    Follows t part own ended deeds job

theorem Follows.plays (h : job.Follows t part own ended deeds) : Plays own ended deeds := by
  cases h with
  | waiting h =>
    subst h
    exact plays_nil own ended
  | walking hsplit h hrest => exact plays_begun h hsplit
  | matching hsplit h hp hrest => exact plays_begun h hsplit
  | closed hclosed plays => exact plays

section
variable {m : Matcher} {shared : Shared Unit} {walker : Walker g} {done rest : List Chunk}

theorem Follows.step_walking (m : Matcher) (shared : Shared Unit) (hsplit : own = done ++ rest)
    (h : deeds = .begun part :: done.map .matched)
    (hrest : Foretold t (some part.stop) walker rest ended) :
    let job : Job g := .walking part.stop walker none
    (job.step t m shared).1.Follows t part own ended
      (deeds ++ (job.deed? shared.stop).toList) := by
  intro job
  have hplays : Plays own ended deeds := plays_begun h hsplit
  have hasking (hask : walker.isAsking) (hdeed : job.deed? shared.stop = none) :
      (job.step t m shared).1.Follows t part own ended
        (deeds ++ (job.deed? shared.stop).toList) := by
    have hstep := step_of_isAsking t m part.stop none shared hask
    rw [hdeed, Option.toList_none, List.append_nil]
    simp only [job, hstep]
    exact .walking hsplit h (hrest.of_asking hask)
  cases hphase : walker.phase with
  | seeking cursor => exact hasking (by rw [isAsking, hphase]) (by simp only [job, deed?, hphase])
  | reading w => exact hasking (by rw [isAsking, hphase]) (by simp only [job, deed?, hphase])
  | delivering w bytes =>
    simp only [job, step, deed?, hphase]
    cases hs : shared.stop with
    | true => exact .closed rfl (hplays.idle rfl)
    | false =>
      simp only [Bool.false_eq_true, if_false, Option.toList_none, List.append_nil]
      exact .matching hsplit h hphase hrest
  | finished result =>
    obtain ⟨rfl, rfl⟩ := hrest.of_finished hphase
    rw [List.append_nil] at hsplit
    subst hsplit
    have hwalked : Plays own ended (deeds ++ [.walked ended]) := plays_walked h
    simp only [job, step, deed?, hphase]
    cases ended with
    | error error => exact .closed trivial hwalked
    | ok ending => exact .closed trivial hwalked

theorem Follows.step_matching (m : Matcher) (shared : Shared Unit) {w : Window g}
    {bytes : Bytes w.size} (hsplit : own = done ++ rest)
    (h : deeds = .begun part :: done.map .matched) (hp : walker.phase = .delivering w bytes)
    (hrest : Foretold t (some part.stop) walker rest ended) :
    let job : Job g := .matching part.stop walker w bytes.val
    (job.step t m shared).1.Follows t part own ended
      (deeds ++ (job.deed? shared.stop).toList) := by
  obtain ⟨rest, rfl, hrest'⟩ := hrest.of_delivering hp
  let chunk : Chunk := ⟨w.address, bytes.val⟩
  have hbegun : deeds ++ [.matched chunk] = .begun part :: (done ++ [chunk]).map .matched := by
    rw [h, List.map_append]
    rfl
  have hsplit' : own = (done ++ [chunk]) ++ rest := hsplit.trans (List.append_cons _ _ _)
  simp only [step, deed?]
  cases m chunk with
  | some hit => exact .closed trivial (plays_begun hbegun hsplit')
  | none => exact .walking hsplit' hbegun hrest'

/-- What is over stays over, and does no more to the part. -/
theorem Follows.step_closed (t : Target Unit) (m : Matcher) (shared : Shared Unit)
    (hclosed : job.isClosed) (plays : Plays own ended deeds) :
    (job.step t m shared).1.Follows t part own ended
      (deeds ++ (job.deed? shared.stop).toList) := by
  cases job with
  | waiting region => cases hclosed
  | matching limit walker w bytes => cases hclosed
  | walking limit walker hit =>
    have hphase : walker.phase = .finished (.ok .stopped) := hclosed
    simp only [step, deed?, hphase]
    exact .closed trivial (plays.idle rfl)
  | announcing limit walker w hit =>
    simp only [step, deed?, Option.toList_none, List.append_nil]
    exact .closed rfl plays
  | failing error hit =>
    simp only [step, deed?, Option.toList_none, List.append_nil]
    exact .closed trivial plays
  | noting error hit =>
    simp only [step, deed?, Option.toList_none, List.append_nil]
    exact .closed trivial plays
  | ended hit =>
    simp only [step, deed?, Option.toList_none, List.append_nil]
    exact .closed trivial plays

/-- A step of a job follows what is foretold of its part. -/
theorem Follows.step (h : job.Follows t part own ended deeds)
    (hpart : PartForetold t g part own ended) (m : Matcher) (shared : Shared Unit) :
    (job.step t m shared).1.Follows t part own ended
      (deeds ++ (job.deed? shared.stop).toList) := by
  cases h with
  | walking hsplit h hrest => exact step_walking m shared hsplit h hrest
  | matching hsplit h hp hrest => exact step_matching m shared hsplit h hp hrest
  | closed hclosed plays => exact step_closed t m shared hclosed plays
  | waiting h =>
    subst h
    simp only [Job.step, deed?]
    cases hs : shared.stop with
    | true => exact .closed trivial ((plays_nil own ended).idle rfl)
    | false => exact .walking (List.nil_append own).symm rfl hpart

end
end Job

namespace Pool

variable {g : Grid} {t : Target Unit} {m : Matcher} {p q : Pool g Unit} {parts : List Region}
  {log : List (Nat × Deed)}

structure Heeds (t : Target Unit) (parts : List Region) (log : List (Nat × Deed))
    (q : Pool g Unit) : Prop where
  length : q.jobs.length = parts.length
  inside : ∀ x ∈ log, x.1 < parts.length
  each : ∀ (i : Nat) (part : Region) (job : Job g), parts[i]? = some part →
    q.jobs[i]? = some job → ∀ own ended, PartForetold t g part own ended →
      job.Follows t part own ended (deedsOf i log)

theorem heeds_begun (t : Target Unit) (parts : List Region) (events : List Event) :
    Heeds t parts [] (begun parts () events : Pool g Unit) where
  length := List.length_map _
  inside := nofun
  each i part job hpart hjob own ended hown := by
    rw [begun, List.getElem?_map, hpart] at hjob
    cases hjob
    exact .waiting rfl

theorem Heeds.step (h : q.Heeds t parts log) (m : Matcher) (i : Nat) :
    (q.step t m i).Heeds t parts (log ++ (q.deed? i).toList) := by
  cases hi : q.jobs[i]? with
  | none =>
    have hstep : q.step t m i = q := by simp only [Pool.step, hi]
    have hdeed : q.deed? i = none := by simp only [deed?, hi, Option.bind_none, Option.map_none]
    rwa [hstep, hdeed, Option.toList_none, List.append_nil]
  | some job =>
    have hlt : i < parts.length := h.length ▸ (List.getElem?_eq_some_iff.1 hi).1
    refine ⟨length_jobs_step.trans h.length, ?_, ?_⟩
    · refine List.forall_mem_append.2 ⟨h.inside, fun x hx => ?_⟩
      obtain ⟨deed, -, rfl⟩ := Option.map_eq_some_iff.1 (Option.mem_toList.1 hx)
      exact hlt
    · let P (part : Region) (deeds : List Deed) (job : Job g) : Prop :=
        ∀ own ended, PartForetold t g part own ended → job.Follows t part own ended deeds
      exact each_step (P := P) (Q := P) hi h.each
        (fun part _ hfollows own ended hown => (hfollows own ended hown).step hown m q.shared)
        fun _ _ _ => id

theorem Passes.heeds (h : Passes t m p log q) (hp : p.Heeds t parts []) :
    q.Heeds t parts log := by
  induction h with
  | refl => exact hp
  | step i h ih => exact ih.step m i

theorem Heeds.plays (h : q.Heeds t parts log) {i : Nat} {part : Region}
    (hpart : parts[i]? = some part) {own : List Chunk} {ended : Except MemoryError Ending}
    (hown : PartForetold t g part own ended) : Job.Plays own ended (deedsOf i log) := by
  have hlt : i < q.jobs.length := h.length ▸ (List.getElem?_eq_some_iff.1 hpart).1
  exact (h.each i part _ hpart (List.getElem?_eq_getElem hlt) own ended hown).plays

/-- What the answer of a search tells of what is foretold of its parts. -/
inductive Reveals (t : Target Unit) (g : Grid) (m : Matcher) (parts : List Region) :
    Except MemoryError (Option Address) → Prop where
  | nothing (h : ∀ r ∈ parts, ∃ own, PartForetold t g r own (.ok .exhausted) ∧
      ∀ chunk ∈ own, m chunk = none) : Reveals t g m parts (.ok none)
  | hit {r : Region} {own : List Chunk} {ended : Except MemoryError Ending} {chunk : Chunk}
    {a : Address} (hr : r ∈ parts) (hown : PartForetold t g r own ended) (hc : chunk ∈ own)
    (hm : m chunk = some a) : Reveals t g m parts (.ok (some a))
  | failed {r : Region} {own : List Chunk} {error : MemoryError} (hr : r ∈ parts)
    (hown : PartForetold t g r own (.error error)) : Reveals t g m parts (.error error)

theorem Heeds.reveals {result : Except MemoryError (Option Address)} (h : q.Heeds t parts log)
    (hq : q.Recounts m parts log) (hs : q.Settled) (ha : q.Answers result) :
    Reveals t g m parts result := by
  cases ha with
  | nothing hn herror =>
    refine .nothing fun r hr => ?_
    obtain ⟨i, hi⟩ := List.getElem?_of_mem hr
    obtain ⟨own, ended, hown⟩ := exists_foretold t (some r.stop) (startingAt g r.start)
    obtain ⟨chunks, hmiss, hdeeds⟩ := hq.walkedOut hs hn herror i r hi
    have hplays := h.plays hi hown
    rw [hdeeds] at hplays
    obtain ⟨rfl, hmatched⟩ := hplays.walkedOut (List.mem_append_right _ List.mem_cons_self)
    refine ⟨own, hown, fun chunk hc => hmiss chunk ?_⟩
    simpa using hmatched chunk hc
  | hit a job hm hhit =>
    obtain ⟨i, chunk, hmem, hmatch⟩ := hq.hit hm hhit
    have hlt : i < parts.length := h.inside _ (mem_deedsOf.1 hmem)
    have hi : parts[i]? = some parts[i] := List.getElem?_eq_getElem hlt
    obtain ⟨own, ended, hown⟩ :=
      exists_foretold t (some parts[i].stop) (startingAt g parts[i].start)
    exact .hit (List.getElem_mem hlt) hown ((h.plays hi hown).matched chunk hmem) hmatch
  | failed error hn herror =>
    obtain ⟨i, hmem⟩ := hq.hardError error herror
    have hlt : i < parts.length := h.inside _ hmem
    have hi : parts[i]? = some parts[i] := List.getElem?_eq_getElem hlt
    obtain ⟨own, ended, hown⟩ :=
      exists_foretold t (some parts[i].stop) (startingAt g parts[i].start)
    have hended := (h.plays hi hown).failed error (mem_deedsOf.2 hmem)
    exact .failed (List.getElem_mem hlt) (hended ▸ hown)

end Pool

section
variable {t : Target Unit} {memory : Memory} {start : Address} {size : Nat} {m : Matcher}
  {chunks : List Chunk} {ended : Except MemoryError Ending}
  {result : Except MemoryError (Option Address)}

/-- A sequential search answers with the first hit among what is foretold. -/
theorem search_foretold (h : 0 < size)
    (hw : ∀ w : Walker (Grid.sliding size h), w.phase = .seeking start → w.retries = maxRetries →
      w.Foretold t none chunks ended) (m : Matcher) :
    (search t start size m ()).outcome.result =
      (chunks.findSome? m).elim (ended.map fun _ => none) fun hit => .ok (some hit) := by
  let c : Course (Grid.sliding size h) Unit (Option Address) :=
    Course.starting t (Grid.sliding size h) start none ()
  have hc : c.walker.Foretold t none chunks ended := hw _ rfl rfl
  obtain ⟨hreceiver, hgo, hstop⟩ := hc.run m.receive
  have hresult : (search t start size m ()).outcome.result =
      (Walker.run t none m.receive c).1.map fun _ =>
        (Walker.run t none m.receive c).2.receiver := by
    simp only [search, walkSliding, dif_pos h]
    rfl
  have hfed : feed m.receive c.receiver chunks =
      (chunks.findSome? m).elim (none, .goOn) fun hit => (some hit, .stop) := feed_receive m chunks
  rw [hfed] at hreceiver hgo hstop
  rw [hresult, hreceiver]
  cases hhit : chunks.findSome? m with
  | none =>
    rw [hhit] at hgo
    rw [hgo rfl]
    rfl
  | some hit =>
    rw [hhit] at hstop
    rw [hstop rfl]
    rfl

/-- What the answer of a parallel search says of that of a sequential one. -/
structure Bears (lookup : Address → Outcome (Option Region))
    (one several : Except MemoryError (Option Address)) : Prop where
  /-- Where several workers find nothing, nor does one. -/
  nothing : several = .ok none → one = .ok none
  /-- Where several workers have a hit, one does not end without. -/
  hit : ∀ a, several = .ok (some a) → one ≠ .ok none
  /-- Where no lookup fails, both have a hit or neither has. -/
  both : (∀ a error, (lookup a).result ≠ .error error) →
    ∃ found found', one = .ok found ∧ several = .ok found' ∧ found.isSome = found'.isSome

section
variable {g : Grid} {parts : List Region}

/-- Where no chunk of any part has a hit, no chunk of the whole walk has. -/
theorem Walker.Gathers.all_miss (hg : Gathers t g parts chunks ended)
    (hmiss : ∀ r ∈ parts, ∃ own, PartForetold t g r own (.ok .exhausted) ∧
      ∀ chunk ∈ own, m chunk = none) :
    ended = .ok .exhausted ∧ chunks.findSome? m = none := by
  have hall : ∀ r ∈ parts, ∃ own, PartForetold t g r own (.ok .exhausted) := by
    intro r hr
    obtain ⟨own, hown, -⟩ := hmiss r hr
    exact ⟨own, hown⟩
  obtain ⟨hended, hchunks⟩ := hg.exhausted hall
  refine ⟨hended, List.findSome?_eq_none_iff.2 fun chunk hchunk => ?_⟩
  obtain ⟨r, hr, own, hown, hmem⟩ := hchunks chunk hchunk
  obtain ⟨own', hown', hmiss⟩ := hmiss r hr
  obtain ⟨rfl, -⟩ := hown.unique hown'
  exact hmiss chunk hmem

/-- Where a chunk of some part has a hit, the whole walk has one, unless it breaks off. -/
theorem Walker.Gathers.some_hits (hg : Gathers t g parts chunks ended) {ending : Ending}
    (hended : ended = .ok ending) {r : Region} (hr : r ∈ parts) {own : List Chunk}
    {ended' : Except MemoryError Ending} (hown : PartForetold t g r own ended') {chunk : Chunk}
    (hchunk : chunk ∈ own) {a : Address} (hm : m chunk = some a) :
    ∃ hit, chunks.findSome? m = some hit := by
  have hmem := hg.each ending hended r hr own ended' hown chunk hchunk
  refine Option.isSome_iff_exists.1 (List.findSome?_isSome_iff.2 ⟨chunk, hmem, ?_⟩)
  exact Option.isSome_of_mem hm

/-- Where no lookup fails, all of memory is walked to its end. -/
theorem Walker.Gathers.ended_eq (hg : Gathers t g parts chunks ended) (hc : Charts t.finds memory)
    (hparts : ∀ r ∈ parts, r.ToEnd memory)
    (hok : ∀ a error, (t.finds a).result ≠ .error error) : ended = .ok .exhausted := by
  refine (hg.exhausted fun r hr => ?_).1
  obtain ⟨own, ended, hown⟩ := exists_foretold t (some r.stop) (startingAt g r.start)
  exact ⟨own, PartForetold.exhausted hc (hparts r hr) hok hown ▸ hown⟩

theorem Pool.Reveals.bears (hr : Pool.Reveals t g m parts result)
    (hg : Gathers t g parts chunks ended) (hc : Charts t.finds memory)
    (hparts : ∀ r ∈ parts, r.ToEnd memory) :
    Bears t.finds ((chunks.findSome? m).elim (ended.map fun _ => none) fun hit => .ok (some hit))
      result := by
  cases hr with
  | nothing hmiss =>
    obtain ⟨rfl, hnone⟩ := hg.all_miss hmiss
    rw [hnone]
    exact ⟨fun _ => rfl, nofun, fun _ => ⟨none, none, rfl, rfl, rfl⟩⟩
  | failed hr hown =>
    refine ⟨nofun, nofun, fun hok => ?_⟩
    cases hown.exhausted hc (hparts _ hr) hok
  | @hit r own ended' chunk a hr hown hchunk hm =>
    cases hf : chunks.findSome? m with
    | some hit => exact ⟨nofun, nofun, fun _ => ⟨some hit, some a, rfl, rfl, rfl⟩⟩
    | none =>
      -- The whole walk has broken off, or it would have come to the chunk.
      have hnot {ending : Ending} (hended : ended = .ok ending) : False := by
        obtain ⟨hit, hsome⟩ := hg.some_hits hended hr hown hchunk hm
        cases hf.symm.trans hsome
      cases ended with
      | ok ending => exact (hnot rfl).elim
      | error error => exact ⟨nofun, nofun, fun hok => (hnot (hg.ended_eq hc hparts hok)).elim⟩

end

/-- A parallel search bears on a sequential one in every order of steps. -/
theorem Interleaved.bears (hc : Charts t.finds memory) (h : 0 < size)
    {outcome : Outcome (Option Address)} (hout : Interleaved t start h m () outcome) :
    Bears t.finds (search t start size m ()).outcome.result outcome.result := by
  rcases hc.lists_or_breaks t.lookup_eq_finds start with ⟨regions, hlists, -⟩ |
    ⟨a, error, hfails, hall⟩
  · obtain ⟨chunks, ended, hgathers, hforetold⟩ := exists_gathers hc (Grid.sliding size h) hlists
    rw [search_foretold h hforetold m]
    obtain ⟨hlisted, -⟩ := readableRegions_reported t.lookup_eq_finds hlists ()
    obtain ⟨listed, log, hout⟩ := (interleaved_iff h).1 hout
    cases hout with
    | unlisted hl => cases hl.symm.trans hlisted
    | @settled regions' soft events log q result hl hr hs ha =>
      cases hl.symm.trans hlisted
      have hrecounts := hr.recounts (Pool.recounts_begun m _ _ events)
      have hheeds := hr.heeds (Pool.heeds_begun t _ events)
      exact (hheeds.reveals hrecounts hs ha).bears hgathers hc (toEnd_of_lists hc hlists)
  · have hbroken : (readableRegions t start ()).outcome.result = .error error := hall [] () [] []
    cases hout with
    | unlisted hl => exact ⟨nofun, nofun, fun hok => absurd hfails (hok a _)⟩
    | settled hl hr hs ha =>
      rw [hl] at hbroken
      cases hbroken

/-- With chunks of no bytes there is an error where the lookup finds a region or fails, and nothing
is found where there is no region. -/
theorem searchParallel_emptyBuffer (hc : Charts t.finds memory) (workers : Nat) (start : Address)
    (m : Matcher) :
    let several := (searchParallel t workers start 0 m ()).outcome.result
    ((t.finds start).result = .ok none → several = .ok none) ∧
      ((t.finds start).result ≠ .ok none → ∃ error, several = .error error) := by
  intro several
  rcases hc.lists_or_breaks t.lookup_eq_finds start with ⟨regions, hlists, -⟩ |
    ⟨a, error, hfails, hall⟩
  · have hlisted := readableRegions_lists t.lookup_eq_finds hlists ()
    simp only [several, searchParallel, hlisted]
    cases hlists with
    | nil h => exact ⟨fun _ => rfl, absurd h⟩
    | cons h reaches exact above tail =>
      cases hc.found h with
      | region hnext =>
        obtain ⟨part, hpart, -⟩ := hnext.part
        refine ⟨fun hnone => ?_, fun _ => ⟨.invalidArgument "buffer size must be positive", ?_⟩⟩
        · cases h.symm.trans hnone
        · rw [List.filterMap_cons, hpart]
          rfl
  · have hbroken : (readableRegions t start ()).outcome.result = .error error := hall [] () [] []
    simp only [several, searchParallel, hbroken]
    refine ⟨fun hnone => ?_, fun _ => ⟨error, rfl⟩⟩
    have hlists : Lists t.finds start [] := .nil hnone
    cases hbroken.symm.trans (readableRegions_lists t.lookup_eq_finds hlists ())

end

/-- A hit in the first chunk ends a sequential search, whatever lies further up. -/
theorem search_first {t : Target Unit} {start : Address} {size : Nat} (h : 0 < size) {r : Region}
    {soft : List MemoryError} (hne : r.start < r.stop) (hstart : r.start = max r.start start)
    (hl : t.lookup start () = (⟨.ok (some r), soft⟩, ()))
    {bytes : Bytes (Window.first (Grid.sliding size h) r.start r.stop hne).size}
    (hread : t.read r.start _ () = (⟨.ok bytes, soft⟩, ())) {m : Matcher} {a : Address}
    (hm : m ⟨r.start, bytes.val⟩ = some a) :
    (search t start size m ()).outcome.result = .ok (some a) := by
  let begun : Walker (Grid.sliding size h) := startingAt _ start
  obtain ⟨chunks, ended, hbegun⟩ := exists_foretold t none begun
  have hreading : (begun.ask t none ()).1.phase = .reading (Window.first _ r.start r.stop hne) :=
    (Onward.seek_part hl hstart rfl hne begun).1
  have hentered := (hbegun.of_asking rfl).of_asking (by rw [isAsking, hreading])
  have hdelivering : ((begun.ask t none ()).1.ask t none ()).1.phase =
      .delivering (Window.first _ r.start r.stop hne) bytes := by
    rw [ask, hreading]
    exact (Course.fetch_ok hread).1
  obtain ⟨rest, rfl, -⟩ := hentered.of_delivering hdelivering
  rw [search_foretold h (fun w hp hr => hbegun.alike ⟨hp, hr⟩) m, List.findSome?_cons]
  simp only [Window.first_address, hm]
  rfl

/-- A search by several workers, whatever it matches the chunks with, on a target that answers by
the question alone: in every order of steps its answer bears on that of a sequential one. Only with
chunks of no bytes may it find that there is nothing where the sequential one fails. -/
theorem findMatchParallel_stateless (pid : ProcessId)
    {lookup : Address → Outcome (Option Region)} {memory : Memory} (hc : Charts lookup memory)
    (read : Address → (size : Nat) → Outcome (Bytes size)) (options : SearchOptions)
    (start : Address) (m : Matcher) :
    let t := Target.stateless pid lookup read
    let one := (findMatch t options start m ()).outcome.result
    let several := (findMatchParallel t options start m ()).outcome
    (∀ h : 0 < options.bufferSize, Interleaved t start h m () several ∧
      ∀ outcome, Interleaved t start h m () outcome → Bears lookup one outcome.result) ∧
    (options.bufferSize = 0 → one = .error (.invalidArgument "buffer size must be positive") ∧
      ((lookup start).result = .ok none → several.result = .ok none) ∧
      ((lookup start).result ≠ .ok none → ∃ error, several.result = .error error)) := by
  intro t one several
  have hc' : Charts t.finds memory := hc
  refine ⟨fun h => ⟨?_, fun outcome hout => hout.bears hc' h⟩, fun hzero => ⟨?_, ?_⟩⟩
  · exact searchParallel_interleaved t options.workers start h m ()
  · simp only [one, findMatch, search, walkSliding, hzero]
    rfl
  · simp only [several, findMatchParallel, hzero]
    exact searchParallel_emptyBuffer hc' options.workers start m

open SegmentedProcess in
/-- Lookups of two segments apart, with reads that give the same byte everywhere: one worker finds
it where the first segment starts, and several find it somewhere. -/
theorem findMatchParallel_stateless_parted :
    let t := Target.stateless 7 parted.lookup fun _ n =>
      .ok ⟨List.replicate n 0x78, List.length_replicate⟩
    let options : SearchOptions := { bufferSize := 2 }
    Charts parted.lookup parted.memory ∧ 0 < options.bufferSize ∧
      (findMatch t options 0 (.literal [0x78]) ()).outcome.result = .ok (some 0x10) ∧
      ∃ a, (findMatchParallel t options 0 (.literal [0x78]) ()).outcome.result = .ok (some a) := by
  intro t options
  have hp : parted.Fits := by decide
  have hsize : 0 < options.bufferSize := by decide
  have hone : (findMatch t options 0 (.literal [0x78]) ()).outcome.result = .ok (some 0x10) := by
    have hne : (⟨0x10, 2⟩ : Region).start < (⟨0x10, 2⟩ : Region).stop := by decide
    exact search_first hsize hne rfl rfl rfl rfl
  obtain ⟨hbears, -⟩ := findMatchParallel_stateless 7 (charts hp)
    (fun _ n => .ok ⟨List.replicate n 0x78, List.length_replicate⟩) options 0 (.literal [0x78])
  obtain ⟨hinterleaved, hall⟩ := hbears hsize
  have hfinds (a : Address) (error : MemoryError) : (parted.lookup a).result ≠ .error error := by
    intro herror
    have hfound := lookup_found hp a
    rw [herror] at hfound
    cases hfound
  obtain ⟨found, found', hfound, hfound', hsome⟩ := (hall _ hinterleaved).both hfinds
  cases hone.symm.trans hfound
  obtain ⟨a, rfl⟩ := Option.isSome_iff_exists.1 hsome.symm
  exact ⟨charts hp, hsize, hone, a, hfound'⟩

/-- Where nothing can be read and chunks have no bytes, or where a lookup past a hit fails, a search
by several workers does not come to what a sequential one comes to. -/
theorem findPatternParallel_disagrees :
    let p := Pattern.literal ['x']
    let read : Address → (size : Nat) → Outcome (Bytes size) := fun _ n =>
      .ok ⟨List.replicate n 0x78, List.length_replicate⟩
    let bare := Target.stateless 1 (fun _ => .ok none) read
    let cut := Target.stateless 1 (fun a =>
      if a < 0x1040 then .ok (some ⟨0x1000, 0x40⟩) else .fail (.io "boom")) read
    ((findPattern bare { bufferSize := 0 } 0 p ()).outcome.result =
        .error (.invalidArgument "buffer size must be positive") ∧
      (findPatternParallel bare { bufferSize := 0 } 0 p ()).outcome.result = .ok none) ∧
    (∃ a, (findPattern cut { bufferSize := 16 } 0 p ()).outcome.result = .ok (some a)) ∧
      (findPatternParallel cut { bufferSize := 16 } 0 p ()).outcome.result =
        .error (.io "boom") := by
  intro p read bare cut
  have hbare : Charts bare.finds fun _ => none := by
    refine ⟨fun h => ?_, nofun⟩
    cases h
    exact .nothing fun _ _ => rfl
  have hlt : (0 : Address) < 0x1040 := by decide
  have hfound : (cut.finds 0).result = .ok (some ⟨0x1000, 0x40⟩) := rfl
  have hbroken : (readableRegions cut 0 ()).outcome.result = .error (.io "boom") := by
    have hadv := Enumeration.advance_region cut.lookup_eq_finds hfound (by decide)
      ⟨by decide, by decide⟩ [] ()
    rw [readableRegions, Enumeration.startingAt, Enumeration.collect_of_region hadv]
    exact Enumeration.collect_of_error rfl _ _
  refine ⟨⟨rfl, ?_⟩, ?_, ?_⟩
  · exact (searchParallel_emptyBuffer hbare 1 0 (.pattern p)).1 rfl
  · have hne : (⟨0x1000, 0x40⟩ : Region).start < (⟨0x1000, 0x40⟩ : Region).stop := by decide
    have hpos : 0 < 16 := by decide
    have hleast := Pattern.literal_findsFirst (List.cons_ne_nil 'x' []) (List.replicate 16 'x')
    cases hfind : p.findText? (List.replicate 16 'x') with
    | none =>
      rw [hfind] at hleast
      exact absurd ⟨[], List.replicate 15 'x', rfl, rfl⟩ (hleast 0)
    | some n =>
      have hbytes : Utf8.encodeAll (List.replicate 16 'x') = List.replicate 16 0x78 := rfl
      rw [Pattern.findText?, hbytes] at hfind
      have hhit : Matcher.pattern p ⟨0x1000, List.replicate 16 0x78⟩ =
          some ((0x1000 : Address).advance n) := congrArg (Option.map _) hfind
      exact ⟨_, search_first hpos hne rfl rfl rfl hhit⟩
  · simp only [findPatternParallel, findMatchParallel, searchParallel, hbroken]

end ProcessMemory
