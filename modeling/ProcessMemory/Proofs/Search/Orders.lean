import ProcessMemory.Search.Parallel

/-!
# Orders of steps

Every step of a job that has not ended brings a pool nearer to its end, so no order of steps goes on
for ever. Where all is settled, the pool has an answer. The order of a single worker is one that
settles all.
-/
namespace ProcessMemory
namespace Pool

variable {g : Grid} {σ : Type} {t : Target σ} {m : Matcher} {p q r : Pool g σ} {i j : Nat}
  {job : Job g}

def workOf : List (Job g) → Nat
  | [] => 0
  | job :: rest => job.remaining + workOf rest

def work (p : Pool g σ) : Nat := workOf p.jobs

theorem workOf_set_lt {jobs : List (Job g)} {job' : Job g} (hi : jobs[i]? = some job)
    (h : job'.remaining < job.remaining) : workOf (jobs.set i job') < workOf jobs := by
  induction jobs generalizing i with
  | nil => cases hi
  | cons first rest ih =>
    cases i with
    | zero =>
      cases hi
      simp only [List.set_cons_zero, workOf]
      omega
    | succ i =>
      have hrest := ih hi
      simp only [List.set_cons_succ, workOf]
      omega

theorem step_eq (hi : p.jobs[i]? = some job) :
    p.step t m i = ⟨p.jobs.set i (job.step t m p.shared).1, (job.step t m p.shared).2⟩ := by
  simp only [step, hi]

theorem work_step_lt (hi : p.jobs[i]? = some job) (h : job.isEnded = false) :
    (p.step t m i).work < p.work := by
  rw [step_eq hi]
  exact workOf_set_lt hi (job.remaining_step_lt t m p.shared h)

theorem jobs_step_ne (h : j ≠ i) : (p.step t m i).jobs[j]? = p.jobs[j]? := by
  cases hi : p.jobs[i]? with
  | none => simp only [step, hi]
  | some job => rw [step_eq hi, List.getElem?_set_ne (Ne.symm h)]

theorem length_jobs_step : (p.step t m i).jobs.length = p.jobs.length := by
  cases hi : p.jobs[i]? with
  | none => simp only [step, hi]
  | some job => rw [step_eq hi, List.length_set]

theorem Reaches.trans (h : Reaches t m p q) (h' : Reaches t m q r) : Reaches t m p r := by
  induction h' with
  | refl => exact h
  | step i _ ih => exact .step i ih

structure Finishes (t : Target σ) (m : Matcher) (i : Nat) (p q : Pool g σ) : Prop where
  reaches : Reaches t m p q
  ended : ∀ job, q.jobs[i]? = some job → job.isEnded
  others : ∀ j, j ≠ i → q.jobs[j]? = p.jobs[j]?
  length : q.jobs.length = p.jobs.length

theorem finishes_finish (t : Target σ) (m : Matcher) (i : Nat) (p : Pool g σ) :
    Finishes t m i p (p.finish t m i) := by
  fun_induction finish t m i p with
  | case1 p h =>
    refine ⟨.refl p, fun job hj => ?_, fun _ _ => rfl, rfl⟩
    cases h.symm.trans hj
  | case2 p job h hended =>
    refine ⟨.refl p, fun job' hj => ?_, fun _ _ => rfl, rfl⟩
    cases h.symm.trans hj
    exact hended
  | case3 p job h hended ih =>
    refine ⟨(Reaches.step i (.refl p)).trans ih.reaches, ih.ended, fun j hj => ?_, ?_⟩
    · exact (ih.others j hj).trans (jobs_step_ne hj)
    · exact ih.length.trans length_jobs_step

/-- A pool whose first `k` jobs have been stepped to their ends, one after another. -/
structure RunUpTo (t : Target σ) (m : Matcher) (p : Pool g σ) (k : Nat) (q : Pool g σ) : Prop where
  reaches : Reaches t m p q
  length : q.jobs.length = p.jobs.length
  /-- A job that has not ended has not begun. The first `k` have, unless there is a hit. -/
  settled : ∀ j job, q.jobs[j]? = some job → job.isEnded ∨ job.isWaiting ∧ (j < k → q.hit?.isSome)

theorem runUpTo (t : Target σ) (m : Matcher) (h : ∀ job ∈ p.jobs, job.isWaiting) (k : Nat) :
    RunUpTo t m p k
      ((List.range k).foldl (fun p i => if p.hit?.isSome then p else p.finish t m i) p) := by
  induction k with
  | zero =>
    refine ⟨.refl p, rfl, fun j job hj => .inr ⟨h job (List.mem_of_getElem? hj), ?_⟩⟩
    exact fun hlt => absurd hlt (Nat.not_lt_zero j)
  | succ k ih =>
    rw [List.range_succ, List.foldl_append, List.foldl_cons, List.foldl_nil]
    generalize (List.range k).foldl (fun p i => if p.hit?.isSome then p else p.finish t m i) p = q
      at ih ⊢
    by_cases hhit : q.hit?.isSome
    · rw [if_pos hhit]
      refine ⟨ih.reaches, ih.length, fun j job hj => ?_⟩
      exact (ih.settled j job hj).imp_right fun hw => ⟨hw.1, fun _ => hhit⟩
    · rw [if_neg hhit]
      have hfinish := finishes_finish t m k q
      refine ⟨ih.reaches.trans hfinish.reaches, hfinish.length.trans ih.length, fun j job hj => ?_⟩
      by_cases hjk : j = k
      · exact .inl (hfinish.ended job (hjk ▸ hj))
      · rw [hfinish.others j hjk] at hj
        refine (ih.settled j job hj).imp_right fun hw => ⟨hw.1, fun hlt => ?_⟩
        exact absurd (hw.2 (by omega)) hhit

/-- The order of a single worker settles the pool. -/
theorem settled_run (t : Target σ) (m : Matcher) (h : ∀ job ∈ p.jobs, job.isWaiting) :
    Reaches t m p (p.run t m) ∧ (p.run t m).Settled := by
  have hrun := runUpTo t m h p.jobs.length
  refine ⟨hrun.reaches, ?_⟩
  change Settled ((List.range p.jobs.length).foldl _ p)
  generalize (List.range p.jobs.length).foldl _ p = q at hrun
  have hsettled (job : Job g) (hm : job ∈ q.jobs) :
      job.isEnded ∨ job.isWaiting ∧ q.hit?.isSome := by
    obtain ⟨j, hj⟩ := List.getElem?_of_mem hm
    have hlt : j < p.jobs.length := hrun.length ▸ (List.getElem?_eq_some_iff.1 hj).1
    exact (hrun.settled j job hj).imp_right fun hw => ⟨hw.1, hw.2 hlt⟩
  by_cases hhit : q.hit?.isSome
  · refine .inr ⟨fun job hm => (hsettled job hm).imp_right And.left, ?_⟩
    exact List.findSome?_isSome_iff.1 hhit
  · exact .inl fun job hm => (hsettled job hm).resolve_right fun hw => hhit hw.2

def begun (parts : List Region) (s : σ) (events : List Event) : Pool g σ :=
  ⟨parts.map .waiting, { state := s, events }⟩

/-- A pool always has an answer. -/
theorem answers_answer (p : Pool g σ) : p.Answers p.answer := by
  unfold answer
  cases hhit : p.hit? with
  | some address =>
    obtain ⟨job, hm, hj⟩ := List.exists_of_findSome?_eq_some hhit
    exact .hit address job hm hj
  | none =>
    have hn := List.findSome?_eq_none_iff.1 hhit
    cases herror : p.shared.hardError with
    | some error => exact .failed error hn herror
    | none => exact .nothing hn herror

end Pool

/-- What a search by several workers may come to, in one order of steps or another. -/
inductive Interleaved {σ : Type} (t : Target σ) (start : Address) {size : Nat} (h : 0 < size)
    (m : Matcher) (s : σ) : Outcome (Option Address) → Prop where
  | unlisted {error : MemoryError} {soft : List MemoryError}
    (hl : (readableRegions t start s).outcome = ⟨.error error, soft⟩) :
    Interleaved t start h m s ⟨.error error, soft⟩
  | settled {regions : List Region} {soft : List MemoryError} {events : List Event}
    {q : Pool (Grid.sliding size h) σ} {result : Except MemoryError (Option Address)}
    (hl : (readableRegions t start s).outcome = ⟨.ok regions, soft⟩)
    (hr : Pool.Reaches t m
      (.begun (regions.filterMap (·.from? start)) (readableRegions t start s).state events) q)
    (hs : q.Settled) (ha : q.Answers result) :
    Interleaved t start h m s ⟨result, soft ++ q.shared.softErrors⟩

/-- A search by several workers comes to what one of the orders comes to. -/
theorem searchParallel_interleaved {σ : Type} (t : Target σ) (workers : Nat) (start : Address)
    {size : Nat} (h : 0 < size) (m : Matcher) (s : σ) :
    Interleaved t start h m s (searchParallel t workers start size m s).outcome := by
  rcases hl : (readableRegions t start s).outcome with ⟨result, soft⟩
  cases result with
  | error error =>
    simp only [searchParallel, hl]
    exact .unlisted hl
  | ok regions =>
    simp only [searchParallel, hl, dif_pos h]
    obtain ⟨hr, hs⟩ := Pool.settled_run t m (p := .begun (regions.filterMap (·.from? start)) _ _)
      fun job hj => by
        obtain ⟨r, -, rfl⟩ := List.mem_map.1 hj
        rfl
    exact .settled hl hr hs (Pool.answers_answer _)

end ProcessMemory
