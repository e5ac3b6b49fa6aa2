import ProcessMemory.Proofs.Search.Jobs
import ProcessMemory.Proofs.Search.Orders

/-!
# Parallel and sequential searches agree

Whatever the order of their steps, the jobs of a search stay on course (`Pool.OnCourse`): each finds
the hit of its own part or hands over the errors of the windows that are lost there, and the flag is
up only where some job has a hit. So a search by several workers has a hit just where a sequential
search has one, and otherwise both keep the same soft errors.
-/
namespace ProcessMemory
namespace Pool

open SegmentedProcess

variable {g : Grid} {p : SegmentedProcess} {m : Matcher} {faults : List Fault}
  {team : List (Region × Job g)} {q : Pool g Wear}

/-- The jobs of the pool, each with its part, are on their way from a target with these faults. -/
structure OnCourse (p : SegmentedProcess) (m : Matcher) (faults : List Fault)
    (team : List (Region × Job g)) (q : Pool g Wear) : Prop where
  jobs : q.jobs = team.map Prod.snd
  apart : (team.map Prod.fst).Pairwise fun a b => a.stop ≤ b.start
  each : ∀ x ∈ team, x.2.OnCourse p m q.shared.state.faults q.shared.stop x.1
    (p.partVisits g faults x.1)
  hardError : q.shared.hardError = none
  carried : q.shared.stop = true → ∃ x ∈ team, x.2.carries = true
  handed : q.shared.stop = false →
    q.shared.softErrors.Perm (team.flatMap fun x => x.2.handed (p.partVisits g faults x.1))

/-- The job at `i`, with its part and the others around it. -/
theorem exists_split {i : Nat} {job : Job g} (h : (team.map Prod.snd)[i]? = some job) :
    ∃ before r after, team = before ++ (r, job) :: after ∧
      ∀ job', (team.map Prod.snd).set i job' = (before ++ (r, job') :: after).map Prod.snd := by
  induction team generalizing i with
  | nil => cases h
  | cons x rest ih =>
    cases i with
    | zero =>
      cases h
      exact ⟨[], x.1, rest, rfl, fun _ => rfl⟩
    | succ i =>
      obtain ⟨before, r, after, rfl, hset⟩ := ih h
      exact ⟨x :: before, r, after, rfl, fun job' => congrArg (x.2 :: ·) (hset job')⟩

section
variable {before after : List (Region × Job g)} {r : Region} {job job' : Job g}
  {shared' : Shared Wear}

/-- The parts of the others lie beside that of the job. -/
theorem OnCourse.beside (h : q.OnCourse p m faults (before ++ (r, job) :: after))
    {x : Region × Job g} (hx : x ∈ before ∨ x ∈ after) :
    x.1.stop ≤ r.start ∨ r.stop ≤ x.1.start := by
  have hapart := h.apart
  rw [List.map_append, List.map_cons, List.pairwise_append, List.pairwise_cons] at hapart
  rcases hx with hx | hx
  · exact .inl (hapart.2.2 x.1 (List.mem_map_of_mem hx) r List.mem_cons_self)
  · exact .inr (hapart.2.1.1 x.1 (List.mem_map_of_mem hx))

/-- A step of one job keeps the others on course. -/
theorem OnCourse.replace (h : q.OnCourse p m faults (before ++ (r, job) :: after))
    (hs : Job.Steps p m r (p.partVisits g faults r) job q.shared job' shared') :
    OnCourse p m faults (before ++ (r, job') :: after)
      ⟨(before ++ (r, job') :: after).map Prod.snd, shared'⟩ where
  jobs := rfl
  apart := by
    have hapart := h.apart
    rwa [List.map_append, List.map_cons] at hapart ⊢
  each x hx := by
    have hothers (hx : x ∈ before ∨ x ∈ after) (hmem : x ∈ before ++ (r, job) :: after) :
        x.2.OnCourse p m shared'.state.faults shared'.stop x.1 (p.partVisits g faults x.1) :=
      (h.each x hmem).congr (hs.beside.between (h.beside hx)) hs.lasting
    simp only [List.mem_append, List.mem_cons] at hx
    rcases hx with hx | rfl | hx
    · exact hothers (.inl hx) (List.mem_append_left _ hx)
    · exact hs.onCourse
    · exact hothers (.inr hx) (List.mem_append_right _ (List.mem_cons_of_mem _ hx))
  hardError := hs.hardError.trans h.hardError
  carried hstop := by
    have hself (hc : job'.carries = true) :
        ∃ x ∈ before ++ (r, job') :: after, x.2.carries = true :=
      ⟨(r, job'), List.mem_append_right _ List.mem_cons_self, hc⟩
    rcases hs.raised hstop with hstop | hc
    · obtain ⟨x, hx, hc⟩ := h.carried hstop
      simp only [List.mem_append, List.mem_cons] at hx
      rcases hx with hx | rfl | hx
      · exact ⟨x, List.mem_append_left _ hx, hc⟩
      · exact hself (hs.carries hc)
      · exact ⟨x, List.mem_append_right _ (List.mem_cons_of_mem _ hx), hc⟩
    · exact hself hc
  handed hstop := by
    have hbefore : q.shared.stop = false := Bool.eq_false_iff.2 fun hup => by
      rw [hs.lasting hup] at hstop
      cases hstop
    obtain ⟨errors, hsoft, hhanded⟩ := hs.handed hstop
    have hperm := h.handed hbefore
    simp only [List.flatMap_append, List.flatMap_cons, hhanded] at hperm ⊢
    rw [hsoft]
    -- What the job hands over now comes last, after what the others have handed over.
    refine (hperm.append_right errors).trans ?_
    simp only [List.append_assoc]
    exact .append_left _ (.append_left _ List.perm_append_comm)

end

/-- A step of any job keeps all of them on course. -/
theorem OnCourse.step (hp : p.Fits) (choose : Nat → Nat) (h : q.OnCourse p m faults team)
    (i : Nat) : ∃ team', team'.map Prod.fst = team.map Prod.fst ∧
      (q.step (p.targetChoosing choose) m i).OnCourse p m faults team' := by
  cases hi : q.jobs[i]? with
  | none =>
    have hstep : q.step (p.targetChoosing choose) m i = q := by simp only [Pool.step, hi]
    exact ⟨team, rfl, by rwa [hstep]⟩
  | some job =>
    obtain ⟨before, r, after, rfl, hset⟩ := exists_split (h.jobs ▸ hi)
    have hjob := h.each (r, job) (List.mem_append_right _ List.mem_cons_self)
    have hnext := h.replace (hjob.step hp choose)
    rw [← hset, ← h.jobs] at hnext
    refine ⟨before ++ (r, (job.step (p.targetChoosing choose) m q.shared).1) :: after, ?_, ?_⟩
    · simp only [List.map_append, List.map_cons]
    · simpa only [Pool.step, hi] using hnext

/-- Every order of steps keeps the jobs on course. -/
theorem OnCourse.reaches (hp : p.Fits) (choose : Nat → Nat) (h : q.OnCourse p m faults team)
    {q' : Pool g Wear} (hr : Reaches (p.targetChoosing choose) m q q') :
    ∃ team', team'.map Prod.fst = team.map Prod.fst ∧ q'.OnCourse p m faults team' := by
  induction hr with
  | refl => exact ⟨team, rfl, h⟩
  | step i hr ih =>
    obtain ⟨team', hparts, h'⟩ := ih
    obtain ⟨team'', hparts', h''⟩ := h'.step hp choose i
    exact ⟨team'', hparts'.trans hparts, h''⟩

theorem begun_onCourse {start : Address} {parts : List Region} {errors : List MemoryError}
    (h : Parts p start parts errors) (m : Matcher) (w : Wear) (events : List Event) :
    OnCourse p m w.faults (parts.map fun r => (r, .waiting r))
      (begun parts w events : Pool g Wear) where
  jobs := by rw [List.map_map]; rfl
  apart := by
    rw [List.map_map]
    exact (List.map_id parts).symm ▸ h.pairwise
  each x hx := by
    obtain ⟨r, hr, rfl⟩ := List.mem_map.1 hx
    exact .waiting (h.toEnd_of_mem r hr) rfl
  hardError := rfl
  carried := nofun
  handed _ := by
    have hnone : (parts.map fun r => (r, (.waiting r : Job g))).flatMap
        (fun x => x.2.handed (p.partVisits g w.faults x.1)) = [] := by
      rw [List.flatMap_map, List.flatMap_eq_nil_iff]
      exact fun _ _ => rfl
    rw [hnone]
    exact .refl _

/-- A job that ended with a hit has that of its part. -/
theorem OnCourse.hit (h : q.OnCourse p m faults team) {job : Job g} {hit : Address}
    (hm : job ∈ q.jobs) (hhit : job.hit? = some hit) :
    ∃ r ∈ team.map Prod.fst, hitOf m (p.partVisits g faults r) = some hit := by
  rw [h.jobs] at hm
  obtain ⟨⟨r, job⟩, hx, rfl⟩ := List.mem_map.1 hm
  have honcourse := h.each _ hx
  cases job with
  | ended ended =>
    simp only [Job.hit?] at hhit
    subst hhit
    cases honcourse with
    | endedWith hhit => exact ⟨r, List.mem_map_of_mem hx, hhit⟩
  | _ => cases hhit

/-- Where no job has a hit, a settled pool has gone through every part. -/
theorem OnCourse.ended_none (h : q.OnCourse p m faults team) (hs : q.Settled)
    (hn : ∀ job ∈ q.jobs, job.hit? = none) {x : Region × Job g} (hx : x ∈ team) :
    x.2 = .ended none := by
  obtain ⟨r, job⟩ := x
  have hjob : job ∈ q.jobs := h.jobs ▸ List.mem_map_of_mem hx
  have hend : job.isEnded := by
    rcases hs with hs | ⟨-, hitting, hm, hsome⟩
    · exact hs job hjob
    · rw [hn hitting hm] at hsome
      cases hsome
  cases job with
  | ended hit => exact congrArg Job.ended (hn _ hjob)
  | _ => cases hend

/-- What a pool may answer with whose jobs are on course: the hit of some part, or that there is
none in any part, with the errors of all the windows lost. -/
theorem OnCourse.answers {result : Except MemoryError (Option Address)}
    (h : q.OnCourse p m faults team) (hs : q.Settled) (ha : q.Answers result) :
    (∃ r ∈ team.map Prod.fst, ∃ hit, hitOf m (p.partVisits g faults r) = some hit ∧
      result = .ok (some hit)) ∨
    (result = .ok none ∧ (∀ r ∈ team.map Prod.fst, hitOf m (p.partVisits g faults r) = none) ∧
      q.shared.softErrors.Perm
        ((team.map Prod.fst).flatMap fun r => lossesOf (p.partVisits g faults r))) := by
  cases ha with
  | hit address job hm hhit =>
    obtain ⟨r, hr, hhit⟩ := h.hit hm hhit
    exact .inl ⟨r, hr, address, hhit, rfl⟩
  | failed error hn herror => cases h.hardError.symm.trans herror
  | nothing hn herror =>
    have hended : ∀ x ∈ team, x.2 = .ended none := fun x hx => h.ended_none hs hn hx
    have hdown : q.shared.stop = false := Bool.eq_false_iff.2 fun hup => by
      obtain ⟨x, hx, hc⟩ := h.carried hup
      rw [hended x hx] at hc
      cases hc
    have hmiss : ∀ x ∈ team, hitOf m (p.partVisits g faults x.1) = none := by
      intro x hx
      have honcourse := h.each x hx
      rw [hended x hx, hdown] at honcourse
      cases honcourse with
      | endedWithout hmiss => exact hmiss.resolve_right nofun
    have hhanded : (team.flatMap fun x => x.2.handed (p.partVisits g faults x.1)) =
        (team.map Prod.fst).flatMap fun r => lossesOf (p.partVisits g faults r) := by
      rw [List.flatMap_map]
      refine congrArg List.flatten (List.map_congr_left fun x hx => ?_)
      rw [hended x hx]
      rfl
    refine .inr ⟨rfl, fun r hr => ?_, hhanded ▸ h.handed hdown⟩
    obtain ⟨x, hx, rfl⟩ := List.mem_map.1 hr
    exact hmiss x hx

end Pool

/-- How the outcome of a search by several workers compares with that of a sequential one: both have
a hit, the former the first one in the windows of some part, or neither has one and both keep the
same soft errors. -/
inductive Agrees {σ : Type} (t : Target σ) (g : Grid) (start : Address) (m : Matcher) (s : σ)
    (sequential : Outcome (Option Address)) : Outcome (Option Address) → Prop where
  | hit {first hit : Address} {regions : List Region} {r : Region} {soft : List MemoryError}
    (hfirst : sequential.result = .ok (some first))
    (hl : (readableRegions t start s).outcome.result = .ok regions)
    (hr : r ∈ regions.filterMap (·.from? start))
    (hhit : (walkGrid t g r.start (some r.stop) keepAll [] s).2.findSome? m = some hit) :
    Agrees t g start m s sequential ⟨.ok (some hit), soft⟩
  | nothing {soft : List MemoryError} (hnone : sequential.result = .ok none)
    (hsoft : sequential.softErrors.Perm soft) : Agrees t g start m s sequential ⟨.ok none, soft⟩

open SegmentedProcess in
/-- All that a search by several workers may come to agrees with the sequential one. -/
theorem Interleaved.agrees {p : SegmentedProcess} (hp : p.Fits) (choose choose' : Nat → Nat)
    {start : Address} {size : Nat} {h : 0 < size} {m : Matcher} {w : Wear}
    {outcome : Outcome (Option Address)}
    (hout : Interleaved (p.targetChoosing choose') start h m w outcome) :
    Agrees (p.targetChoosing choose') (Grid.sliding size h) start m w
      (search (p.targetChoosing choose) start size m w).outcome outcome := by
  obtain ⟨regions, hlists, -⟩ := exists_lists hp start
  have hparts := hlists.parts hp
  obtain ⟨hlisted, hstate⟩ :=
    readableRegions_reported (t := p.targetChoosing choose') (fun _ _ => rfl) hlists w
  obtain ⟨hresult, hsoft⟩ := search_parts hp choose hparts h m w
  rw [hitOf_visitsOf] at hresult hsoft
  cases hout with
  | unlisted hl => cases hl.symm.trans hlisted
  | @settled regions' soft events q result hl hr hs ha =>
    cases hl.symm.trans hlisted
    rw [hstate] at hr
    obtain ⟨team, hteam, hq⟩ := (Pool.begun_onCourse hparts m w events).reaches hp choose' hr
    have hmap : team.map Prod.fst = regions.filterMap (·.from? start) := by
      rw [hteam, List.map_map]
      exact List.map_id _
    have hanswer := hq.answers hs ha
    rw [hmap] at hanswer
    rcases hanswer with ⟨r, hmem, hit, hhit, rfl⟩ | ⟨rfl, hmiss, hperm⟩
    · have hsome : ((regions.filterMap (·.from? start)).findSome? fun r =>
          hitOf m (p.partVisits (Grid.sliding size h) w.faults r)).isSome :=
        List.findSome?_isSome_iff.2 ⟨r, hmem, Option.isSome_of_mem hhit⟩
      obtain ⟨first, hfirst⟩ := Option.isSome_iff_exists.1 hsome
      rw [hfirst] at hresult
      refine .hit hresult (congrArg Outcome.result hlisted) hmem ?_
      rw [walkGrid_part hp choose' (hparts.toEnd_of_mem r hmem)]
      exact hhit
    · rw [List.findSome?_eq_none_iff.2 hmiss] at hresult hsoft
      refine .nothing hresult ((hsoft rfl).trans ?_)
      rw [lossesOf_visitsOf]
      exact List.perm_append_comm.trans (hperm.symm.append_left _)

namespace SegmentedProcess

variable {p : SegmentedProcess}

/-- With a fault on the first of two segments, both searches find what the second one holds. -/
theorem parted_agrees {choose choose' : Nat → Nat} {outcome : Outcome (Option Address)}
    (h : Agrees (parted.targetChoosing choose') (Grid.sliding 4 (by decide)) 0 (.literal [3, 4])
      { faults := [⟨0x11, .always⟩] }
      (search (parted.targetChoosing choose) 0 4 (.literal [3, 4])
        { faults := [⟨0x11, .always⟩] }).outcome outcome) :
    outcome.result = .ok (some 0x20) := by
  have hp : parted.Fits := by decide
  have hone := parted_search choose
  obtain ⟨hlost, hshown⟩ := parted_partVisits
  cases h with
  | nothing hnone => cases hone.symm.trans hnone
  | @hit first hit regions r soft hfirst hl hr hhit =>
    obtain ⟨hlisted, -⟩ := readableRegions_reported (t := parted.targetChoosing choose')
      (fun _ _ => rfl) parted_lists { faults := [⟨0x11, .always⟩] }
    cases hl.symm.trans (congrArg Outcome.result hlisted)
    rw [walkGrid_part hp choose' (parted_parts.toEnd_of_mem r hr)] at hhit
    change r ∈ [⟨0x10, 2⟩, ⟨0x20, 2⟩] at hr
    rcases List.mem_cons.1 hr with rfl | hr
    · rw [hlost] at hhit
      cases hhit
    · cases List.mem_singleton.1 hr
      rw [hshown] at hhit
      exact congrArg Except.ok hhit.symm

/-- Whatever faults there are and whichever of them strike, a search by several workers agrees with
a sequential one in every order of their steps, and every order comes to an end. -/
theorem searchParallel_agrees (hp : p.Fits) (choose choose' : Nat → Nat) (start : Address)
    {size : Nat} (h : 0 < size) (m : Matcher) (w : Wear) :
    let t := p.targetChoosing choose
    let t' := p.targetChoosing choose'
    (∀ workers, Interleaved t' start h m w (searchParallel t' workers start size m w).outcome) ∧
      (∀ (q : Pool (Grid.sliding size h) Wear) (i : Nat) (job : Job (Grid.sliding size h)),
        q.jobs[i]? = some job → job.isEnded = false → (q.step t' m i).work < q.work) ∧
      ∀ outcome, Interleaved t' start h m w outcome →
        Agrees t' (Grid.sliding size h) start m w (search t start size m w).outcome outcome :=
  ⟨fun workers => searchParallel_interleaved _ workers start h m w,
    fun _ _ _ hi hj => Pool.work_step_lt hi hj, fun _ hout => hout.agrees hp choose choose'⟩

/-- A fault for ever on the first of two segments: bytes that both hold are found in the second one,
and for bytes that neither holds both searches tell of the window that was lost. -/
theorem searchParallel_agrees_parted :
    let w : Wear := { faults := [⟨0x11, .always⟩] }
    let one (m : Matcher) := (search (parted.targetChoosing fun _ => 0) 0 4 m w).outcome
    let several (m : Matcher) := (searchParallel (parted.targetChoosing id) 3 0 4 m w).outcome
    parted.Fits ∧ 0 < 4 ∧
      (one (.literal [3, 4])).result = .ok (some 0x20) ∧
      (several (.literal [3, 4])).result = .ok (some 0x20) ∧
      (several (.literal [5])).result = .ok none ∧
      (one (.literal [5])).softErrors.Perm (several (.literal [5])).softErrors ∧
      .readFailed 0x10 2 "injected fault" ∈ (several (.literal [5])).softErrors := by
  intro w one several
  have hp : parted.Fits := by decide
  have hsize : 0 < 4 := by decide
  have hall (m : Matcher) : Agrees (parted.targetChoosing id) (Grid.sliding 4 hsize) 0 m w (one m)
      (several m) := by
    obtain ⟨hone, -, hall⟩ := searchParallel_agrees hp (fun _ => 0) id 0 hsize m w
    exact hall _ (hone 3)
  refine ⟨hp, hsize, parted_search _, parted_agrees (hall _), ?_⟩
  obtain ⟨hresult, hsoft⟩ := search_parts hp (fun _ => 0) parted_parts hsize (.literal [5]) w
  rw [parted_visitsOf] at hresult hsoft
  have htold : .readFailed 0x10 2 "injected fault" ∈ (one (.literal [5])).softErrors :=
    (hsoft rfl).mem_iff.2 List.mem_cons_self
  have hagrees := hall (.literal [5])
  generalize several (.literal [5]) = outcome at hagrees ⊢
  cases hagrees with
  | hit hfirst => cases hresult.symm.trans hfirst
  | nothing hnone hperm => exact ⟨rfl, hperm, hperm.mem_iff.1 htold⟩

end SegmentedProcess
end ProcessMemory
