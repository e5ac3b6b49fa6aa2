import ProcessMemory.Proofs.Search.Parts
import ProcessMemory.Search.Parallel

/-!
# The jobs of a parallel search

Each job has the visits of its own part before it. A step of the job keeps it on course, and wears
out no faults but those of its part, so that the jobs of other parts stay on theirs.
-/
namespace ProcessMemory

namespace Job

variable {g : Grid} {p : SegmentedProcess} {m : Matcher} {faults faults' : List Fault}
  {stop stop' : Bool} {r : Region} {plan : List Visit} {job : Job g}

/-- The job is on its way through the part `r`, which has the visits `plan`; `stop` is the flag. -/
inductive OnCourse (p : SegmentedProcess) (m : Matcher) (faults : List Fault) (stop : Bool)
    (r : Region) (plan : List Visit) : Job g → Prop where
  | waiting (toEnd : r.ToEnd p.memory) (hplan : plan = p.partVisits g faults r) :
    OnCourse p m faults stop r plan (.waiting r)
  | walking {walker : Walker g} {done rest : List Visit} (hsplit : plan = done ++ rest)
    (hmiss : hitOf m done = none) (hsoft : walker.softErrors = lossesOf done)
    (ahead : Walker.Ahead p r.start.toNat r.stop faults walker rest) :
    OnCourse p m faults stop r plan (.walking r.stop walker none)
  | matching {walker : Walker g} {w : Window g} {bytes : Bytes w.size} {done rest : List Visit}
    (hsplit : plan = done ++ rest) (hmiss : hitOf m done = none)
    (hsoft : walker.softErrors = lossesOf done)
    (ahead : Walker.Ahead p r.start.toNat r.stop faults walker rest)
    (hp : walker.phase = .delivering w bytes) :
    OnCourse p m faults stop r plan (.matching r.stop walker w bytes.val)
  | announcing {walker : Walker g} {w : Window g} {hit : Address} (hhit : hitOf m plan = some hit) :
    OnCourse p m faults stop r plan (.announcing r.stop walker w hit)
  /-- The walk is over, and had no hit. -/
  | missed {walker : Walker g} (hp : walker.phase = .finished (.ok .exhausted))
    (hmiss : hitOf m plan = none) (hsoft : walker.softErrors = lossesOf plan) :
    OnCourse p m faults stop r plan (.walking r.stop walker none)
  /-- The walk was given up because another job had a hit. -/
  | quit {walker : Walker g} (hp : walker.phase = .finished (.ok .stopped)) (hstop : stop = true) :
    OnCourse p m faults stop r plan (.walking r.stop walker none)
  | found {walker : Walker g} {hit : Address} (hp : walker.phase = .finished (.ok .stopped))
    (hhit : hitOf m plan = some hit) (hstop : stop = true) :
    OnCourse p m faults stop r plan (.walking r.stop walker (some hit))
  | endedWithout (hmiss : hitOf m plan = none ∨ stop = true) :
    OnCourse p m faults stop r plan (.ended none)
  | endedWith {hit : Address} (hhit : hitOf m plan = some hit) :
    OnCourse p m faults stop r plan (.ended (some hit))

/-- A job stays on course while others raise the flag or wear out faults elsewhere. -/
theorem OnCourse.congr (h : job.OnCourse p m faults stop r plan)
    (hsame : Fault.SameBetween r.start.toNat r.stop.toNat faults faults')
    (hstop : stop = true → stop' = true) : job.OnCourse p m faults' stop' r plan := by
  cases h with
  | waiting toEnd hplan =>
    exact .waiting toEnd (hplan.trans (SegmentedProcess.partVisits_congr hsame).symm)
  | walking hsplit hmiss hsoft ahead => exact .walking hsplit hmiss hsoft (ahead.congr hsame)
  | matching hsplit hmiss hsoft ahead hp =>
    exact .matching hsplit hmiss hsoft (ahead.congr hsame) hp
  | announcing hhit => exact .announcing hhit
  | missed hp hmiss hsoft => exact .missed hp hmiss hsoft
  | quit hp h => exact .quit hp (hstop h)
  | found hp hhit h => exact .found hp hhit (hstop h)
  | endedWithout hmiss => exact .endedWithout (hmiss.imp_right hstop)
  | endedWith hhit => exact .endedWith hhit

/-- A walker that is to ask a query does so. -/
theorem step_of_isAsking {σ : Type} (t : Target σ) (m : Matcher) {walker : Walker g}
    (limit : Address) (hit : Option Address) (shared : Shared σ) (h : walker.isAsking) :
    (Job.walking limit walker hit).step t m shared =
      let (walker, state, events) := walker.ask t (some limit) shared.state
      (.walking limit walker hit, { shared with state, events := shared.events ++ events }) := by
  cases hp : walker.phase with
  | seeking cursor => simp only [step, hp]
  | reading w => simp only [step, hp]
  | delivering w bytes => simp [Walker.isAsking, hp] at h
  | finished result => simp [Walker.isAsking, hp] at h

/-- The job has raised the flag, for a hit or for an error that it has still to note. -/
def carries : Job g → Bool
  | .walking _ _ hit => hit.isSome
  | .noting _ _ => true
  | .ended hit => hit.isSome
  | _ => false

def handed (plan : List Visit) (job : Job g) : List MemoryError :=
  if job.isEnded then lossesOf plan else []

structure Steps (p : SegmentedProcess) (m : Matcher) (r : Region) (plan : List Visit) (job : Job g)
    (shared : Shared SegmentedProcess.Wear) (job' : Job g)
    (shared' : Shared SegmentedProcess.Wear) : Prop where
  onCourse : job'.OnCourse p m shared'.state.faults shared'.stop r plan
  beside : Fault.SameBeside r.start.toNat r.stop.toNat shared.state.faults shared'.state.faults
  lasting : shared.stop = true → shared'.stop = true
  raised : shared'.stop = true → shared.stop = true ∨ job'.carries = true
  carries : job.carries = true → job'.carries = true
  hardError : shared'.hardError = shared.hardError
  handed : shared'.stop = false → ∃ errors, shared'.softErrors = shared.softErrors ++ errors ∧
    job'.handed plan = job.handed plan ++ errors

section
open SegmentedProcess Walker

variable {shared shared' : Shared Wear} {job' : Job g}

/-- A step of a job under way that hands nothing over and raises no flag. -/
theorem Steps.under_way (onCourse : job'.OnCourse p m shared'.state.faults shared'.stop r plan)
    (beside : Fault.SameBeside r.start.toNat r.stop.toNat shared.state.faults shared'.state.faults)
    (hstop : shared'.stop = shared.stop) (hhard : shared'.hardError = shared.hardError)
    (hsoft : shared'.softErrors = shared.softErrors) (hended : job'.isEnded = job.isEnded)
    (hcarries : job.carries = false) : Steps p m r plan job shared job' shared' where
  onCourse := onCourse
  beside := beside
  lasting h := hstop.trans h
  raised h := .inl (hstop.symm.trans h)
  carries h := absurd h (by simp [hcarries])
  hardError := hhard
  handed _ := ⟨[], by simp [hsoft], by simp [Job.handed, hended]⟩

/-- A job ends while the flag is up. What it hands over then does not count. -/
theorem Steps.stopped (hstop : shared.stop = true) {hit : Option Address}
    (onCourse : (Job.ended hit : Job g).OnCourse p m shared.state.faults shared.stop r plan)
    (hcarries : job.carries = true → hit.isSome) (errors : List MemoryError) :
    Steps p m r plan job shared (.ended hit)
      { shared with softErrors := shared.softErrors ++ errors } where
  onCourse := onCourse
  beside := .refl _ _ _
  lasting := id
  raised := .inl
  carries := hcarries
  hardError := rfl
  handed h := absurd (hstop.symm.trans h) nofun

/-- A job that has ended stays as it is. -/
theorem Steps.ended (h : job.OnCourse p m shared.state.faults shared.stop r plan) :
    Steps p m r plan job shared job shared where
  onCourse := h
  beside := .refl _ _ _
  lasting := id
  raised := .inl
  carries := id
  hardError := rfl
  handed _ := ⟨[], (List.append_nil _).symm, (List.append_nil _).symm⟩

theorem OnCourse.step_waiting (choose : Nat → Nat) (toEnd : r.ToEnd p.memory)
    (hplan : plan = p.partVisits g shared.state.faults r) :
    let stepped := (Job.waiting r : Job g).step (p.targetChoosing choose) m shared
    Steps p m r plan (.waiting r) shared stepped.1 stepped.2 := by
  cases hs : shared.stop with
  | true =>
    have hstep : (Job.waiting r : Job g).step (p.targetChoosing choose) m shared =
        (.ended none, shared) := by simp only [step, hs, if_true]
    have hstopped : Steps p m r plan (.waiting r : Job g) shared (.ended none)
        { shared with softErrors := shared.softErrors ++ [] } :=
      .stopped hs (.endedWithout (.inr hs)) (fun h => by cases h) []
    simpa only [hstep, List.append_nil] using hstopped
  | false =>
    simp only [step, hs, Bool.false_eq_true, if_false]
    refine .under_way ?_ (.refl _ _ _) hs.symm rfl rfl rfl rfl
    exact .walking (List.nil_append plan).symm rfl rfl (hplan ▸ .starting toEnd (.inr rfl) rfl)

theorem OnCourse.step_asking (hp : p.Fits) (choose : Nat → Nat) {walker : Walker g}
    {done rest : List Visit} (hsplit : plan = done ++ rest) (hmiss : hitOf m done = none)
    (hsoft : walker.softErrors = lossesOf done)
    (ahead : Ahead p r.start.toNat r.stop shared.state.faults walker rest)
    (hask : walker.isAsking) :
    let stepped := (Job.walking r.stop walker none).step (p.targetChoosing choose) m shared
    Steps p m r plan (.walking r.stop walker none) shared stepped.1 stepped.2 := by
  have hstep := step_of_isAsking (p.targetChoosing choose) m r.stop none shared hask
  simp only [hstep]
  by_cases hend : walker.phase = .seeking r.stop
  · obtain ⟨rfl, -⟩ := ahead.eq_nil_of_seeking hend
    have hover : walker.ask (p.targetChoosing choose) (some r.stop) shared.state =
        (walker.enter (.finished (.ok .exhausted)), shared.state, []) := by
      simp only [ask, hend]
      exact Onward.seek_limit _ _ _
    rw [List.append_nil] at hsplit
    simp only [hover]
    refine .under_way ?_ (.refl _ _ _) rfl rfl rfl rfl rfl
    exact .missed rfl (hsplit ▸ hmiss) (hsplit ▸ hsoft)
  · have hlimit : ∀ l ∈ some r.stop, l = r.stop := fun l hl => (Option.some.inj hl).symm
    obtain ⟨losses, rest, rfl, hsoft', hahead, hbeside⟩ := ahead.ask hp choose hlimit hask hend
    refine .under_way ?_ hbeside rfl rfl rfl rfl rfl
    rw [← List.append_assoc] at hsplit
    refine .walking hsplit ?_ ?_ hahead
    · rw [hitOf_append, hmiss, hitOf_lost]
      rfl
    · rw [hsoft', hsoft, lossesOf_append, lossesOf_lost]

theorem OnCourse.step_delivering (choose : Nat → Nat) {walker : Walker g} {w : Window g}
    {bytes : Bytes w.size} {done rest : List Visit} (hsplit : plan = done ++ rest)
    (hmiss : hitOf m done = none) (hsoft : walker.softErrors = lossesOf done)
    (ahead : Ahead p r.start.toNat r.stop shared.state.faults walker rest)
    (hphase : walker.phase = .delivering w bytes) :
    let stepped := (Job.walking r.stop walker none).step (p.targetChoosing choose) m shared
    Steps p m r plan (.walking r.stop walker none) shared stepped.1 stepped.2 := by
  simp only [step, hphase]
  cases hs : shared.stop with
  | true =>
    simp only [if_true]
    exact .under_way (.quit rfl hs) (.refl _ _ _) rfl rfl rfl rfl rfl
  | false =>
    simp only [Bool.false_eq_true, if_false]
    exact .under_way (.matching hsplit hmiss hsoft ahead hphase) (.refl _ _ _) rfl rfl rfl rfl rfl

theorem OnCourse.step_matching (choose : Nat → Nat) {walker : Walker g} {w : Window g}
    {bytes : Bytes w.size} {done rest : List Visit} (hsplit : plan = done ++ rest)
    (hmiss : hitOf m done = none) (hsoft : walker.softErrors = lossesOf done)
    (ahead : Ahead p r.start.toNat r.stop shared.state.faults walker rest)
    (hphase : walker.phase = .delivering w bytes) :
    let job : Job g := .matching r.stop walker w bytes.val
    let stepped := job.step (p.targetChoosing choose) m shared
    Steps p m r plan job shared stepped.1 stepped.2 := by
  obtain ⟨rest, rfl, hahead⟩ := ahead.proceed hphase
  simp only [step]
  cases hm : m ⟨w.address, bytes.val⟩ with
  | some hit =>
    refine .under_way (.announcing ?_) (.refl _ _ _) rfl rfl rfl rfl rfl
    rw [hsplit, hitOf_append, hmiss, hitOf_shown, hm]
    rfl
  | none =>
    refine .under_way ?_ (.refl _ _ _) rfl rfl rfl rfl rfl
    rw [List.append_cons] at hsplit
    refine .walking hsplit ?_ ?_ hahead
    · rw [hitOf_append, hmiss, hitOf_shown, hm]
      rfl
    · rw [proceed_softErrors, hsoft, lossesOf_append]
      exact (List.append_nil _).symm

/-- A job whose walk is over hands its soft errors over. -/
theorem OnCourse.step_missed (choose : Nat → Nat) {walker : Walker g}
    (hphase : walker.phase = .finished (.ok .exhausted)) (hmiss : hitOf m plan = none)
    (hsoft : walker.softErrors = lossesOf plan) :
    let stepped := (Job.walking r.stop walker none).step (p.targetChoosing choose) m shared
    Steps p m r plan (.walking r.stop walker none) shared stepped.1 stepped.2 := by
  simp only [step, hphase]
  exact {
    onCourse := .endedWithout (.inl hmiss)
    beside := .refl _ _ _
    lasting := id
    raised := .inl
    carries := fun hc => by cases hc
    hardError := rfl
    handed := fun _ => ⟨walker.softErrors, rfl, hsoft.symm⟩ }

/-- A step of a job keeps it on course. -/
theorem OnCourse.step (hp : p.Fits) (choose : Nat → Nat)
    (h : job.OnCourse p m shared.state.faults shared.stop r plan) :
    let stepped := job.step (p.targetChoosing choose) m shared
    Steps p m r plan job shared stepped.1 stepped.2 := by
  cases h with
  | waiting toEnd hplan => exact step_waiting choose toEnd hplan
  | @walking walker done rest hsplit hmiss hsoft ahead =>
    cases hphase : walker.phase with
    | seeking cursor =>
      exact step_asking hp choose hsplit hmiss hsoft ahead (by rw [isAsking, hphase])
    | reading w => exact step_asking hp choose hsplit hmiss hsoft ahead (by rw [isAsking, hphase])
    | delivering w bytes => exact step_delivering choose hsplit hmiss hsoft ahead hphase
    | finished result => exact absurd hphase ahead.not_finished
  | matching hsplit hmiss hsoft ahead hphase =>
    exact step_matching choose hsplit hmiss hsoft ahead hphase
  | announcing hhit =>
    simp only [Job.step]
    exact {
      onCourse := .found rfl hhit rfl
      beside := .refl _ _ _
      lasting := fun _ => rfl
      raised := fun _ => .inr rfl
      carries := fun hc => by cases hc
      hardError := rfl
      handed := fun hdown => by cases hdown }
  | missed hphase hmiss hsoft => exact step_missed choose hphase hmiss hsoft
  | quit hphase hstop =>
    simp only [Job.step, hphase]
    exact .stopped hstop (.endedWithout (.inr hstop)) (fun h => by cases h) _
  | found hphase hhit hstop =>
    simp only [Job.step, hphase]
    exact .stopped hstop (.endedWith hhit) (fun _ => rfl) _
  | endedWithout hmiss => exact .ended (.endedWithout hmiss)
  | endedWith hhit => exact .ended (.endedWith hhit)

end

end Job
end ProcessMemory
