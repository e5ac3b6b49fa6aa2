import ProcessMemory.Proofs.Search.Parallel

/-!
# What the jobs of a parallel search have done

Whatever target the jobs share and in whatever order they step, the answer of a search can be told
from what its jobs did on the way (`Deed`). A flag that is up stands for a hit or for a hard error
(`Pool.Recounts`), so where there is neither, no job was stopped: each walked its part to the end,
and no chunk had a hit.
-/
namespace ProcessMemory

/-- What a step of a job does that tells on the answer. -/
inductive Deed where
  /-- The flag was up before the walk of the part began. -/
  | declined
  | begun (part : Region)
  /-- A chunk was delivered while the flag was up. -/
  | refused (chunk : Chunk)
  /-- A chunk was delivered and matched. -/
  | matched (chunk : Chunk)
  /-- The walk ended. -/
  | walked (result : Except MemoryError Ending)

/-- The part was walked to its end, and none of its chunks had a hit. -/
def WalkedOut (m : Matcher) (part : Region) (deeds : List Deed) : Prop :=
  ∃ chunks : List Chunk, (∀ chunk ∈ chunks, m chunk = none) ∧
    deeds = .begun part :: chunks.map .matched ++ [.walked (.ok .exhausted)]

def Hits (m : Matcher) (deeds : List Deed) (a : Address) : Prop :=
  ∃ chunk, .matched chunk ∈ deeds ∧ m chunk = some a

theorem Hits.mono {m : Matcher} {deeds : List Deed} {a : Address} (h : Hits m deeds a)
    (more : List Deed) : Hits m (deeds ++ more) a := by
  obtain ⟨chunk, hmem, hm⟩ := h
  exact ⟨chunk, List.mem_append_left _ hmem, hm⟩

def deedsOf (i : Nat) (log : List (Nat × Deed)) : List Deed :=
  log.filterMap fun x => if x.1 = i then some x.2 else none

section
variable {i j : Nat} {log : List (Nat × Deed)} {deed : Deed}

@[simp] theorem deedsOf_append (i : Nat) (log more : List (Nat × Deed)) :
    deedsOf i (log ++ more) = deedsOf i log ++ deedsOf i more := List.filterMap_append

theorem deedsOf_self (deed? : Option Deed) :
    deedsOf i (deed?.map (i, ·)).toList = deed?.toList := by
  cases deed? <;> simp [deedsOf]

theorem deedsOf_other (h : j ≠ i) (deed? : Option Deed) :
    deedsOf i (deed?.map (j, ·)).toList = [] := by
  cases deed? <;> simp [deedsOf, h]

theorem mem_deedsOf : deed ∈ deedsOf i log ↔ (i, deed) ∈ log := by
  constructor
  · intro h
    obtain ⟨⟨j, deed'⟩, hmem, heq⟩ := List.mem_filterMap.1 h
    by_cases hj : j = i
    · rw [if_pos hj] at heq
      cases heq
      rwa [← hj]
    · rw [if_neg hj] at heq
      cases heq
  · exact fun h => List.mem_filterMap.2 ⟨_, h, if_pos rfl⟩

end

namespace Walker

variable {g : Grid} {σ : Type}

/-- No query stops a walk. -/
theorem ask_ne_stopped (t : Target σ) (limit : Option Address) {w : Walker g} (s : σ)
    (h : w.isAsking) : (w.ask t limit s).1.phase ≠ .finished (.ok .stopped) := by
  cases hp : w.phase with
  | delivering window bytes => simp [isAsking, hp] at h
  | finished result => simp [isAsking, hp] at h
  | reading window =>
    rcases hq : t.read window.address window.size s with ⟨⟨result, soft⟩, s'⟩
    simp only [ask, hp, fetch, hq]
    cases result with
    | ok bytes => simp
    | error error =>
      simp only [recover]
      split <;> simp
  | seeking cursor =>
    rcases hq : t.lookup cursor s with ⟨⟨result, soft⟩, s'⟩
    simp only [ask, hp, seek, hq]
    split
    · simp
    · cases result with
      | error error => simp
      | ok found =>
        cases found with
        | none => simp
        | some region =>
          simp only
          split
          · simp
          · split <;> simp

theorem proceed_ne_stopped (w : Walker g) (window : Window g) :
    (w.proceed window .goOn).phase ≠ .finished (.ok .stopped) := by
  simp only [proceed]
  cases window.next? <;> simp

end Walker

namespace Job

variable {g : Grid} {σ : Type} {t : Target σ} {m : Matcher} {stop stop' : Bool} {part : Region}
  {deeds : List Deed} {job : Job g}

/-- What the next step of a job does, where `stop` is the flag. -/
def deed? (stop : Bool) : Job g → Option Deed
  | .waiting region => some (if stop then .declined else .begun region)
  | .walking _ walker _ =>
    match walker.phase with
    | .finished result => some (.walked result)
    | .delivering window bytes =>
      if stop then some (.refused ⟨window.address, bytes.val⟩) else none
    | _ => none
  | .matching _ _ window bytes => some (.matched ⟨window.address, bytes⟩)
  | .announcing _ _ _ _ => none
  | .failing _ _ => none
  | .noting _ _ => none
  | .ended _ => none

/-- What the job of a part has done, by where it stands. -/
inductive Tells (m : Matcher) (stop : Bool) (part : Region) (deeds : List Deed) : Job g → Prop where
  | waiting (h : deeds = []) : Tells m stop part deeds (.waiting part)
  | walking {walker : Walker g} {chunks : List Chunk} (hmiss : ∀ chunk ∈ chunks, m chunk = none)
    (h : deeds = .begun part :: chunks.map .matched)
    (hp : walker.phase ≠ .finished (.ok .stopped)) :
    Tells m stop part deeds (.walking part.stop walker none)
  | quit {walker : Walker g} (hp : walker.phase = .finished (.ok .stopped)) (hstop : stop = true) :
    Tells m stop part deeds (.walking part.stop walker none)
  | found {walker : Walker g} {hit : Address} (hp : walker.phase = .finished (.ok .stopped))
    (hhit : Hits m deeds hit) : Tells m stop part deeds (.walking part.stop walker (some hit))
  | matching {walker : Walker g} {w : Window g} {bytes : List UInt8} {chunks : List Chunk}
    (hmiss : ∀ chunk ∈ chunks, m chunk = none) (h : deeds = .begun part :: chunks.map .matched) :
    Tells m stop part deeds (.matching part.stop walker w bytes)
  | announcing {walker : Walker g} {w : Window g} {hit : Address} (hhit : Hits m deeds hit) :
    Tells m stop part deeds (.announcing part.stop walker w hit)
  | failing {error : MemoryError} (h : .walked (.error error) ∈ deeds) :
    Tells m stop part deeds (.failing error none)
  | noting {error : MemoryError} (h : .walked (.error error) ∈ deeds) (hstop : stop = true) :
    Tells m stop part deeds (.noting error none)
  | endedWithout (h : WalkedOut m part deeds ∨ stop = true) :
    Tells m stop part deeds (.ended none)
  | endedWith {hit : Address} (hhit : Hits m deeds hit) :
    Tells m stop part deeds (.ended (some hit))

/-- Others raise the flag. -/
theorem Tells.congr (h : job.Tells m stop part deeds) (hstop : stop = true → stop' = true) :
    job.Tells m stop' part deeds := by
  cases h with
  | waiting h => exact .waiting h
  | walking hmiss h hp => exact .walking hmiss h hp
  | quit hp h => exact .quit hp (hstop h)
  | found hp hhit => exact .found hp hhit
  | matching hmiss h => exact .matching hmiss h
  | announcing hhit => exact .announcing hhit
  | failing h => exact .failing h
  | noting h hup => exact .noting h (hstop hup)
  | endedWithout h => exact .endedWithout (h.imp_right hstop)
  | endedWith hhit => exact .endedWith hhit

structure Keeps (m : Matcher) (part : Region) (deeds : List Deed) (job : Job g) (shared : Shared σ)
    (job' : Job g) (shared' : Shared σ) : Prop where
  tells : job'.Tells m shared'.stop part (deeds ++ (job.deed? shared.stop).toList)
  lasting : shared.stop = true → shared'.stop = true
  raised : shared'.stop = true → shared.stop = true ∨ job'.carries = true
  carries : job.carries = true → job'.carries = true ∨ shared'.hardError.isSome
  hardError : ∀ e, shared'.hardError = some e →
    shared.hardError = some e ∨ .walked (.error e) ∈ deeds
  noted : shared.hardError.isSome → shared'.hardError.isSome

section
variable {shared shared' : Shared σ} {job' : Job g}

/-- A step that leaves the flag and the hard error as they are. -/
theorem Keeps.quiet
    (tells : job'.Tells m shared.stop part (deeds ++ (job.deed? shared.stop).toList))
    (hstop : shared'.stop = shared.stop) (hhard : shared'.hardError = shared.hardError)
    (hcarries : job.carries = true → job'.carries = true) :
    Keeps m part deeds job shared job' shared' where
  tells := hstop.symm ▸ tells
  lasting h := hstop.trans h
  raised h := .inl (hstop.symm.trans h)
  carries h := .inl (hcarries h)
  hardError _ h := .inl (hhard.symm.trans h)
  noted h := hhard.symm ▸ h

/-- Such a step of a job that carries no hit. -/
theorem Keeps.under_way
    (tells : job'.Tells m shared.stop part (deeds ++ (job.deed? shared.stop).toList))
    (hstop : shared'.stop = shared.stop) (hhard : shared'.hardError = shared.hardError)
    (hcarries : job.carries = false) : Keeps m part deeds job shared job' shared' :=
  .quiet tells hstop hhard fun h => absurd (hcarries.symm.trans h) Bool.false_ne_true

theorem Tells.step_walking {walker : Walker g} {chunks : List Chunk}
    (hmiss : ∀ chunk ∈ chunks, m chunk = none) (h : deeds = .begun part :: chunks.map .matched)
    (hp : walker.phase ≠ .finished (.ok .stopped)) (t : Target σ) (shared : Shared σ) :
    let job : Job g := .walking part.stop walker none
    let stepped := job.step t m shared
    Keeps m part deeds job shared stepped.1 stepped.2 := by
  intro job
  have hasking (hask : walker.isAsking) (hdeed : job.deed? shared.stop = none) :
      let stepped := job.step t m shared
      Keeps m part deeds job shared stepped.1 stepped.2 := by
    have hstep := step_of_isAsking t m part.stop none shared hask
    simp only [job, hstep]
    refine .under_way ?_ rfl rfl rfl
    rw [hdeed, Option.toList_none, List.append_nil]
    exact .walking hmiss h (Walker.ask_ne_stopped t _ _ hask)
  cases hphase : walker.phase with
  | seeking cursor =>
    exact hasking (by rw [Walker.isAsking, hphase]) (by simp only [job, deed?, hphase])
  | reading w =>
    exact hasking (by rw [Walker.isAsking, hphase]) (by simp only [job, deed?, hphase])
  | delivering w bytes =>
    cases hs : shared.stop with
    | true =>
      simp only [job, step, hphase, hs, if_true]
      exact .under_way (.quit rfl hs) rfl rfl rfl
    | false =>
      simp only [job, step, hphase, hs, Bool.false_eq_true, if_false]
      refine .under_way ?_ rfl rfl rfl
      simp only [deed?, hphase, hs, Bool.false_eq_true, if_false, Option.toList_none,
        List.append_nil]
      exact .matching hmiss h
  | finished result =>
    simp only [job, step, hphase]
    cases result with
    | error error =>
      refine .under_way (.failing ?_) rfl rfl rfl
      simp only [deed?, hphase]
      exact List.mem_append_right _ List.mem_cons_self
    | ok ending =>
      cases ending with
      | stopped => exact absurd hphase hp
      | exhausted =>
        refine .under_way (.endedWithout (.inl ⟨chunks, hmiss, ?_⟩)) rfl rfl rfl
        simp only [deed?, hphase, h]
        rfl

/-- A step of a job keeps what it tells. -/
theorem Tells.step (h : job.Tells m shared.stop part deeds) (t : Target σ) :
    let stepped := job.step t m shared
    Keeps m part deeds job shared stepped.1 stepped.2 := by
  cases h with
  | waiting h =>
    cases hs : shared.stop with
    | true =>
      simp only [Job.step, hs, if_true]
      exact .under_way (.endedWithout (.inr hs)) rfl rfl rfl
    | false =>
      simp only [Job.step, hs, Bool.false_eq_true, if_false]
      have hmiss : ∀ chunk ∈ ([] : List Chunk), m chunk = none := List.forall_mem_nil _
      refine .under_way (.walking hmiss ?_ (by simp [Walker.startingAt])) hs.symm rfl rfl
      rw [h, hs]
      rfl
  | walking hmiss h hp => exact step_walking hmiss h hp t shared
  | quit hp hstop =>
    simp only [Job.step, hp]
    exact .under_way (.endedWithout (.inr hstop)) rfl rfl rfl
  | found hp hhit =>
    simp only [Job.step, hp]
    exact .quiet (.endedWith (hhit.mono _)) rfl rfl fun _ => rfl
  | @matching walker w bytes chunks hmiss h =>
    simp only [Job.step]
    cases hm : m ⟨w.address, bytes⟩ with
    | some hit =>
      refine .under_way (.announcing ⟨_, ?_, hm⟩) rfl rfl rfl
      exact List.mem_append_right _ List.mem_cons_self
    | none =>
      have hmiss' : ∀ chunk ∈ chunks ++ [⟨w.address, bytes⟩], m chunk = none :=
        List.forall_mem_append.2 ⟨hmiss, fun chunk hc => List.mem_singleton.1 hc ▸ hm⟩
      refine .under_way (.walking hmiss' ?_ (walker.proceed_ne_stopped w)) rfl rfl rfl
      rw [h, List.map_append]
      rfl
  | announcing hhit =>
    simp only [Job.step]
    exact {
      tells := .found rfl (hhit.mono _)
      lasting := fun _ => rfl
      raised := fun _ => .inr rfl
      carries := fun hc => by cases hc
      hardError := fun _ => .inl
      noted := id }
  | failing h =>
    simp only [Job.step]
    exact {
      tells := .noting (List.mem_append_left _ h) rfl
      lasting := fun _ => rfl
      raised := fun _ => .inr rfl
      carries := fun hc => by cases hc
      hardError := fun _ => .inl
      noted := id }
  | noting h hup =>
    simp only [Job.step]
    exact {
      tells := .endedWithout (.inr hup)
      lasting := id
      raised := .inl
      carries := fun _ => .inr (by cases shared.hardError <;> rfl)
      hardError := fun e he => by
        cases hh : shared.hardError with
        | some first => exact .inl (by rwa [hh] at he)
        | none =>
          rw [hh] at he
          cases he
          exact .inr h
      noted := fun hn => by
        cases hh : shared.hardError <;> rfl }
  | endedWithout h =>
    refine .quiet ?_ rfl rfl id
    simpa only [deed?, Option.toList_none, List.append_nil] using .endedWithout h
  | endedWith hhit =>
    refine .quiet (.endedWith (hhit.mono _)) rfl rfl id

end

end Job

namespace Pool

variable {g : Grid} {σ : Type} {t : Target σ} {m : Matcher} {p q : Pool g σ}
  {parts : List Region} {log : List (Nat × Deed)}

def deed? (i : Nat) (p : Pool g σ) : Option (Nat × Deed) :=
  (p.jobs[i]?.bind (Job.deed? p.shared.stop)).map (i, ·)

/-- Some order of steps leads from `p` to `q`, and `log` lists what they do. -/
inductive Passes (t : Target σ) (m : Matcher) (p : Pool g σ) :
    List (Nat × Deed) → Pool g σ → Prop where
  | refl : Passes t m p [] p
  | step {log : List (Nat × Deed)} {q : Pool g σ} (i : Nat) (h : Passes t m p log q) :
    Passes t m p (log ++ (q.deed? i).toList) (q.step t m i)

theorem reaches_iff : Reaches t m p q ↔ ∃ log, Passes t m p log q := by
  constructor
  · intro h
    induction h with
    | refl => exact ⟨[], .refl⟩
    | step i h ih =>
      obtain ⟨log, hlog⟩ := ih
      exact ⟨_, .step i hlog⟩
  · rintro ⟨log, h⟩
    induction h with
    | refl => exact .refl p
    | step i h ih => exact .step i ih

/-- A step of one job changes what holds of it and of what it has done, and what the others see. -/
theorem each_step {P Q : Region → List Deed → Job g → Prop} {i : Nat} {job : Job g}
    (hi : q.jobs[i]? = some job)
    (h : ∀ j part job', parts[j]? = some part → q.jobs[j]? = some job' →
      P part (deedsOf j log) job')
    (hself : ∀ part, parts[i]? = some part → P part (deedsOf i log) job →
      Q part (deedsOf i log ++ (job.deed? q.shared.stop).toList) (job.step t m q.shared).1)
    (hothers : ∀ part deeds job', P part deeds job' → Q part deeds job') (j : Nat) (part : Region)
    (job' : Job g) (hpart : parts[j]? = some part) (hjob : (q.step t m i).jobs[j]? = some job') :
    Q part (deedsOf j (log ++ (q.deed? i).toList)) job' := by
  have hdeed : q.deed? i = (job.deed? q.shared.stop).map (i, ·) := by
    rw [deed?, hi, Option.bind_some]
  rw [deedsOf_append, hdeed]
  rw [step_eq hi] at hjob
  by_cases hij : i = j
  · subst hij
    rw [List.getElem?_set_self (List.getElem?_eq_some_iff.1 hi).1] at hjob
    cases hjob
    rw [deedsOf_self]
    exact hself part hpart (h i part job hpart hi)
  · rw [List.getElem?_set_ne hij] at hjob
    rw [deedsOf_other hij, List.append_nil]
    exact hothers part _ _ (h j part job' hpart hjob)

/-- The jobs, one for each part, tell what they have done. Where the flag is up, some job carries
what it was raised for, or there is a hard error. -/
structure Recounts (m : Matcher) (parts : List Region) (log : List (Nat × Deed)) (q : Pool g σ) :
    Prop where
  length : q.jobs.length = parts.length
  each : ∀ (i : Nat) (part : Region) (job : Job g), parts[i]? = some part → q.jobs[i]? = some job →
    job.Tells m q.shared.stop part (deedsOf i log)
  raised : q.shared.stop = true →
    (∃ (i : Nat) (job : Job g), q.jobs[i]? = some job ∧ job.carries = true) ∨
      q.shared.hardError.isSome
  hardError : ∀ e, q.shared.hardError = some e → ∃ i, (i, .walked (.error e)) ∈ log

theorem recounts_begun (m : Matcher) (parts : List Region) (s : σ) (events : List Event) :
    Recounts m parts [] (begun parts s events : Pool g σ) where
  length := List.length_map _
  each i part job hpart hjob := by
    rw [begun, List.getElem?_map, hpart] at hjob
    cases hjob
    exact .waiting rfl
  raised := nofun
  hardError := nofun

theorem Recounts.step (h : q.Recounts m parts log) (t : Target σ) (i : Nat) :
    (q.step t m i).Recounts m parts (log ++ (q.deed? i).toList) := by
  cases hi : q.jobs[i]? with
  | none =>
    have hstep : q.step t m i = q := by simp only [Pool.step, hi]
    have hdeed : q.deed? i = none := by simp only [deed?, hi, Option.bind_none, Option.map_none]
    rwa [hstep, hdeed, Option.toList_none, List.append_nil]
  | some job =>
    have hlt : i < parts.length := h.length ▸ (List.getElem?_eq_some_iff.1 hi).1
    have hpart : parts[i]? = some parts[i] := List.getElem?_eq_getElem hlt
    have hkeeps := (h.each i _ job hpart hi).step t
    have hself : (q.jobs.set i (job.step t m q.shared).1)[i]? = some (job.step t m q.shared).1 :=
      List.getElem?_set_self (List.getElem?_eq_some_iff.1 hi).1
    have heach := each_step hi h.each (fun _ _ htells => (htells.step t).tells)
      fun _ _ _ htells => htells.congr hkeeps.lasting
    rw [step_eq hi] at heach ⊢
    refine ⟨(List.length_set ..).trans h.length, heach, fun hstop => ?_, fun e he => ?_⟩
    · rcases hkeeps.raised hstop with hup | hcarries
      · rcases h.raised hup with ⟨j, job', hj, hcarries⟩ | herror
        · by_cases hij : i = j
          · subst hij
            cases hi.symm.trans hj
            exact (hkeeps.carries hcarries).imp_left fun hcarries => ⟨i, _, hself, hcarries⟩
          · exact .inl ⟨j, job', (List.getElem?_set_ne hij).trans hj, hcarries⟩
        · exact .inr (hkeeps.noted herror)
      · exact .inl ⟨i, _, hself, hcarries⟩
    · rcases hkeeps.hardError e he with herror | hwalked
      · obtain ⟨j, hj⟩ := h.hardError e herror
        exact ⟨j, List.mem_append_left _ hj⟩
      · exact ⟨i, List.mem_append_left _ (mem_deedsOf.1 hwalked)⟩

theorem Passes.recounts (h : Passes t m p log q) (hp : p.Recounts m parts []) :
    q.Recounts m parts log := by
  induction h with
  | refl => exact hp
  | step i h ih => exact ih.step t i

/-- A job that ended with a hit matched it. -/
theorem Recounts.hit (h : q.Recounts m parts log) {job : Job g} {a : Address} (hm : job ∈ q.jobs)
    (hhit : job.hit? = some a) : ∃ i, Hits m (deedsOf i log) a := by
  obtain ⟨i, hi⟩ := List.getElem?_of_mem hm
  have hlt : i < parts.length := h.length ▸ (List.getElem?_eq_some_iff.1 hi).1
  have htells := h.each i _ job (List.getElem?_eq_getElem hlt) hi
  cases job with
  | ended ended =>
    simp only [Job.hit?] at hhit
    subst hhit
    cases htells with
    | endedWith hhit => exact ⟨i, hhit⟩
  | _ => cases hhit

/-- Where a settled pool has neither a hit nor a hard error, no job was stopped. -/
theorem Recounts.walkedOut (h : q.Recounts m parts log) (hs : q.Settled)
    (hn : ∀ job ∈ q.jobs, job.hit? = none) (herror : q.shared.hardError = none) (i : Nat)
    (part : Region) (hpart : parts[i]? = some part) : WalkedOut m part (deedsOf i log) := by
  have hended : ∀ job ∈ q.jobs, job = .ended none := by
    intro job hjob
    have hend : job.isEnded := by
      rcases hs with hs | ⟨-, hitting, hm, hsome⟩
      · exact hs job hjob
      · rw [hn hitting hm] at hsome
        cases hsome
    cases job with
    | ended hit => exact congrArg Job.ended (hn _ hjob)
    | _ => cases hend
  have hdown : q.shared.stop = false := Bool.eq_false_iff.2 fun hup => by
    rcases h.raised hup with ⟨j, job, hj, hcarries⟩ | hsome
    · rw [hended job (List.mem_of_getElem? hj)] at hcarries
      cases hcarries
    · rw [herror] at hsome
      cases hsome
  have hlt : i < q.jobs.length := h.length ▸ (List.getElem?_eq_some_iff.1 hpart).1
  have hjob : q.jobs[i]? = some (.ended none) := by
    rw [List.getElem?_eq_getElem hlt, hended _ (List.getElem_mem hlt)]
  have htells := h.each i part _ hpart hjob
  rw [hdown] at htells
  cases htells with
  | endedWithout h => exact h.resolve_right nofun

end Pool

/-- How a search by several workers goes, in one order of steps or another: what the enumeration
gives, what the jobs do, and what the search comes to. -/
inductive Unfolds {σ : Type} (t : Target σ) (start : Address) {size : Nat} (h : 0 < size)
    (m : Matcher) (s : σ) : Except MemoryError (List Region) → List (Nat × Deed) →
    Outcome (Option Address) → Prop where
  | unlisted {error : MemoryError} {soft : List MemoryError}
    (hl : (readableRegions t start s).outcome = ⟨.error error, soft⟩) :
    Unfolds t start h m s (.error error) [] ⟨.error error, soft⟩
  | settled {regions : List Region} {soft : List MemoryError} {events : List Event}
    {log : List (Nat × Deed)} {q : Pool (Grid.sliding size h) σ}
    {result : Except MemoryError (Option Address)}
    (hl : (readableRegions t start s).outcome = ⟨.ok regions, soft⟩)
    (hr : Pool.Passes t m
      (.begun (regions.filterMap (·.from? start)) (readableRegions t start s).state events) log q)
    (hs : q.Settled) (ha : q.Answers result) :
    Unfolds t start h m s (.ok regions) log ⟨result, soft ++ q.shared.softErrors⟩

def AllWalkedOut (m : Matcher) (start : Address) (regions : List Region)
    (log : List (Nat × Deed)) : Prop :=
  (∀ i part, (regions.filterMap (·.from? start))[i]? = some part →
    WalkedOut m part (deedsOf i log)) ∧
  ∀ r ∈ regions, r.from? start = none → ∀ a, start ≤ a → a ∉ r

section
variable {σ : Type} {t : Target σ} {start : Address} {size : Nat} {m : Matcher} {s : σ}

/-- A search unfolds into all that it may come to. -/
theorem interleaved_iff (h : 0 < size) {outcome : Outcome (Option Address)} :
    Interleaved t start h m s outcome ↔ ∃ listed log, Unfolds t start h m s listed log outcome := by
  constructor
  · rintro (hl | ⟨hl, hr, hs, ha⟩)
    · exact ⟨_, _, .unlisted hl⟩
    · obtain ⟨log, hlog⟩ := Pool.reaches_iff.1 hr
      exact ⟨_, _, .settled hl hlog hs ha⟩
  · rintro ⟨listed, log, hl | ⟨hl, hr, hs, ha⟩⟩
    · exact .unlisted hl
    · exact .settled hl (Pool.reaches_iff.2 ⟨log, hr⟩) hs ha

theorem Region.not_mem_of_from? {r : Region} {a b : Address} (h : r.from? a = none) (hab : a ≤ b) :
    b ∉ r := by
  intro hmem
  have hlt : max r.start a < r.stop := by
    rw [Address.lt_def, Address.toNat_max]
    exact Nat.max_lt.2 ⟨Nat.lt_of_le_of_lt hmem.1 hmem.2, Nat.lt_of_le_of_lt hab hmem.2⟩
  obtain ⟨part, hpart, -⟩ := Region.from?_eq_some hlt
  cases h.symm.trans hpart

/-- A search by several workers loses neither a match nor an error, whatever the target and the
order of steps. It finds nothing only where every region was walked to its end without a hit, a hit
is what the matcher gave for a chunk that was delivered, and an error is that of the enumeration or
of a walk. -/
theorem searchParallel_accountable (t : Target σ) (start : Address) {size : Nat} (h : 0 < size)
    (m : Matcher) (s : σ) :
    (∀ workers, ∃ listed log,
      Unfolds t start h m s listed log (searchParallel t workers start size m s).outcome) ∧
    ∀ listed log outcome, Unfolds t start h m s listed log outcome →
      (outcome.result = .ok none →
        ∃ regions, listed = .ok regions ∧ AllWalkedOut m start regions log) ∧
      (∀ a, outcome.result = .ok (some a) →
        ∃ i chunk, (i, .matched chunk) ∈ log ∧ m chunk = some a) ∧
      ∀ error, outcome.result = .error error →
        listed = .error error ∨ ∃ i, (i, .walked (.error error)) ∈ log := by
  refine ⟨fun workers => (interleaved_iff h).1 (searchParallel_interleaved t workers start h m s),
    fun listed log outcome hout => ?_⟩
  cases hout with
  | unlisted hl =>
    exact ⟨nofun, nofun, fun error he => .inl (congrArg Except.error (Except.error.inj he))⟩
  | @settled regions soft events log q result hl hr hs ha =>
    have hq := hr.recounts (Pool.recounts_begun m _ _ events)
    cases ha with
    | hit a job hm hhit =>
      refine ⟨nofun, fun b hb => ?_, nofun⟩
      cases hb
      obtain ⟨i, chunk, hmem, hmatch⟩ := hq.hit hm hhit
      exact ⟨i, chunk, mem_deedsOf.1 hmem, hmatch⟩
    | failed error hn herror =>
      refine ⟨nofun, nofun, fun e he => ?_⟩
      cases he
      exact .inr (hq.hardError error herror)
    | nothing hn herror =>
      refine ⟨fun _ => ⟨regions, rfl, hq.walkedOut hs hn herror, ?_⟩, nofun, nofun⟩
      exact fun r _ hnone a ha => Region.not_mem_of_from? hnone ha

end

open SegmentedProcess in
/-- A fault for ever on the first of two segments, and bytes that both hold: a job has matched a
chunk, and its hit is the answer. -/
theorem searchParallel_accountable_parted :
    let t := parted.targetChoosing id
    let m : Matcher := .literal [3, 4]
    let outcome := (searchParallel t 3 0 4 m { faults := [⟨0x11, .always⟩] }).outcome
    0 < 4 ∧ outcome.result = .ok (some 0x20) ∧
      ∃ (listed : Except MemoryError (List Region)) (log : List (Nat × Deed)),
        Unfolds t 0 (by decide : 0 < 4) m { faults := [⟨0x11, .always⟩] } listed log outcome ∧
          ∃ i chunk, (i, .matched chunk) ∈ log ∧ m chunk = some 0x20 := by
  intro t m outcome
  have hsize : 0 < 4 := by decide
  obtain ⟨hone, hall⟩ := searchParallel_accountable t 0 hsize m { faults := [⟨0x11, .always⟩] }
  obtain ⟨listed, log, hunfolds⟩ := hone 3
  have hinterleaved := searchParallel_interleaved t 3 0 hsize m { faults := [⟨0x11, .always⟩] }
  have hresult : outcome.result = .ok (some 0x20) :=
    parted_agrees (hinterleaved.agrees (by decide) id id)
  obtain ⟨-, hhit, -⟩ := hall listed log _ hunfolds
  exact ⟨hsize, hresult, listed, log, hunfolds, hhit _ hresult⟩

end ProcessMemory
