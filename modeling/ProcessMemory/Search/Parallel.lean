import ProcessMemory.Enumeration
import ProcessMemory.Search

/-!
# Searches by several workers

The readable regions are enumerated first; each is then a job of its own, a sliding walk confined to
it. The jobs share the target, a flag that asks all of them to stop, and a place for soft errors and
the first hard error. `Job.step` is what one job does between two points at which another may step
in, and `Pool.Reaches` allows every order of such steps. `Pool.run` is the order of a single worker.
-/
namespace ProcessMemory

/-- What the jobs of one search share. -/
structure Shared (σ : Type) where
  state : σ
  stop : Bool := false
  softErrors : List MemoryError := []
  hardError : Option MemoryError := none
  events : List Event := []

/-- One region's part of a search. -/
inductive Job (g : Grid) where
  /-- Not begun. -/
  | waiting (region : Region)
  /-- Walking, with the hit it stopped at, if any. -/
  | walking (limit : Address) (walker : Walker g) (hit : Option Address)
  /-- The flag was found down, and the chunk in hand is still to be matched. -/
  | matching (limit : Address) (walker : Walker g) (window : Window g) (bytes : List UInt8)
  /-- The chunk in hand matched, and the flag is still to be raised. -/
  | announcing (limit : Address) (walker : Walker g) (window : Window g) (hit : Address)
  /-- The walk ended with an error. The soft errors are handed over, and the flag is still to be
  raised. -/
  | failing (error : MemoryError) (hit : Option Address)
  /-- The flag is up, and the error is still to be noted. -/
  | noting (error : MemoryError) (hit : Option Address)
  | ended (hit : Option Address)

namespace Job

variable {g : Grid} {σ : Type}

/-- The next step of a job. -/
def step (t : Target σ) (m : Matcher) (job : Job g) (shared : Shared σ) : Job g × Shared σ :=
  match job with
  | .waiting region =>
    if shared.stop then (.ended none, shared)
    else
      (.walking region.stop (Walker.startingAt g region.start) none,
        { shared with
          events := shared.events ++ [.walking t.pid region.start g.size g.stride] })
  | .walking limit walker hit =>
    match walker.phase with
    | .finished result =>
      let shared := { shared with softErrors := shared.softErrors ++ walker.softErrors }
      match result with
      | .ok _ => (.ended hit, shared)
      | .error error => (.failing error hit, shared)
    | .delivering window bytes =>
      if shared.stop then (.walking limit (walker.proceed window .stop) hit, shared)
      else (.matching limit walker window bytes.val, shared)
    | _ =>
      let (walker, state, events) := walker.ask t (some limit) shared.state
      (.walking limit walker hit, { shared with state, events := shared.events ++ events })
  | .matching limit walker window bytes =>
    match m ⟨window.address, bytes⟩ with
    | some address => (.announcing limit walker window address, shared)
    | none => (.walking limit (walker.proceed window .goOn) none, shared)
  | .announcing limit walker window hit =>
    (.walking limit (walker.proceed window .stop) (some hit), { shared with stop := true })
  | .failing error hit => (.noting error hit, { shared with stop := true })
  | .noting error hit => (.ended hit, { shared with hardError := shared.hardError <|> some error })
  | .ended hit => (.ended hit, shared)

def isEnded : Job g → Bool
  | .ended _ => true
  | _ => false

def isWaiting : Job g → Bool
  | .waiting _ => true
  | _ => false

def hit? : Job g → Option Address
  | .ended hit => hit
  | _ => none

end Job

/-- The jobs of a search in address order, with what they share. -/
structure Pool (g : Grid) (σ : Type) where
  jobs : List (Job g)
  shared : Shared σ

namespace Pool

variable {g : Grid} {σ : Type}

def step (t : Target σ) (m : Matcher) (i : Nat) (p : Pool g σ) : Pool g σ :=
  match p.jobs[i]? with
  | none => p
  | some job =>
    let (job, shared) := job.step t m p.shared
    ⟨p.jobs.set i job, shared⟩

/-- `Reaches p q`: some order of steps leads from `p` to `q`. -/
inductive Reaches (t : Target σ) (m : Matcher) : Pool g σ → Pool g σ → Prop where
  | refl (p : Pool g σ) : Reaches t m p p
  | step {p q : Pool g σ} (i : Nat) (h : Reaches t m p q) : Reaches t m p (q.step t m i)

/-- A search may answer with a hit once every job begun has ended, and without one only once every
job has. -/
def Settled (p : Pool g σ) : Prop :=
  (∀ job ∈ p.jobs, job.isEnded) ∨
    (∀ job ∈ p.jobs, job.isEnded ∨ job.isWaiting) ∧ ∃ job ∈ p.jobs, job.hit?.isSome

/-- The results a settled pool may answer with: any job's hit; with no hit the first hard error;
with neither, that nothing was found. -/
inductive Answers (p : Pool g σ) : Except MemoryError (Option Address) → Prop where
  | hit (address : Address) (job : Job g) (hm : job ∈ p.jobs) (h : job.hit? = some address) :
    Answers p (.ok (some address))
  | failed (error : MemoryError) (hn : ∀ job ∈ p.jobs, job.hit? = none)
    (h : p.shared.hardError = some error) : Answers p (.error error)
  | nothing (hn : ∀ job ∈ p.jobs, job.hit? = none) (h : p.shared.hardError = none) :
    Answers p (.ok none)

end Pool

namespace Job

variable {g : Grid} {σ : Type}

/-- A walker with a chunk in hand has that chunk still to be looked at. -/
def inHand : Walker.Phase g → Nat
  | .delivering _ _ => 1
  | _ => 0

/-- A bound on the steps a job still takes. -/
def remaining : Job g → Nat
  | .waiting _ => 0x1_0000_0000_0000_0000 * 64 + 64
  | .walking _ walker _ => walker.remaining * 3 + 2 * inHand walker.phase + 3
  | .matching _ _ window _ => (0x1_0000_0000_0000_0000 - window.address.toNat) * 16 * 3 + 4
  | .announcing _ _ window _ => (0x1_0000_0000_0000_0000 - window.address.toNat) * 16 * 3 + 3
  | .failing _ _ => 2
  | .noting _ _ => 1
  | .ended _ => 0

theorem inHand_le (phase : Walker.Phase g) : inHand phase ≤ 1 := by
  unfold inHand
  split <;> omega

/-- A chunk that was handed over is no longer in hand. -/
theorem inHand_proceed (walker : Walker g) (window : Window g) (verdict : Verdict) :
    inHand (walker.proceed window verdict).phase = 0 := by
  cases verdict with
  | stop => rfl
  | goOn => simp only [Walker.proceed]; split <;> rfl

/-- A step of a job leaves fewer to come, whatever the other jobs did. -/
theorem remaining_step_lt (t : Target σ) (m : Matcher) {job : Job g} (shared : Shared σ)
    (h : job.isEnded = false) : (job.step t m shared).1.remaining < job.remaining := by
  cases job with
  | waiting region =>
    simp only [step]
    split
    · simp only [remaining]; omega
    · simp only [remaining, inHand, Walker.startingAt, Walker.remaining, maxRetries]
      omega
  | walking limit walker hit =>
    simp only [step]
    split
    · split <;> simp only [remaining] <;> omega
    · rename_i window bytes hp
      have hlt := Walker.remaining_proceed_lt walker window .stop
      have hin := inHand_proceed walker window .stop
      split
      · simp only [remaining, hin]
        simp only [hp, inHand, Walker.remaining] at *
        omega
      · simp only [remaining, hp, inHand, Walker.remaining]
        omega
    · rename_i hf hd
      have hask : walker.isAsking := by
        cases hp : walker.phase with
        | seeking _ => simp [Walker.isAsking, hp]
        | reading _ => simp [Walker.isAsking, hp]
        | delivering window bytes => exact absurd hp (hd window bytes)
        | finished result => exact absurd hp (hf result)
      have hlt := Walker.remaining_ask_lt t (some limit) shared.state hask
      have hin := inHand_le (walker.ask t (some limit) shared.state).1.phase
      simp only [remaining]
      omega
  | matching limit walker window bytes =>
    have hlt := Walker.remaining_proceed_lt walker window .goOn
    have hin := inHand_proceed walker window .goOn
    simp only [step]
    split
    · simp only [remaining]; omega
    · simp only [remaining, hin]; omega
  | announcing limit walker window hit =>
    have hlt := Walker.remaining_proceed_lt walker window .stop
    have hin := inHand_proceed walker window .stop
    simp only [step, remaining, hin]
    omega
  | failing error hit => simp [step, remaining]
  | noting error hit => simp [step, remaining]
  | ended hit => simp [isEnded] at h

end Job

namespace Pool

variable {g : Grid} {σ : Type}

/-- Steps the job at `i` until it has ended. -/
def finish (t : Target σ) (m : Matcher) (i : Nat) (p : Pool g σ) : Pool g σ :=
  match _h : p.jobs[i]? with
  | none => p
  | some job => if job.isEnded then p else finish t m i (p.step t m i)
termination_by (p.jobs[i]?.map Job.remaining).getD 0
decreasing_by
  rename_i hended
  obtain ⟨hi, rfl⟩ := List.getElem?_eq_some_iff.1 _h
  have := (p.jobs[i]).remaining_step_lt t m p.shared (by simpa using hended)
  simpa [step, hi] using this

def hit? (p : Pool g σ) : Option Address := p.jobs.findSome? Job.hit?

/-- The order of a single worker: one job after another, until one hits. -/
def run (t : Target σ) (m : Matcher) (p : Pool g σ) : Pool g σ :=
  (List.range p.jobs.length).foldl (fun p i => if p.hit?.isSome then p else p.finish t m i) p

def answer (p : Pool g σ) : Except MemoryError (Option Address) :=
  match p.hit?, p.shared.hardError with
  | some address, _ => .ok (some address)
  | none, some error => .error error
  | none, none => .ok none

end Pool

variable {σ : Type}

/-- Searches the readable regions from `start` up, each for itself, in chunks of `size` bytes. With
chunks of no bytes every region's walk fails, so the search does where there is a region. -/
def searchParallel (t : Target σ) (workers : Nat) (start : Address) (size : Nat) (m : Matcher)
    (s : σ) : Report σ (Option Address) :=
  let listed := readableRegions t start s
  match listed.outcome.result with
  | .error error => ⟨⟨.error error, listed.outcome.softErrors⟩, listed.state, listed.events⟩
  | .ok regions =>
    let regions := regions.filterMap (·.from? start)
    let events := listed.events ++ [.searchingRegions t.pid regions.length workers]
    if h : 0 < size then
      let pool : Pool (Grid.sliding size h) σ :=
        ⟨regions.map .waiting, { state := listed.state, events }⟩
      let pool := pool.run t m
      ⟨⟨pool.answer, listed.outcome.softErrors ++ pool.shared.softErrors⟩, pool.shared.state,
        pool.shared.events⟩
    else
      let result :=
        if regions.isEmpty then .ok none
        else .error (.invalidArgument "buffer size must be positive")
      ⟨⟨result, listed.outcome.softErrors⟩, listed.state, events⟩

def findBytesParallel (t : Target σ) (options : SearchOptions) (start : Address)
    (needle : List UInt8) (s : σ) : Report σ (Option Address) :=
  match needleBufferSize options.bufferSize needle with
  | .error error => ⟨.fail error, s, []⟩
  | .ok size => searchParallel t options.workers start size (.literal needle) s

/-- A hit of a matcher at or above `start`, found region by region. -/
def findMatchParallel (t : Target σ) (options : SearchOptions) (start : Address) (m : Matcher)
    (s : σ) : Report σ (Option Address) :=
  searchParallel t options.workers start options.bufferSize m s

def findPatternParallel (t : Target σ) (options : SearchOptions) (start : Address) (p : Pattern)
    (s : σ) : Report σ (Option Address) :=
  findMatchParallel t options start (.pattern p) s

end ProcessMemory
