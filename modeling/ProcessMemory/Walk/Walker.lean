import ProcessMemory.Target
import ProcessMemory.Walk.Window

/-!
# A walk under way

A walker looks up the region at its cursor, reads the windows of it one by one, and hands each over
before it goes on. It is written as a machine that makes one query, or takes one verdict, at a
time, so that several walkers can take turns on one target.

A read that fails sends the walker back to look up the region anew at the failing address. After
`maxRetries` such attempts the failure becomes a soft error and the window is skipped. Every read
that succeeds restores the attempts. The measure `Walker.remaining` falls with every step, so a
walk ends whatever its target answers.
-/
namespace ProcessMemory

def maxRetries : Nat := 5

/-- How a walk ends that meets no hard error. -/
inductive Ending where
  /-- No readable memory was left. -/
  | exhausted
  /-- The receiver of the chunks asked to stop. -/
  | stopped
  deriving DecidableEq, Repr

inductive Verdict where
  | goOn | stop
  deriving DecidableEq, Repr

namespace Walker

inductive Phase (g : Grid) where
  | seeking (cursor : Address)
  | reading (window : Window g)
  | delivering (window : Window g) (bytes : Bytes window.size)
  | finished (result : Except MemoryError Ending)

end Walker

structure Walker (g : Grid) where
  phase : Walker.Phase g
  retries : Nat
  softErrors : List MemoryError
  retries_le : retries ≤ maxRetries

namespace Walker

variable {g : Grid} {σ : Type}

def startingAt (g : Grid) (start : Address) : Walker g :=
  ⟨.seeking start, maxRetries, [], Nat.le_refl _⟩

def enter (w : Walker g) (phase : Phase g) : Walker g := { w with phase := phase }

def collect (w : Walker g) (errors : List MemoryError) : Walker g :=
  { w with softErrors := w.softErrors ++ errors }

/-- What the walk ended with, once it has. -/
def result? (w : Walker g) : Option (Except MemoryError Ending) :=
  match w.phase with
  | .finished result => some result
  | _ => none

/-- A bound on the steps still to come. -/
def remaining (w : Walker g) : Nat :=
  match w.phase with
  | .seeking cursor => (0x1_0000_0000_0000_0000 - cursor.toNat) * 16 + (2 * w.retries + 2)
  | .reading window => (0x1_0000_0000_0000_0000 - window.address.toNat) * 16 + (2 * w.retries + 1)
  | .delivering window _ => (0x1_0000_0000_0000_0000 - window.address.toNat) * 16
  | .finished _ => 0

/-- Where the part of a region that lies below the limit stops. -/
def spanStop (limit : Option Address) (region : Region) : Address :=
  limit.elim region.stop (min · region.stop)

/-- Looks up the region at the cursor and enters its first window. The walk is over where no region
is left, or none below `limit`. -/
def seek (t : Target σ) (limit : Option Address) (w : Walker g) (cursor : Address) (s : σ) :
    Walker g × σ × List Event :=
  if limit.any (· ≤ cursor) then (w.enter (.finished (.ok .exhausted)), s, [])
  else
    let (answer, s') := t.lookup cursor s
    let w := w.collect answer.softErrors
    match answer.result with
    | .error error => (w.enter (.finished (.error error)), s', [])
    | .ok none => (w.enter (.finished (.ok .exhausted)), s', [.noRegionLeft cursor])
    | .ok (some region) =>
      if region.stop ≤ cursor then
        (w.enter (.finished (.error (t.misplaced region cursor))), s', [])
      else
        let start := max region.start cursor
        let stop := spanStop limit region
        if h : start < stop then (w.enter (.reading (Window.first g start stop h)), s', [])
        else (w.enter (.finished (.ok .exhausted)), s', [])

/-- What a failed read leads to: another attempt, or the next address with the error kept. -/
def recover (w : Walker g) (window : Window g) (error : MemoryError) : Walker g × List Event :=
  if 0 < w.retries then
    ({ w with
        phase := .seeking window.address
        retries := w.retries - 1
        retries_le := Nat.le_trans (Nat.sub_le _ _) w.retries_le },
      [.retrying window.address (w.retries - 1) error])
  else
    (⟨.seeking (window.address.advance window.size), maxRetries, w.softErrors ++ [error],
        Nat.le_refl _⟩,
      [.skipping window.address window.size error])

def fetch (t : Target σ) (w : Walker g) (window : Window g) (s : σ) :
    Walker g × σ × List Event :=
  let (answer, s') := t.read window.address window.size s
  let w := w.collect answer.softErrors
  match answer.result with
  | .ok bytes => (⟨.delivering window bytes, maxRetries, w.softErrors, Nat.le_refl _⟩, s', [])
  | .error error =>
    let (w, events) := w.recover window error
    (w, s', events)

def ask (t : Target σ) (limit : Option Address) (w : Walker g) (s : σ) :
    Walker g × σ × List Event :=
  match w.phase with
  | .seeking cursor => w.seek t limit cursor s
  | .reading window => w.fetch t window s
  | .delivering _ _ => (w, s, [])
  | .finished _ => (w, s, [])

/-- Goes on from a window whose chunk was handed over: to the next window, or to the end of the
span. -/
def proceed (w : Walker g) (window : Window g) : Verdict → Walker g
  | .stop => w.enter (.finished (.ok .stopped))
  | .goOn =>
    match window.next? with
    | some next => w.enter (.reading next)
    | none => w.enter (.seeking window.stop)

def isAsking (w : Walker g) : Bool :=
  match w.phase with
  | .seeking _ => true
  | .reading _ => true
  | _ => false

@[simp] theorem enter_retries (w : Walker g) (phase : Phase g) :
    (w.enter phase).retries = w.retries := rfl

@[simp] theorem enter_softErrors (w : Walker g) (phase : Phase g) :
    (w.enter phase).softErrors = w.softErrors := rfl

@[simp] theorem collect_retries (w : Walker g) (errors : List MemoryError) :
    (w.collect errors).retries = w.retries := rfl

@[simp] theorem collect_softErrors (w : Walker g) (errors : List MemoryError) :
    (w.collect errors).softErrors = w.softErrors ++ errors := rfl

theorem spanStop_le (limit : Option Address) (region : Region) :
    spanStop limit region ≤ region.stop := by
  cases limit with
  | none => exact Nat.le_refl _
  | some l =>
    rw [Address.le_def, spanStop, Option.elim_some, Address.toNat_min]
    exact Nat.min_le_right _ _

/-- The part stops at the limit at the latest. -/
theorem spanStop_le_limit {limit : Option Address} {l : Address} (region : Region)
    (h : l ∈ limit) : spanStop limit region ≤ l := by
  cases h
  rw [Address.le_def, spanStop, Option.elim_some, Address.toNat_min]
  exact Nat.min_le_left _ _

/-- Past a window there are fewer steps to come than its address alone would allow. -/
theorem remaining_proceed_lt (w : Walker g) (window : Window g) (verdict : Verdict) :
    (w.proceed window verdict).remaining <
      (0x1_0000_0000_0000_0000 - window.address.toNat) * 16 := by
  have hlt := window.address_lt_stop
  have hr := w.retries_le
  have hs := window.stop.isLt
  rw [Address.lt_def] at hlt
  unfold maxRetries at hr
  cases verdict with
  | stop => simp only [proceed, remaining, enter]; omega
  | goOn =>
    simp only [proceed]
    split
    · rename_i next hn
      have hn' := Window.address_lt_of_next? hn
      have := next.address.isLt
      rw [Address.lt_def] at hn'
      simp only [remaining, enter]
      omega
    · simp only [remaining, enter]
      omega

/-- A query leaves fewer steps to come, whatever the target answers. -/
theorem remaining_ask_lt (t : Target σ) (limit : Option Address) {w : Walker g} (s : σ)
    (h : w.isAsking) : (w.ask t limit s).1.remaining < w.remaining := by
  have hr := w.retries_le
  unfold maxRetries at hr
  unfold isAsking at h
  unfold ask
  split at h
  · rename_i cursor hp
    simp only [hp, seek]
    have hc := cursor.isLt
    split
    · simp only [remaining, hp, enter]; omega
    · split
      · simp only [remaining, hp, enter, collect]; omega
      · simp only [remaining, hp, enter, collect]; omega
      · rename_i region _
        split
        · simp only [remaining, hp, enter, collect]; omega
        · split
          · have hm := Address.toNat_max region.start cursor
            simp only [remaining, hp, enter, collect, Window.first_address, hm]
            omega
          · simp only [remaining, hp, enter, collect]; omega
  · rename_i window hp
    simp only [hp, fetch]
    have ha := window.address.isLt
    have hlt := window.address_lt_stop
    have hs := window.stop.isLt
    have hpos := window.size_pos
    rw [Address.lt_def] at hlt
    split
    · simp only [remaining, hp]; omega
    · simp only [recover]
      split
      · simp only [remaining, hp, collect] at *; omega
      · simp only [remaining, hp, collect, Address.toNat_advance, maxRetries] at *; omega
  · simp at h

end Walker
end ProcessMemory
