import ProcessMemory.Walk

/-!
# The course of a walk, step by step

`Transition` says once all that a step of a walk can do. `moves` lists what a number of steps does
outside the walk: the queries it asks and the chunks it hands over. What every step keeps holds
after any number of steps (`moves_induction`), and a walk is nothing but its steps (`run_eq_after`).
-/
namespace ProcessMemory

/-- What a step of a walk does that its target or its receiver sees. -/
inductive Move where
  | ask (query : Query)
  | handOver (chunk : Chunk) (verdict : Verdict)

namespace Move

def query? : Move → Option Query
  | .ask query => some query
  | .handOver _ _ => none

def chunk? : Move → Option Chunk
  | .ask _ => none
  | .handOver chunk _ => some chunk

def lookup? : Move → Option (Outcome (Option Region))
  | .ask (.lookup _ answer) => some answer
  | _ => none

def attempt? : Move → Option Address
  | .ask (.read address _ _) => some address
  | _ => none

end Move

def delivered (ms : List Move) : List Chunk := ms.filterMap Move.chunk?

@[simp] theorem delivered_append (ms ns : List Move) :
    delivered (ms ++ ns) = delivered ms ++ delivered ns := List.filterMap_append

@[simp] theorem delivered_ask (query : Query) : delivered [.ask query] = [] := rfl

@[simp] theorem delivered_handOver (chunk : Chunk) (verdict : Verdict) :
    delivered [.handOver chunk verdict] = [chunk] := rfl

@[simp] theorem delivered_nil : delivered [] = [] := rfl

namespace Walker

variable {g : Grid} {σ β : Type}

@[simp] theorem enter_phase (w : Walker g) (phase : Phase g) : (w.enter phase).phase = phase := rfl

/-- Where a walk goes on to depends on the window and the verdict alone. -/
theorem proceed_phase (w w' : Walker g) (window : Window g) (verdict : Verdict) :
    (w'.proceed window verdict).phase = (w.proceed window verdict).phase := by
  cases verdict with
  | stop => rfl
  | goOn => simp only [proceed]; cases window.next? <;> rfl

@[simp] theorem proceed_softErrors (w : Walker g) (window : Window g) (verdict : Verdict) :
    (w.proceed window verdict).softErrors = w.softErrors := by
  cases verdict with
  | stop => rfl
  | goOn => simp only [proceed]; cases window.next? <;> rfl

@[simp] theorem proceed_retries (w : Walker g) (window : Window g) (verdict : Verdict) :
    (w.proceed window verdict).retries = w.retries := by
  cases verdict with
  | stop => rfl
  | goOn => simp only [proceed]; cases window.next? <;> rfl

/-- The results of lookups at `cursor` that end a walk, and what it ends with. -/
inductive Closes (t : Target σ) (limit : Option Address) (cursor : Address) :
    Except MemoryError (Option Region) → Except MemoryError Ending → Prop where
  | failed (error : MemoryError) : Closes t limit cursor (.error error) (.error error)
  | nothingLeft : Closes t limit cursor (.ok none) (.ok .exhausted)
  | misplaced (region : Region) (h : region.stop ≤ cursor) :
    Closes t limit cursor (.ok (some region)) (.error (t.misplaced region cursor))
  | outside (region : Region) (hc : cursor < region.stop)
    (h : ¬max region.start cursor < spanStop limit region) :
    Closes t limit cursor (.ok (some region)) (.ok .exhausted)

theorem Closes.ne_stopped {t : Target σ} {limit : Option Address} {cursor : Address}
    {answer : Except MemoryError (Option Region)} {result : Except MemoryError Ending}
    (h : Closes t limit cursor answer result) : result ≠ .ok .stopped := by
  cases h <;> simp

namespace Course

variable (t : Target σ) (limit : Option Address) (receive : Receiver β)

def move? (c : Course g σ β) : Option Move :=
  match c.walker.phase with
  | .seeking cursor =>
    if limit.any (· ≤ cursor) then none
    else some (.ask (.lookup cursor (t.lookup cursor c.state).1))
  | .reading window =>
    let answer := (t.read window.address window.size c.state).1
    some (.ask (.read window.address window.size (answer.map Subtype.val)))
  | .delivering window bytes =>
    let chunk : Chunk := ⟨window.address, bytes.val⟩
    some (.handOver chunk (receive c.receiver chunk).2)
  | .finished _ => none

inductive Transition (c : Course g σ β) : Option Move → Course g σ β → Prop where
  | atLimit {cursor : Address} (events : List Event) (hp : c.walker.phase = .seeking cursor)
    (hl : limit.any (· ≤ cursor)) :
    Transition c none
      { c with walker := c.walker.enter (.finished (.ok .exhausted)), events }
  | closed {cursor : Address} {answer : Outcome (Option Region)} {s : σ}
    {result : Except MemoryError Ending} (events : List Event)
    (hp : c.walker.phase = .seeking cursor) (hl : ¬limit.any (· ≤ cursor))
    (hq : t.lookup cursor c.state = (answer, s))
    (hr : Closes t limit cursor answer.result result) :
    Transition c (some (.ask (.lookup cursor answer)))
      { c with
        walker := (c.walker.collect answer.softErrors).enter (.finished result), state := s,
        events }
  | entered {cursor : Address} {region : Region} {soft : List MemoryError} {s : σ}
    (events : List Event) (hp : c.walker.phase = .seeking cursor) (hl : ¬limit.any (· ≤ cursor))
    (hq : t.lookup cursor c.state = (⟨.ok (some region), soft⟩, s)) (hc : cursor < region.stop)
    (h : max region.start cursor < spanStop limit region) :
    Transition c (some (.ask (.lookup cursor ⟨.ok (some region), soft⟩)))
      { c with
        walker := (c.walker.collect soft).enter (.reading (Window.first g _ _ h)), state := s,
        events }
  | fetched {window : Window g} {bytes : Bytes window.size} {soft : List MemoryError} {s : σ}
    (events : List Event) (hp : c.walker.phase = .reading window)
    (hq : t.read window.address window.size c.state = (⟨.ok bytes, soft⟩, s)) :
    Transition c (some (.ask (.read window.address window.size ⟨.ok bytes.val, soft⟩)))
      { c with
        walker := ⟨.delivering window bytes, maxRetries, c.walker.softErrors ++ soft,
          Nat.le_refl _⟩,
        state := s, events }
  | retried {window : Window g} {error : MemoryError} {soft : List MemoryError} {s : σ}
    (events : List Event) (hp : c.walker.phase = .reading window)
    (hq : t.read window.address window.size c.state = (⟨.error error, soft⟩, s))
    (hr : 0 < c.walker.retries) :
    Transition c (some (.ask (.read window.address window.size ⟨.error error, soft⟩)))
      { c with
        walker := ⟨.seeking window.address, c.walker.retries - 1, c.walker.softErrors ++ soft,
          Nat.le_trans (Nat.sub_le _ _) c.walker.retries_le⟩,
        state := s, events }
  | skipped {window : Window g} {error : MemoryError} {soft : List MemoryError} {s : σ}
    (events : List Event) (hp : c.walker.phase = .reading window)
    (hq : t.read window.address window.size c.state = (⟨.error error, soft⟩, s))
    (hr : c.walker.retries = 0) :
    Transition c (some (.ask (.read window.address window.size ⟨.error error, soft⟩)))
      { c with
        walker := ⟨.seeking (window.address.advance window.size), maxRetries,
          c.walker.softErrors ++ soft ++ [error], Nat.le_refl _⟩,
        state := s, events }
  | stopped {window : Window g} {bytes : Bytes window.size} {receiver : β}
    (hp : c.walker.phase = .delivering window bytes)
    (hv : receive c.receiver ⟨window.address, bytes.val⟩ = (receiver, .stop)) :
    Transition c (some (.handOver ⟨window.address, bytes.val⟩ .stop))
      { c with walker := c.walker.enter (.finished (.ok .stopped)), receiver }
  | advanced {window next : Window g} {bytes : Bytes window.size} {receiver : β}
    (hp : c.walker.phase = .delivering window bytes)
    (hv : receive c.receiver ⟨window.address, bytes.val⟩ = (receiver, .goOn))
    (hn : window.next? = some next) :
    Transition c (some (.handOver ⟨window.address, bytes.val⟩ .goOn))
      { c with walker := c.walker.enter (.reading next), receiver }
  | left {window : Window g} {bytes : Bytes window.size} {receiver : β}
    (hp : c.walker.phase = .delivering window bytes)
    (hv : receive c.receiver ⟨window.address, bytes.val⟩ = (receiver, .goOn))
    (hn : window.next? = none) :
    Transition c (some (.handOver ⟨window.address, bytes.val⟩ .goOn))
      { c with walker := c.walker.enter (.seeking window.stop), receiver }
  | rested {result : Except MemoryError Ending} (hp : c.walker.phase = .finished result) :
    Transition c none c

variable {t limit receive}

theorem step_seeking {c : Course g σ β} {cursor : Address}
    (hp : c.walker.phase = .seeking cursor) :
    c.step t limit receive =
      let (walker, state, events) := c.walker.seek t limit cursor c.state
      { c with walker, state, events := c.events ++ events } := by
  simp only [step, ask, hp]

theorem step_reading {c : Course g σ β} {window : Window g}
    (hp : c.walker.phase = .reading window) :
    c.step t limit receive =
      let (walker, state, events) := c.walker.fetch t window c.state
      { c with walker, state, events := c.events ++ events } := by
  simp only [step, ask, hp]

theorem step_delivering {c : Course g σ β} {window : Window g} {bytes : Bytes window.size}
    (hp : c.walker.phase = .delivering window bytes) :
    c.step t limit receive =
      let (receiver, verdict) := receive c.receiver ⟨window.address, bytes.val⟩
      { c with walker := c.walker.proceed window verdict, receiver } := by
  simp only [step, hp]

theorem transition_seeking {c : Course g σ β} {cursor : Address}
    (hp : c.walker.phase = .seeking cursor) :
    Transition t limit receive c (c.move? t limit receive) (c.step t limit receive) := by
  simp only [move?, step, hp, ask, seek]
  by_cases hl : limit.any (· ≤ cursor)
  · simpa only [hl, if_true] using .atLimit _ hp hl
  · rcases hq : t.lookup cursor c.state with ⟨⟨result, soft⟩, s⟩
    simp only [hl, hq]
    cases result with
    | error error => exact .closed _ hp hl hq (.failed error)
    | ok found =>
      cases found with
      | none => exact .closed _ hp hl hq .nothingLeft
      | some region =>
        by_cases hc : region.stop ≤ cursor
        · simpa only [hc, if_true] using .closed _ hp hl hq (.misplaced region hc)
        · have hc' : cursor < region.stop := Nat.lt_of_not_le hc
          by_cases h : max region.start cursor < spanStop limit region
          · simpa only [hc, if_false, h, dite_true] using .entered _ hp hl hq hc' h
          · simpa only [hc, if_false, h, dite_false] using
              .closed _ hp hl hq (.outside region hc' h)

theorem transition_reading {c : Course g σ β} {window : Window g}
    (hp : c.walker.phase = .reading window) :
    Transition t limit receive c (c.move? t limit receive) (c.step t limit receive) := by
  rcases hq : t.read window.address window.size c.state with ⟨⟨result, soft⟩, s⟩
  simp only [move?, step, hp, ask, fetch, hq]
  cases result with
  | ok bytes => exact .fetched _ hp hq
  | error error =>
    simp only [recover, collect]
    by_cases hr : 0 < c.walker.retries
    · simpa only [hr, if_true] using .retried _ hp hq hr
    · simpa only [hr, if_false] using .skipped _ hp hq (Nat.eq_zero_of_not_pos hr)

theorem transition_delivering {c : Course g σ β} {window : Window g} {bytes : Bytes window.size}
    (hp : c.walker.phase = .delivering window bytes) :
    Transition t limit receive c (c.move? t limit receive) (c.step t limit receive) := by
  simp only [move?, step, hp]
  rcases hv : receive c.receiver ⟨window.address, bytes.val⟩ with ⟨receiver, verdict⟩
  cases verdict with
  | stop => exact .stopped hp hv
  | goOn =>
    simp only [proceed]
    cases hn : window.next? with
    | some next => exact .advanced hp hv hn
    | none => exact .left hp hv hn

/-- Every step is one of those that `Transition` lists. -/
theorem transition (c : Course g σ β) :
    Transition t limit receive c (c.move? t limit receive) (c.step t limit receive) := by
  cases hp : c.walker.phase with
  | seeking cursor => exact transition_seeking hp
  | reading window => exact transition_reading hp
  | delivering window bytes => exact transition_delivering hp
  | finished result => simpa [move?, step, hp, ask] using .rested hp

variable (t limit receive)

def after : Nat → Course g σ β → Course g σ β
  | 0, c => c
  | n + 1, c => after n (c.step t limit receive)

def moves : Nat → Course g σ β → List Move
  | 0, _ => []
  | n + 1, c => (c.move? t limit receive).toList ++ moves n (c.step t limit receive)

variable {t limit receive}

theorem after_succ (n : Nat) (c : Course g σ β) :
    after t limit receive (n + 1) c = (after t limit receive n c).step t limit receive := by
  induction n generalizing c with
  | zero => rfl
  | succ n ih => exact ih (c.step t limit receive)

theorem moves_succ (n : Nat) (c : Course g σ β) :
    moves t limit receive (n + 1) c =
      moves t limit receive n c ++ ((after t limit receive n c).move? t limit receive).toList := by
  induction n generalizing c with
  | zero => simp [moves, after]
  | succ n ih => rw [moves, ih, moves, after, List.append_assoc]

theorem after_add (m n : Nat) (c : Course g σ β) :
    after t limit receive (m + n) c = after t limit receive n (after t limit receive m c) := by
  induction m generalizing c with
  | zero => rw [Nat.zero_add]; rfl
  | succ m ih => rw [Nat.succ_add]; exact ih (c.step t limit receive)

theorem moves_add (m n : Nat) (c : Course g σ β) :
    moves t limit receive (m + n) c =
      moves t limit receive m c ++ moves t limit receive n (after t limit receive m c) := by
  induction m generalizing c with
  | zero => rw [Nat.zero_add]; rfl
  | succ m ih => rw [Nat.succ_add, moves, ih, moves, after, List.append_assoc]

/-- What holds at the outset and is kept by every step holds after any number of steps. -/
theorem moves_induction (t : Target σ) (limit : Option Address) (receive : Receiver β)
    {P : List Move → Course g σ β → Prop} {c : Course g σ β} (h0 : P [] c)
    (hs : ∀ {ms d move? d'}, P ms d → Transition t limit receive d move? d' →
      P (ms ++ move?.toList) d') (n : Nat) :
    P (moves t limit receive n c) (after t limit receive n c) := by
  induction n with
  | zero => exact h0
  | succ n ih =>
    rw [moves_succ, after_succ]
    exact hs ih (transition _)

theorem run_of_finished {c : Course g σ β} {result : Except MemoryError Ending}
    (hp : c.walker.phase = .finished result) : run t limit receive c = (result, c) := by
  rw [run]
  split
  · rename_i r hr
    simp only [result?, hp, Option.some.injEq] at hr
    rw [hr]
  · rename_i hr
    simp [result?, hp] at hr

theorem run_step (c : Course g σ β) :
    run t limit receive (c.step t limit receive) = run t limit receive c := by
  cases hp : c.walker.phase with
  | finished result => simp [step, hp, ask]
  | _ =>
    conv => rhs; rw [run]
    split
    · rename_i r hr
      simp [result?, hp] at hr
    · rfl

theorem run_after (n : Nat) (c : Course g σ β) :
    run t limit receive (after t limit receive n c) = run t limit receive c := by
  induction n with
  | zero => rfl
  | succ n ih => rw [after_succ, run_step, ih]

/-- A walk ends after as many steps as its measure allows, or sooner. -/
theorem exists_finished (t : Target σ) (limit : Option Address) (receive : Receiver β)
    (c : Course g σ β) :
    ∃ n ≤ c.walker.remaining, ∃ result,
      (after t limit receive n c).walker.phase = .finished result := by
  fun_induction run t limit receive c with
  | case1 c result h =>
    refine ⟨0, Nat.zero_le _, result, ?_⟩
    cases hp : c.walker.phase <;> simp_all [result?, after]
  | case2 c h ih =>
    obtain ⟨n, hn, result, hp⟩ := ih
    have hlt := remaining_step_lt t limit receive h
    exact ⟨n + 1, Nat.lt_of_le_of_lt hn hlt, result, hp⟩

theorem run_eq_after {n : Nat} {c : Course g σ β} {result : Except MemoryError Ending}
    (hp : (after t limit receive n c).walker.phase = .finished result) :
    run t limit receive c = (result, after t limit receive n c) := by
  rw [← run_after n c, run_of_finished hp]

/-- The receiver has been given the chunks handed over, one after another. -/
theorem receiver_after (n : Nat) (c : Course g σ β) :
    (after t limit receive n c).receiver =
      (delivered (moves t limit receive n c)).foldl (fun r chunk => (receive r chunk).1)
        c.receiver := by
  refine moves_induction t limit receive (P := fun ms d => d.receiver =
    (delivered ms).foldl (fun r chunk => (receive r chunk).1) c.receiver) rfl ?_ n
  intro ms d move? d' ih h
  cases h with
  | stopped hp hv | advanced hp hv hn | left hp hv hn => simp [← ih, hv]
  | _ => simpa using ih

/-! ## The queries of a walk

A target that keeps its queries sees exactly those that `moves` lists. -/

def queries (ms : List Move) : List Query := ms.filterMap Move.query?

@[simp] theorem queries_append (ms ns : List Move) :
    queries (ms ++ ns) = queries ms ++ queries ns := List.filterMap_append

@[simp] theorem queries_handOver (chunk : Chunk) (verdict : Verdict) :
    queries [.handOver chunk verdict] = [] := rfl

@[simp] theorem queries_nil : queries [] = [] := rfl

def logged (c : Course g σ β) (log : List Query) : Course g (σ × List Query) β :=
  ⟨c.walker, (c.state, log), c.receiver, c.events⟩

theorem seek_recorded (w : Walker g) (cursor : Address) (s : σ) (log : List Query) :
    w.seek t.recorded limit cursor (s, log) =
      let (w', s', events) := w.seek t limit cursor s
      (w', (s', if limit.any (· ≤ cursor) then log
        else log ++ [.lookup cursor (t.lookup cursor s).1]), events) := by
  rcases hq : t.lookup cursor s with ⟨⟨result, soft⟩, s'⟩
  by_cases hl : limit.any (· ≤ cursor)
  · simp only [seek, hl, if_true]
  · simp only [seek, hl, Target.recorded, hq]
    cases result with
    | error error => rfl
    | ok found =>
      cases found with
      | none => rfl
      | some region =>
        by_cases hc : region.stop ≤ cursor
        · simp only [hc, if_true]
          rfl
        · by_cases h : max region.start cursor < spanStop limit region
          · simp only [hc, if_false, h, dite_true, Bool.false_eq_true]
          · simp only [hc, if_false, h, dite_false, Bool.false_eq_true]

theorem fetch_recorded (w : Walker g) (window : Window g) (s : σ) (log : List Query) :
    w.fetch t.recorded window (s, log) =
      let (w', s', events) := w.fetch t window s
      let answer := (t.read window.address window.size s).1
      (w', (s', log ++ [.read window.address window.size (answer.map Subtype.val)]), events) := by
  rcases hq : t.read window.address window.size s with ⟨⟨result, soft⟩, s'⟩
  simp only [fetch, Target.recorded, hq]
  cases result with
  | ok bytes => rfl
  | error error => rfl

theorem step_logged (c : Course g σ β) (log : List Query) :
    (c.logged log).step t.recorded limit receive =
      (c.step t limit receive).logged (log ++ queries (c.move? t limit receive).toList) := by
  cases hp : c.walker.phase with
  | seeking cursor =>
    by_cases hl : limit.any (· ≤ cursor) <;>
      simp [step, logged, move?, hp, ask, seek_recorded, queries, Move.query?, hl]
  | reading window =>
    simp [step, logged, move?, hp, ask, fetch_recorded, queries, Move.query?]
  | delivering window bytes => simp [step, logged, move?, hp, queries, Move.query?]
  | finished result => simp [step, logged, move?, hp, ask, queries]

theorem after_logged (n : Nat) (c : Course g σ β) (log : List Query) :
    after t.recorded limit receive n (c.logged log) =
      (after t limit receive n c).logged (log ++ queries (moves t limit receive n c)) := by
  induction n generalizing c log with
  | zero => simp [after, moves, queries]
  | succ n ih =>
    rw [after, step_logged, ih, after, moves, queries, queries, queries, List.filterMap_append,
      List.append_assoc]

/-- The target that keeps its queries has been asked just those that `moves` lists. -/
theorem after_recorded (t : Target σ) (g : Grid) (start : Address) (limit : Option Address)
    (receive : Receiver β) (receiver : β) (s : σ) (n : Nat) :
    after t.recorded limit receive n (starting t.recorded g start receiver (s, [])) =
      (after t limit receive n (starting t g start receiver s)).logged
        (queries (moves t limit receive n (starting t g start receiver s))) :=
  after_logged n (starting t g start receiver s) []

end Course
end Walker

variable {g : Grid} {σ β : Type} {t : Target σ} {limit : Option Address} {receive : Receiver β}

open Walker in
theorem walkGrid_of_finished {start : Address} {receiver : β} {s : σ} {n : Nat}
    {result : Except MemoryError Ending}
    (hp : (Course.after t limit receive n (Course.starting t g start receiver s)).walker.phase =
      .finished result) :
    walkGrid t g start limit receive receiver s =
      (Course.after t limit receive n (Course.starting t g start receiver s)).report result := by
  rw [walkGrid, Course.run_eq_after hp]

open Walker Walker.Course in
/-- A target that keeps its queries keeps those of the walk. -/
theorem walkGrid_recorded {start : Address} {receiver : β} {s : σ} {n : Nat}
    {result : Except MemoryError Ending}
    (hp : (after t limit receive n (starting t g start receiver s)).walker.phase =
      .finished result) :
    (walkGrid t.recorded g start limit receive receiver (s, [])).1.state.2 =
      queries (moves t limit receive n (starting t g start receiver s)) := by
  have hrec := after_recorded t g start limit receive receiver s n
  have hp' : (after t.recorded limit receive n
      (starting t.recorded g start receiver (s, []))).walker.phase = .finished result := by
    rw [hrec]
    exact hp
  rw [walkGrid_of_finished hp', hrec]
  rfl

end ProcessMemory
