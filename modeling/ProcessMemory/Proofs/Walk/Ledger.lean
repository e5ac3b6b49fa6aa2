import ProcessMemory.Proofs.Enumeration.Session
import ProcessMemory.Proofs.Walk.Course

/-!
# What a walk owes its queries

The soft errors of a walk can be told from the queries it asked: those of every answer, in their
order, and after them the error of a read that was the last attempt. Attempts run out with every
`maxRetries + 1` reads that fail in a row, so the attempts a walk has left are known from the reads
that have failed since one last succeeded (`Balances`).
-/
namespace ProcessMemory

namespace Query

/-- How many reads in a row have failed after the query, where `row` had before it. -/
def inRow (row : Nat) : Query → Nat
  | .lookup _ _ => row
  | .read _ _ answer => if answer.isOk then 0 else row + 1

def givenUp? (row : Nat) : Query → Option MemoryError
  | .read _ _ ⟨.error error, _⟩ => if (row + 1) % (maxRetries + 1) = 0 then some error else none
  | _ => none

def owed (row : Nat) (q : Query) : List MemoryError := q.softErrors ++ (q.givenUp? row).toList

end Query

/-- The soft errors owed for some queries, before which `row` reads in a row have failed. -/
def owed (row : Nat) : List Query → List MemoryError
  | [] => []
  | q :: later => q.owed row ++ owed (q.inRow row) later

/-- A walk that was asked for `log` has kept the errors it owes, and has an attempt left for each
that the reads in a row have not used up. -/
structure Balances (log : List Query) (errors : List MemoryError) (retries : Nat) : Prop where
  errors_eq : errors = owed 0 log
  attempts : log.foldl Query.inRow 0 % (maxRetries + 1) + retries = maxRetries

section
variable {a : Address} {n retries : Nat} {log : List Query} {errors soft : List MemoryError}

theorem owed_concat (row : Nat) (log : List Query) (q : Query) :
    owed row (log ++ [q]) = owed row log ++ q.owed (log.foldl Query.inRow row) := by
  induction log generalizing row with
  | nil => rw [List.nil_append, owed, owed, owed, List.append_nil, List.nil_append, List.foldl_nil]
  | cons first log ih => rw [List.cons_append, owed, ih, owed, List.foldl_cons, List.append_assoc]

theorem balances_nil : Balances [] [] maxRetries := ⟨rfl, rfl⟩

theorem Balances.lookup (h : Balances log errors retries) (a : Address)
    (answer : Outcome (Option Region)) :
    Balances (log ++ [.lookup a answer]) (errors ++ answer.softErrors) retries where
  errors_eq := by
    rw [owed_concat, ← h.errors_eq]
    exact congrArg (errors ++ ·) (List.append_nil _).symm
  attempts := by
    rw [List.foldl_append]
    exact h.attempts

/-- A read that succeeds gives all attempts back. -/
theorem Balances.fetched (h : Balances log errors retries) (a : Address) (n : Nat)
    (bytes : List UInt8) (soft : List MemoryError) :
    Balances (log ++ [.read a n ⟨.ok bytes, soft⟩]) (errors ++ soft) maxRetries where
  errors_eq := by
    rw [owed_concat, ← h.errors_eq]
    exact congrArg (errors ++ ·) (List.append_nil _).symm
  attempts := by
    rw [List.foldl_append]
    rfl

/-- A read that fails with an attempt left owes nothing but the soft errors of its answer. -/
theorem Balances.retried (h : Balances log errors retries) (hr : 0 < retries) (a : Address)
    (n : Nat) (error : MemoryError) (soft : List MemoryError) :
    Balances (log ++ [.read a n ⟨.error error, soft⟩]) (errors ++ soft) (retries - 1) := by
  have hattempts := h.attempts
  have hmore : (log.foldl Query.inRow 0 + 1) % (maxRetries + 1) =
      log.foldl Query.inRow 0 % (maxRetries + 1) + 1 := by
    unfold maxRetries at *
    omega
  refine ⟨?_, ?_⟩
  · have hkept : Query.givenUp? (log.foldl Query.inRow 0) (.read a n ⟨.error error, soft⟩) = none :=
      if_neg (by omega)
    rw [owed_concat, ← h.errors_eq, Query.owed, hkept]
    exact congrArg (errors ++ ·) (List.append_nil _).symm
  · rw [List.foldl_append]
    change (log.foldl Query.inRow 0 + 1) % (maxRetries + 1) + (retries - 1) = maxRetries
    omega

/-- A read that fails with no attempt left owes its own error too, and the attempts begin anew. -/
theorem Balances.skipped (h : Balances log errors 0) (a : Address) (n : Nat) (error : MemoryError)
    (soft : List MemoryError) :
    Balances (log ++ [.read a n ⟨.error error, soft⟩]) (errors ++ soft ++ [error]) maxRetries := by
  have hattempts := h.attempts
  have hlast : (log.foldl Query.inRow 0 + 1) % (maxRetries + 1) = 0 := by
    unfold maxRetries at *
    omega
  refine ⟨?_, ?_⟩
  · have hgiven :
        Query.givenUp? (log.foldl Query.inRow 0) (.read a n ⟨.error error, soft⟩) = some error :=
      if_pos hlast
    rw [owed_concat, ← h.errors_eq, Query.owed, hgiven, List.append_assoc]
    rfl
  · rw [List.foldl_append]
    change (log.foldl Query.inRow 0 + 1) % (maxRetries + 1) + maxRetries = maxRetries
    omega

end

namespace Walker.Course

variable {g : Grid} {σ β : Type} {t : Target σ} {limit : Option Address} {receive : Receiver β}
  {c d : Course g σ β} {log : List Query} {move? : Option Move}

theorem Transition.balances (h : Transition t limit receive c move? d)
    (hb : Balances log c.walker.softErrors c.walker.retries) :
    Balances (log ++ queries move?.toList) d.walker.softErrors d.walker.retries := by
  cases h with
  | closed events hp hl hq hr => exact hb.lookup _ _
  | entered events hp hl hq hc hspan => exact hb.lookup _ _
  | fetched events hp hq => exact hb.fetched _ _ _ _
  | retried events hp hq hr => exact hb.retried hr _ _ _ _
  | skipped events hp hq hr =>
    rw [hr] at hb
    exact hb.skipped _ _ _ _
  | atLimit | stopped | advanced | left | rested => simpa using hb

def Aborts (t : Target σ) (limit : Option Address) (log : List Query) (error : MemoryError) :
    Prop :=
  ∃ earlier a answer, log = earlier ++ [.lookup a answer] ∧
    Closes t limit a answer.result (.error error)

theorem Transition.aborts (h : Transition t limit receive c move? d) {error : MemoryError}
    (hc : c.walker.phase = .finished (.error error) → Aborts t limit log error)
    (hd : d.walker.phase = .finished (.error error)) :
    Aborts t limit (log ++ queries move?.toList) error := by
  cases h with
  | closed events hp hl hq hr =>
    cases hd
    exact ⟨log, _, _, rfl, hr⟩
  | rested hp => simpa using hc hd
  | _ => cases hd

theorem balances_after (t : Target σ) (g : Grid) (start : Address) (limit : Option Address)
    (receive : Receiver β) (receiver : β) (s : σ) (n : Nat) :
    let begun := starting t g start receiver s
    let c := after t limit receive n begun
    let log := queries (moves t limit receive n begun)
    Balances log c.walker.softErrors c.walker.retries ∧
      ∀ error, c.walker.phase = .finished (.error error) → Aborts t limit log error := by
  let P (ms : List Move) (d : Course g σ β) : Prop :=
    Balances (queries ms) d.walker.softErrors d.walker.retries ∧
      ∀ error, d.walker.phase = .finished (.error error) → Aborts t limit (queries ms) error
  have h0 : P [] (starting t g start receiver s) := ⟨balances_nil, nofun⟩
  refine moves_induction t limit receive h0 ?_ n
  intro ms d move? d' ⟨hb, ha⟩ h
  simp only [P, queries_append]
  exact ⟨h.balances hb, fun error => h.aborts (ha error)⟩

/-- Whatever a target answers, and however a walk ends, its soft errors are those that it owes for
its queries. A lookup that ends the walk in an error comes last, and of its answer only the soft
errors are kept. -/
theorem walkGrid_softErrors_owed (t : Target σ) (g : Grid) (start : Address)
    (limit : Option Address) (receive : Receiver β) (receiver : β) (s : σ) :
    let log := (walkGrid t.recorded g start limit receive receiver (s, [])).1.state.2
    let outcome := (walkGrid t g start limit receive receiver s).1.outcome
    outcome.softErrors = owed 0 log ∧
      ∀ error, outcome.result = .error error →
        ∃ earlier a answer, log = earlier ++ [.lookup a answer] ∧
          Closes t limit a answer.result (.error error) ∧
          outcome.softErrors = owed 0 earlier ++ answer.softErrors := by
  intro log outcome
  obtain ⟨n, -, result, hp⟩ := exists_finished t limit receive (starting t g start receiver s)
  obtain ⟨hb, ha⟩ := balances_after t g start limit receive receiver s n
  have hlog : log = _ := walkGrid_recorded hp
  have hwalk := walkGrid_of_finished hp
  have hsoft : outcome.softErrors = owed 0 log := by
    rw [hlog, ← hb.errors_eq]
    exact congrArg (·.1.outcome.softErrors) hwalk
  refine ⟨hsoft, fun error herror => ?_⟩
  have hresult : result = .error error := by
    rw [← herror]
    exact (congrArg (·.1.outcome.result) hwalk).symm
  obtain ⟨earlier, a, answer, hlast, hcloses⟩ := ha error (hresult ▸ hp)
  refine ⟨earlier, a, answer, hlog.trans hlast, hcloses, ?_⟩
  rw [hsoft, hlog, hlast, owed_concat]
  exact congrArg (owed 0 earlier ++ ·) (List.append_nil _)

end Walker.Course
end ProcessMemory
