import ProcessMemory.Proofs.Walk.Course

/-!
# Walks end

Whatever a target answers, a walk makes a bounded number of queries, and reads at one address in
vain at most `maxRetries + 1` times in all. The second is an account kept along the walk: the
failures at the address that is due and the attempts left there never exceed `maxRetries` together,
and no read has failed further up.
-/
namespace ProcessMemory

def Move.failsAt (a : Address) : Move → Bool
  | .ask (.read address _ answer) => decide (address = a) && !answer.isOk
  | _ => false

def failures (a : Address) (ms : List Move) : Nat := ms.countP (Move.failsAt a)

@[simp] theorem failures_lookup (a b : Address) (ms : List Move)
    (answer : Outcome (Option Region)) :
    failures a (ms ++ [.ask (.lookup b answer)]) = failures a ms := by
  simp [failures, Move.failsAt]

@[simp] theorem failures_handOver (a : Address) (ms : List Move) (chunk : Chunk)
    (verdict : Verdict) : failures a (ms ++ [.handOver chunk verdict]) = failures a ms := by
  simp [failures, Move.failsAt]

@[simp] theorem failures_ok (a b : Address) (n : Nat) (ms : List Move) (bytes : List UInt8)
    (soft : List MemoryError) :
    failures a (ms ++ [.ask (.read b n ⟨.ok bytes, soft⟩)]) = failures a ms := by
  simp [failures, Move.failsAt, Outcome.isOk, Except.isOk, Except.toBool]

theorem failures_error (a b : Address) (n : Nat) (ms : List Move) (error : MemoryError)
    (soft : List MemoryError) :
    failures a (ms ++ [.ask (.read b n ⟨.error error, soft⟩)]) =
      failures a ms + if b = a then 1 else 0 := by
  by_cases h : b = a <;>
    simp [failures, Move.failsAt, Outcome.isOk, Except.isOk, Except.toBool, h]

namespace Walker

variable {g : Grid} {σ β : Type}

def Untried (ms : List Move) (a : Address) : Prop := ∀ b, a < b → failures b ms = 0

/-- The account of failed reads where `a` is the address that is due. -/
structure Account (ms : List Move) (a : Address) (retries : Nat) : Prop where
  above : Untried ms a
  here : failures a ms + retries ≤ maxRetries

def Balanced (ms : List Move) (retries : Nat) : Phase g → Prop
  | .seeking cursor => Account ms cursor retries
  | .reading window => Account ms window.address retries
  | .delivering window _ => Untried ms window.address
  | .finished _ => True

/-- Further up nothing has failed yet, so all attempts are left. -/
theorem Untried.account {ms : List Move} {a b : Address} {retries : Nat} (h : Untried ms a)
    (hab : a < b) (hr : retries ≤ maxRetries) : Account ms b retries := by
  refine ⟨fun c hc => h c (Nat.lt_trans hab hc), ?_⟩
  rw [h b hab, Nat.zero_add]
  exact hr

theorem Account.mono {ms : List Move} {a b : Address} {retries : Nat} (h : Account ms a retries)
    (hab : a ≤ b) (hr : retries ≤ maxRetries) : Account ms b retries := by
  rcases Nat.lt_or_eq_of_le hab with hlt | heq
  · exact h.above.account hlt hr
  · rwa [← Address.ext heq]

/-- A failed read at the address that is due. -/
theorem Untried.fail {ms : List Move} {a : Address} (h : Untried ms a) (n : Nat)
    (error : MemoryError) (soft : List MemoryError) :
    Untried (ms ++ [.ask (.read a n ⟨.error error, soft⟩)]) a := by
  intro b hb
  have hne : a ≠ b := fun he => Nat.lt_irrefl _ (he ▸ hb)
  rw [failures_error, if_neg hne, h b hb]

namespace Course

variable {t : Target σ} {limit : Option Address} {receive : Receiver β} {c d : Course g σ β}
  {ms : List Move} {move? : Option Move}

theorem Transition.balanced (ht : Transition t limit receive c move? d)
    (h : Balanced ms c.walker.retries c.walker.phase) :
    Balanced (ms ++ move?.toList) d.walker.retries d.walker.phase := by
  have hle := c.walker.retries_le
  cases ht with
  | @entered cursor region soft s events hp hl hq hc hspan =>
    rw [hp] at h
    have h' : Account ms (max region.start cursor) c.walker.retries :=
      h.mono (Address.le_max_right _ _) hle
    exact ⟨by simpa [Untried] using h'.above, by simpa using h'.here⟩
  | @fetched window bytes soft s events hp hq =>
    rw [hp] at h
    simpa [Balanced, Untried] using h.above
  | @retried window error soft s events hp hq hr =>
    rw [hp] at h
    refine ⟨h.above.fail _ _ _, ?_⟩
    have := h.here
    simp only [Option.toList_some, failures_error, if_true]
    omega
  | @skipped window error soft s events hp hq hr =>
    rw [hp] at h
    refine (h.above.fail _ _ _).account ?_ (Nat.le_refl _)
    have := window.size_pos
    have := window.fits
    have := window.stop.isLt
    rw [Address.lt_def, Address.toNat_advance]
    omega
  | @advanced window next bytes receiver hp hv hn =>
    rw [hp] at h
    have h' : Account ms next.address c.walker.retries :=
      Untried.account h (Window.address_lt_of_next? hn) hle
    exact ⟨by simpa [Untried] using h'.above, by simpa using h'.here⟩
  | @left window bytes receiver hp hv hn =>
    rw [hp] at h
    have h' : Account ms window.stop c.walker.retries :=
      Untried.account h window.address_lt_stop hle
    exact ⟨by simpa [Untried] using h'.above, by simpa using h'.here⟩
  | rested hp => simpa only [Option.toList_none, List.append_nil] using h
  | _ => exact trivial

theorem Transition.failures_le (ht : Transition t limit receive c move? d)
    (hb : Balanced ms c.walker.retries c.walker.phase)
    (h : ∀ a, failures a ms ≤ maxRetries + 1) (a : Address) :
    failures a (ms ++ move?.toList) ≤ maxRetries + 1 := by
  have hfail {window : Window g} (hp : c.walker.phase = .reading window) :
      failures a ms + (if window.address = a then 1 else 0) ≤ maxRetries + 1 := by
    rw [hp] at hb
    by_cases ha : window.address = a
    · have := hb.here
      rw [if_pos ha, ← ha]
      omega
    · rw [if_neg ha]
      exact h a
  cases ht with
  | retried events hp hq hr | skipped events hp hq hr =>
    simpa only [Option.toList_some, failures_error] using hfail hp
  | _ => simpa using h a

/-- At no point has one address been read in vain more than `maxRetries + 1` times. -/
theorem failures_moves_le (t : Target σ) (limit : Option Address) (receive : Receiver β)
    (start : Address) (receiver : β) (s : σ) (n : Nat) (a : Address) :
    failures a (moves t limit receive n (starting t g start receiver s)) ≤ maxRetries + 1 := by
  let P (ms : List Move) (d : Course g σ β) : Prop :=
    Balanced ms d.walker.retries d.walker.phase ∧ ∀ a, failures a ms ≤ maxRetries + 1
  have h0 : P [] (starting t g start receiver s) :=
    ⟨⟨fun _ _ => rfl, Nat.le_refl _⟩, fun _ => Nat.zero_le _⟩
  refine (moves_induction t limit receive h0 ?_ n).2 a
  intro ms d move? d' ⟨hb, hf⟩ ht
  exact ⟨ht.balanced hb, ht.failures_le hb hf⟩

theorem length_moves_le (n : Nat) (c : Course g σ β) :
    (moves t limit receive n c).length ≤ n := by
  induction n generalizing c with
  | zero => exact Nat.le_refl _
  | succ n ih =>
    have hone : ((c.move? t limit receive).toList).length ≤ 1 := by
      cases c.move? t limit receive <;> simp
    have := ih (c.step t limit receive)
    rw [moves, List.length_append]
    omega

theorem length_queries_le (n : Nat) (c : Course g σ β) :
    (queries (moves t limit receive n c)).length ≤ n :=
  Nat.le_trans (List.length_filterMap_le _ _) (length_moves_le n c)

/-- Every walk ends, after a number of steps that depends on nothing but where it starts. It asks at
most one query a step, and no address is read in vain more than `maxRetries + 1` times in all, let
alone in a row. -/
theorem walkGrid_ends (t : Target σ) (g : Grid) (start : Address) (limit : Option Address)
    (receive : Receiver β) (receiver : β) (s : σ) :
    ∃ n ≤ (0x1_0000_0000_0000_0000 - start.toNat) * 16 + 12, ∃ result,
      let c := after t limit receive n (starting t g start receiver s)
      let ms := moves t limit receive n (starting t g start receiver s)
      c.walker.phase = .finished result ∧
      walkGrid t g start limit receive receiver s = c.report result ∧
      (walkGrid t.recorded g start limit receive receiver (s, [])).1.state.2 = queries ms ∧
      (queries ms).length ≤ n ∧
      ∀ a, failures a ms ≤ maxRetries + 1 := by
  obtain ⟨n, hn, result, hp⟩ :=
    exists_finished t limit receive (starting t g start receiver s)
  have hrec := after_recorded t g start limit receive receiver s n
  refine ⟨n, hn, result, hp, walkGrid_of_finished hp, ?_, length_queries_le n _, ?_⟩
  · have hp' : (after t.recorded limit receive n
        (starting t.recorded g start receiver (s, []))).walker.phase = .finished result := by
      rw [hrec]
      exact hp
    rw [walkGrid_of_finished hp', hrec]
    rfl
  · exact failures_moves_le t limit receive start receiver s n

end Course
end Walker
end ProcessMemory
