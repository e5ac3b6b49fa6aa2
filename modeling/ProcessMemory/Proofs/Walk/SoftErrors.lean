import ProcessMemory.Proofs.Crossings
import ProcessMemory.Proofs.Walk.Faults
import ProcessMemory.Proofs.Walk.Receivers
import ProcessMemory.Proofs.Walk.Transient

/-!
# The soft errors of a walk

A walk keeps two kinds of soft errors: the unreadable mappings that its lookups cross, and the reads
that it gave up. The second are counted by what the target saw: all reads of a window failed, as
many as there are attempts (`trials`), or the window is no soft error.
-/
namespace ProcessMemory

def Query.trial? (a : Address) (n : Nat) : Query → Option Bool
  | .lookup _ _ => none
  | .read b k answer => if b = a ∧ k = n then some answer.isOk else none

def trials (a : Address) (n : Nat) (log : List Query) : List Bool :=
  log.filterMap (Query.trial? a n)

def Untouched (log : List Query) (lo : Nat) : Prop :=
  ∀ a n, lo ≤ a.toNat → trials a n log = []

/-- From the window's address on, the window alone has been read, `count` times in vain. -/
def Tries {g : Grid} (log : List Query) (w : Window g) (count : Nat) : Prop :=
  ∀ a n, w.address ≤ a →
    trials a n log = if w.address = a ∧ w.size = n then List.replicate count false else []

/-- Soft errors are unreadable mappings, and the reads of which every attempt failed. -/
structure Counted (reason : String) (log : List Query) (errors : List MemoryError) : Prop where
  kinds : ∀ e ∈ errors, e.isUnreadable ∨ ∃ a n, e = .readFailed a n reason
  count : ∀ a n, errors.count (.readFailed a n reason) =
    if trials a n log = List.replicate (maxRetries + 1) false then 1 else 0

section
variable {g : Grid} {a b : Address} {n k lo : Nat} {log : List Query} {w : Window g}
  {reason : String} {errors : List MemoryError}

@[simp] theorem trials_lookup (answer : Outcome (Option Region)) :
    trials a n (log ++ [.lookup b answer]) = trials a n log := by
  simp [trials, Query.trial?]

theorem trials_read (answer : Outcome (List UInt8)) :
    trials a n (log ++ [.read b k answer]) =
      trials a n log ++ if b = a ∧ k = n then [answer.isOk] else [] := by
  by_cases h : b = a ∧ k = n <;> simp [trials, Query.trial?, h]

theorem Untouched.mono {hi : Nat} (h : Untouched log lo) (hle : lo ≤ hi) : Untouched log hi :=
  fun a n ha => h a n (Nat.le_trans hle ha)

theorem Untouched.tries (h : Untouched log lo) (hle : lo ≤ w.address.toNat) : Tries log w 0 := by
  intro a n ha
  rw [h a n (Nat.le_trans hle ha), List.replicate_zero, ite_self]

theorem Tries.lookup (h : Tries log w k) (answer : Outcome (Option Region)) :
    Tries (log ++ [.lookup b answer]) w k :=
  fun a n ha => (trials_lookup answer).trans (h a n ha)

theorem Tries.at_window (h : Tries log w k) :
    trials w.address w.size log = List.replicate k false := by
  rw [h _ _ (Nat.le_refl _), if_pos ⟨rfl, rfl⟩]

/-- One more read of the window fails. -/
theorem Tries.failed (h : Tries log w k) (error : MemoryError) (soft : List MemoryError) :
    Tries (log ++ [.read w.address w.size ⟨.error error, soft⟩]) w (k + 1) := by
  intro a n ha
  rw [trials_read, h a n ha]
  split
  · exact List.replicate_succ'.symm
  · rfl

/-- Above a window that is read nothing has been. -/
theorem Tries.untouched (h : Tries log w k) (answer : Outcome (List UInt8)) :
    Untouched (log ++ [.read w.address w.size answer]) (w.address.toNat + 1) := by
  intro a n ha
  have hne : ¬(w.address = a ∧ w.size = n) := fun he => by
    rw [he.1] at ha
    exact Nat.not_succ_le_self _ ha
  rw [trials_read, h a n (Nat.le_of_lt ha), if_neg hne, if_neg hne, List.append_nil]

theorem counted_nil (reason : String) : Counted reason [] [] :=
  ⟨fun _ he => (nomatch he), fun _ _ => rfl⟩

/-- What a lookup crosses is no read. -/
theorem Counted.lookup (h : Counted reason log errors) (answer : Outcome (Option Region))
    (cursor : Address) (ms : List Mapping) :
    Counted reason (log ++ [.lookup b answer]) (errors ++ Mapping.crossed cursor ms) where
  kinds e he := by
    rcases List.mem_append.1 he with he | he
    · exact h.kinds e he
    · obtain ⟨start, stop, rfl⟩ := Mapping.unreadable_of_mem_crossed he
      exact .inl rfl
  count a n := by
    have hcrossed : (Mapping.crossed cursor ms).count (.readFailed a n reason) = 0 := by
      refine List.count_eq_zero.2 fun he => ?_
      obtain ⟨start, stop, heq⟩ := Mapping.unreadable_of_mem_crossed he
      cases heq
    rw [List.count_append, hcrossed, Nat.add_zero, trials_lookup, h.count]

/-- A window that has not been tried out is no soft error. -/
theorem Counted.eq_zero (h : Counted reason log errors) (hw : Tries log w k)
    (hk : k ≤ maxRetries) : errors.count (.readFailed w.address w.size reason) = 0 := by
  rw [h.count, hw.at_window, if_neg fun he => ?_]
  have hlen := congrArg List.length he
  rw [List.length_replicate, List.length_replicate] at hlen
  omega

/-- The read of a window has a part in the count for that window alone. -/
theorem Counted.read {others : List MemoryError} (h : Counted reason log errors)
    (hw : Tries log w k) (hk : k ≤ maxRetries) (answer : Outcome (List UInt8))
    (hsame : ∀ e ∈ others, e = .readFailed w.address w.size reason)
    (hcount : others.count (.readFailed w.address w.size reason) =
      if List.replicate k false ++ [answer.isOk] = List.replicate (maxRetries + 1) false then 1
      else 0) :
    Counted reason (log ++ [.read w.address w.size answer]) (errors ++ others) where
  kinds e he := by
    rcases List.mem_append.1 he with he | he
    · exact h.kinds e he
    · exact .inr ⟨_, _, hsame e he⟩
  count a n := by
    rw [List.count_append, trials_read]
    by_cases heq : w.address = a ∧ w.size = n
    · obtain ⟨rfl, rfl⟩ := heq
      rw [h.eq_zero hw hk, hw.at_window, Nat.zero_add, hcount]
      simp only [and_self, if_true]
    · have hnone : others.count (.readFailed a n reason) = 0 := by
        refine List.count_eq_zero.2 fun he => ?_
        cases hsame _ he
        exact heq ⟨rfl, rfl⟩
      rw [hnone, Nat.add_zero, if_neg heq, List.append_nil, h.count]

theorem Counted.fetched (h : Counted reason log errors) (hw : Tries log w k)
    (hk : k ≤ maxRetries) (bytes : List UInt8) (soft : List MemoryError) :
    Counted reason (log ++ [.read w.address w.size ⟨.ok bytes, soft⟩]) errors := by
  have hmixed : List.replicate k false ++ [true] ≠ List.replicate (maxRetries + 1) false :=
    fun he => by
      have hmem : true ∈ List.replicate (maxRetries + 1) false :=
        he ▸ List.mem_append_right _ List.mem_cons_self
      cases List.eq_of_mem_replicate hmem
  rw [← List.append_nil errors]
  exact h.read hw hk _ (fun _ he => nomatch he) (if_neg hmixed).symm

theorem Counted.retried (h : Counted reason log errors) (hw : Tries log w k)
    (hk : k < maxRetries) (error : MemoryError) (soft : List MemoryError) :
    Counted reason (log ++ [.read w.address w.size ⟨.error error, soft⟩]) errors := by
  have hfew : List.replicate k false ++ [false] ≠ List.replicate (maxRetries + 1) false :=
    fun he => by
      have hlen := congrArg List.length he
      rw [← List.replicate_succ', List.length_replicate, List.length_replicate] at hlen
      omega
  rw [← List.append_nil errors]
  exact h.read hw (Nat.le_of_lt hk) _ (fun _ he => nomatch he) (if_neg hfew).symm

theorem Counted.skipped (h : Counted reason log errors) (hw : Tries log w maxRetries)
    (error : MemoryError) (soft : List MemoryError) :
    Counted reason (log ++ [.read w.address w.size ⟨.error error, soft⟩])
      (errors ++ [.readFailed w.address w.size reason]) := by
  refine h.read hw (Nat.le_refl _) _ (fun e he => List.mem_singleton.1 he) ?_
  rw [List.count_singleton_self]
  rfl

end

namespace Walker

variable {g : Grid} {σ β : Type}

/-- How the soft errors kept so far stand with respect to the place where a walk is. A window that
is due has been tried as often as attempts are missing. -/
inductive Keeping (ms : List Mapping) (m : Memory) (start : Address) (log : List Query)
    (errors : List MemoryError) (retries : Nat) : Phase g → Prop where
  | fresh {cursor : Address} (hk : Mapping.KeptTo ms start errors cursor)
    (h : Untouched log cursor.toNat) (hr : retries = maxRetries) :
    Keeping ms m start log errors retries (.seeking cursor)
  | again {w : Window g} (hk : Mapping.KeptTo ms start errors w.address) (hw : w.Lies m none)
    (h : Tries log w (maxRetries - retries)) :
    Keeping ms m start log errors retries (.seeking w.address)
  | due {w : Window g} (hk : Mapping.KeptTo ms start errors w.address) (hw : w.Lies m none)
    (h : Tries log w (maxRetries - retries)) :
    Keeping ms m start log errors retries (.reading w)
  | inHand {w : Window g} {bytes : Bytes w.size} (hk : Mapping.KeptTo ms start errors w.address)
    (hw : w.Lies m none) (h : Untouched log (w.address.toNat + 1)) (hr : retries = maxRetries) :
    Keeping ms m start log errors retries (.delivering w bytes)
  | exhausted (hcrossed : errors.filter (·.isUnreadable) = Mapping.crossed start ms)
    (ascending : errors.Pairwise MemoryError.Precedes) :
    Keeping ms m start log errors retries (.finished (.ok .exhausted))
  | stopped : Keeping ms m start log errors retries (.finished (.ok .stopped))

end Walker

/-- Reads of readable bytes succeed or fail in one way, and keep no soft errors. -/
def Target.FailsWith {σ : Type} (t : Target σ) (m : Memory) (reason : String) : Prop :=
  ∀ a n s, m.Readable a.toNat n →
    (∃ bytes s', t.read a n s = (.ok bytes, s')) ∨
      ∃ s', t.read a n s = (.fail (.readFailed a n reason), s')

namespace Walker

variable {g : Grid} {σ β : Type} {t : Target σ} {ms : List Mapping} {m : Memory}
  {reason : String} {start : Address} {log : List Query} {errors : List MemoryError}
  {retries : Nat}

theorem Keeping.keptTo {cursor : Address}
    (h : Keeping ms m start log errors retries (.seeking cursor : Phase g)) :
    Mapping.KeptTo ms start errors cursor := by
  cases h with
  | fresh hk => exact hk
  | again hk => exact hk

/-- A lookup enters the first window of a region, or once more the one that is to be read again. -/
theorem Keeping.entered {cursor : Address} {region : Region} {soft : List MemoryError}
    (h : Keeping ms m start log errors retries (.seeking cursor : Phase g))
    (hnext : m.Next cursor region)
    (hk : Mapping.KeptTo ms start (errors ++ soft) (max region.start cursor))
    (answer : Outcome (Option Region)) (hspan : max region.start cursor < region.stop) :
    Keeping ms m start (log ++ [.lookup cursor answer]) (errors ++ soft) retries
      (.reading (Window.first g _ _ hspan)) := by
  cases h with
  | fresh hk' h hr =>
    have htries : Tries log (Window.first g _ _ hspan) 0 :=
      h.tries (Address.le_max_right _ _)
    refine .due hk (lies_first none hnext hspan) ?_
    rw [hr, Nat.sub_self]
    exact htries.lookup answer
  | @again w hk' hw h =>
    obtain ⟨hstart, hstop⟩ := hw.next_eq hnext
    have hmax : max region.start w.address = w.address := Address.ext (by
      rw [Address.toNat_max]
      exact Nat.max_eq_right hstart)
    have hwindow : Window.first g _ _ hspan = w := by
      have hfirst {a b : Address} (hab : a < b) (ha : a = w.address) (hb : b = w.stop) :
          Window.first g a b hab = w := by
        subst ha hb
        exact w.first_eq
      exact hfirst hspan hmax hstop
    rw [hwindow]
    exact .due (hmax ▸ hk) hw (h.lookup answer)

namespace Course

variable {receive : Receiver β} {c d : Course g σ β} {move? : Option Move}

/-- What a read of the window that is due gives. -/
theorem read_of_lies (ht : t.FailsWith m reason) {w : Window g} (hw : w.Lies m none)
    {answer : Outcome (Bytes w.size)} {s s' : σ}
    (hq : t.read w.address w.size s = (answer, s')) :
    answer.softErrors = [] ∧
      ∀ error, answer.result = .error error → error = .readFailed w.address w.size reason := by
  rcases ht _ _ s hw.readable_size with ⟨bytes, s'', hread⟩ | ⟨s'', hread⟩
  all_goals
    rw [hread] at hq
    cases hq
  · exact ⟨rfl, nofun⟩
  · exact ⟨rfl, fun _ he => (Except.error.inj he).symm⟩

section
variable (hms : Mapping.Ascending ms) (hmaps : t.Maps ms) (hm : t.Shows m)
include hms hmaps hm

/-- A lookup that ends the walk has crossed all that was left. -/
theorem keeping_closed {cursor : Address} {answer : Outcome (Option Region)} {s s' : σ}
    {result : Except MemoryError Ending} (hq : t.lookup cursor s = (answer, s'))
    (hr : Closes t none cursor answer.result result) (hc : Counted reason log errors)
    (hk : Mapping.KeptTo ms start errors cursor) :
    Counted reason (log ++ [.lookup cursor answer]) (errors ++ answer.softErrors) ∧
      Keeping (g := g) ms m start (log ++ [.lookup cursor answer]) (errors ++ answer.softErrors)
        retries (.finished result) := by
  have hfound := hm.lookup cursor s
  have hlook := hmaps cursor s
  rw [hq] at hfound hlook
  simp only at hlook
  subst hlook
  rcases Lookup.run_none cursor hms with ⟨-, heq⟩ | ⟨before, k, after, region, hs, heq⟩
  all_goals rw [heq] at hr hfound ⊢
  · cases hr with
    | nothingLeft =>
      refine ⟨hc.lookup _ _ _, .exhausted ?_ hk.ascending⟩
      rw [List.filter_append, Mapping.filter_crossed, hk.crossed_eq]
  · cases hfound with
    | region hnext =>
      cases hr with
      | misplaced _ hle => exact absurd hnext.reaches (Nat.not_lt_of_le hle)
      | outside _ hc hspan => exact absurd hnext.span_lt hspan

theorem keeping_entered {cursor : Address} {region : Region} {soft : List MemoryError}
    {s s' : σ} (hq : t.lookup cursor s = (⟨.ok (some region), soft⟩, s'))
    (hspan : max region.start cursor < region.stop) (hc : Counted reason log errors)
    (hk : Keeping ms m start log errors retries (.seeking cursor : Phase g)) :
    let answer := ⟨.ok (some region), soft⟩
    Counted reason (log ++ [.lookup cursor answer]) (errors ++ soft) ∧
      Keeping ms m start (log ++ [.lookup cursor answer]) (errors ++ soft) retries
        (.reading (Window.first g _ _ hspan)) := by
  have hfound := hm.lookup cursor s
  have hlook := hmaps cursor s
  rw [hq] at hfound hlook
  rcases Lookup.run_none cursor hms with ⟨-, heq⟩ | ⟨before, k, after, region, hs, heq⟩
  all_goals
    rw [heq] at hlook
    cases hlook
  cases hfound with
  | region hnext =>
    exact ⟨hc.lookup _ _ _, hk.entered hnext (hk.keptTo.enter hms hs) _ hspan⟩

end

/-- What a step keeps holding of the soft errors. -/
theorem Transition.keeping (h : Transition t none receive c move? d)
    (hms : Mapping.Ascending ms) (hmaps : t.Maps ms) (hm : t.Shows m)
    (hiff : ∀ n, (m n).isSome ↔ Mapping.ReadableAt ms n) (ht : t.FailsWith m reason)
    (hc : Counted reason log c.walker.softErrors)
    (hk : Keeping ms m start log c.walker.softErrors c.walker.retries c.walker.phase) :
    Counted reason (log ++ queries move?.toList) d.walker.softErrors ∧
      Keeping ms m start (log ++ queries move?.toList) d.walker.softErrors d.walker.retries
        d.walker.phase := by
  have hle := c.walker.retries_le
  have hread {w : Window g} (hw : w.Lies m none) {n : Nat} (h1 : w.address.toNat ≤ n)
      (h2 : n < w.stop.toNat) : Mapping.ReadableAt ms n := (hiff n).1 (hw.readable n h1 h2)
  cases h with
  | atLimit events hp hl => cases hl
  | closed events hp hl hq hr =>
    rw [hp] at hk
    exact keeping_closed hms hmaps hm hq hr hc hk.keptTo
  | entered events hp hl hq hlt hspan =>
    rw [hp] at hk
    exact keeping_entered hms hmaps hm hq hspan hc hk
  | @fetched w bytes soft s events hp hq =>
    rw [hp] at hk
    cases hk with
    | due hk hw h =>
      obtain ⟨rfl, -⟩ := read_of_lies ht hw hq
      simp only [List.append_nil]
      exact ⟨hc.fetched h (Nat.sub_le _ _) _ _, .inHand hk hw (h.untouched _) rfl⟩
  | @retried w error soft s events hp hq hr =>
    rw [hp] at hk
    cases hk with
    | due hk hw h =>
      obtain ⟨rfl, -⟩ := read_of_lies ht hw hq
      have hcount : maxRetries - c.walker.retries + 1 = maxRetries - (c.walker.retries - 1) := by
        omega
      simp only [List.append_nil]
      exact ⟨hc.retried h (by omega) _ _, .again hk hw (hcount ▸ h.failed _ _)⟩
  | @skipped w error soft s events hp hq hr =>
    rw [hp] at hk
    cases hk with
    | due hk hw h =>
      obtain ⟨rfl, herror⟩ := read_of_lies ht hw hq
      obtain rfl := herror error rfl
      have hfinish := w.toNat_advance_size
      have hlt : w.address.toNat < (w.address.advance w.size).toNat := by
        rw [hfinish]
        exact Nat.lt_add_of_pos_right w.size_pos
      rw [hr, Nat.sub_zero] at h
      simp only [List.append_nil]
      refine ⟨hc.skipped h _ _, .fresh ?_ ((h.untouched _).mono hlt) rfl⟩
      refine hk.skip hms hlt (fun n h1 h2 => hread hw h1 ?_) _ _
      exact Nat.lt_of_lt_of_le h2 (hfinish ▸ w.fits)
  | stopped hp hv => exact ⟨by simpa using hc, .stopped⟩
  | @advanced w next bytes receiver hp hv hn =>
    rw [hp] at hk
    cases hk with
    | inHand hk hw h hr =>
      have hlt : w.address.toNat < next.address.toNat := Window.address_lt_of_next? hn
      have hstop : next.address.toNat < w.stop.toNat :=
        Window.stop_of_next? hn ▸ next.address_lt_stop
      have htries : Tries log next 0 := h.tries hlt
      simp only [Option.toList_some, queries_handOver, List.append_nil]
      refine ⟨hc, .due (hk.advance hms (Nat.le_of_lt hlt) fun n h1 h2 => ?_) (hw.next hn) ?_⟩
      · exact hread hw h1 (Nat.lt_trans h2 hstop)
      · simpa [hr] using htries
  | @left w bytes receiver hp hv hn =>
    rw [hp] at hk
    cases hk with
    | inHand hk hw h hr =>
      have hlt : w.address.toNat < w.stop.toNat := w.address_lt_stop
      simp only [Option.toList_some, queries_handOver, List.append_nil]
      refine ⟨hc, .fresh (hk.advance hms (Nat.le_of_lt hlt) fun n => hread hw) (h.mono hlt) ?_⟩
      simpa using hr
  | rested hp => simpa using ⟨hc, hk⟩

theorem keeping_after (hms : Mapping.Ascending ms) (hmaps : t.Maps ms) (hm : t.Shows m)
    (hiff : ∀ n, (m n).isSome ↔ Mapping.ReadableAt ms n) (ht : t.FailsWith m reason)
    (receive : Receiver β) (start : Address) (receiver : β) (s : σ) (n : Nat) :
    let c := after t none receive n (starting t g start receiver s)
    let log := queries (moves t none receive n (starting t g start receiver s))
    Counted reason log c.walker.softErrors ∧
      Keeping ms m start log c.walker.softErrors c.walker.retries c.walker.phase := by
  let P (moves : List Move) (d : Course g σ β) : Prop :=
    Counted reason (queries moves) d.walker.softErrors ∧
      Keeping ms m start (queries moves) d.walker.softErrors d.walker.retries d.walker.phase
  have h0 : P [] (starting t g start receiver s) :=
    ⟨counted_nil reason, .fresh (Mapping.keptTo_start hms start) (fun _ _ _ => rfl) rfl⟩
  refine moves_induction t none receive h0 ?_ n
  intro moves d move? d' ⟨hc, hk⟩ h
  simp only [P, queries_append]
  exact h.keeping hms hmaps hm hiff ht hc hk

end Course
end Walker

open Walker Walker.Course in
/-- A walk reports the unreadable mappings that an enumeration reports, and the reads that it gave
up, in the order of their addresses. -/
theorem walkGrid_softErrors {g : Grid} {σ β : Type} {t : Target σ} {ms : List Mapping} {m : Memory}
    {reason : String} (hms : Mapping.Ascending ms) (hmaps : t.Maps ms) (hm : t.Shows m)
    (hiff : ∀ n, (m n).isSome ↔ Mapping.ReadableAt ms n) (ht : t.FailsWith m reason)
    {receive : Receiver β} (hgo : ∀ b chunk, (receive b chunk).2 = .goOn) (start : Address)
    (receiver : β) (s : σ) :
    let errors := (walkGrid t g start none receive receiver s).1.outcome.softErrors
    Counted reason (walkGrid t.recorded g start none receive receiver (s, [])).1.state.2 errors ∧
      errors.filter (·.isUnreadable) = Mapping.crossed start ms ∧
      errors.Pairwise MemoryError.Precedes := by
  obtain ⟨n, -, result, hp⟩ := exists_finished t none receive (starting t g start receiver s)
  obtain ⟨hcounted, hkeeping⟩ :=
    keeping_after (g := g) hms hmaps hm hiff ht receive start receiver s n
  have hgoes := not_stopped_after t g none hgo start receiver s n
  rw [hp] at hkeeping hgoes
  rw [walkGrid_of_finished hp, walkGrid_recorded hp]
  cases hkeeping with
  | exhausted hcrossed hascending => exact ⟨hcounted, hcrossed, hascending⟩
  | stopped => exact absurd rfl hgoes

namespace SegmentedProcess

variable {p : SegmentedProcess}

def unreadable (p : SegmentedProcess) (start : Address) : List MemoryError :=
  (p.segments.filter fun s => !s.readable && decide (start < s.stop)).map fun s =>
    .unreadable s.start s.stop

/-- What a walk from `start` owes of soft errors, where the process was asked the queries `log`. -/
structure Accounts (p : SegmentedProcess) (start : Address) (log : List Query)
    (errors : List MemoryError) : Prop extends Counted "injected fault" log errors where
  unreadable : errors.filter (·.isUnreadable) = p.unreadable start
  ascending : errors.Pairwise MemoryError.Precedes

theorem crossed_mappings (hp : p.Fits) (start : Address) :
    Mapping.crossed start (p.segments.map Segment.mapping) = p.unreadable start := by
  rw [Mapping.crossed, List.filter_map, List.map_map]
  refine congrArg (List.map _) (List.filter_congr fun s hs => ?_)
  have hlt : s.mapping.start < s.mapping.stop := by
    have hlen := List.length_pos_iff.2 (p.nonempty s hs)
    have hstop := Segment.toNat_stop (hp s hs)
    simp only [Segment.mapping, Address.lt_def]
    omega
  have hreaches : s.mapping.Reaches start ↔ start < s.stop := and_iff_left hlt
  exact congrArg (!s.readable && ·) (decide_eq_decide.2 hreaches)

theorem failsWith (hp : p.Fits) (choose : Nat → Nat) :
    (p.targetChoosing choose).FailsWith p.memory "injected fault" := by
  intro a n w hread
  rcases Nat.eq_zero_or_pos (Fault.weight a.toNat (a.advance n).toNat w.faults) with hzero | hpos
  · obtain ⟨bytes, -, heq⟩ := read_of_clear hp choose hread hzero
    exact .inl ⟨bytes, _, heq⟩
  · obtain ⟨w', heq, -⟩ := read_of_pending p choose hpos
    exact .inr ⟨w', heq⟩

/-- The soft errors of a walk are those that an enumeration of the regions reports, and one for each
window of which all attempts to read it failed. Each begins below the next. -/
theorem walk_softErrors (hp : p.Fits) (choose : Nat → Nat) (start : Address) {size : Nat}
    (hsize : 0 < size) {β : Type} {receive : Receiver β}
    (hgo : ∀ b chunk, (receive b chunk).2 = .goOn) (receiver : β) (w : Wear) :
    let t := p.targetChoosing choose
    let side := walk t start size receive receiver w
    let half := walkSliding t start size receive receiver w
    (readableRegions t start w).outcome.softErrors = p.unreadable start ∧
      p.Accounts start (walk t.recorded start size receive receiver (w, [])).1.state.2
        side.1.outcome.softErrors ∧
      p.Accounts start (walkSliding t.recorded start size receive receiver (w, [])).1.state.2
        half.1.outcome.softErrors := by
  intro t side half
  have hmaps : t.Maps (p.segments.map Segment.mapping) := fun a _ => p.lookup_eq a
  have hcrossed := crossed_mappings hp start
  have hgrid (g : Grid) := walkGrid_softErrors (g := g) p.mappings_ascending hmaps
    (shows hp choose) (fun _ => memory_isSome_iff hp) (failsWith hp choose) hgo start receiver w
  have haccounts (g : Grid) : p.Accounts start
      (walkGrid t.recorded g start none receive receiver (w, [])).1.state.2
      (walkGrid t g start none receive receiver w).1.outcome.softErrors := by
    obtain ⟨hcounted, hunreadable, hascending⟩ := hgrid g
    exact ⟨hcounted, hunreadable.trans hcrossed, hascending⟩
  refine ⟨?_, ?_, ?_⟩
  · obtain ⟨regions, -, -, heq⟩ :=
      Enumeration.collect_separates p.mappings_ascending hmaps start [] w [] []
    rw [readableRegions, Enumeration.startingAt, heq]
    exact hcrossed
  · simp only [side, walk, dif_pos hsize]
    exact haccounts _
  · simp only [half, walkSliding, dif_pos hsize]
    exact haccounts _

/-- The walk starts inside an unreadable segment, loses the end of the run above it, and crosses one
more. -/
theorem walk_softErrors_between :
    let p : SegmentedProcess :=
      ⟨1, [⟨0x0C, [0, 0], false⟩, ⟨0x10, [1, 2, 3], true⟩, ⟨0x14, [0], false⟩], by decide,
        by decide⟩
    let t := p.targetChoosing fun _ => 0
    let w : Wear := { faults := [⟨0x12, .always⟩] }
    p.Fits ∧ 0 < 2 ∧ (∀ b chunk, (keepAll b chunk).2 = .goOn) ∧
      p.unreadable 0x0D = [.unreadable 0x0C 0x0E, .unreadable 0x14 0x15] ∧
      p.Accounts 0x0D (walk t.recorded 0x0D 2 keepAll [] (w, [])).1.state.2
        (walk t 0x0D 2 keepAll [] w).1.outcome.softErrors := by
  intro p t w
  have hp : p.Fits := by decide
  obtain ⟨-, hside, -⟩ :=
    walk_softErrors hp (fun _ => 0) 0x0D (by decide : 0 < 2) keepAll_goOn [] w
  exact ⟨hp, by decide, keepAll_goOn, by decide, hside⟩

end SegmentedProcess
end ProcessMemory
