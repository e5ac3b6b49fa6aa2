import ProcessMemory.Proofs.Walk.Faults
import ProcessMemory.Proofs.Walk.Transient

/-!
# The plan of a walk under faults

What comes of the windows of a span is settled by the memory and the weight of the faults alone
(`visits`): a window whose faults outlast the attempts is lost, and the walk goes on past it; any
other is shown. A walker that stands somewhere in the span (`Ahead`) carries the visits still to
come out one by one, whatever limit it has and whatever others do to the faults beside its span.
-/
namespace ProcessMemory

/-- What comes of a window: its chunk, or the error of the read that was given up. -/
abbrev Visit := Except MemoryError Chunk

def shownOf (visits : List Visit) : List Chunk := visits.filterMap Except.toOption

def Visit.loss? : Visit → Option MemoryError
  | .ok _ => none
  | .error error => some error

def lossesOf (visits : List Visit) : List MemoryError := visits.filterMap Visit.loss?

theorem shownOf_append (visits rest : List Visit) :
    shownOf (visits ++ rest) = shownOf visits ++ shownOf rest := List.filterMap_append

theorem lossesOf_append (visits rest : List Visit) :
    lossesOf (visits ++ rest) = lossesOf visits ++ lossesOf rest := List.filterMap_append

theorem shownOf_shown (chunk : Chunk) (rest : List Visit) :
    shownOf (.ok chunk :: rest) = chunk :: shownOf rest := rfl

theorem shownOf_lost (losses : List MemoryError) : shownOf (losses.map .error) = [] := by
  induction losses with
  | nil => rfl
  | cons error losses ih => exact ih

theorem lossesOf_lost (losses : List MemoryError) : lossesOf (losses.map .error) = losses := by
  induction losses with
  | nil => rfl
  | cons error losses ih => exact congrArg (error :: ·) ih

namespace Window

variable {g : Grid} {m : Memory} {w following : Window g}

def afterLoss? (w : Window g) : Option (Window g) :=
  if h : w.address.advance w.size < w.stop then some (first g (w.address.advance w.size) w.stop h)
  else none

theorem finish_le_stop (w : Window g) : w.finish ≤ w.stop.toNat := w.fits

theorem address_lt_finish (w : Window g) : w.address.toNat < w.finish :=
  Nat.lt_add_of_pos_right w.size_pos

theorem finish_lt_of_next? (h : w.next? = some following) : w.finish < following.finish := by
  have hlt : w.address.toNat < following.address.toNat := address_lt_of_next? h
  have hsize := size_eq_of_next? h
  have hsize' := (follows_of_next? h).size_eq
  unfold finish
  omega

theorem afterLoss?_eq_some (h : w.afterLoss? = some following) :
    following.address = w.address.advance w.size ∧ following.stop = w.stop := by
  unfold afterLoss? at h
  split at h
  · cases h
    exact ⟨rfl, rfl⟩
  · cases h

theorem finish_lt_of_afterLoss? (h : w.afterLoss? = some following) :
    w.finish < following.finish := by
  rw [← toNat_advance_size w, ← (afterLoss?_eq_some h).1]
  exact following.address_lt_finish

theorem afterLoss?_eq_none (h : w.afterLoss? = none) : w.address.advance w.size = w.stop := by
  unfold afterLoss? at h
  split at h
  · cases h
  · rename_i hge
    have hle := w.finish_le_stop
    rw [Address.lt_def, toNat_advance_size] at hge
    exact Address.ext (by rw [toNat_advance_size]; omega)

/-- The window lies in a run of readable bytes that goes on to `stop`, at or above `low`. -/
structure Placed (m : Memory) (low : Nat) (stop : Address) (w : Window g) : Prop where
  low_le : low ≤ w.address.toNat
  stop_eq : w.stop = stop
  lies : w.Lies m none

namespace Placed

variable {low : Nat} {stop : Address}

theorem address_lt (h : w.Placed m low stop) : w.address < stop := h.stop_eq ▸ w.address_lt_stop

theorem finish_le (h : w.Placed m low stop) : w.finish ≤ stop.toNat := h.stop_eq ▸ w.finish_le_stop

theorem next (h : w.Placed m low stop) (hn : w.next? = some following) :
    following.Placed m low stop where
  low_le := Nat.le_trans h.low_le (Nat.le_of_lt (address_lt_of_next? hn))
  stop_eq := (stop_of_next? hn).trans h.stop_eq
  lies := h.lies.next hn

theorem afterLoss (h : w.Placed m low stop) (hn : w.afterLoss? = some following) :
    following.Placed m low stop := by
  obtain ⟨haddress, hstop⟩ := afterLoss?_eq_some hn
  have hle : w.address.toNat ≤ following.address.toNat := by
    rw [haddress, toNat_advance_size]
    exact Nat.le_of_lt w.address_lt_finish
  refine ⟨Nat.le_trans h.low_le hle, hstop.trans h.stop_eq, fun n h1 h2 => ?_, ?_⟩
  · rw [hstop] at h2
    exact h.lies.readable n (Nat.le_trans hle h1) h2
  · rw [hstop]
    exact .inl h.lies.ends

end Placed
end Window

namespace SegmentedProcess

variable {g : Grid}

def shown (p : SegmentedProcess) (w : Window g) : Chunk :=
  ⟨w.address, (p.bytes? w.address w.size).getD []⟩

def lost (w : Window g) : MemoryError := .readFailed w.address w.size "injected fault"

/-- What comes of the windows from `w` on, where `retries` more attempts are left for `w` and no
faults below `lo`. -/
def visits (p : SegmentedProcess) (faults : List Fault) (retries lo : Nat) (w : Window g) :
    List Visit :=
  if retries < Fault.weight lo w.finish faults then
    match _h : w.afterLoss? with
    | some next => .error (lost w) :: visits p faults maxRetries w.finish next
    | none => [.error (lost w)]
  else
    match _h : w.next? with
    | some next => .ok (p.shown w) :: visits p faults maxRetries w.finish next
    | none => [.ok (p.shown w)]
termination_by w.stop.toNat - w.address.toNat
decreasing_by
  · obtain ⟨haddress, hstop⟩ := Window.afterLoss?_eq_some _h
    have hnext := next.address_lt_stop
    have hlt := w.address_lt_finish
    rw [Address.lt_def, hstop, haddress, Window.toNat_advance_size] at hnext
    rw [hstop, haddress, Window.toNat_advance_size]
    omega
  · have hlt := Window.address_lt_of_next? _h
    have hnext := next.address_lt_stop
    rw [Window.stop_of_next? _h, Address.lt_def] at hnext
    rw [Address.lt_def] at hlt
    rw [Window.stop_of_next? _h]
    omega

def visitsFrom (p : SegmentedProcess) (faults : List Fault) (lo : Nat) :
    Option (Window g) → List Visit
  | some w => p.visits faults maxRetries lo w
  | none => []

variable {p : SegmentedProcess} {faults faults' : List Fault} {retries lo : Nat} {w : Window g}

theorem visits_lost (h : retries < Fault.weight lo w.finish faults) :
    p.visits faults retries lo w =
      .error (lost w) :: p.visitsFrom faults w.finish w.afterLoss? := by
  rw [visits, if_pos h]
  split
  · rename_i next hn
    rw [hn, visitsFrom]
  · rename_i hn
    rw [hn, visitsFrom]

theorem visits_shown (h : ¬retries < Fault.weight lo w.finish faults) :
    p.visits faults retries lo w = .ok (p.shown w) :: p.visitsFrom faults w.finish w.next? := by
  rw [visits, if_neg h]
  split
  · rename_i next hn
    rw [hn, visitsFrom]
  · rename_i hn
    rw [hn, visitsFrom]

/-- The chunk of a window holds what memory holds there. -/
theorem shown_eq {bytes : List UInt8} (hp : p.Fits) (h : p.memory.Holds w.address.toNat bytes)
    (hlen : bytes.length = w.size) : p.shown w = ⟨w.address, bytes⟩ := by
  obtain ⟨read, hread⟩ := gather_ok hp (hlen ▸ h.readable)
  have hholds := gather_spec hp w.address w.size
  rw [hread] at hholds
  have hsame : bytes.length = read.val.length := hlen.trans read.property.symm
  have hpre : bytes <+: read.val.drop 0 := (hholds.prefix_iff (by omega)).2 h
  rw [shown, bytes?, hread, hpre.eq_of_length hsame]
  rfl

/-- What comes of a span depends only on the faults in it. -/
theorem visits_congr {low : Nat} (h : Fault.SameBetween low w.stop.toNat faults faults')
    (hlo : low ≤ lo) (hfinish : low ≤ w.finish) (retries : Nat) :
    p.visits faults' retries lo w = p.visits faults retries lo w := by
  have hweight {lo : Nat} {w : Window g} (h : Fault.SameBetween low w.stop.toNat faults faults')
      (hlo : low ≤ lo) : Fault.weight lo w.finish faults' = Fault.weight lo w.finish faults :=
    h lo w.finish hlo w.finish_le_stop
  fun_induction visits p faults retries lo w with
  | case1 retries lo w hlost following hn ih =>
    have hlt := Window.finish_lt_of_afterLoss? hn
    rw [visits_lost (by rwa [hweight h hlo]), hn, visitsFrom,
      ih ((Window.afterLoss?_eq_some hn).2 ▸ h) hfinish (by omega)]
  | case2 retries lo w hlost hn => rw [visits_lost (by rwa [hweight h hlo]), hn, visitsFrom]
  | case3 retries lo w hshown following hn ih =>
    have hlt := Window.finish_lt_of_next? hn
    rw [visits_shown (by rwa [hweight h hlo]), hn, visitsFrom,
      ih (Window.stop_of_next? hn ▸ h) hfinish (by omega)]
  | case4 retries lo w hshown hn => rw [visits_shown (by rwa [hweight h hlo]), hn, visitsFrom]

theorem visitsFrom_next_congr (h : Fault.SameBetween w.finish w.stop.toNat faults faults') :
    p.visitsFrom faults' w.finish w.next? = p.visitsFrom faults w.finish w.next? := by
  cases hn : w.next? with
  | none => rfl
  | some following =>
    exact visits_congr (Window.stop_of_next? hn ▸ h) (Nat.le_refl _)
      (Nat.le_of_lt (Window.finish_lt_of_next? hn)) _

theorem visitsFrom_afterLoss_congr (h : Fault.SameBetween w.finish w.stop.toNat faults faults') :
    p.visitsFrom faults' w.finish w.afterLoss? = p.visitsFrom faults w.finish w.afterLoss? := by
  cases hn : w.afterLoss? with
  | none => rfl
  | some following =>
    exact visits_congr ((Window.afterLoss?_eq_some hn).2 ▸ h) (Nat.le_refl _)
      (Nat.le_of_lt (Window.finish_lt_of_afterLoss? hn)) _

/-- A fault that strikes costs an attempt, and what comes of the windows stays the same. -/
theorem visits_struck (h : Fault.Strikes w.address.toNat w.finish faults faults')
    (hclear : Fault.weight w.address.toNat lo faults = 0) (hr : retries < maxRetries) :
    p.visits faults' retries lo w = p.visits faults (retries + 1) lo w := by
  have hiff := h.outlasts_iff hclear hr
  have hsame : Fault.SameBetween w.finish w.stop.toNat faults faults' :=
    h.beside.between (.inr (Nat.le_refl _))
  by_cases hlost : retries + 1 < Fault.weight lo w.finish faults
  · rw [visits_lost hlost, visits_lost (hiff.2 hlost), visitsFrom_afterLoss_congr hsame]
  · rw [visits_shown hlost, visits_shown fun hlt => hlost (hiff.1 hlt),
      visitsFrom_next_congr hsame]

end SegmentedProcess

namespace Walker

variable {g : Grid} {p : SegmentedProcess} {low : Nat} {stop : Address}
  {faults faults' : List Fault} {walker : Walker g} {visits : List Visit} {w : Window g}

/-- A read that fails gives the window up where no attempt is left. -/
theorem fetch_lost {σ : Type} (walker : Walker g) {t : Target σ} {error : MemoryError} {s s' : σ}
    (hq : t.read w.address w.size s = (.fail error, s')) (hr : walker.retries = 0) :
    let fetched := walker.fetch t w s
    fetched.1.phase = .seeking (w.address.advance w.size) ∧
      fetched.1.softErrors = walker.softErrors ++ [error] ∧
      fetched.1.retries = maxRetries ∧ fetched.2.1 = s' := by
  simp [fetch, hq, Outcome.fail, recover, hr]

/-- A walker between `low` and `stop` has `visits` still to come there. -/
inductive Ahead (p : SegmentedProcess) (low : Nat) (stop : Address) (faults : List Fault)
    (walker : Walker g) : List Visit → Prop where
  /-- A window is due. It may have to be looked up once more, and the faults that it shares with the
  one before are worn out. -/
  | due {w : Window g} {lo : Nat}
    (hp : walker.phase = .reading w ∨ walker.phase = .seeking w.address)
    (hw : w.Placed p.memory low stop) (hlo : w.address.toNat ≤ lo) (hle : lo ≤ w.finish)
    (hclear : Fault.weight w.address.toNat lo faults = 0) :
    Ahead p low stop faults walker (p.visits faults walker.retries lo w)
  | inHand {w : Window g} {bytes : Bytes w.size} (hp : walker.phase = .delivering w bytes)
    (hw : w.Placed p.memory low stop) (hr : walker.retries = maxRetries)
    (hclear : Fault.weight w.address.toNat w.finish faults = 0)
    (hbytes : p.shown w = ⟨w.address, bytes.val⟩) :
    Ahead p low stop faults walker
      (.ok ⟨w.address, bytes.val⟩ :: p.visitsFrom faults w.finish w.next?)
  | past (hp : walker.phase = .seeking stop) (hr : walker.retries = maxRetries) :
    Ahead p low stop faults walker []

namespace Ahead

theorem congr (h : Ahead p low stop faults walker visits)
    (hsame : Fault.SameBetween low stop.toNat faults faults') :
    Ahead p low stop faults' walker visits := by
  cases h with
  | @due w lo hp hw hlo hle hclear =>
    have hfinish := hw.finish_le
    have hlow := hw.low_le
    have hclear' := hsame _ lo hlow (Nat.le_trans hle hfinish)
    rw [← SegmentedProcess.visits_congr (hw.stop_eq ▸ hsame) (Nat.le_trans hlow hlo)
      (Nat.le_trans hlow (Nat.le_of_lt w.address_lt_finish))]
    exact .due hp hw hlo hle (hclear'.trans hclear)
  | @inHand w bytes hp hw hr hclear hbytes =>
    have hlow : low ≤ w.finish := Nat.le_trans hw.low_le (Nat.le_of_lt w.address_lt_finish)
    have hclear' := hsame _ w.finish hw.low_le hw.finish_le
    rw [← SegmentedProcess.visitsFrom_next_congr
      (hw.stop_eq ▸ hsame.mono hlow (Nat.le_refl _))]
    exact .inHand hp hw hr (hclear'.trans hclear) hbytes
  | past hp hr => exact .past hp hr

theorem not_finished {result : Except MemoryError Ending}
    (h : Ahead p low stop faults walker visits) : walker.phase ≠ .finished result := by
  intro hp
  cases h with
  | due hp' => rcases hp' with hp' | hp' <;> cases hp.symm.trans hp'
  | inHand hp' => cases hp.symm.trans hp'
  | past hp' => cases hp.symm.trans hp'

/-- A walker at the stop of its span has nothing left to visit there. -/
theorem eq_nil_of_seeking (h : Ahead p low stop faults walker visits)
    (hp : walker.phase = .seeking stop) : visits = [] ∧ walker.retries = maxRetries := by
  cases h with
  | past _ hr => exact ⟨rfl, hr⟩
  | inHand hp' => cases hp.symm.trans hp'
  | due hp' hw =>
    have hlt := hw.address_lt
    rcases hp' with hp' | hp'
    · cases hp.symm.trans hp'
    · cases hp.symm.trans hp'
      exact absurd hlt (Nat.lt_irrefl _)

/-- A window that follows is due. -/
theorem following {following : Window g} {lo : Nat}
    (hp : walker.phase = .reading following ∨ walker.phase = .seeking following.address)
    (hw : following.Placed p.memory low stop) (hr : walker.retries = maxRetries)
    (hlo : following.address.toNat ≤ lo) (hle : lo ≤ following.finish)
    (hclear : Fault.weight following.address.toNat lo faults = 0) :
    Ahead p low stop faults walker (p.visitsFrom faults lo (some following)) := by
  rw [SegmentedProcess.visitsFrom, ← hr]
  exact .due hp hw hlo hle hclear

/-- The chunk in hand is the next visit, and once it is handed over the others are still to come. -/
theorem proceed {bytes : Bytes w.size} (h : Ahead p low stop faults walker visits)
    (hp : walker.phase = .delivering w bytes) :
    ∃ rest, visits = .ok ⟨w.address, bytes.val⟩ :: rest ∧
      Ahead p low stop faults (walker.proceed w .goOn) rest := by
  cases h with
  | due hp' => rcases hp' with hp' | hp' <;> cases hp.symm.trans hp'
  | past hp' => cases hp.symm.trans hp'
  | inHand hp' hw hr hclear hbytes =>
    cases hp.symm.trans hp'
    refine ⟨_, rfl, ?_⟩
    cases hn : w.next? with
    | none =>
      refine .past ?_ ((proceed_retries _ _ _).trans hr)
      simp only [Walker.proceed, hn, enter_phase, hw.stop_eq]
    | some following =>
      have hlt : w.address.toNat < following.address.toNat := Window.address_lt_of_next? hn
      refine .following (.inl ?_) (hw.next hn) ((proceed_retries _ _ _).trans hr) ?_ ?_ ?_
      · simp only [Walker.proceed, hn, enter_phase]
      · have hle := Window.address_le_of_next? hn
        have hsize := Window.size_eq_of_next? hn
        have hstride := g.stride_le
        unfold Window.finish
        omega
      · exact Nat.le_of_lt (Window.finish_lt_of_next? hn)
      · have hmono := Fault.weight_mono (Nat.le_of_lt hlt) (Nat.le_refl w.finish) faults
        omega

/-- What a query does to a walker on its way: some windows are given up, and the visits that are
left are still to come. -/
structure Advances (p : SegmentedProcess) (low : Nat) (stop : Address) (faults : List Fault)
    (walker : Walker g) (visits : List Visit) (faults' : List Fault) (walker' : Walker g)
    (losses : List MemoryError) (rest : List Visit) : Prop where
  split : visits = losses.map .error ++ rest
  softErrors : walker'.softErrors = walker.softErrors ++ losses
  ahead : Ahead p low stop faults' walker' rest
  beside : Fault.SameBeside low stop.toNat faults faults'

section
open SegmentedProcess Course

variable {s : Wear} {lo : Nat} {limit : Option Address}

/-- A window without pending faults is read. -/
theorem fetched (hp : p.Fits) (choose : Nat → Nat) (hw : w.Placed p.memory low stop)
    (hlo : w.address.toNat ≤ lo) (hclear : Fault.weight w.address.toNat w.finish s.faults = 0) :
    let fetched := walker.fetch (p.targetChoosing choose) w s
    Advances p low stop s.faults walker (p.visits s.faults walker.retries lo w)
      fetched.2.1.faults fetched.1 [] (p.visits s.faults walker.retries lo w) := by
  obtain ⟨bytes, hbytes, hq⟩ :=
    read_of_clear hp choose hw.lies.readable_size (by rwa [Window.toNat_advance_size])
  obtain ⟨hphase, hsoft, hretries, hstate⟩ := fetch_ok (w := walker) hq
  have hshown : p.shown w = ⟨w.address, bytes.val⟩ := by
    rw [shown, hbytes]
    rfl
  have hmono := Fault.weight_mono hlo (Nat.le_refl w.finish) s.faults
  refine ⟨rfl, by simpa using hsoft, ?_, ?_⟩
  · rw [visits_shown (by omega), hshown]
    simp only [hstate]
    exact .inHand hphase hw hretries hclear hshown
  · simp only [hstate]
    exact .refl _ _ _

/-- A read that fails costs a walker an attempt. -/
theorem retried {t : Target Wear} {error : MemoryError} {s' : Wear} {retries : Nat}
    (hq : t.read w.address w.size s = (.fail error, s'))
    (hstrikes : Fault.Strikes w.address.toNat w.finish s.faults s'.faults)
    (hw : w.Placed p.memory low stop) (hlo : w.address.toNat ≤ lo) (hle : lo ≤ w.finish)
    (hclear : Fault.weight w.address.toNat lo s.faults = 0) (hr : walker.retries = retries + 1) :
    let fetched := walker.fetch t w s
    Advances p low stop s.faults walker (p.visits s.faults walker.retries lo w)
      fetched.2.1.faults fetched.1 [] (p.visits s'.faults retries lo w) := by
  obtain ⟨hphase, hsoft, hretries, hstate⟩ := fetch_failed (w := walker) hq (by omega)
  rw [hr, Nat.add_sub_cancel] at hretries
  have hmax := walker.retries_le
  refine ⟨?_, ?_, ?_, ?_⟩
  · rw [hr]
    exact (visits_struck hstrikes hclear (by omega)).symm
  · rw [hsoft, List.append_nil]
  · simp only [hstate]
    rw [← hretries]
    have hclear' := hstrikes.weight_le w.address.toNat lo
    exact .due (.inr hphase) hw hlo hle (by omega)
  · simp only [hstate]
    exact hstrikes.beside.mono hw.low_le hw.finish_le

/-- A read that fails at the last attempt costs the window. -/
theorem lost_last {t : Target Wear} {s' : Wear}
    (hq : t.read w.address w.size s = (.fail (lost w), s'))
    (hstrikes : Fault.Strikes w.address.toNat w.finish s.faults s'.faults)
    (hw : w.Placed p.memory low stop)
    (hclear : Fault.weight w.address.toNat lo s.faults = 0)
    (hpending : 0 < Fault.weight w.address.toNat w.finish s.faults) (hr : walker.retries = 0) :
    let fetched := walker.fetch t w s
    Advances p low stop s.faults walker (p.visits s.faults walker.retries lo w)
      fetched.2.1.faults fetched.1 [lost w]
      (p.visitsFrom s'.faults w.finish w.afterLoss?) := by
  obtain ⟨hphase, hsoft, hretries, hstate⟩ := fetch_lost walker hq hr
  have hadd := Fault.weight_le_add w.address.toNat lo w.finish s.faults
  refine ⟨?_, hsoft, ?_, ?_⟩
  · rw [visits_lost (by omega), visitsFrom_afterLoss_congr
      (hstrikes.beside.between (.inr (Nat.le_refl _)))]
    rfl
  · simp only [hstate]
    cases hn : w.afterLoss? with
    | none =>
      refine .past ?_ hretries
      rw [hphase, Window.afterLoss?_eq_none hn, hw.stop_eq]
    | some following =>
      obtain ⟨haddress, -⟩ := Window.afterLoss?_eq_some hn
      have hstart : following.address.toNat = w.finish := by
        rw [haddress, Window.toNat_advance_size]
      refine .following (.inr (haddress ▸ hphase)) (hw.afterLoss hn) hretries ?_ ?_ ?_
      · omega
      · exact Nat.le_of_lt (Window.finish_lt_of_afterLoss? hn)
      · rw [hstart]
        exact Fault.weight_self _ _
  · simp only [hstate]
    exact hstrikes.beside.mono hw.low_le hw.finish_le

/-- Pending faults cost a walker an attempt, or the window where none is left. -/
theorem failed (choose : Nat → Nat) (hw : w.Placed p.memory low stop)
    (hlo : w.address.toNat ≤ lo) (hle : lo ≤ w.finish)
    (hclear : Fault.weight w.address.toNat lo s.faults = 0)
    (hpending : 0 < Fault.weight w.address.toNat w.finish s.faults) :
    let fetched := walker.fetch (p.targetChoosing choose) w s
    ∃ losses rest, Advances p low stop s.faults walker (p.visits s.faults walker.retries lo w)
      fetched.2.1.faults fetched.1 losses rest := by
  have hfinish := w.toNat_advance_size
  obtain ⟨s', hq, hstrikes⟩ := read_of_pending p choose (hfinish ▸ hpending)
  rw [hfinish] at hstrikes
  cases hr : walker.retries with
  | succ retries => exact ⟨_, _, hr ▸ retried hq hstrikes hw hlo hle hclear hr⟩
  | zero => exact ⟨_, _, hr ▸ lost_last hq hstrikes hw hclear hpending hr⟩

/-- A walker on its way through a span asks the next query. -/
theorem ask (hp : p.Fits) (choose : Nat → Nat) (hlimit : ∀ l ∈ limit, l = stop)
    (h : Ahead p low stop s.faults walker visits) (hask : walker.isAsking)
    (hne : walker.phase ≠ .seeking stop) :
    let asked := walker.ask (p.targetChoosing choose) limit s
    ∃ losses rest, Advances p low stop s.faults walker visits asked.2.1.faults asked.1 losses
      rest := by
  cases h with
  | past hphase => exact absurd hphase hne
  | inHand hphase => simp [isAsking, hphase] at hask
  | @due w lo hphase hw hlo hle hclear =>
    rcases hphase with hphase | hphase
    · have heq : walker.ask (p.targetChoosing choose) limit s =
          walker.fetch (p.targetChoosing choose) w s := by simp only [Walker.ask, hphase]
      simp only [heq]
      rcases Nat.eq_zero_or_pos (Fault.weight w.address.toNat w.finish s.faults) with hzero | hpos
      · exact ⟨[], _, fetched hp choose hw hlo hzero⟩
      · exact failed choose hw hlo hle hclear hpos
    · have heq : walker.ask (p.targetChoosing choose) limit s =
          walker.seek (p.targetChoosing choose) limit w.address s := by
        simp only [Walker.ask, hphase]
      have hback : ∀ l ∈ limit, l = w.stop := hw.stop_eq ▸ hlimit
      obtain ⟨hphase', hsoft, hretries⟩ := seek_back (fun a s => (shows hp choose).lookup a s)
        (steady hp choose) hw.lies hback walker s
      have hstate := seek_state (steady hp choose) limit walker w.address s
      simp only [heq]
      refine ⟨[], p.visits s.faults walker.retries lo w, rfl, by simpa using hsoft, ?_, ?_⟩
      · rw [hstate, ← hretries]
        exact .due (.inl hphase') hw hlo hle hclear
      · rw [hstate]
        exact .refl _ _ _

end

end Ahead
end Walker
end ProcessMemory
