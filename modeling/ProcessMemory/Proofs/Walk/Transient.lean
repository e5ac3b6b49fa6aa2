import ProcessMemory.Proofs.Lookup
import ProcessMemory.Proofs.Segmented
import ProcessMemory.Proofs.Walk.Reliable

/-!
# Failures that pass

Where no more reads fail in a row than a walk can try again, nobody can tell that any failed. The
walk with failures trails the one without (`Trails`): it is in the same place, or has gone back to
look up the region of the window that the other one reads, and will find that window again.
-/
namespace ProcessMemory

abbrev Failures := Nat → Option (Address → Nat → MemoryError)

/-- Of any `maxRetries + 1` reads in a row, one does not fail. -/
def Failures.Pass (fails : Failures) : Prop := ∀ k, ∃ j ≤ maxRetries, fails (k + j) = none

namespace Target

variable {σ : Type}

def interrupted (t : Target σ) (fails : Failures) : Target (σ × Nat) where
  pid := t.pid
  lookup address s :=
    let (answer, s') := t.lookup address s.1
    (answer, s', s.2)
  read address size s :=
    match fails s.2 with
    | some error => (.fail (error address size), s.1, s.2 + 1)
    | none =>
      let (answer, s') := t.read address size s.1
      (answer, s', s.2 + 1)

/-- Lookups leave the target as it is, and cross nothing at a byte that can be read. -/
structure Steady (t : Target σ) (m : Memory) : Prop where
  state : ∀ a s, (t.lookup a s).2 = s
  quiet : ∀ a s, (m a.toNat).isSome → (t.lookup a s).1.softErrors = []

theorem Steady.interrupted {t : Target σ} {m : Memory} (h : t.Steady m) (fails : Failures) :
    (t.interrupted fails).Steady m where
  state a s := Prod.ext (h.state a s.1) rfl
  quiet a s := h.quiet a s.1

end Target

section
variable {g : Grid} {m : Memory} {window : Window g} {region : Region}

/-- A lookup at a window's own address finds where the window's span stops. -/
theorem Window.Lies.next_eq (hw : window.Lies m none) (hr : m.Next window.address region) :
    region.start ≤ window.address ∧ region.stop = window.stop := by
  have hlt : window.address.toNat < window.stop.toNat := window.address_lt_stop
  have hreaches : window.address.toNat < region.stop.toNat := hr.reaches
  have hstart : region.start.toNat ≤ window.address.toNat :=
    hr.start_le (hw.readable _ (Nat.le_refl _) hlt)
  refine ⟨hstart, Address.ext ?_⟩
  exact Memory.end_unique (fun n ha hn => hr.readable n (Nat.le_trans hstart ha) hn) hr.ends
    (Nat.le_of_lt hreaches) hw.readable hw.ends (Nat.le_of_lt hlt)

/-- A window lies below where its span stops. -/
theorem Window.any_le_eq_false (w : Window g) {limit : Option Address}
    (h : ∀ l ∈ limit, l = w.stop) : limit.any (· ≤ w.address) = false := by
  cases limit with
  | none => rfl
  | some l =>
    rw [Option.any_some, h l rfl]
    exact decide_eq_false (Nat.not_le.2 w.address_lt_stop)

/-- A window is the first one of its span from its own address on. -/
theorem Window.first_eq (w : Window g) : Window.first g w.address w.stop w.address_lt_stop = w := by
  have hle := w.size_le
  have hfits := w.fits
  have hshort := w.short
  refine Window.ext rfl ?_ rfl
  simp only [Window.first, Address.distanceTo]
  omega

end

namespace Walker

variable {g : Grid} {σ β : Type}

/-- The window at hand lies in readable memory, up to its end. -/
def Anchored (m : Memory) : Phase g → Prop
  | .reading window => window.Lies m none
  | .delivering window _ => window.Lies m none
  | _ => True

/-- The second phase is the first, or has gone back to look up the region once more. -/
inductive Retraces (m : Memory) : Phase g → Phase g → Prop where
  | same {phase : Phase g} (h : Anchored m phase) : Retraces m phase phase
  | back {window : Window g} (h : window.Lies m none) :
    Retraces m (.reading window) (.seeking window.address)

theorem Retraces.of_eq {m : Memory} {phase phase' : Phase g} (h : phase' = phase)
    (ha : Anchored m phase) : Retraces m phase phase' := by
  rw [h]
  exact .same ha

namespace Course

variable {t : Target σ} {m : Memory} {ok : σ → Prop} {receive : Receiver β}
  {fails : Failures} {c : Course g σ β} {d : Course g (σ × Nat) β}

/-- The course `d` on the target with failures trails the course `c` on the target itself, and has
attempts left up to a read that does not fail. -/
structure Trails (m : Memory) (ok : σ → Prop) (fails : Failures) (c : Course g σ β)
    (d : Course g (σ × Nat) β) : Prop where
  phase : Retraces m c.walker.phase d.walker.phase
  softErrors : d.walker.softErrors = c.walker.softErrors
  receiver : d.receiver = c.receiver
  state : d.state.1 = c.state
  ok : ok c.state
  spare : ∃ j ≤ d.walker.retries, fails (d.state.2 + j) = none

theorem Transition.anchored {d : Course g σ β} {move? : Option Move}
    (ht : Transition t none receive c move? d) (hm : t.Shows m)
    (h : Anchored m c.walker.phase) : Anchored m d.walker.phase := by
  cases ht with
  | @entered cursor region soft s events hp hl hq hc hspan =>
    have hf := hm.lookup cursor c.state
    rw [hq] at hf
    cases hf with
    | region hnext => exact lies_first none hnext hspan
  | @fetched window bytes soft s events hp hq =>
    rw [hp] at h
    exact h
  | @advanced window next bytes receiver hp hv hn =>
    rw [hp] at h
    exact Window.Lies.next h hn
  | rested hp => exact h
  | _ => exact trivial

theorem seek_state (ht : t.Steady m) (limit : Option Address) (w : Walker g) (cursor : Address)
    (s : σ) : (w.seek t limit cursor s).2.1 = s := by
  have hstate := ht.state cursor s
  simp only [seek]
  split
  · rfl
  · split
    · exact hstate
    · exact hstate
    · split
      · exact hstate
      · split <;> exact hstate

theorem fetch_ok {t : Target σ} {w : Walker g} {window : Window g} {bytes : Bytes window.size}
    {soft : List MemoryError} {s s' : σ}
    (hq : t.read window.address window.size s = (⟨.ok bytes, soft⟩, s')) :
    let fetched := w.fetch t window s
    fetched.1.phase = .delivering window bytes ∧ fetched.1.softErrors = w.softErrors ++ soft ∧
      fetched.1.retries = maxRetries ∧ fetched.2.1 = s' := by
  simp [fetch, hq]

/-- A read that fails costs an attempt, where one is left. -/
theorem fetch_failed {t : Target σ} {w : Walker g} {window : Window g} {error : MemoryError}
    {s s' : σ} (hq : t.read window.address window.size s = (.fail error, s'))
    (hr : 0 < w.retries) :
    let fetched := w.fetch t window s
    fetched.1.phase = .seeking window.address ∧ fetched.1.softErrors = w.softErrors ∧
      fetched.1.retries = w.retries - 1 ∧ fetched.2.1 = s' := by
  simp [fetch, hq, Outcome.fail, recover, hr]

/-- Failures have no part in a lookup. -/
theorem seek_interrupted (t : Target σ) (fails : Failures) {w w' : Walker g}
    (hsoft : w'.softErrors = w.softErrors) (cursor : Address) (s : σ × Nat) :
    let sought := w.seek t none cursor s.1
    let sought' := w'.seek (t.interrupted fails) none cursor s
    sought'.1.phase = sought.1.phase ∧ sought'.1.softErrors = sought.1.softErrors ∧
      sought'.1.retries = w'.retries := by
  rcases hq : t.lookup cursor s.1 with ⟨⟨result, soft⟩, s'⟩
  simp only [seek, Target.interrupted, hq, Option.any_none, Bool.false_eq_true, if_false]
  cases result with
  | error error => simp [hsoft]
  | ok found =>
    cases found with
    | none => simp [hsoft]
    | some region =>
      by_cases hc : region.stop ≤ cursor
      · simp [hc, hsoft, Target.misplaced]
      · by_cases h : max region.start cursor < spanStop none region <;> simp [hc, h, hsoft]

/-- A lookup from a window that lies in memory leads back to it, unless it fails. -/
theorem seek_found {limit : Option Address} {window : Window g} (hw : window.Lies m none)
    (hlimit : ∀ l ∈ limit, l = window.stop) {s : σ}
    (hfound : m.Found window.address (t.lookup window.address s).1.result) (w : Walker g) :
    let sought := w.seek t limit window.address s
    sought.1.phase = .reading window ∧
      sought.1.softErrors = w.softErrors ++ (t.lookup window.address s).1.softErrors ∧
      sought.1.retries = w.retries := by
  have hlt : window.address < window.stop := window.address_lt_stop
  have hpast : ¬window.stop ≤ window.address := Nat.not_le.2 hlt
  have hany := window.any_le_eq_false hlimit
  rcases hq : t.lookup window.address s with ⟨⟨result, soft⟩, s'⟩
  rw [hq] at hfound
  cases hfound with
  | nothing h =>
    have hread : (m window.address.toNat).isSome := hw.readable _ (Nat.le_refl _) hlt
    rw [h _ (Nat.le_refl _)] at hread
    cases hread
  | @region region h =>
    obtain ⟨hstart, hstop⟩ := hw.next_eq h
    have hmax : max region.start window.address = window.address := Address.ext (by
      rw [Address.toNat_max]
      exact Nat.max_eq_right hstart)
    have hspan : spanStop limit region = window.stop := by
      cases limit with
      | none => exact hstop
      | some l =>
        rw [spanStop, Option.elim_some, hlimit l rfl, hstop]
        exact if_pos (Nat.le_refl _)
    simp [seek, hq, hany, hstop, hpast, hmax, hspan, hlt, Window.first_eq]

/-- Where the target is steady, that lookup leaves no trace. -/
theorem seek_back (hfound : ∀ a s, m.Found a (t.lookup a s).1.result) (ht : t.Steady m)
    {limit : Option Address} {window : Window g} (hw : window.Lies m none)
    (hlimit : ∀ l ∈ limit, l = window.stop) (w : Walker g) (s : σ) :
    let sought := w.seek t limit window.address s
    sought.1.phase = .reading window ∧ sought.1.softErrors = w.softErrors ∧
      sought.1.retries = w.retries := by
  obtain ⟨hphase, hsoft, hretries⟩ := seek_found hw hlimit (hfound window.address s) w
  rw [ht.quiet _ s (hw.readable _ (Nat.le_refl _) window.address_lt_stop),
    List.append_nil] at hsoft
  exact ⟨hphase, hsoft, hretries⟩

section
variable (h : Trails m ok fails c d) (hm : t.Shows m) (ht : t.Steady m)
include h hm ht

theorem Trails.seeking {cursor : Address} (hp : c.walker.phase = .seeking cursor)
    (hp' : d.walker.phase = .seeking cursor) :
    Trails m ok fails (c.step t none receive) (d.step (t.interrupted fails) none receive) := by
  have hanchored : Anchored m (c.step t none receive).walker.phase :=
    (transition c).anchored hm (by rw [hp]; trivial)
  obtain ⟨hphase, hsoft, hretries⟩ := seek_interrupted t fails h.softErrors cursor d.state
  have hstate := seek_state ht none c.walker cursor c.state
  have hstate' := seek_state (ht.interrupted fails) none d.walker cursor d.state
  rw [h.state] at hphase hsoft
  rw [step_seeking hp] at hanchored ⊢
  rw [step_seeking hp']
  refine ⟨.of_eq hphase hanchored, hsoft, h.receiver, ?_, ?_, ?_⟩
  · exact (congrArg Prod.fst hstate').trans (h.state.trans hstate.symm)
  · simp only [hstate]
    exact h.ok
  · simp only [hretries, hstate']
    exact h.spare

theorem Trails.back {window : Window g} (hw : window.Lies m none)
    (hp : c.walker.phase = .reading window) (hp' : d.walker.phase = .seeking window.address) :
    Trails m ok fails c (d.step (t.interrupted fails) none receive) := by
  have hlimit : ∀ l ∈ (none : Option Address), l = window.stop := nofun
  obtain ⟨hphase, hsoft, hretries⟩ :=
    seek_back (fun a s => hm.lookup a s.1) (ht.interrupted fails) hw hlimit d.walker d.state
  have hstate := seek_state (ht.interrupted fails) none d.walker window.address d.state
  rw [step_seeking hp']
  have hstay : Retraces m c.walker.phase _ := .of_eq (hphase.trans hp.symm) (hp ▸ hw)
  refine ⟨hstay, hsoft.trans h.softErrors, h.receiver, ?_, h.ok, ?_⟩
  · exact (congrArg Prod.fst hstate).trans h.state
  · simp only [hretries, hstate]
    exact h.spare

omit hm ht in
/-- Where the read fails, the walk goes back, with one attempt less. -/
theorem Trails.failed {window : Window g} (hw : window.Lies m none)
    (hp : c.walker.phase = .reading window) (hp' : d.walker.phase = .reading window)
    {error : Address → Nat → MemoryError} (hfail : fails d.state.2 = some error) :
    Trails m ok fails c (d.step (t.interrupted fails) none receive) := by
  obtain ⟨j, hj, hspare⟩ := h.spare
  have hpos : 0 < j := Nat.pos_of_ne_zero fun h0 => by
    rw [h0, Nat.add_zero, hfail] at hspare
    cases hspare
  have hq : (t.interrupted fails).read window.address window.size d.state =
      (.fail (error window.address window.size), d.state.1, d.state.2 + 1) := by
    simp only [Target.interrupted, hfail]
  obtain ⟨hphase, hsoft, hretries, hstate⟩ := fetch_failed hq (Nat.lt_of_lt_of_le hpos hj)
  rw [step_reading hp']
  refine ⟨?_, hsoft.trans h.softErrors, h.receiver, ?_, h.ok, j - 1, ?_, ?_⟩
  · simp only [hphase, hp]
    exact .back hw
  · simp only [hstate]
    exact h.state
  · simp only [hretries]
    omega
  · simp only [hstate]
    rwa [Nat.add_assoc, Nat.add_sub_cancel' hpos]

omit hm ht in
/-- Where it does not fail, both walks are given the same bytes. -/
theorem Trails.fetched (hr : t.Reliable m ok) (hpass : fails.Pass) {window : Window g}
    (hw : window.Lies m none) (hp : c.walker.phase = .reading window)
    (hp' : d.walker.phase = .reading window) (hfail : fails d.state.2 = none) :
    Trails m ok fails (c.step t none receive) (d.step (t.interrupted fails) none receive) := by
  obtain ⟨hisOk, hok, -⟩ := hr.read window.address window.size c.state h.ok hw.readable_size
  rcases hq : t.read window.address window.size c.state with ⟨⟨result, soft⟩, s⟩
  rw [hq] at hisOk hok
  cases result with
  | error error => cases hisOk
  | ok bytes =>
    have hq' : (t.interrupted fails).read window.address window.size d.state =
        (⟨.ok bytes, soft⟩, s, d.state.2 + 1) := by
      simp only [Target.interrupted, hfail, h.state, hq]
    obtain ⟨hphase, hsoft, -, hstate⟩ := fetch_ok (w := c.walker) hq
    obtain ⟨hphase', hsoft', hretries', hstate'⟩ := fetch_ok (w := d.walker) hq'
    rw [step_reading hp, step_reading hp']
    refine ⟨.of_eq (hphase'.trans hphase.symm) (hphase ▸ hw), ?_, h.receiver, ?_, ?_, ?_⟩
    · rw [hsoft', hsoft, h.softErrors]
    · simp only [hstate, hstate']
    · simp only [hstate]
      exact hok
    · simp only [hretries', hstate']
      exact hpass _

omit ht in
/-- Both walks hand over the same chunk and are given the same verdict. -/
theorem Trails.handOver {window : Window g} {bytes : Bytes window.size} (hw : window.Lies m none)
    (hp : c.walker.phase = .delivering window bytes)
    (hp' : d.walker.phase = .delivering window bytes) :
    Trails m ok fails (c.step t none receive) (d.step (t.interrupted fails) none receive) := by
  have hanchored : Anchored m (c.step t none receive).walker.phase :=
    (transition c).anchored hm (by rw [hp]; exact hw)
  rw [step_delivering hp] at hanchored ⊢
  rw [step_delivering hp', h.receiver]
  exact ⟨.of_eq (proceed_phase _ _ _ _) hanchored, by simpa using h.softErrors, rfl, h.state, h.ok,
    by simpa using h.spare⟩

/-- A step of the walk with failures keeps it on the trail of the other one, where that one stays or
takes a step too. -/
theorem Trails.step (hr : t.Reliable m ok) (hpass : fails.Pass) :
    Trails m ok fails c (d.step (t.interrupted fails) none receive) ∨
      Trails m ok fails (c.step t none receive) (d.step (t.interrupted fails) none receive) := by
  have hphase := h.phase
  generalize hp : c.walker.phase = phase, hp' : d.walker.phase = phase' at hphase
  cases hphase with
  | back hw => exact .inl (h.back hm ht hw hp hp')
  | same hw =>
    cases phase with
    | seeking cursor => exact .inr (h.seeking hm ht hp hp')
    | reading window =>
      cases hfail : fails d.state.2 with
      | some error => exact .inl (h.failed hw hp hp' hfail)
      | none => exact .inr (h.fetched hr hpass hw hp hp' hfail)
    | delivering window bytes => exact .inr (h.handOver hm hw hp hp')
    | finished result =>
      have hstep : d.step (t.interrupted fails) none receive = d := by
        simp [Course.step, ask, hp']
      exact .inl (by rwa [hstep])

/-- After any number of steps the walk with failures trails the other one after some of its own. -/
theorem Trails.after (receive : Receiver β) (hr : t.Reliable m ok) (hpass : fails.Pass) (n : Nat) :
    ∃ k, Trails m ok fails (after t none receive k c)
      (after (t.interrupted fails) none receive n d) := by
  induction n with
  | zero => exact ⟨0, h⟩
  | succ n ih =>
    obtain ⟨k, hk⟩ := ih
    rw [after_succ]
    rcases hk.step hm ht hr hpass with hstay | hstep
    · exact ⟨k, hstay⟩
    · exact ⟨k + 1, by rwa [after_succ]⟩

end

/-- Where the walk with failures has ended, so has the other one. -/
theorem Trails.finished (h : Trails m ok fails c d) {result : Except MemoryError Ending}
    (hp' : d.walker.phase = .finished result) : c.walker.phase = .finished result := by
  have hphase := h.phase
  rw [hp'] at hphase
  generalize c.walker.phase = phase at hphase
  cases hphase with
  | same => rfl

theorem trails_starting (t : Target σ) (g : Grid) (m : Memory) (start : Address) (receiver : β)
    {s : σ} (hs : ok s) (hpass : fails.Pass) :
    Trails m ok fails (starting t g start receiver s)
      (starting (t.interrupted fails) g start receiver (s, 0)) where
  phase := .same trivial
  softErrors := rfl
  receiver := rfl
  state := rfl
  ok := hs
  spare := hpass 0

end Course
end Walker

open Walker.Course in
/-- Failures that pass change neither the result of a walk, nor its soft errors, nor what its
receiver is given. -/
theorem walkGrid_interrupted {g : Grid} {σ β : Type} {t : Target σ} {m : Memory} {ok : σ → Prop}
    {fails : Failures} (hm : t.Shows m) (ht : t.Steady m) (hr : t.Reliable m ok)
    (hpass : fails.Pass) (start : Address) (receive : Receiver β) (receiver : β) {s : σ}
    (hs : ok s) :
    let walked := walkGrid t g start none receive receiver s
    let walked' := walkGrid (t.interrupted fails) g start none receive receiver (s, 0)
    walked'.1.outcome = walked.1.outcome ∧ walked'.2 = walked.2 := by
  obtain ⟨n, -, result, hp'⟩ := exists_finished (t.interrupted fails) none receive
    (starting (t.interrupted fails) g start receiver (s, 0))
  have hbegun := trails_starting t g m start receiver hs hpass
  obtain ⟨k, hk⟩ := hbegun.after hm ht receive hr hpass n
  have hp := hk.finished hp'
  simp only [walkGrid_of_finished hp, walkGrid_of_finished hp', report, hk.softErrors, hk.receiver,
    and_self]

def keepBy (verdict : List Chunk → Verdict) : Receiver (List Chunk) := fun seen chunk =>
  (seen ++ [chunk], verdict (seen ++ [chunk]))

namespace SegmentedProcess

variable {p : SegmentedProcess}

theorem steady (hp : p.Fits) (choose : Nat → Nat) : (p.targetChoosing choose).Steady p.memory where
  state _ _ := rfl
  quiet a w h := by
    have hquiet := Lookup.regionAt_quiet p.mappings_ascending ((memory_isSome_iff hp).1 h)
    rwa [← lookup_eq] at hquiet

/-- Failures that pass change nothing of a walk that hands its chunks to a receiver deciding by what
it has seen, be the chunks side by side or overlapping. -/
theorem walk_failures_pass (hp : p.Fits) (choose : Nat → Nat) (start : Address) {size : Nat}
    (hsize : 0 < size) (verdict : List Chunk → Verdict) {fails : Failures} (hpass : fails.Pass)
    {w : Wear} (hw : w.faults = []) :
    let t := p.targetChoosing choose
    let side := walk t start size (keepBy verdict) [] w
    let side' := walk (t.interrupted fails) start size (keepBy verdict) [] (w, 0)
    let half := walkSliding t start size (keepBy verdict) [] w
    let half' := walkSliding (t.interrupted fails) start size (keepBy verdict) [] (w, 0)
    (side'.1.outcome = side.1.outcome ∧ side'.2 = side.2) ∧
      half'.1.outcome = half.1.outcome ∧ half'.2 = half.2 := by
  have hwalk (g : Grid) := walkGrid_interrupted (g := g) (shows hp choose) (steady hp choose)
    (reliable hp choose) hpass start (keepBy verdict) [] hw
  simp only [walk, walkSliding, dif_pos hsize]
  exact ⟨hwalk _, hwalk _⟩

/-- The first five reads fail, and the walk stops at its second chunk. -/
theorem walk_failures_pass_touching :
    let fails : Failures := fun k =>
      if k < 5 then some fun address size => .readFailed address size "busy" else none
    let verdict : List Chunk → Verdict := fun seen => if 2 ≤ seen.length then .stop else .goOn
    let t := touching.targetChoosing fun _ => 0
    let walked := walk t 0 2 (keepBy verdict) [] {}
    let walked' := walk (t.interrupted fails) 0 2 (keepBy verdict) [] ({}, 0)
    touching.Fits ∧ 0 < 2 ∧ fails.Pass ∧ (∀ k < 5, (fails k).isSome) ∧
      walked'.1.outcome = walked.1.outcome ∧ walked'.2 = walked.2 := by
  intro fails verdict t walked walked'
  have hp : touching.Fits := by decide
  have hpass : fails.Pass := fun k => ⟨5, Nat.le_refl _, if_neg (by omega)⟩
  obtain ⟨hside, -⟩ :=
    walk_failures_pass hp (fun _ => 0) 0 (by decide : 0 < 2) verdict hpass (w := {}) rfl
  exact ⟨hp, by decide, hpass, by decide, hside⟩

end SegmentedProcess
end ProcessMemory
