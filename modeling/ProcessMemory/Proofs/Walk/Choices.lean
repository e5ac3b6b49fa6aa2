import ProcessMemory.Proofs.Walk.Parts

/-!
# Which of the pending faults strikes

A read that fails wears out one of the faults pending in its span, and nothing tells which. Two
walks for which different ones are chosen stay in step nevertheless. Their tables differ only within
the window at hand (`Abreast`), and there by no more than the attempts left can tell. A walk leaves
a window when nothing is pending in it any more, or else past its end.
-/
namespace ProcessMemory

namespace Fault

abbrev SameFrom (lo : Nat) (faults faults' : List Fault) : Prop :=
  SameBetween lo 0x1_0000_0000_0000_0000 faults faults'

/-- Neither `r + 1` more reads of the addresses from `lo` up to `hi` nor any reads past them tell
the two tables apart. -/
structure SameFor (r lo hi : Nat) (faults faults' : List Fault) : Prop where
  failing : Fault.failing r lo hi faults' = Fault.failing r lo hi faults
  beyond : SameFrom hi faults faults'

section
variable {lo hi r : Nat} {faults faults' struck struck' : List Fault}

theorem SameFrom.sameFor (h : SameFrom lo faults faults') (hlt : lo ≤ hi)
    (htop : hi ≤ 0x1_0000_0000_0000_0000) (r : Nat) : SameFor r lo hi faults faults' where
  failing := by rw [Fault.failing, h lo hi (Nat.le_refl _) htop, Fault.failing]
  beyond := h.mono hlt (Nat.le_refl _)

theorem SameFor.clear_iff (h : SameFor r lo hi faults faults') :
    weight lo hi faults' = 0 ↔ weight lo hi faults = 0 := by
  have hfailing := h.failing
  unfold Fault.failing at hfailing
  omega

theorem SameFrom.strikes (h : SameFrom hi faults faults') (hs : Strikes lo hi faults struck)
    (hs' : Strikes lo hi faults' struck') : SameFrom hi struck struck' := fun a b ha hb => by
  rw [hs'.beside a b (.inr ha), h a b ha hb, hs.beside a b (.inr ha)]

/-- A fault strikes in either table, and there is an attempt less to tell them apart. -/
theorem SameFor.strikes (h : SameFor (r + 1) lo hi faults faults')
    (hs : Strikes lo hi faults struck) (hs' : Strikes lo hi faults' struck') (hr : r < maxRetries) :
    SameFor r lo hi struck struck' where
  failing := by
    have hone := hs.failing (weight_self lo faults) hr
    have hone' := hs'.failing (weight_self lo faults') hr
    have hfailing := h.failing
    omega
  beyond := h.beyond.strikes hs hs'

end
end Fault

theorem SegmentedProcess.reads_read (p : SegmentedProcess) (choose : Nat → Nat) (a : Address)
    (n : Nat) (w : Wear) : ((p.targetChoosing choose).read a n w).2.reads = w.reads + 1 := by
  simp only [targetChoosing, read]
  split <;> rfl

namespace Walker

variable {g : Grid} {m : Memory} {w : Window g} {walker : Walker g} {faults faults' : List Fault}

/-- Two tables of faults bring the same on a walker that is where this one is. -/
inductive Abreast (m : Memory) (faults faults' : List Fault) (walker : Walker g) : Prop where
  | between {cursor : Address} (hp : walker.phase = .seeking cursor)
    (hsame : Fault.SameFrom cursor.toNat faults faults')
  /-- A window is due. It may have to be looked up once more. -/
  | due {w : Window g} (hp : walker.phase = .reading w ∨ walker.phase = .seeking w.address)
    (hw : w.Lies m none)
    (hsame : Fault.SameFor walker.retries w.address.toNat w.finish faults faults')
  | inHand {w : Window g} {bytes : Bytes w.size} (hp : walker.phase = .delivering w bytes)
    (hw : w.Lies m none)
    (hsame : Fault.SameFrom w.address.toNat faults faults')
  | ended {result : Except MemoryError Ending} (hp : walker.phase = .finished result)

namespace Abreast

/-- A window is due from whose address on the tables are the same. -/
theorem of_same (hp : walker.phase = .reading w) (hw : w.Lies m none)
    (hsame : Fault.SameFrom w.address.toNat faults faults') :
    Abreast m faults faults' walker := by
  have htop : w.finish ≤ 0x1_0000_0000_0000_0000 :=
    Nat.le_trans w.finish_le_stop (Nat.le_of_lt w.stop.isLt)
  exact .due (.inl hp) hw (hsame.sameFor (Nat.le_of_lt w.address_lt_finish) htop _)

/-- The chunk in hand is handed over. -/
theorem proceed {bytes : Bytes w.size} (h : Abreast m faults faults' walker)
    (hp : walker.phase = .delivering w bytes) (verdict : Verdict) :
    Abreast m faults faults' (walker.proceed w verdict) := by
  cases h with
  | between hp' => cases hp.symm.trans hp'
  | due hp' => rcases hp' with hp' | hp' <;> cases hp.symm.trans hp'
  | ended hp' => cases hp.symm.trans hp'
  | inHand hp' hw hsame =>
    cases hp.symm.trans hp'
    cases verdict with
    | stop => exact .ended rfl
    | goOn =>
      cases hn : w.next? with
      | none =>
        have hphase : (walker.proceed w .goOn).phase = .seeking w.stop := by
          simp only [Walker.proceed, hn, enter_phase]
        exact .between hphase (hsame.mono (Nat.le_of_lt w.address_lt_stop) (Nat.le_refl _))
      | some following =>
        have hphase : (walker.proceed w .goOn).phase = .reading following := by
          simp only [Walker.proceed, hn, enter_phase]
        have hlt := Window.address_lt_of_next? hn
        exact .of_same hphase (hw.next hn) (hsame.mono (Nat.le_of_lt hlt) (Nat.le_refl _))

end Abreast

section
open SegmentedProcess

variable {p : SegmentedProcess} {s s' : Wear} (choose choose' : Nat → Nat)

/-- Two queries take a walker to the same place, and their tables still bring the same on it. -/
structure InStep (m : Memory) (asked asked' : Walker g × Wear × List Event) : Prop where
  walker : asked'.1 = asked.1
  events : asked'.2.2 = asked.2.2
  reads : asked'.2.1.reads = asked.2.1.reads
  abreast : Abreast m asked.2.1.faults asked'.2.1.faults asked.1

theorem fetch_state {σ : Type} (t : Target σ) (walker : Walker g) (w : Window g) (s : σ) :
    (walker.fetch t w s).2.1 = (t.read w.address w.size s).2 := by
  simp only [fetch]
  cases (t.read w.address w.size s).1.result <;> rfl

/-- Reads with one answer take a walker to one place. -/
theorem fetch_congr {σ σ' : Type} {t : Target σ} {t' : Target σ'} {s : σ} {s' : σ'}
    (h : (t'.read w.address w.size s').1 = (t.read w.address w.size s).1) (walker : Walker g) :
    let fetched := walker.fetch t w s
    let fetched' := walker.fetch t' w s'
    fetched'.1 = fetched.1 ∧ fetched'.2.2 = fetched.2.2 := by
  simp only [fetch, h]
  cases (t.read w.address w.size s).1.result <;> exact ⟨rfl, rfl⟩

/-- Lookups take no part in the choice. -/
theorem seek_choosing (p : SegmentedProcess) (walker : Walker g) (cursor : Address) (s s' : Wear) :
    let sought := walker.seek (p.targetChoosing choose) none cursor s
    let sought' := walker.seek (p.targetChoosing choose') none cursor s'
    sought'.1 = sought.1 ∧ sought'.2.2 = sought.2.2 := by
  simp only [seek, targetChoosing, Option.any_none, Bool.false_eq_true, if_false]
  cases (p.lookup cursor).result with
  | error error => exact ⟨rfl, rfl⟩
  | ok found =>
    cases found with
    | none => exact ⟨rfl, rfl⟩
    | some region =>
      simp only
      split
      · exact ⟨rfl, rfl⟩
      · split <;> exact ⟨rfl, rfl⟩

theorem InStep.of_seek (hp : p.Fits) (hreads : s'.reads = s.reads) (cursor : Address)
    (h : Abreast m s.faults s'.faults
      (walker.seek (p.targetChoosing choose) none cursor s).1) :
    InStep m (walker.seek (p.targetChoosing choose) none cursor s)
      (walker.seek (p.targetChoosing choose') none cursor s') := by
  obtain ⟨hwalker, hevents⟩ := seek_choosing choose choose' p walker cursor s s'
  have hstate := Course.seek_state (steady hp choose) none walker cursor s
  have hstate' := Course.seek_state (steady hp choose') none walker cursor s'
  refine ⟨hwalker, hevents, ?_, ?_⟩
  · rw [hstate, hstate', hreads]
  · rwa [hstate, hstate']

/-- A lookup leads to a window from which on the tables are the same. -/
theorem InStep.between (hp : p.Fits) (hreads : s'.reads = s.reads) {cursor : Address}
    (hsame : Fault.SameFrom cursor.toNat s.faults s'.faults) :
    InStep p.memory (walker.seek (p.targetChoosing choose) none cursor s)
      (walker.seek (p.targetChoosing choose') none cursor s') := by
  refine .of_seek choose choose' hp hreads cursor ?_
  have hfound := lookup_found hp cursor
  rcases hq : p.lookup cursor with ⟨result, soft⟩
  rw [hq] at hfound
  have hlookup : (p.targetChoosing choose).lookup cursor s = (⟨result, soft⟩, s) :=
    congrArg (·, s) hq
  cases hfound with
  | nothing h => exact .ended (Onward.seek_nothing hlookup walker).1
  | region hnext =>
    obtain ⟨part, -, hstart, hstop, htoEnd⟩ := hnext.part
    obtain ⟨hphase, -⟩ := Onward.seek_part hlookup hstart hstop htoEnd.nonempty walker
    refine .of_same hphase (htoEnd.lies_first g) (hsame.mono ?_ (Nat.le_refl _))
    rw [Window.first_address, hstart]
    exact Address.le_max_right _ cursor

/-- A lookup at a window's own address leads back to it. -/
theorem InStep.back (hp : p.Fits) (hreads : s'.reads = s.reads) (hw : w.Lies p.memory none)
    (hsame : Fault.SameFor walker.retries w.address.toNat w.finish s.faults s'.faults) :
    InStep p.memory (walker.seek (p.targetChoosing choose) none w.address s)
      (walker.seek (p.targetChoosing choose') none w.address s') := by
  refine .of_seek choose choose' hp hreads w.address ?_
  have hlimit : ∀ l ∈ (none : Option Address), l = w.stop := nofun
  obtain ⟨hphase, -, hretries⟩ := Course.seek_back (fun a s => (shows hp choose).lookup a s)
    (steady hp choose) hw hlimit walker s
  exact .due (.inl hphase) hw (by rwa [hretries])

/-- Two reads with one answer, after which the tables bring the same on the walker. -/
theorem InStep.of_read (hreads : s'.reads = s.reads)
    (hanswer : ((p.targetChoosing choose').read w.address w.size s').1 =
      ((p.targetChoosing choose).read w.address w.size s).1)
    (h : Abreast m ((p.targetChoosing choose).read w.address w.size s).2.faults
      ((p.targetChoosing choose').read w.address w.size s').2.faults
      (walker.fetch (p.targetChoosing choose) w s).1) :
    InStep m (walker.fetch (p.targetChoosing choose) w s)
      (walker.fetch (p.targetChoosing choose') w s') := by
  obtain ⟨hwalker, hevents⟩ := fetch_congr hanswer walker
  refine ⟨hwalker, hevents, ?_, ?_⟩
  · rw [fetch_state, fetch_state, reads_read, reads_read, hreads]
  · rwa [fetch_state, fetch_state]

/-- Without pending faults both reads give the bytes of the window. -/
theorem InStep.fetched (hp : p.Fits) (hreads : s'.reads = s.reads) (hw : w.Lies p.memory none)
    (hclear : Fault.weight w.address.toNat w.finish s.faults = 0)
    (hclear' : Fault.weight w.address.toNat w.finish s'.faults = 0)
    (hsame : Fault.SameFrom w.finish s.faults s'.faults) :
    InStep p.memory (walker.fetch (p.targetChoosing choose) w s)
      (walker.fetch (p.targetChoosing choose') w s') := by
  obtain ⟨bytes, hbytes, hq⟩ :=
    read_of_clear (w := s) hp choose hw.readable_size (by rwa [Window.toNat_advance_size])
  obtain ⟨bytes', hbytes', hq'⟩ :=
    read_of_clear (w := s') hp choose' hw.readable_size (by rwa [Window.toNat_advance_size])
  obtain rfl : bytes' = bytes := Subtype.ext (Option.some.inj (hbytes'.symm.trans hbytes))
  refine .of_read choose choose' hreads (by rw [hq, hq']) ?_
  simp only [hq, hq']
  exact .inHand (Course.fetch_ok hq).1 hw (hsame.of_clear hclear hclear')

/-- With pending faults both reads fail, and a fault has struck in either table. -/
theorem InStep.failed (hreads : s'.reads = s.reads) (hw : w.Lies m none)
    (hpending : 0 < Fault.weight w.address.toNat w.finish s.faults)
    (hpending' : 0 < Fault.weight w.address.toNat w.finish s'.faults)
    (hsame : Fault.SameFor walker.retries w.address.toNat w.finish s.faults s'.faults) :
    InStep m (walker.fetch (p.targetChoosing choose) w s)
      (walker.fetch (p.targetChoosing choose') w s') := by
  have hfinish := w.toNat_advance_size
  obtain ⟨r, hq, hstrikes⟩ := read_of_pending p choose (hfinish ▸ hpending)
  obtain ⟨r', hq', hstrikes'⟩ := read_of_pending p choose' (hfinish ▸ hpending')
  rw [hfinish] at hstrikes hstrikes'
  refine .of_read choose choose' hreads (by rw [hq, hq']) ?_
  simp only [hq, hq']
  cases hr : walker.retries with
  | zero =>
    -- The window is left behind, and with it all that the tables differ in.
    have hbeyond := hsame.beyond.strikes hstrikes hstrikes'
    exact .between (fetch_lost walker hq hr).1 (by rwa [hfinish])
  | succ retries =>
    obtain ⟨hphase, -, hretries, -⟩ := Course.fetch_failed (w := walker) hq (by omega)
    have hmax := walker.retries_le
    rw [hr] at hsame hretries
    have hstruck := hsame.strikes hstrikes hstrikes' (by omega)
    exact .due (.inr hphase) hw (by rwa [hretries])

/-- A read fails in both walks or in none. -/
theorem InStep.fetch (hp : p.Fits) (hreads : s'.reads = s.reads) (hw : w.Lies p.memory none)
    (hsame : Fault.SameFor walker.retries w.address.toNat w.finish s.faults s'.faults) :
    InStep p.memory (walker.fetch (p.targetChoosing choose) w s)
      (walker.fetch (p.targetChoosing choose') w s') := by
  have hiff := hsame.clear_iff
  rcases Nat.eq_zero_or_pos (Fault.weight w.address.toNat w.finish s.faults) with hzero | hpos
  · exact .fetched choose choose' hp hreads hw hzero (hiff.2 hzero) hsame.beyond
  · exact .failed choose choose' hreads hw hpos (by omega) hsame

/-- A query keeps two walks in step. -/
theorem Abreast.ask (hp : p.Fits) (h : Abreast p.memory s.faults s'.faults walker)
    (hreads : s'.reads = s.reads) :
    InStep p.memory (walker.ask (p.targetChoosing choose) none s)
      (walker.ask (p.targetChoosing choose') none s') := by
  cases hphase : walker.phase with
  | delivering window bytes =>
    simp only [Walker.ask, hphase]
    exact ⟨rfl, rfl, hreads, h⟩
  | finished result =>
    simp only [Walker.ask, hphase]
    exact ⟨rfl, rfl, hreads, h⟩
  | seeking cursor =>
    simp only [Walker.ask, hphase]
    cases h with
    | inHand hp' => cases hphase.symm.trans hp'
    | ended hp' => cases hphase.symm.trans hp'
    | between hp' hsame =>
      cases hphase.symm.trans hp'
      exact .between choose choose' hp hreads hsame
    | due hp' hw hsame =>
      rcases hp' with hp' | hp'
      · cases hphase.symm.trans hp'
      · cases hphase.symm.trans hp'
        exact .back choose choose' hp hreads hw hsame
  | reading window =>
    simp only [Walker.ask, hphase]
    cases h with
    | inHand hp' => cases hphase.symm.trans hp'
    | ended hp' => cases hphase.symm.trans hp'
    | between hp' => cases hphase.symm.trans hp'
    | due hp' hw hsame =>
      rcases hp' with hp' | hp'
      · cases hphase.symm.trans hp'
        exact .fetch choose choose' hp hreads hw hsame
      · cases hphase.symm.trans hp'

end

namespace Course

open SegmentedProcess

variable {β : Type} {p : SegmentedProcess} {receive : Receiver β} {c d : Course g Wear β}

/-- Two walks are in the same place, and have been all along as far as anybody can tell. -/
structure Concur (m : Memory) (c d : Course g Wear β) : Prop where
  walker : d.walker = c.walker
  receiver : d.receiver = c.receiver
  events : d.events = c.events
  reads : d.state.reads = c.state.reads
  abreast : Abreast m c.state.faults d.state.faults c.walker

theorem Concur.step (hp : p.Fits) (choose choose' : Nat → Nat) (h : Concur p.memory c d) :
    Concur p.memory (c.step (p.targetChoosing choose) none receive)
      (d.step (p.targetChoosing choose') none receive) := by
  obtain ⟨walker, s, receiver, events⟩ := c
  obtain ⟨walker', s', receiver', events'⟩ := d
  obtain ⟨hwalker, hreceiver, hevents, hreads, habreast⟩ := h
  cases hwalker
  cases hreceiver
  cases hevents
  have hasked := habreast.ask choose choose' hp hreads
  cases hphase : walker.phase with
  | delivering w bytes =>
    rw [step_delivering hphase, step_delivering hphase]
    exact ⟨rfl, rfl, rfl, hreads, habreast.proceed hphase _⟩
  | _ =>
    simp only [Course.step, hphase]
    exact ⟨hasked.walker, rfl, congrArg (events ++ ·) hasked.events, hasked.reads, hasked.abreast⟩

theorem Concur.after (hp : p.Fits) (choose choose' : Nat → Nat) (h : Concur p.memory c d)
    (receive : Receiver β) (n : Nat) :
    Concur p.memory (after (p.targetChoosing choose) none receive n c)
      (after (p.targetChoosing choose') none receive n d) := by
  induction n with
  | zero => exact h
  | succ n ih =>
    rw [after_succ, after_succ]
    exact ih.step hp choose choose'

end Course
end Walker

def keeping {β : Type} (receive : Receiver β) : Receiver (β × List Chunk) := fun kept chunk =>
  let (receiver, verdict) := receive kept.1 chunk
  ((receiver, kept.2 ++ [chunk]), verdict)

namespace SegmentedProcess

variable {β : Type} {p : SegmentedProcess} {w w' : Wear}

structure SameWalk (walked walked' : Report Wear Ending × β) : Prop where
  outcome : walked'.1.outcome = walked.1.outcome
  received : walked'.2 = walked.2
  reads : walked'.1.state.reads = walked.1.state.reads
  events : walked'.1.events = walked.1.events

open Walker.Course in
theorem walkGrid_same (hp : p.Fits) (choose choose' : Nat → Nat) (g : Grid) (start : Address)
    (receive : Receiver β) (receiver : β) (hfaults : w'.faults.Perm w.faults)
    (hreads : w'.reads = w.reads) :
    SameWalk (walkGrid (p.targetChoosing choose) g start none receive receiver w)
      (walkGrid (p.targetChoosing choose') g start none receive receiver w') := by
  have hbegun : Concur p.memory (starting (p.targetChoosing choose) g start receiver w)
      (starting (p.targetChoosing choose') g start receiver w') :=
    ⟨rfl, rfl, rfl, hreads, .between rfl fun a b _ _ => Fault.weight_perm hfaults a b⟩
  obtain ⟨n, -, result, hphase⟩ := exists_finished (p.targetChoosing choose) none receive
    (starting (p.targetChoosing choose) g start receiver w)
  have hconcur := hbegun.after hp choose choose' receive n
  have hphase' := (congrArg Walker.phase hconcur.walker).trans hphase
  rw [walkGrid_of_finished hphase, walkGrid_of_finished hphase']
  simp only [report, hconcur.walker]
  exact ⟨rfl, hconcur.receiver, hconcur.reads, hconcur.events⟩

/-- Neither the order of the faults in the table nor which of the pending ones strikes makes any
difference to a walk, be its chunks side by side or overlapping. -/
theorem walk_same_choosing (hp : p.Fits) (choose choose' : Nat → Nat) (start : Address) (size : Nat)
    (receive : Receiver β) (receiver : β) (hfaults : w'.faults.Perm w.faults)
    (hreads : w'.reads = w.reads) :
    let t := p.targetChoosing choose
    let t' := p.targetChoosing choose'
    SameWalk (walk t start size (keeping receive) (receiver, []) w)
        (walk t' start size (keeping receive) (receiver, []) w') ∧
      SameWalk (walkSliding t start size (keeping receive) (receiver, []) w)
        (walkSliding t' start size (keeping receive) (receiver, []) w') := by
  intro t t'
  have hwalk (g : Grid) :=
    walkGrid_same hp choose choose' g start (keeping receive) (receiver, []) hfaults hreads
  unfold walk walkSliding
  split
  · exact ⟨hwalk _, hwalk _⟩
  · exact ⟨⟨rfl, rfl, hreads, rfl⟩, ⟨rfl, rfl, hreads, rfl⟩⟩

/-- The first window is lost whichever of its two faults strikes, and one of them may be left. -/
theorem walk_same_choosing_touching :
    let w : Wear := ⟨[⟨0x11, .times 2⟩, ⟨0x12, .always⟩, ⟨0x13, .times 1⟩], 0⟩
    let w' : Wear := ⟨[⟨0x13, .times 1⟩, ⟨0x12, .always⟩, ⟨0x11, .times 2⟩], 0⟩
    let receive : Receiver Nat := fun count _ => (count + 1, .goOn)
    let walked := walkSliding (touching.targetChoosing fun _ => 0) 0 3 (keeping receive) (0, []) w
    let walked' := walkSliding (touching.targetChoosing fun n => n) 0 3 (keeping receive) (0, []) w'
    touching.Fits ∧ w'.faults.Perm w.faults ∧ w'.reads = w.reads ∧
      walked'.1.outcome = walked.1.outcome ∧ walked'.2 = walked.2 ∧
      walked'.1.state.reads = walked.1.state.reads := by
  intro w w' receive walked walked'
  have hp : touching.Fits := by decide
  have hfaults : w'.faults.Perm w.faults := by decide
  obtain ⟨-, hsame⟩ :=
    walk_same_choosing hp (fun _ => 0) (fun n => n) 0 3 receive 0 hfaults (rfl : w'.reads = w.reads)
  exact ⟨hp, hfaults, rfl, hsame.outcome, hsame.received, hsame.reads⟩

end SegmentedProcess
end ProcessMemory
