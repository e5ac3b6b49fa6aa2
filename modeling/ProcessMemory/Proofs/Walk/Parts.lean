import ProcessMemory.Proofs.Enumeration
import ProcessMemory.Proofs.Walk.Plan

/-!
# Walks part by part

The regions from an address on, clipped at it, are the parts of a walk from there (`Parts`). A walk
without a limit goes through one part after another, and a walk up to the stop of a part through
that one alone. Either way its receiver is given what `visits` foresees for the parts, and the
errors kept are those of the windows lost and of the lookups between the parts (`Onward`).
-/
namespace ProcessMemory

/-- Readable bytes up to the end of their run. -/
structure Region.ToEnd (m : Memory) (r : Region) : Prop where
  nonempty : r.start < r.stop
  readable : ∀ n, r.start.toNat ≤ n → n < r.stop.toNat → (m n).isSome
  ends : m r.stop.toNat = none

theorem Region.from?_eq_some {r : Region} {a : Address} (h : max r.start a < r.stop) :
    ∃ part, r.from? a = some part ∧ part.start = max r.start a ∧ part.stop = r.stop := by
  rw [Address.lt_def] at h
  refine ⟨_, make?_eq_some.2 ⟨?_, rfl⟩, rfl, Address.ext ?_⟩
  · unfold Address.distanceTo
    omega
  · have htop := r.stop.isLt
    rw [toNat_stop]
    simp only [Address.distanceTo]
    omega

/-- Clipping at or below its start leaves a region as it is. -/
theorem Region.filterMap_from?_eq {regions : List Region} {a b : Address}
    (ha : ∀ r ∈ regions, a ≤ r.start) (hb : ∀ r ∈ regions, b ≤ r.start) :
    regions.filterMap (·.from? a) = regions.filterMap (·.from? b) := by
  have hmax {r : Region} {c : Address} (hc : c ≤ r.start) : max r.start c = r.start :=
    Address.ext (by rw [Address.toNat_max]; exact Nat.max_eq_left hc)
  induction regions with
  | nil => rfl
  | cons r rest ih =>
    obtain ⟨ha, ha'⟩ := List.forall_mem_cons.1 ha
    obtain ⟨hb, hb'⟩ := List.forall_mem_cons.1 hb
    rw [List.filterMap_cons, List.filterMap_cons, from?, from?, hmax ha, hmax hb, ih ha' hb']

theorem Region.ToEnd.lies_first {m : Memory} {r : Region} (h : r.ToEnd m) (g : Grid) :
    (Window.first g r.start r.stop h.nonempty).Lies m none := ⟨h.readable, .inl h.ends⟩

/-- The part from the cursor on of the region found there. -/
theorem Memory.Next.part {m : Memory} {cursor : Address} {region : Region}
    (h : m.Next cursor region) :
    ∃ part, region.from? cursor = some part ∧ part.start = max region.start cursor ∧
      part.stop = region.stop ∧ part.ToEnd m := by
  obtain ⟨part, hpart, hstart, hstop⟩ := Region.from?_eq_some h.span_lt
  refine ⟨part, hpart, hstart, hstop, ?_, fun n h1 h2 => ?_, ?_⟩
  · rw [hstart, hstop]
    exact h.span_lt
  · rw [hstart] at h1
    rw [hstop] at h2
    exact h.readable n (Nat.le_trans (Address.le_max_left _ cursor) h1) h2
  · rw [hstop]
    exact h.ends

/-- Past a region, clipping at the cursor below it or at its stop makes no difference. -/
theorem Region.filterMap_from?_past {cursor : Address} {region : Region} {rest : List Region}
    (reaches : cursor < region.stop) (above : ∀ r ∈ rest, region.stop ≤ r.start) :
    rest.filterMap (·.from? cursor) = rest.filterMap (·.from? region.stop) :=
  Region.filterMap_from?_eq
    (fun r hr => Nat.le_trans (Nat.le_of_lt reaches) (above r hr)) above

/-- Lookups from `cursor` on find regions of which these are the parts from there on, and report
these errors. -/
inductive Parts (p : SegmentedProcess) :
    Address → List Region → List MemoryError → Prop where
  | nil {cursor : Address} {errors : List MemoryError} (h : p.lookup cursor = ⟨.ok none, errors⟩) :
    Parts p cursor [] errors
  | cons {cursor : Address} {region part : Region} {rest : List Region}
    {soft errors : List MemoryError} (h : p.lookup cursor = ⟨.ok (some region), soft⟩)
    (start_eq : part.start = max region.start cursor) (stop_eq : part.stop = region.stop)
    (toEnd : part.ToEnd p.memory) (above : ∀ r ∈ rest, part.stop ≤ r.start)
    (tail : Parts p part.stop rest errors) : Parts p cursor (part :: rest) (soft ++ errors)

theorem Lists.parts {p : SegmentedProcess} (hp : p.Fits) {cursor : Address}
    {regions : List Region} (h : Lists p.lookup cursor regions) :
    Parts p cursor (regions.filterMap (·.from? cursor)) (reported p.lookup cursor regions) := by
  induction h with
  | @nil cursor h =>
    rcases hq : p.lookup cursor with ⟨result, soft⟩
    rw [hq] at h
    cases h
    rw [reported, hq]
    exact .nil hq
  | @cons cursor region rest h reaches exact above tail ih =>
    have hfound := SegmentedProcess.lookup_found hp cursor
    rcases hq : p.lookup cursor with ⟨result, soft⟩
    rw [hq] at h hfound
    cases h
    cases hfound with
    | region hnext =>
      obtain ⟨part, hpart, hstart, hstop, htoEnd⟩ := hnext.part
      rw [List.filterMap_cons, hpart, Region.filterMap_from?_past reaches above, reported, hq,
        ← hstop]
      refine .cons hq hstart hstop htoEnd (fun r hr => ?_) (hstop ▸ ih)
      obtain ⟨whole, hmem, hr⟩ := List.mem_filterMap.1 hr
      rw [(Region.make?_eq_some.1 hr).2, hstop]
      exact Nat.le_trans (above whole hmem) (Address.le_max_left _ _)

namespace Parts

variable {p : SegmentedProcess} {cursor : Address} {parts : List Region}
  {errors : List MemoryError}

theorem toEnd_of_mem (h : Parts p cursor parts errors) : ∀ r ∈ parts, r.ToEnd p.memory := by
  induction h with
  | nil h => exact nofun
  | cons h start_eq stop_eq toEnd above tail ih => exact List.forall_mem_cons.2 ⟨toEnd, ih⟩

theorem pairwise (h : Parts p cursor parts errors) :
    parts.Pairwise fun a b => a.stop ≤ b.start := by
  induction h with
  | nil h => exact .nil
  | cons h start_eq stop_eq toEnd above tail ih => exact .cons above ih

theorem cursor_le (h : Parts p cursor parts errors) : ∀ r ∈ parts, cursor ≤ r.start := by
  cases h with
  | nil h => exact nofun
  | cons h start_eq stop_eq toEnd above tail =>
    have hle := start_eq ▸ Address.le_max_right _ cursor
    refine List.forall_mem_cons.2 ⟨hle, fun r hr => ?_⟩
    exact Nat.le_trans hle (Nat.le_trans (Nat.le_of_lt toEnd.nonempty) (above r hr))

end Parts

namespace SegmentedProcess

variable {p : SegmentedProcess} {g : Grid} {faults faults' : List Fault}

def partVisits (p : SegmentedProcess) (g : Grid) (faults : List Fault) (r : Region) : List Visit :=
  if h : r.start < r.stop then
    p.visits faults maxRetries r.start.toNat (Window.first g r.start r.stop h)
  else []

def visitsOf (p : SegmentedProcess) (g : Grid) (faults : List Fault) (parts : List Region) :
    List Visit := parts.flatMap (p.partVisits g faults)

theorem partVisits_congr {r : Region}
    (h : Fault.SameBetween r.start.toNat r.stop.toNat faults faults') :
    p.partVisits g faults' r = p.partVisits g faults r := by
  unfold partVisits
  split
  · rename_i hlt
    exact visits_congr h (Nat.le_refl _)
      (Nat.le_of_lt (Window.first g r.start r.stop hlt).address_lt_finish) _
  · rfl

theorem visitsOf_congr {parts : List Region}
    (h : ∀ r ∈ parts, Fault.SameBetween r.start.toNat r.stop.toNat faults faults') :
    p.visitsOf g faults' parts = p.visitsOf g faults parts :=
  congrArg List.flatten (List.map_congr_left fun r hr => partVisits_congr (h r hr))

end SegmentedProcess

namespace Walker

open SegmentedProcess Course

variable {g : Grid} {p : SegmentedProcess} {faults : List Fault} {walker : Walker g}
  {visits : List Visit} {errors : List MemoryError} {limit : Option Address} {s : Wear}

theorem Ahead.starting {r : Region} (h : r.ToEnd p.memory)
    (hp : walker.phase = .reading (Window.first g r.start r.stop h.nonempty) ∨
      walker.phase = .seeking r.start) (hr : walker.retries = maxRetries) :
    Ahead p r.start.toNat r.stop faults walker (p.partVisits g faults r) := by
  have hplaced : (Window.first g r.start r.stop h.nonempty).Placed p.memory r.start.toNat r.stop :=
    ⟨Nat.le_refl _, rfl, h.lies_first g⟩
  have hlt := (Window.first g r.start r.stop h.nonempty).address_lt_finish
  rw [partVisits, dif_pos h.nonempty, ← hr]
  exact .due hp hplaced (Nat.le_refl _) (Nat.le_of_lt hlt) (Fault.weight_self _ _)

/-- What is left of a walk at `cursor`, where a part has been gone through: the parts from there on,
or nothing where the limit is there. -/
inductive Tail (p : SegmentedProcess) :
    Option Address → Address → List Region → List MemoryError → Prop where
  | endless {cursor : Address} {parts : List Region} {errors : List MemoryError}
    (h : Parts p cursor parts errors) : Tail p none cursor parts errors
  | reached (cursor : Address) : Tail p (some cursor) cursor [] []

theorem Tail.cursor_le {cursor : Address} {parts : List Region}
    (h : Tail p limit cursor parts errors) : ∀ r ∈ parts, cursor ≤ r.start := by
  cases h with
  | endless h => exact h.cursor_le
  | reached => exact nofun

/-- A walker with `visits` still to come, and `errors` from the lookups between parts. -/
inductive Onward (p : SegmentedProcess) (limit : Option Address) (faults : List Fault)
    (walker : Walker g) : List Visit → List MemoryError → Prop where
  | within {low : Nat} {stop : Address} {visits : List Visit} {parts : List Region}
    {errors : List MemoryError} (h : Ahead p low stop faults walker visits)
    (tail : Tail p limit stop parts errors) :
    Onward p limit faults walker (visits ++ p.visitsOf g faults parts) errors
  | between {cursor : Address} {parts : List Region} {errors : List MemoryError}
    (hp : walker.phase = .seeking cursor) (hr : walker.retries = maxRetries)
    (tail : Tail p limit cursor parts errors) :
    Onward p limit faults walker (p.visitsOf g faults parts) errors
  | atEnd (hp : walker.phase = .finished (.ok .exhausted)) : Onward p limit faults walker [] []

namespace Onward

theorem finished {result : Except MemoryError Ending}
    (h : Onward p limit faults walker visits errors) (hp : walker.phase = .finished result) :
    result = .ok .exhausted ∧ visits = [] ∧ errors = [] := by
  cases h with
  | between hp' => cases hp.symm.trans hp'
  | atEnd hp' =>
    cases hp.symm.trans hp'
    exact ⟨rfl, rfl, rfl⟩
  | within h tail => exact absurd hp h.not_finished

theorem proceed {w : Window g} {bytes : Bytes w.size}
    (h : Onward p limit faults walker visits errors) (hp : walker.phase = .delivering w bytes) :
    ∃ rest, visits = .ok ⟨w.address, bytes.val⟩ :: rest ∧
      Onward p limit faults (walker.proceed w .goOn) rest errors := by
  cases h with
  | between hp' => cases hp.symm.trans hp'
  | atEnd hp' => cases hp.symm.trans hp'
  | within h tail =>
    obtain ⟨rest, rfl, hrest⟩ := h.proceed hp
    exact ⟨_, rfl, .within hrest tail⟩

structure Advances (p : SegmentedProcess) (limit : Option Address) (walker : Walker g)
    (visits : List Visit) (errors : List MemoryError) (faults' : List Fault) (walker' : Walker g)
    (losses soft : List MemoryError) (rest : List Visit) (errors' : List MemoryError) : Prop where
  split : visits = losses.map .error ++ rest
  errors_eq : errors = soft ++ errors'
  softErrors : walker'.softErrors = walker.softErrors ++ losses ++ soft
  onward : Onward p limit faults' walker' rest errors'

/-- At its limit a walk is over. -/
theorem seek_limit {σ : Type} (t : Target σ) (cursor : Address) (s : σ) :
    walker.seek t (some cursor) cursor s = (walker.enter (.finished (.ok .exhausted)), s, []) := by
  refine if_pos ?_
  rw [Option.any_some]
  exact decide_eq_true (Nat.le_refl _)

/-- Where no region is left, the walk is over. -/
theorem seek_nothing {σ : Type} {t : Target σ} {cursor : Address} {s s' : σ}
    (h : t.lookup cursor s = (⟨.ok none, errors⟩, s')) (walker : Walker g) :
    let sought := walker.seek t none cursor s
    sought.1.phase = .finished (.ok .exhausted) ∧
      sought.1.softErrors = walker.softErrors ++ errors ∧ sought.2.1 = s' := by
  simp [seek, h]

/-- The region found at the cursor gives the first window of its part. -/
theorem seek_part {σ : Type} {t : Target σ} {cursor : Address} {region part : Region}
    {soft : List MemoryError} {s s' : σ}
    (h : t.lookup cursor s = (⟨.ok (some region), soft⟩, s'))
    (hstart : part.start = max region.start cursor) (hstop : part.stop = region.stop)
    (hne : part.start < part.stop) (walker : Walker g) :
    let sought := walker.seek t none cursor s
    sought.1.phase = .reading (Window.first g part.start part.stop hne) ∧
      sought.1.softErrors = walker.softErrors ++ soft ∧ sought.1.retries = walker.retries ∧
      sought.2.1 = s' := by
  have hspan : max region.start cursor < region.stop := hstart ▸ hstop ▸ hne
  have hpast : ¬region.stop ≤ cursor := fun hle =>
    Nat.not_lt_of_le hle (Nat.lt_of_le_of_lt (Address.le_max_right region.start cursor) hspan)
  simp [seek, h, hpast, spanStop, hspan, hstart, hstop]

/-- A walker between two parts looks up the next one. -/
theorem ask_between (choose : Nat → Nat) {cursor : Address} {parts : List Region}
    (hphase : walker.phase = .seeking cursor) (hr : walker.retries = maxRetries)
    (tail : Tail p limit cursor parts errors) :
    let asked := walker.ask (p.targetChoosing choose) limit s
    ∃ losses soft rest errors',
      Advances p limit walker (p.visitsOf g s.faults parts) errors asked.2.1.faults asked.1 losses
        soft rest errors' := by
  have heq : walker.ask (p.targetChoosing choose) limit s =
      walker.seek (p.targetChoosing choose) limit cursor s := by simp only [ask, hphase]
  simp only [heq]
  cases tail with
  | reached =>
    rw [seek_limit]
    exact ⟨[], [], [], [], rfl, rfl, by simp, .atEnd rfl⟩
  | endless h =>
    cases h with
    | nil h =>
      have hlookup : (p.targetChoosing choose).lookup cursor s = (⟨.ok none, errors⟩, s) :=
        congrArg (·, s) h
      obtain ⟨hphase', hsoft, hstate⟩ := seek_nothing hlookup walker
      exact ⟨[], errors, [], [], rfl, by simp, by simpa using hsoft, .atEnd hphase'⟩
    | @cons _ region part rest soft errors h hstart hstop toEnd above tail =>
      have hlookup : (p.targetChoosing choose).lookup cursor s = (⟨.ok (some region), soft⟩, s) :=
        congrArg (·, s) h
      obtain ⟨hphase', hsoft, hretries, hstate⟩ :=
        seek_part hlookup hstart hstop toEnd.nonempty walker
      refine ⟨[], soft, p.visitsOf g s.faults (part :: rest), errors, rfl, rfl, ?_, ?_⟩
      · simpa using hsoft
      · rw [hstate]
        exact .within (.starting toEnd (.inl hphase') (hretries.trans hr)) (.endless tail)

/-- A query takes a walker on. -/
theorem ask (hp : p.Fits) (choose : Nat → Nat) (h : Onward p limit s.faults walker visits errors)
    (hask : walker.isAsking) :
    let asked := walker.ask (p.targetChoosing choose) limit s
    ∃ losses soft rest errors',
      Advances p limit walker visits errors asked.2.1.faults asked.1 losses soft rest errors' := by
  cases h with
  | atEnd hphase => simp [isAsking, hphase] at hask
  | between hphase hr tail => exact ask_between choose hphase hr tail
  | @within low stop visits parts errors h tail =>
    by_cases hne : walker.phase = .seeking stop
    · obtain ⟨rfl, hr⟩ := h.eq_nil_of_seeking hne
      exact ask_between choose hne hr tail
    · have hlimit : ∀ l ∈ limit, l = stop := by
        cases tail with
        | endless h => exact fun l hl => absurd hl (Option.not_mem_none l)
        | reached => exact fun l hl => (Option.some.inj hl).symm
      obtain ⟨losses, rest, rfl, hsoft, hahead, hbeside⟩ := h.ask hp choose hlimit hask hne
      refine ⟨losses, [], rest ++ p.visitsOf g s.faults parts, errors, ?_, rfl, ?_, ?_⟩
      · rw [List.append_assoc]
      · rw [hsoft, List.append_nil]
      · rw [← visitsOf_congr fun r hr => hbeside.between (.inr (tail.cursor_le r hr))]
        exact .within hahead tail

end Onward
end Walker

def feed {β : Type} (receive : Receiver β) (receiver : β) : List Chunk → β × Verdict
  | [] => (receiver, .goOn)
  | chunk :: rest =>
    match receive receiver chunk with
    | (receiver, .goOn) => feed receive receiver rest
    | (receiver, .stop) => (receiver, .stop)

theorem feed_keepAll (chunks kept : List Chunk) :
    feed keepAll kept chunks = (kept ++ chunks, .goOn) := by
  induction chunks generalizing kept with
  | nil => rw [feed, List.append_nil]
  | cons chunk rest ih =>
    rw [feed, keepAll]
    simp only [ih, List.append_assoc, List.singleton_append]

namespace Walker.Course

open SegmentedProcess

variable {g : Grid} {β : Type} {p : SegmentedProcess} {limit : Option Address}
  {receive : Receiver β} {visits : List Visit} {errors : List MemoryError}

theorem step_asking {σ : Type} (t : Target σ) (limit : Option Address) (receive : Receiver β)
    {c : Course g σ β} (h : c.walker.isAsking) :
    let asked := c.walker.ask t limit c.state
    let stepped := c.step t limit receive
    stepped.walker = asked.1 ∧ stepped.state = asked.2.1 ∧ stepped.receiver = c.receiver := by
  cases hp : c.walker.phase with
  | delivering w bytes => simp [isAsking, hp] at h
  | _ => simp only [step, hp, and_self]

/-- What a walk from `c` on comes to, where `visits` and `errors` are still to come. -/
structure Fulfils (receive : Receiver β) (c : Course g Wear β) (visits : List Visit)
    (errors : List MemoryError) (ran : Except MemoryError Ending × Course g Wear β) : Prop where
  receiver : ran.2.receiver = (feed receive c.receiver (shownOf visits)).1
  stopped : (feed receive c.receiver (shownOf visits)).2 = .stop → ran.1 = .ok .stopped
  exhausted : (feed receive c.receiver (shownOf visits)).2 = .goOn → ran.1 = .ok .exhausted ∧
    ran.2.walker.softErrors.Perm (c.walker.softErrors ++ lossesOf visits ++ errors)

section
variable {c d : Course g Wear β} {rest : List Visit} {losses soft errors' : List MemoryError}
  {ran : Except MemoryError Ending × Course g Wear β}

theorem Fulfils.asked (hd : d.receiver = c.receiver)
    (ha : Onward.Advances p limit c.walker visits errors d.state.faults d.walker losses soft rest
      errors') (h : Fulfils receive d rest errors' ran) : Fulfils receive c visits errors ran := by
  obtain ⟨rfl, rfl, hsoft, -⟩ := ha
  obtain ⟨hreceiver, hstopped, hexhausted⟩ := h
  rw [hd] at hreceiver hstopped hexhausted
  have hshown : shownOf (losses.map .error ++ rest) = shownOf rest := by
    rw [shownOf_append, shownOf_lost, List.nil_append]
  refine ⟨by rwa [hshown], by rwa [hshown], fun hgo => ?_⟩
  rw [hshown] at hgo
  obtain ⟨hresult, hperm⟩ := hexhausted hgo
  refine ⟨hresult, hperm.trans ?_⟩
  -- The losses and the lookups' errors change places.
  rw [hsoft, lossesOf_append, lossesOf_lost]
  simp only [List.append_assoc]
  refine .append_left _ (.append_left _ ?_)
  simp only [← List.append_assoc]
  exact .append_right _ List.perm_append_comm

theorem Fulfils.handedOver {w : Window g} {bytes : Bytes w.size} {receiver : β}
    (hv : receive c.receiver ⟨w.address, bytes.val⟩ = (receiver, .goOn))
    (h : Fulfils receive { c with walker := c.walker.proceed w .goOn, receiver } rest errors ran) :
    Fulfils receive c (.ok ⟨w.address, bytes.val⟩ :: rest) errors ran := by
  have hfeed : feed receive c.receiver (shownOf (.ok ⟨w.address, bytes.val⟩ :: rest)) =
      feed receive receiver (shownOf rest) := by
    rw [shownOf_shown, feed, hv]
  obtain ⟨hreceiver, hstopped, hexhausted⟩ := h
  rw [proceed_softErrors] at hexhausted
  exact ⟨by rwa [hfeed], by rwa [hfeed], by rwa [hfeed]⟩

end

/-- A walk comes to what is foreseen. -/
theorem run_fulfils (hp : p.Fits) (choose : Nat → Nat) (receive : Receiver β)
    (c : Course g Wear β)
    (h : Walker.Onward p limit c.state.faults c.walker visits errors) :
    Fulfils receive c visits errors (run (p.targetChoosing choose) limit receive c) := by
  fun_induction run (p.targetChoosing choose) limit receive c generalizing visits errors with
  | case1 c result hr =>
    have hphase : c.walker.phase = .finished result := by
      cases hphase : c.walker.phase <;> simp_all [result?]
    obtain ⟨rfl, rfl, rfl⟩ := h.finished hphase
    refine ⟨rfl, fun hstop => ?_, fun _ => ⟨rfl, by simp [lossesOf]⟩⟩
    cases hstop
  | case2 c hr ih =>
    have hasked (hask : c.walker.isAsking) : Fulfils receive c visits errors
        (run (p.targetChoosing choose) limit receive
          (c.step (p.targetChoosing choose) limit receive)) := by
      obtain ⟨losses, soft, rest, errors', ha⟩ := h.ask hp choose hask
      obtain ⟨hwalker, hstate, hreceiver⟩ :=
        step_asking (p.targetChoosing choose) limit receive hask
      rw [← hwalker, ← hstate] at ha
      exact (ih ha.onward).asked hreceiver ha
    cases hphase : c.walker.phase with
    | seeking cursor => exact hasked (by rw [isAsking, hphase])
    | reading w => exact hasked (by rw [isAsking, hphase])
    | finished result => simp [result?, hphase] at hr
    | delivering w bytes =>
      obtain ⟨rest, rfl, hrest⟩ := h.proceed hphase
      rw [step_delivering hphase] at ih ⊢
      rcases hv : receive c.receiver ⟨w.address, bytes.val⟩ with ⟨receiver, verdict⟩
      simp only [hv] at ih ⊢
      cases verdict with
      | goOn => exact (ih hrest).handedOver hv
      | stop =>
        have hfeed : feed receive c.receiver (shownOf (.ok ⟨w.address, bytes.val⟩ :: rest)) =
            (receiver, .stop) := by
          rw [shownOf_shown, feed, hv]
        rw [run_of_finished rfl]
        refine ⟨by rw [hfeed], fun _ => rfl, fun hgo => ?_⟩
        rw [hfeed] at hgo
        cases hgo

end Walker.Course

open Walker Walker.Course SegmentedProcess

variable {g : Grid} {β : Type} {p : SegmentedProcess} {w : Wear}

/-- A walk without a limit goes through all the parts. -/
theorem walkGrid_fulfils (hp : p.Fits) (choose : Nat → Nat) {start : Address}
    {parts : List Region} {errors : List MemoryError} (h : Parts p start parts errors)
    (receive : Receiver β) (receiver : β) (w : Wear) :
    ∃ ran, walkGrid (p.targetChoosing choose) g start none receive receiver w =
        ran.2.report ran.1 ∧
      Fulfils receive (starting (p.targetChoosing choose) g start receiver w)
        (p.visitsOf g w.faults parts) errors ran :=
  ⟨_, rfl, run_fulfils hp choose receive _ (.between rfl rfl (.endless h))⟩

/-- A walk up to the stop of a part hands over what is shown of that part. -/
theorem walkGrid_part (hp : p.Fits) (choose : Nat → Nat) {r : Region} (h : r.ToEnd p.memory)
    (w : Wear) :
    (walkGrid (p.targetChoosing choose) g r.start (some r.stop) keepAll [] w).2 =
      shownOf (p.partVisits g w.faults r) := by
  let c : Course g Wear (List Chunk) := starting (p.targetChoosing choose) g r.start [] w
  have hahead : Ahead p r.start.toNat r.stop w.faults c.walker (p.partVisits g w.faults r) :=
    .starting h (.inr rfl) rfl
  have hkept := (run_fulfils hp choose keepAll c (.within hahead (.reached r.stop))).receiver
  rw [feed_keepAll] at hkept
  simpa [visitsOf, c, starting, walkGrid, report] using hkept

end ProcessMemory
