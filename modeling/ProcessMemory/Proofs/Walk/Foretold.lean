import ProcessMemory.Proofs.Walk.Parts

/-!
# Walks that can be foretold

A target with one state only answers by the question alone, so what a walker will hand over, and how
its walk will end, is settled by where it is (`Foretold`). A walk without a limit goes through a
part of memory as one that is confined to it does (`Foretold.extends`), and so it hands over what
the walks of all parts do, one after another (`Gathers`). Only where a lookup fails may they differ:
the walk of a part begins with a lookup that the other one does not make.
-/
namespace ProcessMemory

def Target.finds (t : Target Unit) (a : Address) : Outcome (Option Region) := (t.lookup a ()).1

theorem Target.lookup_eq_finds (t : Target Unit) (a : Address) (s : Unit) :
    t.lookup a s = (t.finds a, s) := rfl

namespace Walker

variable {g : Grid} {t : Target Unit} {limit : Option Address} {w w' : Walker g}
  {chunks chunks' : List Chunk} {result result' : Except MemoryError Ending}

/-- A walk that is not stopped hands over `chunks` from here on, and ends with `result`. -/
inductive Foretold (t : Target Unit) (limit : Option Address) :
    Walker g → List Chunk → Except MemoryError Ending → Prop where
  | finished {w : Walker g} {result : Except MemoryError Ending}
    (hp : w.phase = .finished result) : Foretold t limit w [] result
  | asking {w : Walker g} {chunks : List Chunk} {result : Except MemoryError Ending}
    (hask : w.isAsking) (rest : Foretold t limit (w.ask t limit ()).1 chunks result) :
    Foretold t limit w chunks result
  | delivering {w : Walker g} {window : Window g} {bytes : Bytes window.size} {chunks : List Chunk}
    {result : Except MemoryError Ending} (hp : w.phase = .delivering window bytes)
    (rest : Foretold t limit (w.proceed window .goOn) chunks result) :
    Foretold t limit w (⟨window.address, bytes.val⟩ :: chunks) result

theorem exists_foretold (t : Target Unit) (limit : Option Address) (w : Walker g) :
    ∃ chunks result, Foretold t limit w chunks result := by
  induction hn : w.remaining using Nat.strongRecOn generalizing w with
  | ind n ih =>
    have hasked (hask : w.isAsking) : ∃ chunks result, Foretold t limit w chunks result := by
      have hlt := remaining_ask_lt t limit () hask
      obtain ⟨chunks, result, h⟩ := ih _ (hn ▸ hlt) _ rfl
      exact ⟨chunks, result, .asking hask h⟩
    cases hp : w.phase with
    | seeking cursor => exact hasked (by rw [isAsking, hp])
    | reading window => exact hasked (by rw [isAsking, hp])
    | finished result => exact ⟨[], result, .finished hp⟩
    | delivering window bytes =>
      have hlt := remaining_proceed_lt w window .goOn
      have heq : w.remaining = (0x1_0000_0000_0000_0000 - window.address.toNat) * 16 := by
        simp only [remaining, hp]
      rw [← heq, hn] at hlt
      obtain ⟨chunks, result, h⟩ := ih _ hlt _ rfl
      exact ⟨_, result, .delivering hp h⟩

namespace Foretold

theorem of_asking (h : Foretold t limit w chunks result) (hask : w.isAsking) :
    Foretold t limit (w.ask t limit ()).1 chunks result := by
  cases h with
  | finished hp => simp [isAsking, hp] at hask
  | delivering hp rest => simp [isAsking, hp] at hask
  | asking _ rest => exact rest

theorem of_delivering {window : Window g} {bytes : Bytes window.size}
    (h : Foretold t limit w chunks result) (hp : w.phase = .delivering window bytes) :
    ∃ rest, chunks = ⟨window.address, bytes.val⟩ :: rest ∧
      Foretold t limit (w.proceed window .goOn) rest result := by
  cases h with
  | finished hp' => cases hp.symm.trans hp'
  | asking hask rest => simp [isAsking, hp] at hask
  | delivering hp' rest =>
    cases hp.symm.trans hp'
    exact ⟨_, rfl, rest⟩

theorem of_finished {ended : Except MemoryError Ending} (h : Foretold t limit w chunks result)
    (hp : w.phase = .finished ended) : chunks = [] ∧ result = ended := by
  cases h with
  | finished hp' =>
    cases hp.symm.trans hp'
    exact ⟨rfl, rfl⟩
  | asking hask rest => simp [isAsking, hp] at hask
  | delivering hp' rest => cases hp.symm.trans hp'

theorem unique (h : Foretold t limit w chunks result) (h' : Foretold t limit w chunks' result') :
    chunks' = chunks ∧ result' = result := by
  induction h generalizing chunks' with
  | finished hp => exact h'.of_finished hp
  | asking hask rest ih => exact ih (h'.of_asking hask)
  | delivering hp rest ih =>
    obtain ⟨chunks', rfl, hrest⟩ := h'.of_delivering hp
    obtain ⟨rfl, rfl⟩ := ih hrest
    exact ⟨rfl, rfl⟩

end Foretold

structure Alike (w w' : Walker g) : Prop where
  phase : w'.phase = w.phase
  retries : w'.retries = w.retries

theorem Alike.ask {σ : Type} (h : w.Alike w') (t : Target σ) (limit : Option Address) (s : σ) :
    (w.ask t limit s).1.Alike (w'.ask t limit s).1 := by
  obtain ⟨phase, retries, soft, hr⟩ := w
  obtain ⟨phase', retries', soft', hr'⟩ := w'
  obtain ⟨hphase, hretries⟩ := h
  cases hphase
  cases hretries
  cases phase with
  | delivering window bytes => exact ⟨rfl, rfl⟩
  | finished result => exact ⟨rfl, rfl⟩
  | reading window =>
    rcases hq : t.read window.address window.size s with ⟨⟨result, errors⟩, s'⟩
    simp only [Walker.ask, fetch, hq]
    cases result with
    | ok bytes => exact ⟨rfl, rfl⟩
    | error error =>
      simp only [recover, collect]
      by_cases hpos : 0 < retries
      · simp only [hpos, if_true]
        exact ⟨rfl, rfl⟩
      · simp only [hpos, if_false]
        exact ⟨rfl, rfl⟩
  | seeking cursor =>
    simp only [Walker.ask, seek, collect, enter]
    split
    · exact ⟨rfl, rfl⟩
    · split
      · exact ⟨rfl, rfl⟩
      · exact ⟨rfl, rfl⟩
      · split
        · exact ⟨rfl, rfl⟩
        · split <;> exact ⟨rfl, rfl⟩

theorem Alike.proceed (h : w.Alike w') (window : Window g) (verdict : Verdict) :
    (w.proceed window verdict).Alike (w'.proceed window verdict) where
  phase := proceed_phase w w' window verdict
  retries := by rw [proceed_retries, proceed_retries, h.retries]

/-- What is foretold does not depend on the soft errors kept so far. -/
theorem Foretold.alike (h : Foretold t limit w chunks result) (ha : w.Alike w') :
    Foretold t limit w' chunks result := by
  induction h generalizing w' with
  | finished hp => exact .finished (ha.phase.trans hp)
  | asking hask rest ih =>
    refine .asking ?_ (ih (ha.ask t limit ()))
    rwa [isAsking, ha.phase]
  | delivering hp rest ih => exact .delivering (ha.phase.trans hp) (ih (ha.proceed _ _))

/-- The receiver is given what is foretold until it asks to stop. -/
theorem Foretold.run {β : Type} {c : Course g Unit β}
    (h : Foretold t limit c.walker chunks result) (receive : Receiver β) :
    let ran := Walker.run t limit receive c
    let fed := feed receive c.receiver chunks
    ran.2.receiver = fed.1 ∧ (fed.2 = .goOn → ran.1 = result) ∧
      (fed.2 = .stop → ran.1 = .ok .stopped) := by
  generalize hw : c.walker = w at h
  induction h generalizing c with
  | finished hp =>
    rw [← hw] at hp
    rw [Course.run_of_finished hp]
    exact ⟨rfl, fun _ => rfl, fun hstop => by cases hstop⟩
  | asking hask rest ih =>
    subst hw
    obtain ⟨hwalker, -, hreceiver⟩ := Course.step_asking t limit receive hask
    rw [← Course.run_step, ← hreceiver]
    exact ih hwalker
  | @delivering w window bytes chunks result hp rest ih =>
    subst hw
    rw [← Course.run_step, Course.step_delivering hp, feed]
    rcases hv : receive c.receiver ⟨window.address, bytes.val⟩ with ⟨receiver, verdict⟩
    cases verdict with
    | goOn => exact ih rfl
    | stop =>
      rw [Course.run_of_finished rfl]
      refine ⟨rfl, fun hgo => ?_, fun _ => rfl⟩
      cases hgo

/-- A lookup that fails ends the walk. -/
theorem seek_failed {σ : Type} {t : Target σ} {limit : Option Address} {cursor : Address} {s : σ}
    {error : MemoryError} (h : (t.lookup cursor s).1.result = .error error)
    (hlimit : limit.any (· ≤ cursor) = false) (w : Walker g) :
    let sought := w.seek t limit cursor s
    sought.1.phase = .finished (.error error) ∧ sought.1.retries = w.retries := by
  simp [seek, h, hlimit]

section
variable {m : Memory} {stop : Address} {window : Window g}

/-- What lies past a window of a part lies in the part. -/
theorem lies_past (hw : window.Lies m none) (h : window.address.advance window.size < window.stop) :
    (Window.first g _ _ h).Lies m none := by
  refine ⟨fun n h1 h2 => hw.readable n ?_ h2, hw.closed⟩
  rw [Window.first_address, window.toNat_advance_size] at h1
  exact Nat.le_trans (Nat.le_add_right _ _) h1

/-- A walker is in the part that stops at `stop`, has just left it, or has met a failing lookup. -/
inductive InPart (t : Target Unit) (m : Memory) (stop : Address) (w : Walker g) : Prop where
  | seeking {window : Window g} (hp : w.phase = .seeking window.address)
    (hw : window.Lies m none) (hstop : window.stop = stop) : InPart t m stop w
  | reading {window : Window g} (hp : w.phase = .reading window) (hw : window.Lies m none)
    (hstop : window.stop = stop) : InPart t m stop w
  | delivering {window : Window g} {bytes : Bytes window.size}
    (hp : w.phase = .delivering window bytes) (hw : window.Lies m none)
    (hstop : window.stop = stop) (hr : w.retries = maxRetries) : InPart t m stop w
  | passed (hp : w.phase = .seeking stop) (hr : w.retries = maxRetries) : InPart t m stop w
  | failed {a : Address} {error : MemoryError} (hl : (t.finds a).result = .error error)
    (hp : w.phase = .finished (.error error)) : InPart t m stop w

theorem InPart.seek (hc : Charts t.finds m) (hw : window.Lies m none) (w : Walker g) :
    let sought := w.seek t (some window.stop) window.address ()
    sought.1.InPart t m window.stop ∧ sought.1.Alike (w.seek t none window.address ()).1 := by
  have hlimit : ∀ l ∈ some window.stop, l = window.stop := fun l hl => (Option.some.inj hl).symm
  cases hl : (t.finds window.address).result with
  | error error =>
    obtain ⟨hphase, hretries⟩ := seek_failed hl (window.any_le_eq_false hlimit) w
    obtain ⟨hphase', hretries'⟩ := seek_failed hl Option.any_none w
    exact ⟨.failed hl hphase, hphase'.trans hphase.symm, hretries'.trans hretries.symm⟩
  | ok found =>
    have hfound := hc.found hl
    rw [← hl] at hfound
    obtain ⟨hphase, -, hretries⟩ := Course.seek_found hw hlimit hfound w
    have hnone : ∀ l ∈ (none : Option Address), l = window.stop := nofun
    obtain ⟨hphase', -, hretries'⟩ := Course.seek_found hw hnone hfound w
    exact ⟨.reading hphase hw rfl, hphase'.trans hphase.symm, hretries'.trans hretries.symm⟩

theorem InPart.fetch (t : Target Unit) (hw : window.Lies m none) (w : Walker g) :
    (w.fetch t window ()).1.InPart t m window.stop := by
  rcases hq : t.read window.address window.size () with ⟨⟨result, errors⟩, s⟩
  simp only [Walker.fetch, hq]
  cases result with
  | ok bytes => exact .delivering rfl hw rfl rfl
  | error error =>
    simp only [recover]
    by_cases hr : 0 < (w.collect errors).retries
    · simp only [hr, if_true]
      exact .seeking rfl hw rfl
    · simp only [hr, if_false]
      have hfits : (window.address.advance window.size).toNat ≤ window.stop.toNat := by
        rw [window.toNat_advance_size]
        exact window.fits
      rcases Nat.lt_or_eq_of_le hfits with hlt | heq
      · refine .seeking ?_ (lies_past hw hlt) rfl
        rfl
      · exact .passed (congrArg Phase.seeking (Address.ext heq)) rfl

/-- A query keeps a walker in its part, whether the walk is confined to it or not. -/
theorem InPart.ask (hc : Charts t.finds m) (h : w.InPart t m stop) (hask : w.isAsking) :
    (w.phase = .seeking stop ∧ w.retries = maxRetries) ∨
      (w.ask t (some stop) ()).1.InPart t m stop ∧
        (w.ask t (some stop) ()).1.Alike (w.ask t none ()).1 := by
  cases h with
  | delivering hp => simp [isAsking, hp] at hask
  | failed hl hp => simp [isAsking, hp] at hask
  | passed hp hr => exact .inl ⟨hp, hr⟩
  | seeking hp hw hstop =>
    subst hstop
    simp only [Walker.ask, hp]
    exact .inr (InPart.seek hc hw w)
  | reading hp hw hstop =>
    subst hstop
    simp only [Walker.ask, hp]
    exact .inr ⟨.fetch t hw w, rfl, rfl⟩

theorem InPart.proceed {bytes : Bytes window.size} (h : w.InPart t m stop)
    (hp : w.phase = .delivering window bytes) : (w.proceed window .goOn).InPart t m stop := by
  cases h with
  | seeking hp' => cases hp.symm.trans hp'
  | reading hp' => cases hp.symm.trans hp'
  | passed hp' => cases hp.symm.trans hp'
  | failed hl hp' => cases hp.symm.trans hp'
  | delivering hp' hw hstop hr =>
    cases hp.symm.trans hp'
    simp only [Walker.proceed]
    cases hn : window.next? with
    | some next => exact .reading rfl (hw.next hn) ((Window.stop_of_next? hn).trans hstop)
    | none => exact .passed (congrArg Phase.seeking hstop) hr

/-- What the walk confined to a part, which hands over `chunks` and ends with `result`, says of the
walk without a limit. -/
inductive Extends (t : Target Unit) (stop : Address) (w : Walker g) (chunks : List Chunk) :
    Except MemoryError Ending → Prop where
  | failed {a : Address} {error : MemoryError} (hl : (t.finds a).result = .error error)
    (h : Foretold t none w chunks (.error error)) : Extends t stop w chunks (.error error)
  /-- The walk goes on past the part as any walk does from there. -/
  | passed (h : ∀ {more : List Chunk} {result : Except MemoryError Ending},
      (∀ w' : Walker g, w'.phase = .seeking stop → w'.retries = maxRetries →
        Foretold t none w' more result) → Foretold t none w (chunks ++ more) result) :
    Extends t stop w chunks (.ok .exhausted)

theorem Foretold.extends (hc : Charts t.finds m)
    (h : Foretold t (some stop) w chunks result) (hw : w.InPart t m stop) :
    Extends t stop w chunks result := by
  induction h with
  | finished hp =>
    cases hw with
    | seeking hp' => cases hp.symm.trans hp'
    | reading hp' => cases hp.symm.trans hp'
    | delivering hp' => cases hp.symm.trans hp'
    | passed hp' => cases hp.symm.trans hp'
    | failed hl hp' =>
      cases hp.symm.trans hp'
      exact .failed hl (.finished hp)
  | @asking w chunks result hask rest ih =>
    rcases hw.ask hc hask with ⟨hp, hr⟩ | ⟨hin, halike⟩
    · -- At its limit the confined walk is over.
      have hover : w.ask t (some stop) () = (w.enter (.finished (.ok .exhausted)), (), []) := by
        simp only [Walker.ask, hp]
        exact Onward.seek_limit t stop ()
      rw [hover] at rest
      obtain ⟨rfl, rfl⟩ := rest.of_finished rfl
      exact .passed fun hmore => hmore _ hp hr
    · cases ih hin with
      | failed hl h => exact .failed hl (.asking hask (h.alike halike))
      | passed h => exact .passed fun hmore => .asking hask ((h hmore).alike halike)
  | delivering hp rest ih =>
    cases ih (hw.proceed hp) with
    | failed hl h => exact .failed hl (.delivering hp h)
    | passed h => exact .passed fun hmore => .delivering hp (h hmore)

end

abbrev PartForetold (t : Target Unit) (g : Grid) (r : Region) :
    List Chunk → Except MemoryError Ending → Prop :=
  Foretold t (some r.stop) (startingAt g r.start)

section
variable {m : Memory} {r : Region} {rest : List Region} {own : List Chunk}
  {ended : Except MemoryError Ending}

/-- Where no lookup fails, a part is walked to its end. -/
theorem PartForetold.exhausted (hc : Charts t.finds m) (hr : r.ToEnd m)
    (hok : ∀ a error, (t.finds a).result ≠ .error error) (h : PartForetold t g r own ended) :
    ended = .ok .exhausted := by
  have hin : (startingAt g r.start).InPart t m r.stop := by
    refine .seeking ?_ (hr.lies_first g) rfl
    rfl
  cases h.extends hc hin with
  | failed hl h => exact absurd hl (hok _ _)
  | passed h => rfl

/-- The walk of a part begins with a lookup. Where that does not fail, it goes on as any walk does
that is about to read the first window of the part. -/
theorem PartForetold.own_eq (hc : Charts t.finds m) (hr : r.ToEnd m)
    (hp : w.phase = .reading (Window.first g r.start r.stop hr.nonempty))
    (hretries : w.retries = maxRetries) (hw : Foretold t (some r.stop) w chunks result)
    (h : PartForetold t g r own ended) :
    (own = [] ∧ ∃ error, ended = .error error) ∨ (own = chunks ∧ ended = result) := by
  have hlies := hr.lies_first g
  have hlimit : ∀ l ∈ some r.stop, l = (Window.first g r.start r.stop hr.nonempty).stop :=
    fun l hl => (Option.some.inj hl).symm
  have hrest := h.of_asking rfl
  cases hl : (t.finds r.start).result with
  | error error =>
    obtain ⟨hphase, -⟩ := seek_failed hl (Window.any_le_eq_false _ hlimit) (startingAt g r.start)
    obtain ⟨hown, hended⟩ := hrest.of_finished hphase
    exact .inl ⟨hown, error, hended⟩
  | ok found =>
    have hfound := hc.found hl
    rw [← hl] at hfound
    obtain ⟨hphase, -, hretries'⟩ := Course.seek_found hlies hlimit hfound (startingAt g r.start)
    exact .inr (hw.unique (hrest.alike ⟨hp.trans hphase.symm, hretries.trans hretries'.symm⟩))

/-- A walk that hands over `chunks` and ends with `result` goes through these parts. -/
structure Gathers (t : Target Unit) (g : Grid) (parts : List Region) (chunks : List Chunk)
    (result : Except MemoryError Ending) : Prop where
  /-- Where all parts can be walked to their ends, so can all of memory. -/
  exhausted : (∀ r ∈ parts, ∃ own, PartForetold t g r own (.ok .exhausted)) →
    result = .ok .exhausted ∧
      ∀ chunk ∈ chunks, ∃ r ∈ parts, ∃ own, PartForetold t g r own (.ok .exhausted) ∧ chunk ∈ own
  /-- Where the walk comes to the end of memory, it has handed over the chunks of all parts. -/
  each : ∀ ending, result = .ok ending → ∀ r ∈ parts, ∀ own ended, PartForetold t g r own ended →
    ∀ chunk ∈ own, chunk ∈ chunks

theorem gathers_nil (t : Target Unit) (g : Grid) : Gathers t g [] [] (.ok .exhausted) where
  exhausted _ := ⟨rfl, nofun⟩
  each _ _ := nofun

/-- The walk breaks off in the first part. -/
theorem gathers_failed {error : MemoryError}
    (h : ∀ own ended, PartForetold t g r own ended → ∃ error, ended = .error error) :
    Gathers t g (r :: rest) chunks (.error error) where
  exhausted hall := by
    obtain ⟨own, hown⟩ := hall r List.mem_cons_self
    obtain ⟨error, herror⟩ := h own _ hown
    cases herror
  each := nofun

theorem Gathers.cons {more : List Chunk} (hrest : Gathers t g rest more result)
    (h : ∀ own ended, PartForetold t g r own ended →
      (own = [] ∧ ∃ error, ended = .error error) ∨ (own = chunks ∧ ended = .ok .exhausted)) :
    Gathers t g (r :: rest) (chunks ++ more) result where
  exhausted hall := by
    obtain ⟨⟨own, hown⟩, hall⟩ := List.forall_mem_cons.1 hall
    obtain ⟨hresult, hmore⟩ := hrest.exhausted hall
    refine ⟨hresult, List.forall_mem_append.2 ⟨fun chunk hchunk => ?_, fun chunk hchunk => ?_⟩⟩
    · rcases h own _ hown with ⟨-, error, herror⟩ | ⟨rfl, -⟩
      · cases herror
      · exact ⟨r, List.mem_cons_self, own, hown, hchunk⟩
    · obtain ⟨r', hr', hown'⟩ := hmore chunk hchunk
      exact ⟨r', List.mem_cons_of_mem _ hr', hown'⟩
  each ending hresult := by
    refine List.forall_mem_cons.2 ⟨fun own ended hown chunk hchunk => ?_, ?_⟩
    · rcases h own ended hown with ⟨rfl, -⟩ | ⟨rfl, -⟩
      · cases hchunk
      · exact List.mem_append_left _ hchunk
    · intro r' hr' own ended hown chunk hchunk
      exact List.mem_append_right _ (hrest.each ending hresult r' hr' own ended hown chunk hchunk)

section
variable {cursor : Address} {region : Region} {regions : List Region}

/-- The regions listed give parts that reach to the ends of their runs. -/
theorem toEnd_of_lists (hc : Charts t.finds m) (h : Lists t.finds cursor regions) :
    ∀ r ∈ regions.filterMap (·.from? cursor), r.ToEnd m := by
  induction h with
  | nil => exact nofun
  | cons h reaches exact above tail ih =>
    cases hc.found h with
    | region hnext =>
      obtain ⟨part, hpart, -, -, htoEnd⟩ := hnext.part
      rw [List.filterMap_cons, hpart, Region.filterMap_from?_past reaches above]
      exact List.forall_mem_cons.2 ⟨htoEnd, ih⟩

theorem foretold_nothing (h : (t.finds cursor).result = .ok none) (hp : w.phase = .seeking cursor) :
    Foretold t none w [] (.ok .exhausted) := by
  have hlookup : t.lookup cursor () = (⟨.ok none, (t.finds cursor).softErrors⟩, ()) := by
    rw [t.lookup_eq_finds, ← h]
  obtain ⟨hphase, -⟩ := Onward.seek_nothing hlookup w
  refine .asking (by rw [isAsking, hp]) (.finished ?_)
  rwa [Walker.ask, hp]

/-- A walker that is to look up a region goes on as one that is about to read its first window. -/
theorem Foretold.entered (h : Foretold t none w chunks result)
    (hl : (t.finds cursor).result = .ok (some region)) (hstart : r.start = max region.start cursor)
    (hstop : r.stop = region.stop) (hne : r.start < r.stop)
    (hp : w.phase = .reading (Window.first g r.start r.stop hne)) (hr : w.retries = maxRetries)
    (hp' : w'.phase = .seeking cursor) (hr' : w'.retries = maxRetries) :
    Foretold t none w' chunks result := by
  have hlookup : t.lookup cursor () = (⟨.ok (some region), (t.finds cursor).softErrors⟩, ()) := by
    rw [t.lookup_eq_finds, ← hl]
  obtain ⟨hphase, -, hretries, -⟩ := Onward.seek_part hlookup hstart hstop hne w'
  refine .asking (by rw [isAsking, hp']) (h.alike ?_)
  rw [Walker.ask, hp']
  exact ⟨hphase.trans hp.symm, (hretries.trans hr').trans hr.symm⟩

/-- A walk goes through the parts of the regions that lookups list. -/
theorem exists_gathers (hc : Charts t.finds m) (g : Grid) (h : Lists t.finds cursor regions) :
    ∃ chunks result, Gathers t g (regions.filterMap (·.from? cursor)) chunks result ∧
      ∀ w : Walker g, w.phase = .seeking cursor → w.retries = maxRetries →
        Foretold t none w chunks result := by
  induction h with
  | nil h => exact ⟨[], .ok .exhausted, gathers_nil t g, fun w hp _ => foretold_nothing h hp⟩
  | @cons cursor region rest h reaches exact above tail ih =>
    cases hc.found h with
    | region hnext =>
      obtain ⟨part, hpart, hstart, hstop, htoEnd⟩ := hnext.part
      obtain ⟨more, result, hgathers, hmore⟩ := ih
      rw [List.filterMap_cons, hpart, Region.filterMap_from?_past reaches above]
      -- The part is gone through as by a walker that is confined to it.
      let first : Walker g :=
        ⟨.reading (Window.first g part.start part.stop htoEnd.nonempty), maxRetries, [],
          Nat.le_refl _⟩
      obtain ⟨own, ended, hown⟩ := exists_foretold t (some part.stop) first
      have hfirst (own' : List Chunk) (ended' : Except MemoryError Ending)
          (h' : PartForetold t g part own' ended') := h'.own_eq hc htoEnd rfl rfl hown
      have hin : first.InPart t m part.stop := .reading rfl (htoEnd.lies_first g) rfl
      cases hown.extends hc hin with
      | @failed a error hl hf =>
        refine ⟨own, .error error, gathers_failed fun own' ended' h' => ?_, fun w hp hr => ?_⟩
        · rcases hfirst own' ended' h' with ⟨-, herror⟩ | ⟨-, hended⟩
          · exact herror
          · exact ⟨error, hended⟩
        · exact hf.entered h hstart hstop htoEnd.nonempty rfl rfl hp hr
      | passed hf =>
        refine ⟨own ++ more, result, hgathers.cons hfirst, fun w hp hr => ?_⟩
        have hon := hf fun w' hp' hr' => hmore w' (hstop ▸ hp') hr'
        exact hon.entered h hstart hstop htoEnd.nonempty rfl rfl hp hr

end

end

end Walker
end ProcessMemory
