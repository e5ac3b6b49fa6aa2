import ProcessMemory.Proofs.Enumeration
import ProcessMemory.Proofs.Enumeration.Session
import ProcessMemory.Proofs.Walk.Chunks

/-!
# Walks and enumerations

On a target whose lookups depend on the address alone, a walk asks for the regions that an
enumeration lists, and both meet the same soft errors and the same hard one. There is one exception.
An enumeration takes a region that fills memory to the top for the last one. A walk looks up the
highest address once more, where the stop of that region is clamped, and is given it again.
-/
namespace ProcessMemory

/-- Byte for byte, the region holds the cursor or is the next one above. -/
structure Memory.Meets (m : Memory) (cursor : Address) (r : Region) : Prop where
  nonempty : 0 < r.size
  fits : r.start.toNat + r.size ≤ 0x1_0000_0000_0000_0000
  reaches : cursor.toNat < r.start.toNat + r.size
  readable : m.Readable r.start.toNat r.size
  first : ∀ n, cursor.toNat ≤ n → n < r.start.toNat → m n = none

/-- Lookups answer by the address alone. Those that do not fail keep their contract, and reads
inside of what they find succeed, with nothing to report. -/
structure Target.Faithful {σ : Type} (t : Target σ) (lookup : Address → Outcome (Option Region))
    (m : Memory) : Prop where
  fixed : ∀ a s, (t.lookup a s).1 = lookup a
  region : ∀ {a : Address} {r : Region}, (lookup a).result = .ok (some r) → m.Meets a r
  nothing : ∀ {a : Address}, (lookup a).result = .ok none → ∀ b : Address, a ≤ b →
    m b.toNat = none
  read : ∀ {a : Address} {r : Region}, (lookup a).result = .ok (some r) →
    ∀ (b : Address) (n : Nat) (s : σ), r.start ≤ b → b.toNat + n ≤ r.start.toNat + r.size →
      ∃ bytes, (t.read b n s).1 = .ok bytes

/-- The region fills memory from below the highest address up to it. -/
def Region.Tops (r : Region) : Prop :=
  r.start < Address.top ∧ r.start.toNat + r.size = 0x1_0000_0000_0000_0000

instance (r : Region) : Decidable r.Tops := inferInstanceAs (Decidable (_ ∧ _))

/-- What a walk comes to, next to what an enumeration does. -/
inductive Accords {σ : Type} (t : Target σ) (lookup : Address → Outcome (Option Region)) :
    Outcome (List Region) → Outcome Ending → Prop where
  | failed (error : MemoryError) (soft : List MemoryError) :
    Accords t lookup ⟨.error error, soft⟩ ⟨.error error, soft⟩
  | exhausted {regions : List Region} (h : ∀ r ∈ regions, ¬r.Tops) (soft : List MemoryError) :
    Accords t lookup ⟨.ok regions, soft⟩ ⟨.ok .exhausted, soft⟩
  | topped {regions : List Region} {error : MemoryError} (h : ∃ r ∈ regions, r.Tops)
    (hagain : Walker.Closes t none Address.top (lookup Address.top).result (.error error))
    (soft : List MemoryError) :
    Accords t lookup ⟨.ok regions, soft⟩
      ⟨.error error, soft ++ (lookup Address.top).softErrors⟩

section
variable {σ : Type} {t : Target σ} {lookup : Address → Outcome (Option Region)} {m : Memory}
  {cursor : Address} {listed : Outcome (List Region)}

/-- A region without an address past it reaches up to and including the highest one. -/
theorem Memory.Meets.full {region : Region} (h : m.Meets cursor region)
    (hn : region.next? = none) :
    region.start.toNat + region.size = 0x1_0000_0000_0000_0000 ∧ region.stop = Address.top := by
  have hfits := h.fits
  have hpast : ¬region.start.toNat + region.size < 0x1_0000_0000_0000_0000 := by
    intro hlt
    have hnext : region.next? = some ⟨_, hlt⟩ := Address.ofNat?_eq_some.2 rfl
    rw [hn] at hnext
    cases hnext
  have hfull : region.start.toNat + region.size = 0x1_0000_0000_0000_0000 := by omega
  refine ⟨hfull, ?_⟩
  rw [Address.ext_iff, Region.toNat_stop, Address.toNat_top]
  omega

theorem Accords.cons {walked : Outcome Ending} (h : Accords t lookup listed walked)
    {region : Region} (hr : ¬region.Tops) (soft : List MemoryError) :
    Accords t lookup ((listed.map (region :: ·)).after soft) (walked.after soft) := by
  cases h with
  | failed error soft' => exact .failed error _
  | exhausted h soft' => exact .exhausted (List.forall_mem_cons.2 ⟨hr, h⟩) _
  | topped h hagain soft' =>
    obtain ⟨r, hmem, htops⟩ := h
    rw [Outcome.after, Outcome.after, ← List.append_assoc]
    exact .topped ⟨r, List.mem_cons_of_mem _ hmem, htops⟩ hagain _

/-- What lookups from a cursor on come to, each at the stop of the region found before. -/
inductive Trail (t : Target σ) (lookup : Address → Outcome (Option Region)) :
    Address → Outcome (List Region) → Prop where
  | failed {cursor : Address} {error : MemoryError} (h : (lookup cursor).result = .error error) :
    Trail t lookup cursor ⟨.error error, (lookup cursor).softErrors⟩
  | misplaced {cursor : Address} {region : Region} (h : (lookup cursor).result = .ok (some region))
    (hr : region.stop ≤ cursor) :
    Trail t lookup cursor ⟨.error (t.misplaced region cursor), (lookup cursor).softErrors⟩
  | nothing {cursor : Address} (h : (lookup cursor).result = .ok none) :
    Trail t lookup cursor ⟨.ok [], (lookup cursor).softErrors⟩
  | last {cursor : Address} {region : Region} (h : (lookup cursor).result = .ok (some region))
    (hr : cursor < region.stop) (hn : region.next? = none) :
    Trail t lookup cursor ⟨.ok [region], (lookup cursor).softErrors⟩
  | more {cursor : Address} {region : Region} {listed : Outcome (List Region)}
    (h : (lookup cursor).result = .ok (some region)) (hr : cursor < region.stop)
    (hn : region.next? = some region.stop) (rest : Trail t lookup region.stop listed) :
    Trail t lookup cursor ((listed.map (region :: ·)).after (lookup cursor).softErrors)

theorem exists_trail (t : Target σ) (lookup : Address → Outcome (Option Region))
    (cursor : Address) : ∃ listed, Trail t lookup cursor listed := by
  induction hd : 0x1_0000_0000_0000_0000 - cursor.toNat using Nat.strongRecOn
    generalizing cursor with
  | ind d ih =>
    cases h : (lookup cursor).result with
    | error error => exact ⟨_, .failed h⟩
    | ok found =>
      cases found with
      | none => exact ⟨_, .nothing h⟩
      | some region =>
        by_cases hr : region.stop ≤ cursor
        · exact ⟨_, .misplaced h hr⟩
        · have hlt : cursor.toNat < region.stop.toNat := Nat.lt_of_not_le hr
          cases hn : region.next? with
          | none => exact ⟨_, .last h hlt hn⟩
          | some next =>
            have hstop := region.stop.isLt
            obtain ⟨listed, hrest⟩ := ih _ (by omega) region.stop rfl
            exact ⟨_, .more h hlt (Enumeration.next?_eq_stop hn ▸ hn) hrest⟩

open Enumeration in
/-- An enumeration comes to just that. -/
theorem Trail.collect (h : Trail t lookup cursor listed)
    (hl : ∀ a s, (t.lookup a s).1 = lookup a) (soft : List MemoryError) (s : σ)
    (found : List Region) (events : List Event) :
    (Enumeration.collect t ⟨some cursor, soft⟩ s found events).outcome =
      (listed.map (found ++ ·)).after soft := by
  have hasked (a : Address) (s : σ) : ∃ s', t.lookup a s = (lookup a, s') :=
    ⟨(t.lookup a s).2, Prod.ext (hl a s) rfl⟩
  induction h generalizing soft s found events with
  | @failed cursor error h =>
    obtain ⟨s', hq⟩ := hasked cursor s
    have hadv : advance t ⟨some cursor, soft⟩ s =
        ⟨some (.error error), ⟨none, soft ++ (lookup cursor).softErrors⟩, s', []⟩ := by
      simp only [advance, hq, h]
    rw [collect_of_failed hadv]
    rfl
  | @misplaced cursor region h hr =>
    obtain ⟨s', hq⟩ := hasked cursor s
    have hadv : advance t ⟨some cursor, soft⟩ s =
        ⟨some (.error (t.misplaced region cursor)),
          ⟨none, soft ++ (lookup cursor).softErrors⟩, s', []⟩ := by
      simp only [advance, hq, h, if_pos hr]
    rw [collect_of_failed hadv]
    rfl
  | @nothing cursor h =>
    obtain ⟨s', hq⟩ := hasked cursor s
    have hadv : advance t ⟨some cursor, soft⟩ s =
        ⟨none, ⟨none, soft ++ (lookup cursor).softErrors⟩, s', []⟩ := by
      simp only [advance, hq, h]
    rw [collect_of_end hadv]
    simp only [Outcome.map, Outcome.after, Except.map, List.append_nil]
  | @last cursor region h hr hn =>
    obtain ⟨s', hq⟩ := hasked cursor s
    have hadv := advance_found hq h hr soft
    rw [hn] at hadv
    rw [collect_of_region hadv, collect_of_end rfl]
    rfl
  | @more cursor region listed h hr hn rest ih =>
    obtain ⟨s', hq⟩ := hasked cursor s
    have hadv := advance_found hq h hr soft
    rw [hn] at hadv
    rw [collect_of_region hadv, ih]
    simp only [Outcome.map, Outcome.after, List.append_assoc]
    cases listed.result with
    | error error => rfl
    | ok regions => simp only [Except.map, List.singleton_append]

end

namespace Walker.Course

variable {g : Grid} {σ β : Type} {t : Target σ} {receive : Receiver β} {c : Course g σ β}
  {phase phase' : Phase g} {lookup : Address → Outcome (Option Region)} {m : Memory}
  {cursor : Address}

def Comes (t : Target σ) (receive : Receiver β) (c : Course g σ β) (phase : Phase g)
    (errors : List MemoryError) : Prop :=
  ∃ n, (after t none receive n c).walker.phase = phase ∧
    (after t none receive n c).walker.softErrors = c.walker.softErrors ++ errors

theorem Comes.trans {xs ys : List MemoryError} (h : Comes t receive c phase xs)
    (h' : ∀ d : Course g σ β, d.walker.phase = phase → Comes t receive d phase' ys) :
    Comes t receive c phase' (xs ++ ys) := by
  obtain ⟨n, hphase, hsoft⟩ := h
  obtain ⟨k, hphase', hsoft'⟩ := h' _ hphase
  refine ⟨n + k, ?_, ?_⟩
  · rwa [after_add]
  · rw [after_add, hsoft', hsoft, List.append_assoc]

theorem comes_of_step {errors : List MemoryError}
    (hphase : (c.step t none receive).walker.phase = phase)
    (hsoft : (c.step t none receive).walker.softErrors = c.walker.softErrors ++ errors) :
    Comes t receive c phase errors :=
  ⟨1, hphase, hsoft⟩

theorem comes_fetched {window : Window g} {bytes : Bytes window.size}
    (hread : (t.read window.address window.size c.state).1 = .ok bytes)
    (hp : c.walker.phase = .reading window) :
    Comes t receive c (.delivering window bytes) [] := by
  rcases hq : t.read window.address window.size c.state with ⟨answer, s'⟩
  rw [hq] at hread
  cases hread
  apply comes_of_step <;> simp [step, hp, ask, fetch, hq]

theorem comes_delivered {window : Window g} {bytes : Bytes window.size}
    (hgo : ∀ b chunk, (receive b chunk).2 = .goOn)
    (hp : c.walker.phase = .delivering window bytes) (w : Walker g) :
    Comes t receive c (w.proceed window .goOn).phase [] := by
  have hv := hgo c.receiver ⟨window.address, bytes.val⟩
  have hphase := proceed_phase c.walker w window .goOn
  apply comes_of_step <;> simp [step, hp, hv, hphase]

/-- A window whose read succeeds is handed over. -/
theorem comes_handed {window : Window g} (hgo : ∀ b chunk, (receive b chunk).2 = .goOn)
    (hread : ∃ bytes, (t.read window.address window.size c.state).1 = .ok bytes)
    (hp : c.walker.phase = .reading window) :
    Comes t receive c (c.walker.proceed window .goOn).phase [] := by
  obtain ⟨bytes, hbytes⟩ := hread
  exact (comes_fetched hbytes hp).trans fun d hd => comes_delivered hgo hd c.walker

/-- From a window on, the rest of its span is gone through. -/
theorem comes_span {window : Window g} (hgo : ∀ b chunk, (receive b chunk).2 = .goOn)
    (hread : ∀ (b : Address) (n : Nat) (s : σ), window.address ≤ b →
      b.toNat + n ≤ window.stop.toNat → ∃ bytes, (t.read b n s).1 = .ok bytes)
    (hp : c.walker.phase = .reading window) :
    Comes t receive c (.seeking window.stop) [] := by
  fun_induction Window.chain window generalizing c with
  | case1 window next hn ih =>
    have hhanded := comes_handed hgo (hread _ _ c.state (Nat.le_refl _) window.fits) hp
    have hlt := Window.address_lt_of_next? hn
    have hstop := Window.stop_of_next? hn
    rw [proceed, hn, enter_phase] at hhanded
    rw [← hstop] at hread ⊢
    apply hhanded.trans
    intro d hd
    apply ih _ hd
    intro b n s hb hfits
    exact hread b n s (Nat.le_of_lt (Nat.lt_of_lt_of_le hlt hb)) hfits
  | case2 window hn =>
    have hhanded := comes_handed hgo (hread _ _ c.state (Nat.le_refl _) window.fits) hp
    rwa [proceed, hn, enter_phase] at hhanded

/-- A lookup that ends the walk. -/
theorem comes_closed {found : Except MemoryError (Option Region)}
    {result : Except MemoryError Ending} (hl : ∀ a s, (t.lookup a s).1 = lookup a)
    (h : (lookup cursor).result = found) (hc : Closes t none cursor found result)
    (hp : c.walker.phase = .seeking cursor) :
    Comes t receive c (.finished result) (lookup cursor).softErrors := by
  have hq := hl cursor c.state
  cases hc with
  | failed error => apply comes_of_step <;> simp [step, hp, ask, seek, hq, h]
  | nothingLeft => apply comes_of_step <;> simp [step, hp, ask, seek, hq, h]
  | misplaced region hle => apply comes_of_step <;> simp [step, hp, ask, seek, hq, h, hle]
  | outside region hlt hout =>
    have hstop : ¬region.stop ≤ cursor := Nat.not_le_of_lt hlt
    apply comes_of_step <;> simp [step, hp, ask, seek, hq, h, hstop, hout]

/-- A lookup that finds a region, up to its stop. -/
theorem comes_region {region : Region} (ht : t.Faithful lookup m)
    (hgo : ∀ b chunk, (receive b chunk).2 = .goOn)
    (h : (lookup cursor).result = .ok (some region)) (hspan : max region.start cursor < region.stop)
    (hp : c.walker.phase = .seeking cursor) :
    Comes t receive c (.seeking region.stop) (lookup cursor).softErrors := by
  have hq := ht.fixed cursor c.state
  have hstop : ¬region.stop ≤ cursor := fun hle =>
    Nat.not_lt_of_le hle (Nat.lt_of_le_of_lt (Address.le_max_right region.start cursor) hspan)
  have hentered : Comes t receive c (.reading (Window.first g _ _ hspan))
      (lookup cursor).softErrors := by
    apply comes_of_step <;> simp [step, hp, ask, seek, hq, h, hstop, spanStop, hspan]
  have hmeets := ht.region h
  have hread : ∀ (b : Address) (n : Nat) (s : σ), max region.start cursor ≤ b →
      b.toNat + n ≤ region.stop.toNat → ∃ bytes, (t.read b n s).1 = .ok bytes := by
    intro b n s hb hfits
    have hstart := Nat.le_trans (Address.le_max_left region.start cursor) hb
    have htop := Region.toNat_stop region
    exact ht.read h b n s hstart (by omega)
  have hall := hentered.trans fun d hd => comes_span hgo hread hd
  rwa [List.append_nil] at hall

/-- Where the highest address can be read, no walk goes on from there. -/
theorem closes_top (ht : t.Faithful lookup m) (hm : (m Address.top.toNat).isSome) :
    ∃ error, Closes t none Address.top (lookup Address.top).result (.error error) := by
  cases h : (lookup Address.top).result with
  | error error => exact ⟨error, .failed error⟩
  | ok found =>
    cases found with
    | none =>
      rw [ht.nothing h _ (Nat.le_refl _)] at hm
      cases hm
    | some region =>
      have hstop : region.stop ≤ Address.top := Nat.le_of_lt_succ region.stop.isLt
      exact ⟨_, .misplaced region hstop⟩

/-- What a walk comes to from a cursor on, wherever it has been before. -/
def Ends (g : Grid) (t : Target σ) (receive : Receiver β) (cursor : Address)
    (walked : Outcome Ending) : Prop :=
  ∀ c : Course g σ β, c.walker.phase = .seeking cursor →
    Comes t receive c (.finished walked.result) walked.softErrors

theorem ends_closed {found : Except MemoryError (Option Region)}
    {result : Except MemoryError Ending} (hl : ∀ a s, (t.lookup a s).1 = lookup a)
    (h : (lookup cursor).result = found) (hc : Closes t none cursor found result) :
    Ends g t receive cursor ⟨result, (lookup cursor).softErrors⟩ :=
  fun _ hp => comes_closed hl h hc hp

theorem ends_region {region : Region} {walked : Outcome Ending} (ht : t.Faithful lookup m)
    (hgo : ∀ b chunk, (receive b chunk).2 = .goOn)
    (h : (lookup cursor).result = .ok (some region)) (hr : cursor < region.stop)
    (hstart : region.start < region.stop) (hrest : Ends g t receive region.stop walked) :
    Ends g t receive cursor (walked.after (lookup cursor).softErrors) := by
  have hspan : max region.start cursor < region.stop := by
    rw [Address.lt_def, Address.toNat_max]
    exact Nat.max_lt.2 ⟨hstart, hr⟩
  intro c hp
  exact (comes_region ht hgo h hspan hp).trans hrest

/-- The last region that an enumeration lists is the last one for a walk too, unless it begins below
the highest address. -/
theorem exists_ends_last {region : Region} (ht : t.Faithful lookup m)
    (hgo : ∀ b chunk, (receive b chunk).2 = .goOn)
    (h : (lookup cursor).result = .ok (some region)) (hr : cursor < region.stop)
    (hn : region.next? = none) :
    ∃ walked, Accords t lookup ⟨.ok [region], (lookup cursor).softErrors⟩ walked ∧
      Ends g t receive cursor walked := by
  have hmeets := ht.region h
  obtain ⟨hfull, hstop⟩ := hmeets.full hn
  by_cases hlow : region.start < Address.top
  · have htop : (m Address.top.toNat).isSome := by
      apply hmeets.readable.isSome
      · exact Nat.le_of_lt hlow
      · rw [hfull]
        exact Address.top.isLt
    obtain ⟨error, hclosed⟩ := closes_top ht htop
    have hagain : Ends g t receive region.stop
        ⟨.error error, (lookup Address.top).softErrors⟩ := by
      rw [hstop]
      exact ends_closed ht.fixed rfl hclosed
    have hends := ends_region ht hgo h hr (hstop ▸ hlow) hagain
    exact ⟨_, .topped ⟨region, List.mem_singleton_self _, hlow, hfull⟩ hclosed _, hends⟩
  · have hclosed : Closes t none cursor (.ok (some region)) (.ok .exhausted) := by
      apply Closes.outside region hr
      rw [Walker.spanStop, Option.elim_none, hstop]
      intro hspan
      exact hlow (Nat.lt_of_le_of_lt (Address.le_max_left _ _) hspan)
    have hnot : ∀ r ∈ [region], ¬r.Tops := by
      intro r hmem htops
      rw [List.mem_singleton.1 hmem] at htops
      exact hlow htops.1
    exact ⟨_, .exhausted hnot _, ends_closed ht.fixed h hclosed⟩

theorem exists_ends {listed : Outcome (List Region)} (ht : t.Faithful lookup m)
    (hgo : ∀ b chunk, (receive b chunk).2 = .goOn) (h : Trail t lookup cursor listed) :
    ∃ walked, Accords t lookup listed walked ∧ Ends g t receive cursor walked := by
  induction h with
  | failed h => exact ⟨_, .failed _ _, ends_closed ht.fixed h (.failed _)⟩
  | misplaced h hr => exact ⟨_, .failed _ _, ends_closed ht.fixed h (.misplaced _ hr)⟩
  | nothing h => exact ⟨_, .exhausted (by simp) _, ends_closed ht.fixed h .nothingLeft⟩
  | last h hr hn => exact exists_ends_last ht hgo h hr hn
  | @more cursor region listed h hr hn rest ih =>
    obtain ⟨walked, haccords, hends⟩ := ih
    have hsum := Address.ofNat?_eq_some.1 (show Address.ofNat? _ = some region.stop from hn)
    have hbelow := region.stop.isLt
    have hnonempty := (ht.region h).nonempty
    have hstart : region.start < region.stop := by
      rw [Address.lt_def]
      omega
    have hnot : ¬region.Tops := by
      rintro ⟨-, hfull⟩
      omega
    exact ⟨_, haccords.cons hnot _, ends_region ht hgo h hr hstart hends⟩

end Walker.Course

section
variable {g : Grid} {σ β : Type} {t : Target σ} {lookup : Address → Outcome (Option Region)}
  {m : Memory} {receive : Receiver β}

theorem readableRegions_of_trail {start : Address} {listed : Outcome (List Region)}
    (hl : ∀ a s, (t.lookup a s).1 = lookup a) (h : Trail t lookup start listed) (s : σ) :
    (readableRegions t start s).outcome = listed := by
  rw [readableRegions, Enumeration.startingAt, h.collect hl]
  rcases listed with ⟨result, soft⟩
  cases result with
  | error error => rfl
  | ok regions => rfl

open Walker.Course in
theorem walkGrid_of_ends {start : Address} {walked : Outcome Ending}
    (h : Ends g t receive start walked) (receiver : β) (s : σ) :
    (walkGrid t g start none receive receiver s).1.outcome = walked := by
  obtain ⟨n, hphase, hsoft⟩ := h (starting t g start receiver s) rfl
  rw [walkGrid_of_finished hphase, report, hsoft]
  rfl

/-- A walk comes to what an enumeration does, unless a region fills memory to the top. -/
theorem walkGrid_accords (ht : t.Faithful lookup m) (hgo : ∀ b chunk, (receive b chunk).2 = .goOn)
    (g : Grid) (start : Address) (receiver : β) (s s' : σ) :
    Accords t lookup (readableRegions t start s).outcome
      (walkGrid t g start none receive receiver s').1.outcome := by
  obtain ⟨listed, htrail⟩ := exists_trail t lookup start
  obtain ⟨walked, haccords, hends⟩ := Walker.Course.exists_ends (g := g) ht hgo htrail
  rw [readableRegions_of_trail ht.fixed htrail, walkGrid_of_ends hends]
  exact haccords

/-- Side by side or half overlapping, walks end in a hard error just where an enumeration does, and
with the same soft errors, unless a region fills memory to the top. -/
theorem walks_accord (ht : t.Faithful lookup m) (hgo : ∀ b chunk, (receive b chunk).2 = .goOn)
    (start : Address) {size : Nat} (hsize : 0 < size) (receiver : β) (s s' : σ) :
    let listed := (readableRegions t start s).outcome
    Accords t lookup listed (walk t start size receive receiver s').1.outcome ∧
      Accords t lookup listed (walkSliding t start size receive receiver s').1.outcome := by
  intro listed
  constructor
  · rw [walk, dif_pos hsize]
    exact walkGrid_accords ht hgo _ start receiver s s'
  · rw [walkSliding, dif_pos hsize]
    exact walkGrid_accords ht hgo _ start receiver s s'

end

/-! ## A memory of one region -/

def Region.only (r : Region) (a : Address) : Outcome (Option Region) :=
  .ok (if a.toNat < r.start.toNat + r.size then some r else none)

def Target.single (r : Region) : Target Unit :=
  .stateless 1 r.only fun _ n => .ok ⟨List.replicate n 1, List.length_replicate⟩

def Memory.single (r : Region) : Memory := fun n =>
  if r.start.toNat ≤ n ∧ n < r.start.toNat + r.size then some 1 else none

theorem faithful_single {r : Region} (hpos : 0 < r.size)
    (hfits : r.start.toNat + r.size ≤ 0x1_0000_0000_0000_0000) :
    (Target.single r).Faithful r.only (.single r) where
  fixed _ _ := rfl
  region {a found} h := by
    have hbelow : a.toNat < r.start.toNat + r.size ∧ r = found := by
      simpa [Region.only, Outcome.ok] using h
    obtain ⟨hlt, rfl⟩ := hbelow
    refine ⟨hpos, hfits, hlt, ?_, ?_⟩
    · intro i hi
      simp [Memory.single, hi]
    · intro n _ hn
      rw [Memory.single, if_neg fun h => Nat.not_le_of_lt hn h.1]
  nothing {a} h b hb := by
    have habove : r.start.toNat + r.size ≤ a.toNat := by
      simpa [Region.only, Outcome.ok] using h
    rw [Memory.single, if_neg fun h => Nat.not_le_of_lt h.2 (Nat.le_trans habove hb)]
  read _ _ _ _ _ _ := ⟨_, rfl⟩

/-- Below the top, both come to an end. -/
theorem walks_accord_below :
    let r : Region := ⟨0x10, 0x10⟩
    let t := Target.single r
    t.Faithful r.only (.single r) ∧ (∀ b chunk, (keepAll b chunk).2 = .goOn) ∧ 0 < 3 ∧
      (walk t 0 3 keepAll [] ()).1.outcome = ⟨.ok .exhausted, []⟩ ∧
      (walkSliding t 0 3 keepAll [] ()).1.outcome = ⟨.ok .exhausted, []⟩ := by
  intro r t
  have ht : t.Faithful r.only (.single r) := faithful_single (by decide) (by decide)
  have hend : Trail t r.only 0x20 ⟨.ok [], []⟩ := .nothing rfl
  have hfound : (r.only 0).result = .ok (some r) := rfl
  have htrail : Trail t r.only 0 ⟨.ok [r], []⟩ := .more hfound (by decide) rfl hend
  have hlisted := readableRegions_of_trail ht.fixed htrail ()
  have hnot : ¬r.Tops := by decide
  have hexhausted {walked : Outcome Ending} (h : Accords t r.only ⟨.ok [r], []⟩ walked) :
      walked = ⟨.ok .exhausted, []⟩ := by
    cases h with
    | exhausted h => rfl
    | topped h =>
      obtain ⟨r', hmem, htops⟩ := h
      rw [List.mem_singleton.1 hmem] at htops
      exact absurd htops hnot
  obtain ⟨hwalk, hsliding⟩ := walks_accord ht keepAll_goOn 0 (by decide : 0 < 3) [] () ()
  rw [hlisted] at hwalk hsliding
  exact ⟨ht, keepAll_goOn, by decide, hexhausted hwalk, hexhausted hsliding⟩

/-- At the top, an enumeration comes to an end and a walk does not. -/
theorem walk_discords_at_top :
    let r : Region := ⟨0xFFFF_FFFF_FFFF_FFF0, 16⟩
    let t := Target.single r
    t.Faithful r.only (.single r) ∧ (readableRegions t r.start ()).outcome = ⟨.ok [r], []⟩ ∧
      (walk t r.start 16 keepAll [] ()).1.outcome = ⟨.error (t.misplaced r Address.top), []⟩ := by
  intro r t
  have ht : t.Faithful r.only (.single r) := faithful_single (by decide) (by decide)
  have hfound : (r.only r.start).result = .ok (some r) := rfl
  have htrail : Trail t r.only r.start ⟨.ok [r], []⟩ := .last hfound (by decide) rfl
  have hlisted := readableRegions_of_trail ht.fixed htrail ()
  refine ⟨ht, hlisted, ?_⟩
  have hwalk := walkGrid_accords ht keepAll_goOn (Grid.disjoint 16 (by decide)) r.start [] () ()
  rw [hlisted] at hwalk
  rw [walk, dif_pos (by decide)]
  generalize (walkGrid t _ r.start none keepAll [] ()).1.outcome = walked at hwalk
  cases hwalk with
  | exhausted h => exact absurd (by decide) (h r (List.mem_singleton_self r))
  | topped h hagain =>
    cases hagain
    rfl

end ProcessMemory
