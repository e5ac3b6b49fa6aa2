import ProcessMemory.Windows.BlockWalk
import ProcessMemory.Windows.Machine

/-!
# Walks over blocks

Whatever a system answers, a walk over its blocks asks for ever higher addresses, so for a bounded
number of them, and yields at most one error, after all blocks. Where the blocks tile the lower part
of the address space and the system tells them truly, the walk yields the block that holds its start
and all blocks above, each once and in order.
-/
namespace ProcessMemory.Windows

variable {σ : Type}

/-! ## What a system is asked -/

namespace Api

/-- The same system, keeping every call that asks for a process, a block, a listing or a path. -/
def recorded (api : Api σ) : Api (σ × List Call) :=
  let noting {α : Type} (calls : List Call) (answer : σ → α × σ) (s : σ × List Call) :
      α × σ × List Call := ((answer s.1).1, (answer s.1).2, s.2 ++ calls)
  { lastError := fun s => api.lastError s.1
    openProcess := fun pid => noting [.openProcess pid] (api.openProcess pid)
    closeHandle := fun h => noting [] (api.closeHandle h)
    readMemory := fun address size => noting [] (api.readMemory address size)
    queryBlock := fun address => noting [.queryBlock address] (api.queryBlock address)
    listProcesses := fun bytes => noting [.listProcesses bytes] (api.listProcesses bytes)
    listModules := fun bytes => noting [.listModules bytes] (api.listModules bytes)
    modulePath := fun m units => noting [.modulePath m units] (api.modulePath m units)
    imagePath := fun units => noting [.imagePath units] (api.imagePath units) }

theorem query_recorded (api : Api σ) (address : Address) (s : σ) (log : List Call) :
    api.recorded.query address (s, log) =
      ((api.query address s).1, (api.query address s).2, log ++ [.queryBlock address]) := by
  rcases hq : api.queryBlock address s with ⟨_ | b, s'⟩
  · by_cases hcode : ErrorCode.ofNumber (api.lastError s') = .invalidParameter
    · simp only [query, recorded, failure, hq, hcode, if_true]
    · simp only [query, recorded, failure, hq, hcode, if_false]
  · simp only [query, recorded, hq]

end Api

namespace BlockWalk

variable {api : Api σ} {pid : ProcessId} {w : BlockWalk} {s : σ}

inductive Advances (api : Api σ) (pid : ProcessId) :
    BlockWalk → σ → Option (Except MemoryError Block) × BlockWalk × σ → Prop where
  | ended {s : σ} : Advances api pid ⟨none⟩ s (none, ⟨none⟩, s)
  | nothing {address : Address} {s s' : σ} (hq : api.query address s = (.ok none, s')) :
    Advances api pid ⟨some address⟩ s (none, ⟨none⟩, s')
  | failed {address : Address} {failure : Failure} {s s' : σ}
    (hq : api.query address s = (.error failure, s')) :
    Advances api pid ⟨some address⟩ s
      (some (.error (.enumerationFailed pid (toString failure))), ⟨none⟩, s')
  | last {address : Address} {b : Block} {s s' : σ}
    (hq : api.query address s = (.ok (some b), s')) (hstop : b.stop ≤ address) :
    Advances api pid ⟨some address⟩ s (some (.ok b), ⟨none⟩, s')
  | block {address : Address} {b : Block} {s s' : σ}
    (hq : api.query address s = (.ok (some b), s')) (hstop : address < b.stop) :
    Advances api pid ⟨some address⟩ s (some (.ok b), ⟨some b.stop⟩, s')

theorem advances (api : Api σ) (pid : ProcessId) (w : BlockWalk) (s : σ) :
    Advances api pid w s (w.advance api pid s) := by
  rcases w with ⟨_ | address⟩
  · exact .ended
  · rcases hq : api.query address s with ⟨failure | _ | b, s'⟩
    · simp only [advance, hq]
      exact .failed hq
    · simp only [advance, hq]
      exact .nothing hq
    · simp only [advance, hq]
      by_cases hstop : address < b.stop
      · rw [if_pos hstop]
        exact .block hq hstop
      · rw [if_neg hstop]
        exact .last hq (Nat.le_of_not_lt hstop)

def calls (api : Api σ) (pid : ProcessId) :
    Nat → BlockWalk → σ → List (Option (Except MemoryError Block)) × σ
  | 0, _, s => ([], s)
  | n + 1, w, s =>
    let (item, w, s) := w.advance api pid s
    let (items, s) := calls api pid n w s
    (item :: items, s)

def asked (api : Api σ) (pid : ProcessId) : Nat → BlockWalk → σ → List Address
  | 0, _, _ => []
  | n + 1, w, s =>
    let (_, w', s') := w.advance api pid s
    w.next.toList ++ asked api pid n w' s'

theorem advance_recorded (w : BlockWalk) (s : σ) (log : List Call) :
    w.advance api.recorded pid (s, log) =
      ((w.advance api pid s).1, (w.advance api pid s).2.1, (w.advance api pid s).2.2,
        log ++ w.next.toList.map Call.queryBlock) := by
  rcases w with ⟨_ | address⟩
  · simp [advance]
  · rcases hq : api.query address s with ⟨failure | _ | b, s'⟩ <;>
      simp [advance, Api.query_recorded, hq]

/-- The system is asked for blocks alone, and keeping the calls has no influence. -/
theorem calls_recorded (n : Nat) (w : BlockWalk) (s : σ) (log : List Call) :
    calls api.recorded pid n w (s, log) =
      ((calls api pid n w s).1, (calls api pid n w s).2,
        log ++ (asked api pid n w s).map Call.queryBlock) := by
  induction n generalizing w s log with
  | zero => simp [calls, asked]
  | succ n ih =>
    simp only [calls, asked, advance_recorded, ih, List.map_append, List.append_assoc]

/-- How some calls for the next block behave towards their client and the system. -/
structure Orderly (w : BlockWalk) (n : Nat) (items : List (Option (Except MemoryError Block)))
    (addresses : List Address) : Prop where
  /-- The addresses asked for rise, from the one that is due. -/
  rises : addresses.Pairwise (· < ·)
  above : ∀ a ∈ addresses, ∃ due, w.next = some due ∧ due ≤ a
  bounded : addresses.length ≤ w.left
  /-- Blocks are yielded, then one error at most, and then nothing. Only a call that asks yields. -/
  yields : ∃ (blocks : List Block) (error? : Option MemoryError) (rest : Nat),
    items = blocks.map (fun b => some (.ok b)) ++ error?.toList.map (fun e => some (.error e)) ++
      List.replicate rest none ∧ n ≤ addresses.length + rest

/-- A walk that is over asks and yields nothing. -/
theorem calls_over (api : Api σ) (pid : ProcessId) (n : Nat) (s : σ) :
    (calls api pid n ⟨none⟩ s).1 = List.replicate n none ∧ asked api pid n ⟨none⟩ s = [] := by
  induction n with
  | zero => exact ⟨rfl, rfl⟩
  | succ n ih =>
    simp only [calls, asked, advance, ih, Option.toList_none, List.append_nil, and_true]
    rfl

/-- A call that ends the walk. -/
theorem orderly_last {address : Address} (n : Nat) (item : Option (Except MemoryError Block)) :
    Orderly ⟨some address⟩ (n + 1) (item :: List.replicate n none) [address] where
  rises := List.pairwise_singleton _ _
  above a ha := ⟨address, rfl, Nat.le_of_eq (congrArg _ (List.mem_singleton.1 ha).symm)⟩
  bounded := by
    have hlt := address.isLt
    simp only [left, List.length_singleton, Option.elim]
    omega
  yields := by
    rcases item with _ | error | b
    · exact ⟨[], none, n + 1, rfl, by omega⟩
    · exact ⟨[], some error, n, rfl, Nat.le_of_eq (Nat.add_comm n 1)⟩
    · exact ⟨[b], none, n, rfl, Nat.le_of_eq (Nat.add_comm n 1)⟩

/-- A call that yields a block, with more to come above. -/
theorem Orderly.cons {address : Address} {b : Block} {n : Nat}
    {items : List (Option (Except MemoryError Block))} {addresses : List Address}
    (h : Orderly ⟨some b.stop⟩ n items addresses) (hstop : address < b.stop) :
    Orderly ⟨some address⟩ (n + 1) (some (.ok b) :: items) (address :: addresses) := by
  have habove : ∀ a ∈ addresses, address < a := by
    intro a ha
    obtain ⟨due, hdue, hle⟩ := h.above a ha
    cases hdue
    exact Nat.lt_of_lt_of_le hstop hle
  refine ⟨.cons habove h.rises, ?_, ?_, ?_⟩
  · intro a ha
    rcases List.mem_cons.1 ha with rfl | ha
    · exact ⟨a, rfl, Nat.le_refl _⟩
    · exact ⟨address, rfl, Nat.le_of_lt (habove a ha)⟩
  · have hlength := h.bounded
    have hlt : address.toNat < b.stop.toNat := hstop
    have htop := b.stop.isLt
    simp only [left, List.length_cons, Option.elim] at hlength ⊢
    omega
  · obtain ⟨blocks, error?, rest, hitems, hcount⟩ := h.yields
    refine ⟨b :: blocks, error?, rest, ?_, ?_⟩
    · rw [hitems]
      rfl
    · rw [List.length_cons]
      omega

theorem orderly_calls (n : Nat) (w : BlockWalk) (s : σ) :
    Orderly w n (calls api pid n w s).1 (asked api pid n w s) := by
  induction n generalizing w s with
  | zero => exact ⟨.nil, nofun, Nat.zero_le _, [], none, 0, rfl, Nat.le_refl _⟩
  | succ n ih =>
    have hadv := advances api pid w s
    generalize hd : w.advance api pid s = advanced at hadv
    simp only [calls, asked, hd]
    cases hadv with
    | ended =>
      obtain ⟨hitems, hasked⟩ := calls_over api pid n s
      rw [hitems, hasked]
      exact ⟨.nil, nofun, Nat.zero_le _, [], none, n + 1, rfl, by simp⟩
    | @nothing address s s' hq | @failed address failure s s' hq | @last address b s s' hq hstop =>
      obtain ⟨hitems, hasked⟩ := calls_over api pid n s'
      rw [hitems, hasked]
      exact orderly_last n _
    | @block address b s s' hq hstop => exact (ih ⟨some b.stop⟩ s').cons hstop

end BlockWalk

/-! ## Blocks without gaps -/

def Block.Holds (b : Block) (a : Address) : Prop :=
  b.start.toNat ≤ a.toNat ∧ a.toNat < b.start.toNat + b.size

instance (b : Block) (a : Address) : Decidable (b.Holds a) := inferInstanceAs (Decidable (_ ∧ _))

/-- Blocks one after another from `low` up to `top`, of which none is empty. -/
def Tiles (low : Nat) : List Block → Nat → Prop
  | [], top => low = top
  | b :: rest, top => b.start.toNat = low ∧ 0 < b.size ∧ Tiles (low + b.size) rest top

/-- The system answers each address below `top` with the block that holds it, and says from there on
that the parameter is not valid. -/
structure Api.Tells (api : Api σ) (blocks : List Block) (top : Nat) : Prop where
  block : ∀ (a : Address) (s : σ), a.toNat < top →
    ∃ b ∈ blocks, b.Holds a ∧ (api.queryBlock a s).1 = some b
  past : ∀ (a : Address) (s : σ), top ≤ a.toNat → (api.queryBlock a s).1 = none ∧
    api.lastError (api.queryBlock a s).2 = ErrorCode.invalidParameter.number

namespace Tiles

variable {low top : Nat} {blocks rest : List Block} {b c : Block} {a : Address}

theorem le (h : Tiles low blocks top) : low ≤ top := by
  induction blocks generalizing low with
  | nil => exact Nat.le_of_eq h
  | cons b rest ih =>
    have hle := ih h.2.2
    omega

/-- Where a block lies among the others. -/
theorem of_mem (h : Tiles low blocks top) (hb : b ∈ blocks) :
    low ≤ b.start.toNat ∧ 0 < b.size ∧ b.start.toNat + b.size ≤ top := by
  induction blocks generalizing low with
  | nil => cases hb
  | cons c rest ih =>
    obtain ⟨hstart, hpos, hrest⟩ := h
    rcases List.mem_cons.1 hb with rfl | hb
    · have hle := hrest.le
      exact ⟨Nat.le_of_eq hstart.symm, hpos, by omega⟩
    · obtain ⟨hlow, hpos', htop⟩ := ih hrest hb
      exact ⟨by omega, hpos', htop⟩

/-- No two blocks hold one address. -/
theorem unique (h : Tiles low blocks top) (hb : b ∈ blocks) (hc : c ∈ blocks) (ha : b.Holds a)
    (ha' : c.Holds a) : b = c := by
  induction blocks generalizing low with
  | nil => cases hb
  | cons first rest ih =>
    obtain ⟨hstart, -, hrest⟩ := h
    have habove {d : Block} (hd : d ∈ rest) (hda : d.Holds a) : ¬first.Holds a := by
      have hle := (hrest.of_mem hd).1
      have hda := hda.1
      rintro ⟨-, hlt⟩
      omega
    rcases List.mem_cons.1 hb with hb | hb <;> rcases List.mem_cons.1 hc with hc | hc
    · rw [hb, hc]
    · exact absurd (hb ▸ ha) (habove hc ha')
    · exact absurd (hc ▸ ha') (habove hb ha)
    · exact ih hrest hb hc

/-- Each address from `low` up to `top` lies in a block. -/
theorem exists_holder (h : Tiles low blocks top) (hlow : low ≤ a.toNat) (htop : a.toNat < top) :
    ∃ before holder after, blocks = before ++ holder :: after ∧ holder.Holds a ∧
      Tiles holder.start.toNat (holder :: after) top := by
  induction blocks generalizing low with
  | nil =>
    have heq : low = top := h
    omega
  | cons b rest ih =>
    obtain ⟨rfl, hpos, hrest⟩ := h
    by_cases hlt : a.toNat < b.start.toNat + b.size
    · exact ⟨[], b, rest, rfl, ⟨hlow, hlt⟩, rfl, hpos, hrest⟩
    · obtain ⟨before, holder, after, rfl, hholds, htiles⟩ := ih hrest (Nat.le_of_not_lt hlt)
      exact ⟨b :: before, holder, after, rfl, hholds, htiles⟩

/-- The stop of a block is the address after it, as there is one. -/
theorem stop_eq (h : Tiles low (b :: rest) top) (htop : top ≤ 0xFFFF_FFFF_FFFF_FFFF) :
    b.stop.toNat = low + b.size := by
  obtain ⟨hstart, -, hrest⟩ := h
  have hle := hrest.le
  rw [Block.stop, Address.toNat_advance]
  omega

end Tiles

/-- A machine that is described by such blocks tells them truly. -/
theorem Machine.tells (m : Machine) {top : Nat} (h : Tiles 0 m.blocks top)
    (hcodes : m.blockCodes = []) (hcode : m.noBlockCode = ErrorCode.invalidParameter.number) :
    m.api.Tells m.blocks top := by
  have hholds {a : Address} {b : Block} (hb : b ∈ m.blocks) :
      (decide (b.start ≤ a ∧ a.toNat < b.start.toNat + b.size) || b.start == a) = true ↔
        b.Holds a := by
    have hpos := (h.of_mem hb).2.1
    rw [Bool.or_eq_true, decide_eq_true_eq, beq_iff_eq]
    constructor
    · rintro (hin | rfl)
      · exact hin
      · exact ⟨Nat.le_refl _, by omega⟩
    · exact .inl
  constructor
  · intro a s ha
    obtain ⟨before, holder, after, hblocks, hholder, -⟩ := h.exists_holder (Nat.zero_le _) ha
    have hmem : holder ∈ m.blocks := by simp [hblocks]
    cases hb : m.block? a with
    | none =>
      have hnone := List.find?_eq_none.1 hb holder hmem
      exact absurd ((hholds hmem).2 hholder) hnone
    | some b =>
      have hb' : b ∈ m.blocks := List.mem_of_find?_eq_some hb
      have hfound := List.find?_some hb
      refine ⟨b, hb', (hholds hb').1 hfound, ?_⟩
      simp only [api, hcodes, List.lookup_nil, hb]
  · intro a s ha
    have hnone : m.block? a = none := by
      refine List.find?_eq_none.2 fun b hb hin => ?_
      have hlt := ((hholds hb).1 hin).2
      have hle := (h.of_mem hb).2.2
      omega
    simp only [api, hcodes, List.lookup_nil, hnone, State.fail, hcode, and_self]

namespace Api.Tells

variable {api : Api σ} {low top : Nat} {blocks : List Block} {b : Block} {a : Address}

theorem query_block (h : api.Tells blocks top) (ht : Tiles low blocks top) (hb : b ∈ blocks)
    (ha : b.Holds a) (htop : a.toNat < top) (s : σ) :
    ∃ s', api.query a s = (.ok (some b), s') := by
  obtain ⟨c, hc, hca, hq⟩ := h.block a s htop
  cases ht.unique hb hc ha hca
  rcases hanswer : api.queryBlock a s with ⟨answer, s'⟩
  rw [hanswer] at hq
  cases hq
  exact ⟨s', by simp only [query, hanswer]⟩

theorem query_past (h : api.Tells blocks top) (ha : top ≤ a.toNat) (s : σ) :
    ∃ s', api.query a s = (.ok none, s') := by
  obtain ⟨hq, hcode⟩ := h.past a s ha
  rcases hanswer : api.queryBlock a s with ⟨answer, s'⟩
  rw [hanswer] at hq hcode
  cases hq
  have hinvalid : ErrorCode.ofNumber (api.lastError s') = .invalidParameter := by
    rw [hcode]
    rfl
  exact ⟨s', by simp only [query, hanswer, failure, hinvalid, if_true]⟩

end Api.Tells

namespace BlockWalk

variable {api : Api σ} {pid : ProcessId} {low top : Nat} {blocks rest : List Block} {b : Block}
  {a : Address}

theorem calls_past (h : api.Tells blocks top) (ha : top ≤ a.toNat) (n : Nat) (s : σ) :
    (calls api pid n ⟨some a⟩ s).1 = List.replicate n none := by
  cases n with
  | zero => rfl
  | succ n =>
    obtain ⟨s', hq⟩ := h.query_past ha s
    simp only [calls, advance, hq, calls_over]
    rfl

/-- From an address in a block on, the walk yields that block and those above. -/
theorem calls_tiles (h : api.Tells blocks top) (hblocks : Tiles low blocks top)
    (htop : top ≤ 0xFFFF_FFFF_FFFF_FFFF) (hrest : Tiles b.start.toNat (b :: rest) top)
    (hmem : ∀ c ∈ b :: rest, c ∈ blocks) (ha : b.Holds a) (n : Nat) (s : σ) :
    (calls api pid n ⟨some a⟩ s).1 =
      (List.range n).map fun i => ((b :: rest)[i]?).map Except.ok := by
  induction n generalizing b rest a s with
  | zero => rfl
  | succ n ih =>
    have hstop := hrest.stop_eq htop
    have hlt : a < b.stop := by
      rw [Address.lt_def, hstop]
      exact ha.2
    obtain ⟨-, -, htail⟩ := hrest
    have hbelow : a.toNat < top := Nat.lt_of_lt_of_le ha.2 htail.le
    obtain ⟨s', hq⟩ := h.query_block hblocks (hmem b List.mem_cons_self) ha hbelow s
    have hnext : (calls api pid n ⟨some b.stop⟩ s').1 =
        (List.range n).map fun i => (rest[i]?).map Except.ok := by
      rw [← hstop] at htail
      cases rest with
      | nil =>
        rw [calls_past h (Nat.le_of_eq htail.symm)]
        simp only [List.getElem?_nil, Option.map_none, List.map_const', List.length_range]
      | cons c rest =>
        obtain ⟨hstart, hpos, hrest⟩ := htail
        have hc : c.Holds b.stop := ⟨Nat.le_of_eq hstart, by omega⟩
        exact ih ⟨rfl, hpos, hstart ▸ hrest⟩ (fun d hd => hmem d (List.mem_cons_of_mem _ hd)) hc s'
    simp only [calls, advance, hq, if_pos hlt, hnext, List.range_succ_eq_map, List.map_cons,
      List.map_map]
    rfl

/-- A walk over the blocks of any system asks for nothing else, at rising addresses that are bounded
in number, and yields one error at most, after all blocks. Of blocks that tile the addresses up to
`top`, if the system tells them truly, it yields the one that holds the start and all after it. -/
theorem calls_orderly (api : Api σ) (pid : ProcessId) (start : Address) (s : σ) (n : Nat) :
    let items := (calls api pid n ⟨some start⟩ s).1
    (∃ addresses,
      calls api.recorded pid n ⟨some start⟩ (s, []) =
        (items, (calls api pid n ⟨some start⟩ s).2, addresses.map Call.queryBlock) ∧
      Orderly ⟨some start⟩ n items addresses) ∧
    ∀ (blocks : List Block) (top : Nat), Tiles 0 blocks top → top ≤ 0xFFFF_FFFF_FFFF_FFFF →
      api.Tells blocks top → start.toNat < top →
        ∃ before holder after, blocks = before ++ holder :: after ∧ holder.Holds start ∧
          items = (List.range n).map fun i => ((holder :: after)[i]?).map Except.ok := by
  intro items
  refine ⟨⟨asked api pid n ⟨some start⟩ s, ?_, orderly_calls n _ s⟩, ?_⟩
  · rw [calls_recorded, List.nil_append]
  · intro blocks top hblocks htop htells hstart
    obtain ⟨before, holder, after, rfl, hholds, htiles⟩ :=
      hblocks.exists_holder (Nat.zero_le _) hstart
    refine ⟨before, holder, after, rfl, hholds, ?_⟩
    exact calls_tiles htells hblocks htop htiles (fun c hc => List.mem_append_right _ hc) hholds n s

/-- From inside the second of three blocks. -/
theorem calls_orderly_inside :
    let free : Block := ⟨0, 0x1000, 0x10000, 0x1⟩
    let code : Block := ⟨0x1000, 0x2000, 0x1000, 0x20⟩
    let data : Block := ⟨0x3000, 0x1000, 0x1000, 0x4⟩
    let m : Machine := { blocks := [free, code, data] }
    Tiles 0 m.blocks 0x4000 ∧ m.api.Tells m.blocks 0x4000 ∧
      (calls m.api 1 3 ⟨some 0x1800⟩ {}).1 = [some (.ok code), some (.ok data), none] := by
  intro free code data m
  have htiles : Tiles 0 m.blocks 0x4000 := by simp [Tiles, m, free, code, data]; decide
  have htells : m.api.Tells m.blocks 0x4000 := m.tells htiles rfl rfl
  obtain ⟨-, hyields⟩ := calls_orderly m.api 1 0x1800 {} 3
  obtain ⟨before, holder, after, hblocks, hholds, hitems⟩ :=
    hyields m.blocks 0x4000 htiles (by decide) htells (by decide)
  have hcode : code.Holds 0x1800 := by decide
  have hmem : holder ∈ m.blocks := by simp [hblocks]
  have hholder : holder = code := htiles.unique hmem (by simp [m]) hholds hcode
  subst hholder
  have hafter : after = [data] := by
    rcases before with _ | ⟨x, _ | ⟨y, _ | ⟨z, before⟩⟩⟩
    · simp [m, free, code] at hblocks
    · have hrest : x = free ∧ after = [data] := by simpa [m] using hblocks.symm
      exact hrest.2
    · simp [m, code, data] at hblocks
    · simp [m] at hblocks
  rw [hitems, hafter]
  exact ⟨htiles, htells, rfl⟩

end BlockWalk
end ProcessMemory.Windows
