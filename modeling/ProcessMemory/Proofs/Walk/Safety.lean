import ProcessMemory.Proofs.Walk.Course

/-!
# What a receiver can rely on

Whatever a target answers, and however its answers change from one query to the next, the chunks
that a walk hands over rise strictly, lie inside the region looked up last, and hold what the read
just before them gave.
-/
namespace ProcessMemory

def attempts (ms : List Move) : List Address := ms.filterMap Move.attempt?

def latestLookup (ms : List Move) : Option (Outcome (Option Region)) :=
  (ms.filterMap Move.lookup?).getLast?

@[simp] theorem attempts_lookup (ms : List Move) (a : Address) (answer : Outcome (Option Region)) :
    attempts (ms ++ [.ask (.lookup a answer)]) = attempts ms := by
  simp [attempts, Move.attempt?]

@[simp] theorem attempts_read (ms : List Move) (a : Address) (n : Nat)
    (answer : Outcome (List UInt8)) :
    attempts (ms ++ [.ask (.read a n answer)]) = attempts ms ++ [a] := by
  simp [attempts, Move.attempt?]

@[simp] theorem attempts_handOver (ms : List Move) (chunk : Chunk) (verdict : Verdict) :
    attempts (ms ++ [.handOver chunk verdict]) = attempts ms := by
  simp [attempts, Move.attempt?]

@[simp] theorem latestLookup_lookup (ms : List Move) (a : Address)
    (answer : Outcome (Option Region)) :
    latestLookup (ms ++ [.ask (.lookup a answer)]) = some answer := by
  simp [latestLookup, Move.lookup?]

@[simp] theorem latestLookup_read (ms : List Move) (a : Address) (n : Nat)
    (answer : Outcome (List UInt8)) :
    latestLookup (ms ++ [.ask (.read a n answer)]) = latestLookup ms := by
  simp [latestLookup, Move.lookup?]

@[simp] theorem latestLookup_handOver (ms : List Move) (chunk : Chunk) (verdict : Verdict) :
    latestLookup (ms ++ [.handOver chunk verdict]) = latestLookup ms := by
  simp [latestLookup, Move.lookup?]

/-- What holds of a chunk handed over after the moves `before`. -/
structure Chunk.Sound (g : Grid) (start : Address) (limit : Option Address) (before : List Move)
    (chunk : Chunk) : Prop where
  nonempty : 1 ≤ chunk.bytes.length
  size_le : chunk.bytes.length ≤ g.size
  start_le : start ≤ chunk.address
  rises : ∀ earlier ∈ delivered before, earlier.address < chunk.address
  inside : ∃ region soft, latestLookup before = some ⟨.ok (some region), soft⟩ ∧
    region.start ≤ chunk.address ∧
    chunk.address.toNat + chunk.bytes.length ≤ region.stop.toNat
  below : ∀ l ∈ limit, chunk.address.toNat + chunk.bytes.length ≤ l.toNat
  justRead : ∃ earlier soft,
    before = earlier ++ [.ask (.read chunk.address chunk.bytes.length ⟨.ok chunk.bytes, soft⟩)]

def AllSound (g : Grid) (start : Address) (limit : Option Address) (ms : List Move) : Prop :=
  ∀ before chunk verdict later, ms = before ++ .handOver chunk verdict :: later →
    chunk.Sound g start limit before

/-- A list with one more at its end, split at an element: it is that one, or it stands before it. -/
theorem append_singleton_eq_append_cons {α : Type} {l before later : List α} {a b : α}
    (h : l ++ [a] = before ++ b :: later) :
    (l = before ∧ a = b) ∨ ∃ rest, l = before ++ b :: rest := by
  rcases List.eq_nil_or_concat later with rfl | ⟨rest, c, rfl⟩
  · obtain ⟨rfl, hab⟩ := List.append_inj' h rfl
    exact .inl ⟨rfl, (List.cons.inj hab).1⟩
  · refine .inr ⟨rest, ?_⟩
    have h' : l ++ [a] = (before ++ b :: rest) ++ [c] := by simpa using h
    exact (List.append_inj' h' rfl).1

section
variable {g : Grid} {start : Address} {limit : Option Address} {ms : List Move}

theorem AllSound.of_mem (h : AllSound g start limit ms) {chunk : Chunk}
    (hc : chunk ∈ delivered ms) : ∃ before, chunk.Sound g start limit before := by
  obtain ⟨move, hm, hchunk⟩ := List.mem_filterMap.1 hc
  obtain ⟨before, later, rfl⟩ := List.append_of_mem hm
  cases move with
  | ask query => cases hchunk
  | handOver other verdict =>
    cases hchunk
    exact ⟨before, h before chunk verdict later rfl⟩

theorem AllSound.ask (h : AllSound g start limit ms) (query : Query) :
    AllSound g start limit (ms ++ [.ask query]) := by
  intro before chunk verdict later he
  rcases append_singleton_eq_append_cons he with ⟨-, hq⟩ | ⟨rest, hr⟩
  · cases hq
  · exact h before chunk verdict rest hr

theorem AllSound.handOver (h : AllSound g start limit ms) {chunk : Chunk}
    (hc : chunk.Sound g start limit ms) (verdict : Verdict) :
    AllSound g start limit (ms ++ [.handOver chunk verdict]) := by
  intro before chunk' verdict' later he
  rcases append_singleton_eq_append_cons he with ⟨rfl, hq⟩ | ⟨rest, hr⟩
  · cases hq
    exact hc
  · exact h before chunk' verdict' rest hr

end

namespace Walker

variable {g : Grid} {σ β : Type}

/-- Every chunk handed over starts below `a`, and no read was tried above it. -/
structure Behind (ms : List Move) (a : Address) : Prop where
  chunks : ∀ chunk ∈ delivered ms, chunk.address < a
  reads : ∀ b ∈ attempts ms, b ≤ a

def Entered (limit : Option Address) (ms : List Move) (window : Window g) : Prop :=
  (∃ region soft, latestLookup ms = some ⟨.ok (some region), soft⟩ ∧
    region.start ≤ window.address ∧ window.stop ≤ region.stop) ∧ ∀ l ∈ limit, window.stop ≤ l

/-- Where a walk stands after the moves `ms`. -/
def Stands (start : Address) (limit : Option Address) (ms : List Move) : Phase g → Prop
  | .seeking cursor => start ≤ cursor ∧ Behind ms cursor
  | .reading window => start ≤ window.address ∧ Behind ms window.address ∧ Entered limit ms window
  | .delivering window bytes =>
    start ≤ window.address ∧ Behind ms window.address ∧ Entered limit ms window ∧
      ∃ earlier soft,
        ms = earlier ++ [.ask (.read window.address window.size ⟨.ok bytes.val, soft⟩)]
  | .finished _ => True

namespace Behind

variable {ms : List Move} {a b : Address}

theorem mono (h : Behind ms a) (hab : a ≤ b) : Behind ms b :=
  ⟨fun chunk hc => Nat.lt_of_lt_of_le (h.chunks chunk hc) hab,
    fun c hc => Nat.le_trans (h.reads c hc) hab⟩

theorem lookup (h : Behind ms a) (c : Address) (answer : Outcome (Option Region)) :
    Behind (ms ++ [.ask (.lookup c answer)]) a := by
  refine ⟨?_, ?_⟩
  · simpa using h.chunks
  · simpa using h.reads

theorem read (h : Behind ms a) (n : Nat) (answer : Outcome (List UInt8)) :
    Behind (ms ++ [.ask (.read a n answer)]) a := by
  refine ⟨by simpa using h.chunks, ?_⟩
  intro c hc
  rw [attempts_read, List.mem_append, List.mem_singleton] at hc
  rcases hc with hc | rfl
  · exact h.reads c hc
  · exact Nat.le_refl _

theorem handOver (h : Behind ms a) (bytes : List UInt8) (verdict : Verdict) (hab : a < b) :
    Behind (ms ++ [.handOver ⟨a, bytes⟩ verdict]) b := by
  refine ⟨?_, ?_⟩
  · intro chunk hc
    rw [delivered_append, delivered_handOver, List.mem_append, List.mem_singleton] at hc
    rcases hc with hc | rfl
    · exact Nat.lt_trans (h.chunks chunk hc) hab
    · exact hab
  · intro c hc
    rw [attempts_handOver] at hc
    exact Nat.le_trans (h.reads c hc) (Nat.le_of_lt hab)

end Behind

/-- A chunk in hand is sound. -/
theorem Stands.sound {start : Address} {limit : Option Address} {ms : List Move}
    {window : Window g} {bytes : Bytes window.size}
    (h : Stands start limit ms (.delivering window bytes)) :
    Chunk.Sound g start limit ms ⟨window.address, bytes.val⟩ := by
  obtain ⟨hs, hb, ⟨⟨region, soft, hl, hr, hstop⟩, hlim⟩, earlier, soft', he⟩ := h
  have hfits := window.fits
  have hlen : bytes.val.length = window.size := bytes.property
  exact
    { nonempty := by rw [hlen]; exact window.size_pos
      size_le := by simpa only [hlen] using window.size_le
      start_le := hs
      rises := hb.chunks
      inside := ⟨region, soft, hl, hr, by simpa only [hlen] using Nat.le_trans hfits hstop⟩
      below := fun l hl => by simpa only [hlen] using Nat.le_trans hfits (hlim l hl)
      justRead := ⟨earlier, soft', by simpa only [hlen] using he⟩ }

namespace Course

variable {t : Target σ} {start : Address} {limit : Option Address} {receive : Receiver β}
  {c d : Course g σ β} {ms : List Move} {move? : Option Move}

theorem Transition.stands (ht : Transition t limit receive c move? d)
    (h : Stands start limit ms c.walker.phase) :
    Stands start limit (ms ++ move?.toList) d.walker.phase := by
  cases ht with
  | @entered cursor region soft s events hp hl hq hc hspan =>
    rw [hp] at h
    obtain ⟨hs, hb⟩ := h
    have hle := Address.le_max_right region.start cursor
    refine ⟨Nat.le_trans hs hle, (hb.lookup _ _).mono hle, ⟨region, soft, ?_, ?_, ?_⟩, ?_⟩
    · exact latestLookup_lookup _ _ _
    · exact Address.le_max_left _ _
    · exact spanStop_le _ _
    · exact fun l hl => spanStop_le_limit region hl
  | @fetched window bytes soft s events hp hq =>
    rw [hp] at h
    obtain ⟨hs, hb, hin, hlim⟩ := h
    refine ⟨hs, hb.read _ _, ⟨?_, hlim⟩, ms, soft, rfl⟩
    simpa only [Option.toList_some, latestLookup_read] using hin
  | @retried window error soft s events hp hq hr =>
    rw [hp] at h
    exact ⟨h.1, h.2.1.read _ _⟩
  | @skipped window error soft s events hp hq hr =>
    rw [hp] at h
    have hle := Address.le_advance window.address window.size
    exact ⟨Nat.le_trans h.1 hle, (h.2.1.read _ _).mono hle⟩
  | @advanced window next bytes receiver hp hv hn =>
    rw [hp] at h
    obtain ⟨hs, hb, ⟨⟨region, soft, hl, hr, hstop⟩, hlim⟩, -⟩ := h
    have hlt := Window.address_lt_of_next? hn
    refine ⟨Nat.le_trans hs (Nat.le_of_lt hlt), hb.handOver _ _ hlt, ⟨region, soft, ?_, ?_, ?_⟩, ?_⟩
    · simpa only [Option.toList_some, latestLookup_handOver] using hl
    · exact Nat.le_trans hr (Nat.le_of_lt hlt)
    · rwa [Window.stop_of_next? hn]
    · rwa [Window.stop_of_next? hn]
  | @left window bytes receiver hp hv hn =>
    rw [hp] at h
    have hlt := window.address_lt_stop
    exact ⟨Nat.le_trans h.1 (Nat.le_of_lt hlt), h.2.1.handOver _ _ hlt⟩
  | rested hp => simpa only [Option.toList_none, List.append_nil] using h
  | _ => exact trivial

theorem Transition.allSound (ht : Transition t limit receive c move? d)
    (hs : Stands start limit ms c.walker.phase) (h : AllSound g start limit ms) :
    AllSound g start limit (ms ++ move?.toList) := by
  cases ht with
  | atLimit events hp hl | rested hp => simpa only [Option.toList_none, List.append_nil] using h
  | stopped hp hv | advanced hp hv hn | left hp hv hn =>
    rw [hp] at hs
    exact h.handOver hs.sound _
  | _ => exact h.ask _

theorem Transition.attempts_pairwise (ht : Transition t limit receive c move? d)
    (hs : Stands start limit ms c.walker.phase) (h : (attempts ms).Pairwise (· ≤ ·)) :
    (attempts (ms ++ move?.toList)).Pairwise (· ≤ ·) := by
  have hread {window : Window g} (hp : c.walker.phase = .reading window) :
      (attempts ms ++ [window.address]).Pairwise (· ≤ ·) := by
    rw [hp] at hs
    refine List.pairwise_append.2 ⟨h, List.pairwise_singleton _ _, ?_⟩
    intro a ha b hb
    rw [List.mem_singleton.1 hb]
    exact hs.2.1.reads a ha
  cases ht with
  | fetched events hp hq | retried events hp hq hr | skipped events hp hq hr =>
    simpa only [Option.toList_some, attempts_read] using hread hp
  | _ => simpa using h

/-- After any number of steps each chunk handed over is sound, and the addresses at which reads were
tried never fell. -/
theorem sound_after (t : Target σ) (g : Grid) (start : Address) (limit : Option Address)
    (receive : Receiver β) (receiver : β) (s : σ) (n : Nat) :
    let ms := moves t limit receive n (starting t g start receiver s)
    AllSound g start limit ms ∧ (attempts ms).Pairwise (· ≤ ·) := by
  let P (ms : List Move) (d : Course g σ β) : Prop :=
    Stands start limit ms d.walker.phase ∧ AllSound g start limit ms ∧
      (attempts ms).Pairwise (· ≤ ·)
  have h0 : P [] (starting t g start receiver s) := by
    refine ⟨⟨Nat.le_refl _, ?_, ?_⟩, ?_, .nil⟩
    · exact fun chunk hc => nomatch hc
    · exact fun a ha => nomatch ha
    · intro before chunk verdict later he
      simp at he
  refine (moves_induction t limit receive h0 ?_ n).2
  intro ms d move? d' ⟨hs, hsound, hpair⟩ ht
  exact ⟨ht.stands hs, ht.allSound hs hsound, ht.attempts_pairwise hs hpair⟩

/-- Whatever the target answers, each chunk handed over is sound, and the addresses at which reads
are tried never fall. The moves that this is about are all that the target and the receiver get of
the walk, and where they end it ends. -/
theorem moves_safe (t : Target σ) (g : Grid) (start : Address) (limit : Option Address)
    (receive : Receiver β) (receiver : β) (s : σ) (n : Nat) :
    let begun := starting t g start receiver s
    let ms := moves t limit receive n begun
    (after t.recorded limit receive n (starting t.recorded g start receiver (s, []))).state.2 =
        queries ms ∧
      (after t limit receive n begun).receiver =
        (delivered ms).foldl (fun r chunk => (receive r chunk).1) receiver ∧
      (∀ result, (after t limit receive n begun).walker.phase = .finished result →
        walkGrid t g start limit receive receiver s =
          (after t limit receive n begun).report result) ∧
      AllSound g start limit ms ∧ (attempts ms).Pairwise (· ≤ ·) := by
  refine ⟨?_, receiver_after n _, fun result hp => walkGrid_of_finished hp,
    sound_after t g start limit receive receiver s n⟩
  rw [after_recorded]
  rfl

end Course
end Walker
end ProcessMemory
