import ProcessMemory.Proofs.Memory
import ProcessMemory.Proofs.Walk.Course

/-!
# What a walk covers

On a target that shows one memory a walk loses nothing: each stretch of readable bytes that is not
too wide for its grid lies whole in a chunk handed over, or meets the span of a read that was given
up and kept as a soft error. What carries this along the walk is that it has been so for every
stretch below the address that is due (`Settled`).
-/
namespace ProcessMemory

def Chunk.Covers (chunk : Chunk) (a n : Nat) : Prop :=
  chunk.address.toNat ≤ a ∧ a + n ≤ chunk.address.toNat + chunk.bytes.length

/-- The span of a read that was given up meets the `n` bytes from `a` on. -/
def Skipped (errors : List MemoryError) (a n : Nat) : Prop :=
  ∃ address size reason, .readFailed address size reason ∈ errors ∧
    a < address.toNat + size ∧ address.toNat < a + n

/-- The `n` bytes from `a` on were handed over in one chunk, or some were skipped. -/
def Seen (chunks : List Chunk) (errors : List MemoryError) (a n : Nat) : Prop :=
  (∃ chunk ∈ chunks, chunk.Covers a n) ∨ Skipped errors a n

/-- Readable bytes between the start and the limit of a walk, few enough for a window of the grid to
show them all wherever they start. -/
structure Stretch (m : Memory) (g : Grid) (start : Address) (limit : Option Address) (a n : Nat) :
    Prop where
  pos : 0 < n
  narrow : n + g.stride ≤ g.size + 1
  readable : m.Readable a n
  start_le : start.toNat ≤ a
  below : ∀ l ∈ limit, a + n ≤ l.toNat

def SeenUpTo (m : Memory) (g : Grid) (start : Address) (limit : Option Address)
    (chunks : List Chunk) (errors : List MemoryError) (upTo : Nat) : Prop :=
  ∀ a n, Stretch m g start limit a n → a < upTo → Seen chunks errors a n

theorem Seen.mono {chunks more : List Chunk} {errors others : List MemoryError} {a n : Nat}
    (h : Seen chunks errors a n) : Seen (chunks ++ more) (errors ++ others) a n := by
  rcases h with ⟨chunk, hc, hcov⟩ | ⟨address, size, reason, he, hspan⟩
  · exact .inl ⟨chunk, List.mem_append_left _ hc, hcov⟩
  · exact .inr ⟨address, size, reason, List.mem_append_left _ he, hspan⟩

theorem seen_last {chunk : Chunk} {chunks : List Chunk} {errors : List MemoryError} {a n : Nat}
    (h : chunk.Covers a n) : Seen (chunks ++ [chunk]) errors a n :=
  .inl ⟨chunk, List.mem_append_right _ (List.mem_singleton_self _), h⟩

section
variable {m : Memory} {g : Grid} {start : Address} {limit : Option Address} {chunks : List Chunk}
  {errors : List MemoryError} {a n upTo : Nat}

theorem Stretch.isSome (h : Stretch m g start limit a n) : (m a).isSome := h.readable 0 h.pos

/-- A stretch does not reach past a byte that cannot be read. -/
theorem Stretch.le_of_eq_none {stop : Nat} (h : Stretch m g start limit a n) (hs : m stop = none)
    (ha : a < stop) : a + n ≤ stop := by
  refine Nat.le_of_not_lt fun hlt => ?_
  have := h.readable.isSome (Nat.le_of_lt ha) hlt
  rw [hs] at this
  cases this

theorem SeenUpTo.mono (h : SeenUpTo m g start limit chunks errors upTo) (more : List Chunk)
    (others : List MemoryError) :
    SeenUpTo m g start limit (chunks ++ more) (errors ++ others) upTo :=
  fun a n hs ha => (h a n hs ha).mono

theorem SeenUpTo.soft (h : SeenUpTo m g start limit chunks errors upTo)
    (others : List MemoryError) : SeenUpTo m g start limit chunks (errors ++ others) upTo := by
  simpa only [List.append_nil] using h.mono [] others

theorem SeenUpTo.chunk (h : SeenUpTo m g start limit chunks errors upTo) (chunk : Chunk) :
    SeenUpTo m g start limit (chunks ++ [chunk]) errors upTo := by
  simpa only [List.append_nil] using h.mono [chunk] []

/-- The address that is due moves up, past stretches that are seen or cannot be. -/
theorem SeenUpTo.extend {upTo' : Nat} (h : SeenUpTo m g start limit chunks errors upTo)
    (hs : ∀ a n, Stretch m g start limit a n → upTo ≤ a → a < upTo' → Seen chunks errors a n) :
    SeenUpTo m g start limit chunks errors upTo' := by
  intro a n hstretch ha
  by_cases hlt : a < upTo
  · exact h a n hstretch hlt
  · exact hs a n hstretch (Nat.le_of_not_lt hlt) ha

end

/-- The window lies in readable memory, which stops where its span does, or else the limit is
there. -/
structure Window.Lies {g : Grid} (m : Memory) (limit : Option Address) (w : Window g) : Prop where
  readable : ∀ n, w.address.toNat ≤ n → n < w.stop.toNat → (m n).isSome
  closed : m w.stop.toNat = none ∨ limit = some w.stop

theorem Window.Lies.ends {g : Grid} {m : Memory} {w : Window g} (h : w.Lies m none) :
    m w.stop.toNat = none := h.closed.resolve_right nofun

theorem Window.Lies.next {g : Grid} {m : Memory} {limit : Option Address} {w next : Window g}
    (h : w.Lies m limit) (hn : w.next? = some next) : next.Lies m limit := by
  have hlt : w.address.toNat < next.address.toNat := address_lt_of_next? hn
  have hstop := stop_of_next? hn
  refine ⟨fun n h1 h2 => ?_, hstop ▸ h.closed⟩
  rw [hstop] at h2
  exact h.readable n (by omega) h2

namespace Walker

variable {g : Grid} {σ β : Type}

/-- How much of the memory is settled after the moves `ms`, phase by phase. -/
def Settled (m : Memory) (start : Address) (limit : Option Address) (ms : List Move)
    (errors : List MemoryError) : Phase g → Prop
  | .seeking cursor => SeenUpTo m g start limit (delivered ms) errors cursor.toNat
  | .reading window =>
    window.Lies m limit ∧ SeenUpTo m g start limit (delivered ms) errors window.address.toNat
  | .delivering window bytes =>
    window.Lies m limit ∧ m.Holds window.address.toNat bytes.val ∧
      SeenUpTo m g start limit (delivered ms) errors window.address.toNat
  | .finished (.ok .exhausted) => ∀ upTo, SeenUpTo m g start limit (delivered ms) errors upTo
  | .finished (.ok .stopped) =>
    ∀ earlier chunk, ms = earlier ++ [.handOver chunk .stop] →
      SeenUpTo m g start limit (delivered earlier) errors chunk.address.toNat
  | .finished (.error _) => False

section
variable {m : Memory} {start cursor : Address} {limit : Option Address} {chunks : List Chunk}
  {errors : List MemoryError} {region : Region}

/-- Nothing lies between the cursor and the region found there. -/
theorem SeenUpTo.toRegion (h : SeenUpTo m g start limit chunks errors cursor.toNat)
    (hr : m.Next cursor region) :
    SeenUpTo m g start limit chunks errors (max region.start cursor).toNat := by
  refine h.extend fun a n hs h1 h2 => ?_
  rw [Address.toNat_max] at h2
  have hsome := hs.isSome
  rw [hr.first a h1 (by omega)] at hsome
  cases hsome

/-- Past the limit nothing is left to be seen. -/
theorem SeenUpTo.beyond {l : Address} (h : SeenUpTo m g start limit chunks errors cursor.toNat)
    (hl : l ∈ limit) (hle : l ≤ cursor) (upTo : Nat) :
    SeenUpTo m g start limit chunks errors upTo := by
  refine h.extend fun a n hs h1 _ => ?_
  have h2 : l.toNat ≤ cursor.toNat := hle
  have h3 := hs.below l hl
  have h4 := hs.pos
  omega

theorem lies_first (limit : Option Address) (hr : m.Next cursor region)
    (h : max region.start cursor < spanStop limit region) :
    (Window.first g _ _ h).Lies m limit := by
  have hstop : (spanStop limit region).toNat ≤ region.stop.toNat := spanStop_le limit region
  refine ⟨?_, ?_⟩
  · intro n h1 h2
    have hle : region.start.toNat ≤ (max region.start cursor).toNat := Address.le_max_left _ _
    exact hr.readable n (Nat.le_trans hle h1) (Nat.lt_of_lt_of_le h2 hstop)
  · rw [Window.first_stop]
    cases limit with
    | none => exact .inl hr.ends
    | some l =>
      by_cases hl : l ≤ region.stop
      · exact .inr (congrArg some (if_pos hl).symm)
      · have he : spanStop (some l) region = region.stop := if_neg hl
        exact .inl (he ▸ hr.ends)

end

namespace Course

variable {t : Target σ} {m : Memory} {start : Address} {limit : Option Address}
  {receive : Receiver β} {c d : Course g σ β} {ms : List Move} {move? : Option Move}

/-- A lookup that ends the walk leaves nothing unseen, and is no error. -/
theorem settled_closed {cursor : Address} {found : Except MemoryError (Option Region)}
    {result : Except MemoryError Ending} {chunks : List Chunk} {errors : List MemoryError}
    (hf : m.Found cursor found) (hr : Closes t limit cursor found result)
    (h : SeenUpTo m g start limit chunks errors cursor.toNat) :
    result = .ok .exhausted ∧ ∀ upTo, SeenUpTo m g start limit chunks errors upTo := by
  cases hr with
  | failed error => cases hf
  | nothingLeft =>
    cases hf with
    | nothing hnone =>
      refine ⟨rfl, fun upTo => h.extend fun a n hs h1 _ => ?_⟩
      have hsome := hs.isSome
      rw [hnone a h1] at hsome
      cases hsome
  | misplaced region hle =>
    cases hf with
    | region hnext => exact absurd hnext.reaches (Nat.not_lt_of_le hle)
  | outside region hc hspan =>
    cases hf with
    | region hnext =>
      refine ⟨rfl, fun upTo => ?_⟩
      have hmax := hnext.span_lt
      cases limit with
      | none => exact absurd hmax hspan
      | some l =>
        refine SeenUpTo.beyond (SeenUpTo.toRegion h hnext) (Option.mem_some.2 rfl) ?_ upTo
        rw [Address.lt_def, spanStop, Option.elim_some, Address.toNat_min] at hspan
        rw [Address.lt_def] at hmax
        rw [Address.le_def]
        omega

/-- A chunk shows every stretch that starts in it below the next window. -/
theorem settled_advanced {window next : Window g} {bytes : Bytes window.size}
    {chunks : List Chunk} {errors : List MemoryError} (hn : window.next? = some next)
    (h : SeenUpTo m g start limit chunks errors window.address.toNat) :
    SeenUpTo m g start limit (chunks ++ [⟨window.address, bytes.val⟩]) errors
      next.address.toNat := by
  refine (h.chunk _).extend fun a n hs h1 h2 => seen_last ⟨h1, ?_⟩
  have hle := Window.address_le_of_next? hn
  have hsize := Window.size_eq_of_next? hn
  have hnarrow := hs.narrow
  have hlen := bytes.property
  simp only
  omega

/-- The last chunk of a span shows every stretch that starts in it. -/
theorem settled_left {window : Window g} {bytes : Bytes window.size} {chunks : List Chunk}
    {errors : List MemoryError} (hn : window.next? = none) (hw : window.Lies m limit)
    (h : SeenUpTo m g start limit chunks errors window.address.toNat) :
    SeenUpTo m g start limit (chunks ++ [⟨window.address, bytes.val⟩]) errors
      window.stop.toNat := by
  refine (h.chunk _).extend fun a n hs h1 h2 => seen_last ⟨h1, ?_⟩
  have hfinish := Window.finish_eq_of_next? hn
  have hlen := bytes.property
  have hstop : a + n ≤ window.stop.toNat := by
    rcases hw.closed with hnone | hlim
    · exact hs.le_of_eq_none hnone h2
    · exact hs.below _ hlim
  simp only [Window.finish] at hfinish
  simp only
  omega

/-- A window that is given up leaves its span among the soft errors. -/
theorem settled_skipped {window : Window g} {chunks : List Chunk} {errors : List MemoryError}
    (reason : String) (h : SeenUpTo m g start limit chunks errors window.address.toNat) :
    SeenUpTo m g start limit chunks
      (errors ++ [.readFailed window.address window.size reason])
      (window.address.advance window.size).toNat := by
  refine (h.soft _).extend fun a n hs h1 h2 =>
    .inr ⟨window.address, window.size, reason, ?_, ?_, ?_⟩
  · exact List.mem_append_right _ (List.mem_singleton_self _)
  · rw [Address.toNat_advance] at h2
    omega
  · have := hs.pos
    omega

theorem Transition.settled (ht : Transition t limit receive c move? d) (hm : t.Shows m)
    (h : Settled m start limit ms c.walker.softErrors c.walker.phase) :
    Settled m start limit (ms ++ move?.toList) d.walker.softErrors d.walker.phase := by
  cases ht with
  | @atLimit cursor events hp hl =>
    rw [hp] at h
    obtain ⟨l, hmem, hle⟩ := Option.any_eq_true _ _ |>.1 hl
    simpa [Settled] using fun upTo => SeenUpTo.beyond h hmem (of_decide_eq_true hle) upTo
  | @closed cursor answer s result events hp hl hq hr =>
    rw [hp] at h
    have hf := hm.lookup cursor c.state
    rw [hq] at hf
    obtain ⟨rfl, hseen⟩ := settled_closed hf hr (h.soft answer.softErrors)
    simpa [Settled] using hseen
  | @entered cursor region soft s events hp hl hq hc hspan =>
    rw [hp] at h
    have hf := hm.lookup cursor c.state
    rw [hq] at hf
    cases hf with
    | region hnext =>
      refine ⟨lies_first limit hnext hspan, ?_⟩
      simpa using (SeenUpTo.toRegion h hnext).soft soft
  | @fetched window bytes soft s events hp hq =>
    rw [hp] at h
    have hf := hm.read window.address window.size c.state
    rw [hq] at hf
    cases hf with
    | bytes hbytes => exact ⟨h.1, hbytes, by simpa using h.2.soft soft⟩
  | @retried window error soft s events hp hq hr =>
    rw [hp] at h
    simpa [Settled] using h.2.soft soft
  | @skipped window error soft s events hp hq hr =>
    rw [hp] at h
    have hf := hm.read window.address window.size c.state
    rw [hq] at hf
    cases hf with
    | failed reason => simpa [Settled] using settled_skipped reason (h.2.soft soft)
  | @stopped window bytes receiver hp hv =>
    rw [hp] at h
    intro earlier chunk he
    obtain ⟨rfl, heq⟩ := List.append_inj' he rfl
    cases heq
    exact h.2.2
  | @advanced window next bytes receiver hp hv hn =>
    rw [hp] at h
    exact ⟨h.1.next hn, by simpa using settled_advanced hn h.2.2⟩
  | @left window bytes receiver hp hv hn =>
    rw [hp] at h
    simpa [Settled] using settled_left hn h.1 h.2.2
  | rested hp => simpa only [Option.toList_none, List.append_nil] using h

theorem Transition.holds (ht : Transition t limit receive c move? d)
    (hs : Settled m start limit ms c.walker.softErrors c.walker.phase)
    (h : ∀ chunk ∈ delivered ms, m.Holds chunk.address.toNat chunk.bytes) :
    ∀ chunk ∈ delivered (ms ++ move?.toList), m.Holds chunk.address.toNat chunk.bytes := by
  intro chunk hc
  rw [delivered_append, List.mem_append] at hc
  rcases hc with hc | hc
  · exact h chunk hc
  · cases ht with
    | stopped hp hv | advanced hp hv hn | left hp hv hn =>
      rw [hp] at hs
      rw [Option.toList_some, delivered_handOver, List.mem_singleton] at hc
      rw [hc]
      exact hs.2.1
    | _ => simp at hc

/-- A walk about to begin owes nothing below where it starts. -/
theorem settled_starting (t : Target σ) (m : Memory) (g : Grid) (start : Address)
    (limit : Option Address) (receiver : β) (s : σ) :
    Settled m start limit [] (starting t g start receiver s).walker.softErrors
      (starting t g start receiver s).walker.phase :=
  fun _ _ hs ha => absurd hs.start_le (Nat.not_le_of_lt ha)

/-- After any number of steps all stretches below the address that is due are settled, and the
chunks handed over hold what the memory does. -/
theorem settled_after (hm : t.Shows m) (limit : Option Address) (receive : Receiver β)
    (start : Address) (receiver : β) (s : σ) (n : Nat) :
    let c := after t limit receive n (starting t g start receiver s)
    let ms := moves t limit receive n (starting t g start receiver s)
    Settled m start limit ms c.walker.softErrors c.walker.phase ∧
      ∀ chunk ∈ delivered ms, m.Holds chunk.address.toNat chunk.bytes := by
  let P (ms : List Move) (d : Course g σ β) : Prop :=
    Settled m start limit ms d.walker.softErrors d.walker.phase ∧
      ∀ chunk ∈ delivered ms, m.Holds chunk.address.toNat chunk.bytes
  have h0 : P [] (starting t g start receiver s) :=
    ⟨settled_starting t m g start limit receiver s, fun chunk hc => nomatch hc⟩
  refine moves_induction t limit receive h0 ?_ n
  intro ms d move? d' ⟨hs, hc⟩ ht
  exact ⟨ht.settled hm hs, ht.holds hs hc⟩

end Course
end Walker
end ProcessMemory
