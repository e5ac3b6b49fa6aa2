import ProcessMemory.Search
import ProcessMemory.Proofs.Walk.Reliable
import ProcessMemory.Proofs.Walk.Safety

/-!
# The course of a search

A search hands its matcher one chunk after another, and goes on only while there is no hit. So when
it ends, the chunk with the hit came last and no chunk before it has one (`Searched`). Together with
what a walk covers, this is all that a search on a target with one memory can conclude.
-/
namespace ProcessMemory

/-- How a search stands after the moves `ms`, and what it has found. -/
inductive Searched {g : Grid} (m : Matcher) :
    List Move → Walker.Phase g → Option Address → Prop where
  | missed {ms : List Move} {phase : Walker.Phase g} (hp : phase ≠ .finished (.ok .stopped))
    (h : ∀ chunk ∈ delivered ms, m chunk = none) : Searched m ms phase none
  | hit {earlier : List Move} {chunk : Chunk} {address : Address} (hm : m chunk = some address)
    (h : ∀ chunk ∈ delivered earlier, m chunk = none) :
    Searched m (earlier ++ [.handOver chunk .stop]) (.finished (.ok .stopped)) (some address)

/-- What a search concludes from chunks of a memory and the soft errors met on the way. -/
inductive Concludes (memory : Memory) (g : Grid) (start : Address) (m : Matcher)
    (errors : List MemoryError) : Option Address → Prop where
  | nothing {chunks : List Chunk}
    (hold : ∀ chunk ∈ chunks, memory.Holds chunk.address.toNat chunk.bytes)
    (missed : ∀ chunk ∈ chunks, m chunk = none)
    (seen : ∀ upTo, SeenUpTo memory g start none chunks errors upTo) :
    Concludes memory g start m errors none
  | hit {chunks : List Chunk} {chunk : Chunk} {address : Address}
    (hold : ∀ chunk ∈ chunks, memory.Holds chunk.address.toNat chunk.bytes)
    (missed : ∀ chunk ∈ chunks, m chunk = none)
    (seen : SeenUpTo memory g start none chunks errors chunk.address.toNat)
    (start_le : start ≤ chunk.address) (holds : memory.Holds chunk.address.toNat chunk.bytes)
    (hit : m chunk = some address) : Concludes memory g start m errors (some address)

namespace Matcher

variable {m : Matcher} {chunk : Chunk} {found found' : Option Address}

theorem receive_eq_stop (h : m.receive found chunk = (found', .stop)) :
    ∃ address, m chunk = some address ∧ found' = some address := by
  unfold receive at h
  cases hm : m chunk with
  | none => simp [hm] at h
  | some address =>
    simp only [hm, Prod.mk.injEq, and_true] at h
    exact ⟨address, rfl, h.symm⟩

theorem receive_eq_goOn (h : m.receive found chunk = (found', .goOn)) :
    m chunk = none ∧ found' = found := by
  unfold receive at h
  cases hm : m chunk with
  | none =>
    simp only [hm, Prod.mk.injEq, and_true] at h
    exact ⟨rfl, h.symm⟩
  | some address => simp [hm] at h

end Matcher

namespace Searched

variable {g : Grid} {m : Matcher} {ms : List Move} {phase : Walker.Phase g}
  {found : Option Address}

theorem under_way (h : Searched m ms phase found) (hp : phase ≠ .finished (.ok .stopped)) :
    (∀ chunk ∈ delivered ms, m chunk = none) ∧ found = none := by
  cases h with
  | missed _ h => exact ⟨h, rfl⟩
  | hit => exact absurd rfl hp

/-- A search that goes on after a move has not been handed a chunk with a hit. -/
theorem go_on {move? : Option Move} {phase' : Walker.Phase g} (h : Searched m ms phase found)
    (hp : phase ≠ .finished (.ok .stopped)) (hp' : phase' ≠ .finished (.ok .stopped))
    (hm : ∀ chunk ∈ delivered move?.toList, m chunk = none) :
    Searched m (ms ++ move?.toList) phase' found := by
  obtain ⟨hmiss, rfl⟩ := h.under_way hp
  refine .missed hp' fun chunk hc => ?_
  rw [delivered_append, List.mem_append] at hc
  rcases hc with hc | hc
  · exact hmiss chunk hc
  · exact hm chunk hc

/-- The search has ended. -/
theorem concludes {memory : Memory} {start : Address} {errors : List MemoryError}
    {result : Except MemoryError Ending}
    (h : Searched m ms (.finished result : Walker.Phase g) found)
    (hset : Walker.Settled memory start none ms errors (.finished result : Walker.Phase g))
    (hold : ∀ chunk ∈ delivered ms, memory.Holds chunk.address.toNat chunk.bytes)
    (hsound : AllSound g start none ms) :
    (∃ ending, result = .ok ending) ∧ Concludes memory g start m errors found := by
  cases h with
  | missed hp hmiss =>
    cases result with
    | error error => exact hset.elim
    | ok ending =>
      cases ending with
      | stopped => exact absurd rfl hp
      | exhausted => exact ⟨⟨.exhausted, rfl⟩, .nothing hold hmiss hset⟩
  | @hit earlier chunk address hm hmiss =>
    rw [delivered_append, delivered_handOver, List.forall_mem_append] at hold
    refine ⟨⟨.stopped, rfl⟩, .hit hold.1 hmiss (hset earlier chunk rfl) ?_ ?_ hm⟩
    · exact (hsound earlier chunk .stop [] rfl).start_le
    · exact hold.2 chunk (List.mem_singleton_self _)

end Searched

namespace Walker

variable {g : Grid} {σ : Type} {t : Target σ} {limit : Option Address} {m : Matcher}

namespace Course

variable {c d : Course g σ (Option Address)} {ms : List Move} {move? : Option Move}

theorem Transition.searched (ht : Transition t limit m.receive c move? d)
    (h : Searched m ms c.walker.phase c.receiver) :
    Searched m (ms ++ move?.toList) d.walker.phase d.receiver := by
  cases ht with
  | atLimit events hp hl => exact h.go_on (by simp [hp]) (by simp) (by simp)
  | closed events hp hl hq hr =>
    exact h.go_on (by simp [hp]) (by simpa using hr.ne_stopped) (by simp)
  | stopped hp hv =>
    obtain ⟨address, hm, rfl⟩ := Matcher.receive_eq_stop hv
    exact .hit hm (h.under_way (by simp [hp])).1
  | advanced hp hv hn =>
    obtain ⟨hm, rfl⟩ := Matcher.receive_eq_goOn hv
    exact h.go_on (by simp [hp]) (by simp) (by simpa using hm)
  | left hp hv hn =>
    obtain ⟨hm, rfl⟩ := Matcher.receive_eq_goOn hv
    exact h.go_on (by simp [hp]) (by simp) (by simpa using hm)
  | rested hp => simpa only [Option.toList_none, List.append_nil] using h
  | entered events hp | fetched events hp | retried events hp | skipped events hp =>
    exact h.go_on (by simp [hp]) (by simp) (by simp)

theorem searched_after (t : Target σ) (g : Grid) (limit : Option Address) (m : Matcher)
    (start : Address) (s : σ) (n : Nat) :
    let begun : Course g σ (Option Address) := starting t g start none s
    Searched m (moves t limit m.receive n begun) (after t limit m.receive n begun).walker.phase
      (after t limit m.receive n begun).receiver := by
  let P (ms : List Move) (d : Course g σ (Option Address)) : Prop :=
    Searched m ms d.walker.phase d.receiver
  have h0 : P [] (starting t g start none s) := by
    refine .missed ?_ fun chunk hc => nomatch hc
    simp [starting, startingAt]
  exact moves_induction t limit m.receive h0 (fun ih ht => ht.searched ih) n

end Course
end Walker

open Walker Walker.Course

variable {σ : Type} {t : Target σ}

/-- A search on a target that shows one memory meets no hard error. -/
theorem search_concludes {memory : Memory} (hm : t.Shows memory) (start : Address) {size : Nat}
    (h : 0 < size) (m : Matcher) (s : σ) :
    let outcome := (search t start size m s).outcome
    ∃ found, outcome.result = .ok found ∧
      Concludes memory (Grid.sliding size h) start m outcome.softErrors found := by
  let g := Grid.sliding size h
  obtain ⟨n, -, result, hp⟩ := exists_finished t none m.receive (starting t g start none s)
  obtain ⟨hset, hold⟩ := settled_after (g := g) hm none m.receive start none s n
  have hsound := (sound_after t g start none m.receive none s n).1
  have hsearched := searched_after t g none m start s n
  simp only [hp] at hset hsearched
  obtain ⟨⟨ending, rfl⟩, hc⟩ := hsearched.concludes hset hold hsound
  have heq : walkSliding t start size m.receive none s =
      (after t none m.receive n (starting t g start none s)).report (.ok ending) := by
    rw [walkSliding, dif_pos h, walkGrid_of_finished hp]
  rw [search, heq]
  exact ⟨_, rfl, hc⟩

theorem search_noReadFailed {memory : Memory} {ok : σ → Prop} (hshows : t.Shows memory)
    (hm : t.Reliable memory ok) (start : Address) {size : Nat} (h : 0 < size) (m : Matcher) {s : σ}
    (hs : ok s) : NoReadFailed (search t start size m s).outcome.softErrors := by
  rw [search, walkSliding, dif_pos h]
  exact walkGrid_noReadFailed hshows hm start none m.receive none hs

end ProcessMemory
