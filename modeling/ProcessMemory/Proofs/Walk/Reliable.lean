import ProcessMemory.Proofs.Walk.Coverage

/-!
# Walks of targets that do not fail

Where every read of readable bytes succeeds, a walk gives no window up: none of its soft errors
comes from a read.
-/
namespace ProcessMemory

theorem NoReadFailed.not_skipped {errors : List MemoryError} (h : NoReadFailed errors) (a n : Nat) :
    ¬Skipped errors a n := by
  rintro ⟨address, size, reason, he, -⟩
  exact h address size reason he

/-- Where no read failed, what was passed over lay whole in some chunk. -/
theorem SeenUpTo.exists_covers {m : Memory} {g : Grid} {start : Address} {limit : Option Address}
    {chunks : List Chunk} {errors : List MemoryError} {a n upTo : Nat}
    (h : SeenUpTo m g start limit chunks errors upTo) (hr : NoReadFailed errors)
    (hstretch : Stretch m g start limit a n) (ha : a < upTo) :
    ∃ chunk ∈ chunks, chunk.Covers a n :=
  (h a n hstretch ha).resolve_right (hr.not_skipped a n)

theorem Window.Lies.readable_size {g : Grid} {m : Memory} {limit : Option Address} {w : Window g}
    (h : w.Lies m limit) : m.Readable w.address.toNat w.size := by
  have hfits := w.fits
  exact fun i hi => h.readable _ (Nat.le_add_right _ _) (by omega)

namespace Walker.Course

variable {g : Grid} {σ β : Type} {t : Target σ} {m : Memory} {ok : σ → Prop} {start : Address}
  {limit : Option Address} {receive : Receiver β} {c d : Course g σ β} {ms : List Move}
  {move? : Option Move}

theorem Transition.noReadFailed (ht : Transition t limit receive c move? d)
    (hm : t.Reliable m ok)
    (hs : Settled m start limit ms c.walker.softErrors c.walker.phase)
    (h : ok c.state ∧ NoReadFailed c.walker.softErrors) :
    ok d.state ∧ NoReadFailed d.walker.softErrors := by
  have hread {window : Window g} (hp : c.walker.phase = .reading window) :=
    hm.read window.address window.size c.state h.1 (by rw [hp] at hs; exact hs.1.readable_size)
  cases ht with
  | @closed cursor answer s result events hp hl hq hr =>
    have hlook := hm.lookup cursor c.state h.1
    rw [hq] at hlook
    exact ⟨hlook.1, h.2.append hlook.2⟩
  | @entered cursor region soft s events hp hl hq hc hspan =>
    have hlook := hm.lookup cursor c.state h.1
    rw [hq] at hlook
    exact ⟨hlook.1, h.2.append hlook.2⟩
  | @fetched window bytes soft s events hp hq =>
    have hr := hread hp
    rw [hq] at hr
    exact ⟨hr.2.1, h.2.append hr.2.2⟩
  | @retried window error soft s events hp hq hr =>
    have hr := hread hp
    rw [hq] at hr
    cases hr.1
  | @skipped window error soft s events hp hq hr =>
    have hr := hread hp
    rw [hq] at hr
    cases hr.1
  | _ => exact h

/-- A walk of a target that does not fail gives no window up. -/
theorem noReadFailed_after (hshows : t.Shows m) (hm : t.Reliable m ok) (limit : Option Address)
    (receive : Receiver β) (start : Address) (receiver : β) {s : σ} (hs : ok s) (n : Nat) :
    NoReadFailed (after t limit receive n (starting t g start receiver s)).walker.softErrors := by
  let P (ms : List Move) (d : Course g σ β) : Prop :=
    Settled m start limit ms d.walker.softErrors d.walker.phase ∧
      ok d.state ∧ NoReadFailed d.walker.softErrors
  have h0 : P [] (starting t g start receiver s) :=
    ⟨settled_starting t m g start limit receiver s, hs, fun _ _ _ he => nomatch he⟩
  refine (moves_induction t limit receive h0 ?_ n).2.2
  intro ms d move? d' ⟨hset, hok⟩ ht
  exact ⟨ht.settled hshows hset, ht.noReadFailed hm hset hok⟩

end Walker.Course

open Walker.Course in
theorem walkGrid_noReadFailed {g : Grid} {σ β : Type} {t : Target σ} {m : Memory} {ok : σ → Prop}
    (hshows : t.Shows m) (hm : t.Reliable m ok) (start : Address) (limit : Option Address)
    (receive : Receiver β) (receiver : β) {s : σ} (hs : ok s) :
    NoReadFailed (walkGrid t g start limit receive receiver s).1.outcome.softErrors := by
  obtain ⟨n, -, result, hp⟩ :=
    exists_finished t limit receive (starting t g start receiver s)
  rw [walkGrid_of_finished hp]
  exact noReadFailed_after hshows hm limit receive start receiver hs n

end ProcessMemory
