import ProcessMemory.Proofs.Walk.Coverage
import ProcessMemory.Proofs.Walk.Safety

/-!
# Receivers that never stop

A receiver that never asks to stop has no say in how a walk goes: every such receiver is given the
chunks that `keepAll` keeps (`walkGrid_receiver`). On a target that shows one memory the walk then
goes on until no region is left, and loses nothing on its way (`walkGrid_completes`).
-/
namespace ProcessMemory

theorem keepAll_goOn (kept : List Chunk) (chunk : Chunk) : (keepAll kept chunk).2 = .goOn := rfl

theorem foldl_keepAll (chunks kept : List Chunk) :
    chunks.foldl (fun r chunk => (keepAll r chunk).1) kept = kept ++ chunks := by
  induction chunks generalizing kept with
  | nil => rw [List.foldl_nil, List.append_nil]
  | cons chunk rest ih =>
    rw [List.foldl_cons, ih, keepAll, List.append_assoc]
    rfl

namespace Walker.Course

variable {g : Grid} {σ β γ : Type} {t : Target σ} {limit : Option Address} {receive : Receiver β}
  {receive' : Receiver γ}

def withReceiver (c : Course g σ β) (receiver : γ) : Course g σ γ :=
  ⟨c.walker, c.state, receiver, c.events⟩

theorem step_withReceiver (hgo : ∀ b chunk, (receive b chunk).2 = .goOn)
    (hgo' : ∀ b chunk, (receive' b chunk).2 = .goOn) (c : Course g σ β) (receiver : γ) :
    (c.withReceiver receiver).step t limit receive' =
      (c.step t limit receive).withReceiver
        ((delivered (c.move? t limit receive).toList).foldl
          (fun r chunk => (receive' r chunk).1) receiver) := by
  cases hp : c.walker.phase with
  | seeking cursor =>
    by_cases hl : limit.any (· ≤ cursor) <;> simp [step, withReceiver, move?, hp, hl]
  | reading window => simp [step, withReceiver, move?, hp]
  | delivering window bytes => simp [step, withReceiver, move?, hp, hgo, hgo']
  | finished result => simp [step, withReceiver, move?, hp]

theorem after_withReceiver (hgo : ∀ b chunk, (receive b chunk).2 = .goOn)
    (hgo' : ∀ b chunk, (receive' b chunk).2 = .goOn) (n : Nat) (c : Course g σ β)
    (receiver : γ) :
    after t limit receive' n (c.withReceiver receiver) =
      (after t limit receive n c).withReceiver
        ((delivered (moves t limit receive n c)).foldl
          (fun r chunk => (receive' r chunk).1) receiver) := by
  induction n generalizing c receiver with
  | zero => rfl
  | succ n ih =>
    rw [after, step_withReceiver hgo hgo', ih, after, moves, delivered_append, List.foldl_append]

/-- A walk ends stopped only where its receiver asked for it. -/
theorem not_stopped_after (t : Target σ) (g : Grid) (limit : Option Address)
    (hgo : ∀ b chunk, (receive b chunk).2 = .goOn) (start : Address) (receiver : β) (s : σ)
    (n : Nat) :
    (after t limit receive n (starting t g start receiver s)).walker.phase ≠
      .finished (.ok .stopped) := by
  let P (_ : List Move) (d : Course g σ β) : Prop := d.walker.phase ≠ .finished (.ok .stopped)
  have h0 : P [] (starting t g start receiver s) := nofun
  refine moves_induction t limit receive h0 ?_ n
  intro ms d move? d' ih ht
  cases ht with
  | closed events hp hl hq hr => simpa [P] using hr.ne_stopped
  | stopped hp hv =>
    have hverdict := congrArg Prod.snd hv
    rw [hgo] at hverdict
    cases hverdict
  | rested hp => exact ih
  | _ => simp [P]

/-- The walk whose receiver keeps every chunk ends with the chunks handed over. -/
theorem exists_keepAll (t : Target σ) (g : Grid) (start : Address) (limit : Option Address)
    (s : σ) :
    ∃ n result, let begun := starting t g start ([] : List Chunk) s
      let c := after t limit keepAll n begun
      c.walker.phase = .finished result ∧ c.receiver = delivered (moves t limit keepAll n begun) ∧
        walkGrid t g start limit keepAll [] s = c.report result := by
  let begun := starting t g start ([] : List Chunk) s
  obtain ⟨n, -, result, hp⟩ := exists_finished t limit keepAll begun
  refine ⟨n, result, hp, ?_, walkGrid_of_finished hp⟩
  rw [receiver_after, foldl_keepAll]
  exact List.nil_append _

end Walker.Course

open Walker Walker.Course

variable {g : Grid} {σ β : Type} {t : Target σ} {receive : Receiver β}

/-- A receiver that never stops is given the chunks that `keepAll` keeps, and nothing else of the
walk depends on it. -/
theorem walkGrid_receiver (hgo : ∀ b chunk, (receive b chunk).2 = .goOn) (start : Address)
    (limit : Option Address) (receiver : β) (s : σ) :
    walkGrid t g start limit receive receiver s =
      ((walkGrid t g start limit keepAll [] s).1,
        (walkGrid t g start limit keepAll [] s).2.foldl (fun r chunk => (receive r chunk).1)
          receiver) := by
  obtain ⟨n, result, hp, hkept, hkeep⟩ := exists_keepAll t g start limit s
  let begun := starting t g start ([] : List Chunk) s
  have hafter : after t limit receive n (starting t g start receiver s) = _ :=
    after_withReceiver keepAll_goOn hgo n begun receiver
  have hp' : (after t limit receive n (starting t g start receiver s)).walker.phase =
      .finished result := (congrArg (·.walker.phase) hafter).trans hp
  rw [walkGrid_of_finished hp', hkeep, hafter]
  simp only [report, withReceiver, hkept, begun]

/-- What a walk from `start` owes to a receiver that never stops: it goes on until no region is
left, hands over what the memory holds, and shows every stretch or keeps the error for which it was
skipped. -/
structure Completes (m : Memory) (g : Grid) (start : Address)
    (walked : Report σ Ending × List Chunk) : Prop where
  exhausted : walked.1.outcome.result = .ok .exhausted
  nonempty : ∀ chunk ∈ walked.2, 0 < chunk.bytes.length
  holds : ∀ chunk ∈ walked.2, m.Holds chunk.address.toNat chunk.bytes
  seen : ∀ a n, Stretch m g start none a n → Seen walked.2 walked.1.outcome.softErrors a n

theorem walkGrid_completes {m : Memory} (hm : t.Shows m) (g : Grid) (start : Address) (s : σ) :
    Completes m g start (walkGrid t g start none keepAll [] s) := by
  obtain ⟨n, result, hp, hkept, heq⟩ := exists_keepAll t g start none s
  obtain ⟨hset, hold⟩ := settled_after (g := g) hm none keepAll start [] s n
  have hgo := not_stopped_after t g none keepAll_goOn start [] s n
  have hsound := (sound_after t g start none keepAll [] s n).1
  rw [hp] at hset hgo
  rw [← hkept] at hold
  rw [heq]
  cases result with
  | error error => exact hset.elim
  | ok ending =>
    cases ending with
    | stopped => exact absurd rfl hgo
    | exhausted =>
      refine ⟨rfl, fun chunk hc => ?_, hold, fun a k hs => ?_⟩
      · rw [report, hkept] at hc
        obtain ⟨before, hbefore⟩ := hsound.of_mem hc
        exact hbefore.nonempty
      · have hseen := hset (a + 1) a k hs (Nat.lt_succ_self a)
        rwa [← hkept] at hseen

/-- Each chunk lies inside one run. -/
theorem Completes.inRun {m : Memory} {start : Address} {walked : Report σ Ending × List Chunk}
    {top : Nat} (h : Completes m g start walked) (htop : ∀ k, top ≤ k → m k = none) :
    ∀ chunk ∈ walked.2, ∃ first stop, m.IsRun first stop ∧ first ≤ chunk.address.toNat ∧
      chunk.address.toNat + chunk.bytes.length ≤ stop :=
  fun chunk hc => (h.holds chunk hc).readable.inRun htop (h.nonempty chunk hc)

end ProcessMemory
