import Mathlib.Algebra.Group.Nat.Defs
import ProcessMemory.Windows.Listing
import ProcessMemory.Windows.Machine

/-!
# Whole listings

A system that cuts a list of processes off at the end of the buffer says no more than the length of
what it wrote. A buffer that is not full therefore holds the whole list, and one that is full is
doubled even where it happens to hold the whole list too. The bytes of a buffer are a number of 32
bits, which the larger buffers must not exceed before one of them is not full.
-/
namespace ProcessMemory.Windows

variable {σ : Type}

/-- The system writes as many of some ids as a buffer holds. -/
def Api.Lists (api : Api σ) (pids : List ProcessId) : Prop :=
  ∀ (bytes : UInt32) (s : σ), (api.listProcesses bytes s).1 = some (pids.take (bytes.toNat / 4))

theorem Machine.lists (m : Machine) (h : m.processesCode = 0) : m.api.Lists m.processes := by
  intro bytes s
  simp [api, h]

namespace Api

variable {api : Api σ} {pids : List ProcessId} {slots : Nat}

/-- The call for a buffer whose bytes can be counted. -/
theorem Lists.call (h : api.Lists pids) (hbytes : slots * 4 < 0x1_0000_0000) (s : σ) :
    (UInt32.ofNat (slots * 4)).toNat = slots * 4 ∧
      ∃ s', api.listProcesses (UInt32.ofNat (slots * 4)) s = (some (pids.take slots), s') := by
  have hcount : (UInt32.ofNat (slots * 4)).toNat = slots * 4 := UInt32.toNat_ofNat_of_lt' hbytes
  have hcall := h (UInt32.ofNat (slots * 4)) s
  rw [hcount, Nat.mul_div_cancel slots (by decide)] at hcall
  exact ⟨hcount, _, Prod.ext hcall rfl⟩

/-- A buffer that is larger than the list ends the loop. -/
theorem growProcesses_larger (h : api.Lists pids) (hbytes : slots * 4 < 0x1_0000_0000)
    (hlen : pids.length < slots) (rounds : Nat) (s : σ) :
    (api.growProcesses slots (rounds + 1) s).1 = .ok (pids.filter (· != 0)) := by
  obtain ⟨hcount, s', hcall⟩ := h.call hbytes s
  have htake : pids.take slots = pids := List.take_of_length_le (Nat.le_of_lt hlen)
  have hnotFull : pids.length * 4 < slots * 4 := by omega
  simp only [growProcesses, hcall, hcount, htake, if_pos hnotFull]

/-- A buffer that the list fills is doubled, if with nothing left to list. -/
theorem growProcesses_full (h : api.Lists pids) (hbytes : slots * 4 < 0x1_0000_0000)
    (hlen : slots ≤ pids.length) (rounds : Nat) (s : σ) :
    ∃ s', api.growProcesses slots (rounds + 1) s = api.growProcesses (slots * 2) rounds s' := by
  obtain ⟨hcount, s', hcall⟩ := h.call hbytes s
  have hfull : ¬(pids.take slots).length * 4 < slots * 4 := by
    rw [List.length_take_of_le hlen]
    exact Nat.lt_irrefl _
  exact ⟨s', by simp only [growProcesses, hcall, hcount, if_neg hfull]⟩

/-- Some buffer is larger than the list, before the bytes of one can no longer be counted. -/
theorem growProcesses_eq_ok (h : api.Lists pids) (slots rounds more : Nat)
    (hlen : pids.length < slots * 2 ^ rounds) (hbytes : slots * 2 ^ rounds * 4 < 0x1_0000_0000)
    (s : σ) : (api.growProcesses slots (rounds + 1 + more) s).1 = .ok (pids.filter (· != 0)) := by
  induction rounds generalizing slots s with
  | zero =>
    rw [Nat.zero_add, Nat.add_comm]
    exact growProcesses_larger h (by omega) (by omega) more s
  | succ rounds ih =>
    have hdoubled : slots * 2 ^ (rounds + 1) = slots * 2 * 2 ^ rounds := by
      rw [Nat.pow_succ', Nat.mul_assoc]
    rw [hdoubled] at hlen hbytes
    have hgrows : slots * 2 ≤ slots * 2 * 2 ^ rounds :=
      Nat.le_mul_of_pos_right _ (Nat.two_pow_pos rounds)
    have hrounds : rounds + 1 + 1 + more = rounds + 1 + more + 1 := Nat.add_right_comm ..
    rw [hrounds]
    rcases Nat.lt_or_ge pids.length slots with hlarger | hfull
    · exact growProcesses_larger h (by omega) hlarger _ s
    · obtain ⟨s', hnext⟩ := growProcesses_full h (by omega) hfull (rounds + 1 + more) s
      rw [hnext]
      exact ih (slots * 2) hlen hbytes s'

/-- On a system with fewer than 2²⁹ processes their listing ends and gives all ids but the zeros, in
the order of the system, also where a buffer on the way is filled without a cut. -/
theorem processes_complete (api : Api σ) (pids : List ProcessId) (h : api.Lists pids)
    (hlen : pids.length < 2 ^ 29) (s : σ) :
    (api.processes s).1 = .ok (pids.filter (· != 0)) :=
  growProcesses_eq_ok h 1024 19 31 hlen (by decide) s

/-- The ids fill the first buffer exactly. -/
theorem processes_complete_filled :
    let m : Machine := { processes := 0 :: List.replicate 1023 4 }
    m.api.Lists m.processes ∧ m.processes.length = 1024 ∧
      (m.api.processes {}).1 = .ok (List.replicate 1023 4) := by
  intro m
  have hlists : m.api.Lists m.processes := m.lists rfl
  have hlen : m.processes.length = 1024 := by
    simp only [m, List.length_cons, List.length_replicate]
  refine ⟨hlists, hlen, ?_⟩
  have hids : m.processes.filter (· != 0) = List.replicate 1023 4 :=
    List.filter_replicate_of_pos rfl
  rw [processes_complete m.api m.processes hlists (by omega), hids]

end Api
end ProcessMemory.Windows
