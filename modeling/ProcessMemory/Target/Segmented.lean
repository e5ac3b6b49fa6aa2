import ProcessMemory.Mapping
import ProcessMemory.Target

/-!
# Segmented processes

A process held in memory: segments at chosen addresses, readable or not, and a table of faults that
make reads fail. It keeps the contract of a real target, so it stands in for one wherever a known
address space is wanted.
-/
namespace ProcessMemory

structure Segment where
  start : Address
  data : List UInt8
  readable : Bool
  deriving DecidableEq

namespace Segment

def stop (s : Segment) : Address := s.start.advance s.data.length

def mapping (s : Segment) : Mapping := ⟨s.start, s.stop, s.readable⟩

def patternByte (address : Nat) : UInt8 := UInt8.ofNat (address % 0x1_0000_0000_0000_0000 % 251)

def patterned (start : Address) (size : Nat) : Segment :=
  ⟨start, (List.range size).map fun i => patternByte (start.toNat + i), true⟩

def hidden (start : Address) (size : Nat) : Segment := ⟨start, List.replicate size 0, false⟩

def serves (s : Segment) (address : Address) : Bool :=
  s.readable && decide (s.start ≤ address) && decide (address < s.stop)

theorem start_le_stop (s : Segment) : s.start ≤ s.stop := by
  have := s.start.isLt
  rw [Address.le_def, stop, Address.toNat_advance]
  omega

/-- The first two neighbours of which the second starts below the stop of the first. -/
def overlap? : List Segment → Option (Segment × Segment)
  | a :: b :: rest => if b.start < a.stop then some (a, b) else overlap? (b :: rest)
  | _ => none

/-- If no neighbours overlap, no two segments do. -/
theorem pairwise_of_overlap? : ∀ {segments : List Segment}, overlap? segments = none →
    segments.Pairwise fun a b => a.stop ≤ b.start
  | [], _ => .nil
  | [_], _ => List.pairwise_singleton _ _
  | a :: b :: rest, h => by
    unfold overlap? at h
    split at h
    · simp at h
    · rename_i hab
      have ih := pairwise_of_overlap? h
      refine .cons (fun c hc => ?_) ih
      rw [Address.lt_def] at hab
      rcases List.mem_cons.1 hc with rfl | hc
      · rw [Address.le_def]; omega
      · have hb := b.start_le_stop
        have hbc := (List.pairwise_cons.1 ih).1 c hc
        rw [Address.le_def] at *
        omega

end Segment

/-- How often a fault still strikes. -/
inductive Times where
  | times (n : Nat)
  | always
  deriving DecidableEq

/-- The highest count stands for a fault that never wears out. -/
def Times.ofNat (n : Nat) : Times := if n = 0xFFFF_FFFF_FFFF_FFFF then .always else .times n

/-- A fault at an address: reads that touch it fail. -/
structure Fault where
  address : Address
  times : Times
  deriving DecidableEq

namespace Fault

/-- The fault is not worn out and lies in the span from `start` up to `stop`. -/
def pending (start stop : Address) (f : Fault) : Bool :=
  f.times ≠ .times 0 && decide (start ≤ f.address) && decide (f.address < stop)

def struck (f : Fault) : Fault :=
  match f.times with
  | .times n => { f with times := .times (n - 1) }
  | .always => f

/-- Lets the pending fault that `k` others precede strike. -/
def strike (start stop : Address) : Nat → List Fault → List Fault
  | _, [] => []
  | 0, f :: rest =>
    if f.pending start stop then f.struck :: rest else f :: strike start stop 0 rest
  | k + 1, f :: rest =>
    f :: strike start stop (if f.pending start stop then k else k + 1) rest

def put (f : Fault) : List Fault → List Fault
  | [] => [f]
  | g :: rest => if g.address = f.address then f :: rest else g :: put f rest

end Fault

/-- Segments in ascending order, none empty and no two overlapping. -/
structure SegmentedProcess where
  pid : ProcessId
  segments : List Segment
  nonempty : ∀ s ∈ segments, s.data ≠ []
  ordered : segments.Pairwise fun a b => a.stop ≤ b.start

namespace SegmentedProcess

/-- Sorts segments into a process, or says which are empty or overlap. -/
def build (pid : ProcessId) (segments : List Segment) : Except MemoryError SegmentedProcess :=
  let sorted := segments.mergeSort fun a b => decide (a.start ≤ b.start)
  match he : sorted.find? (·.data.isEmpty) with
  | some s => .error (.invalidArgument s!"empty segment at {s.start}")
  | none =>
    match ho : Segment.overlap? sorted with
    | some (a, b) => .error (.invalidArgument s!"segments at {a.start} and {b.start} overlap")
    | none =>
      .ok ⟨pid, sorted, fun s hs => by simpa using List.find?_eq_none.1 he s hs,
        Segment.pairwise_of_overlap? ho⟩

/-- What changes while the process is read: the faults left, and the number of reads made. -/
structure Wear where
  faults : List Fault := []
  reads : Nat := 0

variable (p : SegmentedProcess)

def serving? (address : Address) : Option Segment := p.segments.find? (·.serves address)

/-- The bytes from `cursor` on, gathered segment by segment, or the first address without one. -/
def gather (cursor : Address) (n : Nat) : Except Address (Bytes n) :=
  if hn : n = 0 then .ok (Bytes.empty hn)
  else
    match hs : p.serving? cursor with
    | none => .error cursor
    | some s =>
      let offset := s.start.distanceTo cursor
      let count := min (s.data.length - offset) n
      match gather (cursor.advance count) (n - count) with
      | .error missing => .error missing
      | .ok rest =>
        .ok ⟨(s.data.drop offset).take count ++ rest.val, by
          have := rest.property
          simp only [List.length_append, List.length_take, List.length_drop, this]
          omega⟩
termination_by n
decreasing_by
  have h := List.find?_some hs
  simp only [Segment.serves, Bool.and_eq_true, decide_eq_true_eq] at h
  obtain ⟨⟨-, h1⟩, h2⟩ := h
  rw [Address.le_def] at h1
  rw [Address.lt_def, Segment.stop, Address.toNat_advance] at h2
  simp only [Address.distanceTo]
  omega

def bytes? (address : Address) (size : Nat) : Option (List UInt8) :=
  match p.gather address size with
  | .ok bytes => some bytes.val
  | .error _ => none

def fill (address : Address) (size : Nat) : Outcome (Bytes size) :=
  match p.gather address size with
  | .ok bytes => .ok bytes
  | .error missing => .fail (.readFailed address size s!"{missing} is not mapped")

/-- Reads, unless a pending fault strikes. Of several pending ones `choose` picks by the number of
reads made before. -/
def read (choose : Nat → Nat) (address : Address) (size : Nat) (w : Wear) :
    Outcome (Bytes size) × Wear :=
  let stop := address.advance size
  let pending := w.faults.filter (·.pending address stop)
  if pending.isEmpty then (p.fill address size, { w with reads := w.reads + 1 })
  else
    (.fail (.readFailed address size "injected fault"),
      ⟨Fault.strike address stop (choose w.reads % pending.length) w.faults, w.reads + 1⟩)

def lookup (address : Address) : Outcome (Option Region) :=
  regionAt (p.segments.map fun s => .ok s.mapping) address

/-- The process as a target on which `choose` picks among pending faults. -/
def targetChoosing (choose : Nat → Nat) : Target Wear where
  pid := p.pid
  lookup address w := (p.lookup address, w)
  read := p.read choose

def target : Target Wear := p.targetChoosing fun _ => 0

end SegmentedProcess
end ProcessMemory
