import ProcessMemory.Walk.Walker

/-!
# Walks

A walk hands the readable memory of a target, chunk by chunk, to a receiver that keeps a state of
its own and may ask to stop. `walk` hands over each byte once, save where the last chunk of a
region repeats some; in `walkSliding` chunks overlap by half, so a sequence of at most half a
chunk's size lies whole in one of them.
-/
namespace ProcessMemory

/-- Takes a chunk and says whether to go on. -/
abbrev Receiver (β : Type) := β → Chunk → β × Verdict

namespace Walker

variable {g : Grid} {σ β : Type}

/-- Where a walk has got to: the walker, its target, its receiver, and the events so far. -/
structure Course (g : Grid) (σ β : Type) where
  walker : Walker g
  state : σ
  receiver : β
  events : List Event := []

namespace Course

def starting (t : Target σ) (g : Grid) (start : Address) (receiver : β) (s : σ) : Course g σ β :=
  ⟨Walker.startingAt g start, s, receiver, [.walking t.pid start g.size g.stride]⟩

/-- One step: the chunk in hand is handed over, or the next query asked. -/
def step (t : Target σ) (limit : Option Address) (receive : Receiver β) (c : Course g σ β) :
    Course g σ β :=
  match c.walker.phase with
  | .delivering window bytes =>
    let (receiver, verdict) := receive c.receiver ⟨window.address, bytes.val⟩
    { c with walker := c.walker.proceed window verdict, receiver }
  | _ =>
    let (walker, state, events) := c.walker.ask t limit c.state
    { c with walker, state, events := c.events ++ events }

/-- What a walk that has ended with `result` gives back. -/
def report (c : Course g σ β) (result : Except MemoryError Ending) : Report σ Ending × β :=
  (⟨⟨result, c.walker.softErrors⟩, c.state, c.events⟩, c.receiver)

/-- A step leaves fewer to come, whatever the target and the receiver do. -/
theorem remaining_step_lt (t : Target σ) (limit : Option Address) (receive : Receiver β)
    {c : Course g σ β} (h : c.walker.result? = none) :
    (c.step t limit receive).walker.remaining < c.walker.remaining := by
  unfold step
  split
  · rename_i window bytes hp
    have := remaining_proceed_lt c.walker window
      (receive c.receiver ⟨window.address, bytes.val⟩).2
    simpa only [remaining, hp] using this
  · rename_i hd
    refine remaining_ask_lt t limit c.state ?_
    cases hp : c.walker.phase with
    | seeking cursor => simp [isAsking, hp]
    | reading window => simp [isAsking, hp]
    | delivering window bytes => exact absurd hp (hd window bytes)
    | finished result => simp [result?, hp] at h

end Course

def run (t : Target σ) (limit : Option Address) (receive : Receiver β) (c : Course g σ β) :
    Except MemoryError Ending × Course g σ β :=
  match _h : c.walker.result? with
  | some result => (result, c)
  | none => run t limit receive (c.step t limit receive)
termination_by c.walker.remaining
decreasing_by exact Course.remaining_step_lt t limit receive _h

end Walker

variable {σ β : Type}

/-- Walks from `start` up to `limit`, or to the end of readable memory. -/
def walkGrid (t : Target σ) (g : Grid) (start : Address) (limit : Option Address)
    (receive : Receiver β) (receiver : β) (s : σ) : Report σ Ending × β :=
  let (result, c) := Walker.run t limit receive (Walker.Course.starting t g start receiver s)
  c.report result

/-- What a walk with chunks of no bytes gives. -/
def emptyBuffer (receiver : β) (s : σ) : Report σ Ending × β :=
  (⟨.fail (.invalidArgument "buffer size must be positive"), s, []⟩, receiver)

/-- Walks from `start` in chunks of `size` bytes that lie side by side. -/
def walk (t : Target σ) (start : Address) (size : Nat) (receive : Receiver β) (receiver : β)
    (s : σ) : Report σ Ending × β :=
  if h : 0 < size then walkGrid t (Grid.disjoint size h) start none receive receiver s
  else emptyBuffer receiver s

/-- Walks from `start` in chunks of `size` bytes that overlap by half. -/
def walkSliding (t : Target σ) (start : Address) (size : Nat) (receive : Receiver β)
    (receiver : β) (s : σ) : Report σ Ending × β :=
  if h : 0 < size then walkGrid t (Grid.sliding size h) start none receive receiver s
  else emptyBuffer receiver s

def keepAll : Receiver (List Chunk) := fun chunks chunk => (chunks ++ [chunk], .goOn)

def keepFirst (count : Nat) : Receiver (List Chunk) := fun chunks chunk =>
  let kept := chunks ++ [chunk]
  (kept, if count ≤ kept.length then .stop else .goOn)

end ProcessMemory
