import ProcessMemory.Mapping

/-!
# Blocks

What the system tells about an address: the block of pages around it that are all alike.
-/
namespace ProcessMemory.Windows

structure Block where
  start : Address
  size : Nat
  /-- Whether the pages are in use, reserved or free. -/
  state : UInt32
  /-- What may be done with the pages, as bits. -/
  protection : UInt32
  deriving DecidableEq

namespace Block

/-- The pages have memory of their own. -/
def isCommitted (b : Block) : Bool := b.state == 0x1000

/-- Neither closed to all access nor guarded. -/
def isReadable (b : Block) : Bool :=
  b.isCommitted && b.protection &&& 0x1 == 0 && b.protection &&& 0x100 == 0

def stop (b : Block) : Address := b.start.advance b.size

def mapping (b : Block) : Mapping := ⟨b.start, b.stop, b.isReadable⟩

end Block
end ProcessMemory.Windows
