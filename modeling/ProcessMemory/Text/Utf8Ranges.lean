import ProcessMemory.Text.Utf8

/-!
# Ranges of characters as ranges of bytes

A range of characters is cut into pieces whose UTF-8 forms are told byte by byte: a piece holds just
the characters whose every byte lies in the range for its place. The pieces are in order.
-/
namespace ProcessMemory.Utf8

/-- Where a range has to be cut: at the first number that takes more bytes, or else where the
numbers with one leading part end, from the last byte upwards. -/
def cut? (first last : Nat) : Option Nat :=
  let wider := [0x80, 0x800, 0x10000].find? fun n => first < n && n ≤ last
  let block := [64, 4096, 262144].findSome? fun n =>
    if first / n = last / n then none
    else if first % n ≠ 0 then some ((first / n + 1) * n)
    else if last % n ≠ n - 1 then some (last / n * n)
    else none
  wider <|> if last < 0x80 then none else block

/-- The pieces of a range, each a list of byte ranges from the leading byte on. -/
def pieces (first last : Nat) : List (List (Nat × Nat)) :=
  let bytes (n : Nat) : List Nat := (encode (Char.ofNat n)).map UInt8.toNat
  match cut? first last with
  | none => [(bytes first).zip (bytes last)]
  | some n =>
    if _h : first < n ∧ n ≤ last then pieces first (n - 1) ++ pieces n last
    else []
termination_by last - first

end ProcessMemory.Utf8
