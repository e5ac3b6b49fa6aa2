import ProcessMemory.Text.Blank

/-!
# Lines

A line ends at a line feed, and a carriage return before the line feed belongs to the end. What
follows the last line feed is a line too, unless it is empty.
-/
namespace ProcessMemory.Text

def dropReturn (line : List Char) : List Char :=
  if line.getLast? = some '\r' then line.dropLast else line

def lines (cs : List Char) : List (List Char) :=
  let pieces := splitAll '\n' cs
  let last := pieces.getLast?.getD []
  pieces.dropLast.map dropReturn ++ if last.isEmpty then [] else [last]

/-- The lines a message takes up when it is written with a line feed after it. -/
def messageLines (message : String) : List String :=
  (lines (message.toList ++ ['\n'])).map String.ofList

end ProcessMemory.Text
