import ProcessMemory.Fixture

/-!
# Running the fixture
-/
namespace ProcessMemory

/-- Reads lines until there are no more. -/
partial def drain (input : IO.FS.Stream) : IO Unit := do
  if !(← input.getLine).isEmpty then drain input

end ProcessMemory

open ProcessMemory in
def main (arguments : List String) : IO UInt32 := do
  let run := Fixture.start (← IO.getEnv "RUST_LOG") arguments
  let output ← IO.getStdout
  let errors ← IO.getStderr
  run.printed.forM output.putStrLn
  output.flush
  run.reported.forM errors.putStrLn
  if run.waiting.isSome then
    drain (← IO.getStdin)
    return 0
  else return 1
