import PageStore.Demo

/-!
# PageStore.Main

The command: plays the demonstration in the directory for temporary files.
-/

open PageStore

def main : IO UInt32 := do
  let directory := (← IO.getEnv "TMPDIR").getD "/tmp"
  let (lines, failure) := Demo.transcript directory
  for line in lines do
    IO.println line
  match failure with
  | none => return 0
  | some e =>
    IO.eprintln s!"Error: {e.message}"
    return 1
