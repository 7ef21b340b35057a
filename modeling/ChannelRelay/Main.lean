import ChannelRelay.Program

/-!
# The command line

Runs the program on its words and the variables of its environment.  This program
reaches no network, so its records are those in memory and the chat service never
answers.
-/

namespace ChannelRelay

/-- The environment of the running program. -/
def readEnvironment : IO Environment := do
  let mut found : List (String × String) := []
  for name in Settings.names do
    if let some value ← IO.getEnv name then
      found := (name, value) :: found
  let set := found
  return fun name => set.lookup name

/-- Prints what a run prints and reports its failure. -/
def report (exit : Exit) : IO UInt32 := do
  IO.print exit.output
  if let some reason := exit.failure then
    IO.eprintln ("Error: " ++ reason)
  return exit.code.toUInt32

/-- The surroundings of a job without a network. -/
def offline (job : Job) (store : Store) : Surroundings :=
  let client := match job with
    | .serve settings _ | .reconcile settings => settings.client ""
    | _ => ⟨"", "", 0, 0⟩
  { Surroundings.ofStore store [] with chat := .client client (.fresh .down [] none) }

/-- Does a job. -/
def runJob (job : Job) : Exit :=
  match job.store .down .empty with
  | .error e => .failed e.message
  | .ok store =>
    match Program.work? job with
    | some work => (Program.finish work (offline job store)).1
    | none => .failed networkUnreachable

end ChannelRelay

/-- Runs the program on the words after its name. -/
def main (words : List String) : IO UInt32 := do
  match ChannelRelay.Job.of (← ChannelRelay.readEnvironment) words with
  | .error exit => ChannelRelay.report exit
  | .ok job => ChannelRelay.report (ChannelRelay.runJob job)
