import Aap.CommandLine.Session

/-!
# The process of a session

A process takes turns.  While the simulated program runs, a turn executes one
instruction and shows at once what that instruction wrote; nothing that was shown
is kept.  The last turn shows what is left of the transcript and exits.
-/

namespace Aap

/-- The run without what it already showed. -/
def Run.drained (run : Run) : Run :=
  { run with
    events := #[]
    simulator := { run.simulator with console := .empty } }

namespace CommandLine

/-- What is written at the end of a session: an abandoned simulation leaves its
error behind. -/
def Transcript.console (transcript : Transcript) : Console :=
  let message :=
    match transcript.abandoned with
    | some error => Text.toUtf8 (error.message ++ "\n")
    | none => []
  ⟨transcript.stdout.toArray, (transcript.stderr ++ message).toArray⟩

inductive Process where
  | running (run : Run)
  | ending (transcript : Transcript)

/-- What a process does in one turn. -/
inductive Turn where
  | write (written : Console) (next : Process)
  | exit (written : Console) (status : Nat)

namespace Process

def ofSession : Session → Process
  | .ended transcript => ending transcript
  | .ready simulator => running (Run.start simulator)

/-- The turn in which a process leaves a transcript behind. -/
def exit (transcript : Transcript) : Turn :=
  .exit transcript.console transcript.exitStatus

def turn : Process → Turn
  | ending transcript => exit transcript
  | running run =>
      if run.isOver then
        exit (conclude run)
      else
        let next := run.advance
        .write next.simulator.console (running next.drained)

end Process

end CommandLine

end Aap
