import Aap.CommandLine.Arguments
import Aap.Run
import Aap.Text.Utf8

/-!
# Sessions

A session of the command-line program either ends at once, with help or an
error, or runs a simulator.  The program's output comes first; a last line on
standard error tells how the run ended, and the exit status tells it again.
-/

namespace Aap.CommandLine

/-- The lines of the help text. -/
def usageLines : List String :=
  [ "Usage: aap-run [options] <code.bin>",
    "",
    "Options:",
    "  --code-addr <n>     Byte address for the code image (default 0)",
    "  --data <file>       Raw data image",
    "  --data-addr <n>     Byte address for the data image (default 0)",
    "  --entry <n>         Initial word PC (default 0)",
    "  --max-steps <n>     Stop after n instructions",
    "  --resync            Skip undecodable instructions",
    "  --abort-on-unknown  Panic on unimplemented opcodes",
    "  -h, --help          Show this help message",
    "",
    "Numbers accept decimal or 0x-prefixed hex.",
    "",
    "Exit status:",
    "  quit                low byte of the program's exit code",
    "  invalid instruction 0x84",
    "  breakpoint          0x85",
    "  trap                0x86",
    "  step budget         0x87",
    "  usage or I/O error  1",
    "" ]

def usage : String :=
  "\n".intercalate usageLines

/-- Why a file cannot be read. -/
inductive FileError where
  | notFound
  | accessDenied
  /-- A name followed by further names is a file. -/
  | notDirectory
  | isDirectory
  | nameTooLong
  | other (text : String)
  deriving DecidableEq

namespace FileError

/-- The text of a file error, with the number by which the host knows it. -/
def message : FileError → String
  | notFound => "No such file or directory (os error 2)"
  | accessDenied => "Permission denied (os error 13)"
  | notDirectory => "Not a directory (os error 20)"
  | isDirectory => "Is a directory (os error 21)"
  | nameTooLong => "File name too long (os error 36)"
  | other text => text

/-- The file error that the host knows by a number. -/
def ofNumber? : Nat → Option FileError
  | 2 => some notFound
  | 13 => some accessDenied
  | 20 => some notDirectory
  | 21 => some isDirectory
  | 36 => some nameTooLong
  | _ => none

end FileError

inductive StartError where
  | unreadable (path : String) (error : FileError)
  | codeImage (error : LoadError)
  | dataImage (error : LoadError)
  deriving DecidableEq

def StartError.message : StartError → String
  | .unreadable path error => s!"failed to read {path}: {error.message}"
  | .codeImage error => s!"code image: {error.message}"
  | .dataImage error => s!"data image: {error.message}"

/-- The contents of the files that paths name, or why they cannot be read. -/
abbrev Files := String → Except FileError (List Byte)

def readImage (files : Files) (path : String) : Except StartError (List Byte) :=
  match files path with
  | .ok contents => .ok contents
  | .error error => .error (.unreadable path error)

def loadCode (simulator : Simulator) (contents : List Byte) (address : Nat) :
    Except StartError Simulator :=
  match simulator.loadCode contents address with
  | .ok loaded => .ok loaded
  | .error error => .error (.codeImage error)

def loadData (simulator : Simulator) (contents : List Byte) (address : Nat) :
    Except StartError Simulator :=
  match simulator.loadData contents address with
  | .ok loaded => .ok loaded
  | .error error => .error (.dataImage error)

/-- The simulator that is ready to run. -/
def prepare (files : Files) (codePath : String) (settings : Settings) :
    Except StartError Simulator := do
  let code ← readImage files codePath
  let withCode ← loadCode (Simulator.create settings.config) code settings.codeAddress
  let withData ←
    match settings.dataPath with
    | none => .ok withCode
    | some path => do
        let data ← readImage files path
        loadData withCode data settings.dataAddress
  return withData.setPc settings.entry

/-- What a session leaves behind. -/
structure Transcript where
  exitStatus : Nat
  stdout : List Byte
  stderr : List Byte
  /-- The error that abandoned the simulation, if one did. -/
  abandoned : Option Unsupported
  deriving DecidableEq

/-- A session after its arguments and files are read. -/
inductive Session where
  | ended (transcript : Transcript)
  | ready (simulator : Simulator)

def failure (lines : List String) : Transcript where
  exitStatus := 1
  stdout := []
  stderr := Text.toUtf8 (String.join lines)
  abandoned := none

def begin (files : Files) (arguments : List String) : Session :=
  match parse arguments with
  | .error error => .ended (failure [s!"error: {error.message}\n", usage, "\n"])
  | .ok .help => .ended ⟨0, Text.toUtf8 (usage ++ "\n"), [], none⟩
  | .ok (.run codePath settings) =>
      match prepare files codePath settings with
      | .ok simulator => .ready simulator
      | .error error => .ended (failure [s!"error: {error.message}\n"])

/-- The exit status that tells how a run ended. -/
def exitStatus (status : Status) (exitCode : Word) : Nat :=
  match status with
  | .quit => exitCode.toNat % 256
  | .invalidInstruction => 0x84
  | .breakpoint => 0x85
  | .trap => 0x86
  | .ok => 0x87

def abandonedStatus : Nat := 101

/-- The line that tells how a run ended. -/
def report (machine : Machine) (outcome : RunOutcome) : String :=
  let pc := Text.hexadecimal 4 machine.processor.pc.toNat
  match outcome.status with
  | .ok => s!"aap-run: step budget exhausted after {outcome.steps} steps at pc {pc}\n"
  | .quit =>
      let code := Text.hexadecimal 4 machine.processor.exitCode.toNat
      s!"aap-run: quit with exit code {code} after {outcome.steps} steps\n"
  | status => s!"aap-run: {status.text} at pc {pc} after {outcome.steps} steps\n"

/-- The transcript of a session whose run is over. -/
def conclude (run : Run) : Transcript :=
  let console := run.simulator.console
  let machine := run.simulator.machine
  match run.outcome with
  | .ok outcome =>
      { exitStatus := exitStatus outcome.status machine.processor.exitCode
        stdout := console.bytes .stdout
        stderr := console.bytes .stderr ++ Text.toUtf8 (report machine outcome)
        abandoned := none }
  | .error error =>
      { exitStatus := abandonedStatus
        stdout := console.bytes .stdout
        stderr := console.bytes .stderr
        abandoned := some error }

/-- The transcript of a session, if its run is over within its budget or, when
it has none, within `fuel` steps. -/
def Session.transcript? (session : Session) (fuel : Nat) : Option Transcript :=
  match session with
  | ended transcript => some transcript
  | ready simulator => (simulator.run? fuel).map conclude

end Aap.CommandLine
