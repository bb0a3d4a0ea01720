import Aap.CommandLine.Number
import Aap.Simulator

/-!
# Arguments

The arguments name the code image and set the options of a run.  They are read
from left to right; the first one that is wrong decides the error, a later
value of an option replaces an earlier one, and a request for help ends the
reading.
-/

namespace Aap.CommandLine

/-- What is wrong with the arguments. -/
inductive ArgumentError where
  | missingValue (option : String)
  | invalidNumber (option text : String)
  | outOfRange (option : String) (value : Nat)
  | unknownOption (text : String)
  | severalImages
  | noImage
  deriving DecidableEq

def ArgumentError.message : ArgumentError → String
  | .missingValue option => s!"missing value for {option}"
  | .invalidNumber option text => s!"invalid number for {option}: {text}"
  | .outOfRange option value =>
      s!"value for {option} is out of range: {Text.hexadecimal 1 value}"
  | .unknownOption text => s!"unknown option: {text}"
  | .severalImages => "multiple code images provided"
  | .noImage => "missing code image path"

/-- What the options of a run set. -/
structure Settings where
  codeAddress : Nat := 0
  dataPath : Option String := none
  dataAddress : Nat := 0
  entry : Word := 0
  maxSteps : Option Nat := none
  resync : Bool := false
  abortOnUnknown : Bool := false
  deriving DecidableEq

def Settings.config (settings : Settings) : Config where
  unknownOpcode := if settings.abortOnUnknown then .abort else .trap
  invalidInstruction := if settings.resync then .resync else .stop
  maxSteps := settings.maxSteps

/-- The number that a text gives to the option of a name, if it is below a limit. -/
def boundedNumber (name : String) (limit : Nat) (text : String) : Except ArgumentError Nat :=
  match number? text with
  | none => .error (.invalidNumber name text)
  | some value => if value < limit then .ok value else .error (.outOfRange name value)

/-- The options that take a number. -/
inductive NumberOption where
  | codeAddress
  | dataAddress
  | entry
  | maxSteps
  deriving DecidableEq

namespace NumberOption

def name : NumberOption → String
  | codeAddress => "--code-addr"
  | dataAddress => "--data-addr"
  | entry => "--entry"
  | maxSteps => "--max-steps"

/-- The bound below which the value of an option lies. -/
def limit : NumberOption → Nat
  | codeAddress => 1 <<< 32
  | dataAddress => 1 <<< 32
  | entry => 1 <<< 16
  | maxSteps => 1 <<< 64

/-- The value that a text gives to an option. -/
def read (option : NumberOption) (text : String) : Except ArgumentError Nat :=
  boundedNumber option.name option.limit text

def assign (option : NumberOption) (value : Nat) (settings : Settings) : Settings :=
  match option with
  | codeAddress => { settings with codeAddress := value }
  | dataAddress => { settings with dataAddress := value }
  | entry => { settings with entry := BitVec.ofNat 16 value }
  | maxSteps => { settings with maxSteps := some value }

end NumberOption

/-- What an argument is, where it is not the value of an option. -/
inductive Argument where
  | help
  | number (option : NumberOption)
  | dataFile
  | resync
  | abortOnUnknown
  /-- Anything else that begins with a minus sign. -/
  | unknown (text : String)
  | codeFile (path : String)
  deriving DecidableEq

/-- The spelling of the option for the data image. -/
def dataFileName : String := "--data"

def Argument.ofText (text : String) : Argument :=
  match text with
  | "-h" | "--help" => .help
  | "--code-addr" => .number .codeAddress
  | "--data-addr" => .number .dataAddress
  | "--entry" => .number .entry
  | "--max-steps" => .number .maxSteps
  | "--data" => .dataFile
  | "--resync" => .resync
  | "--abort-on-unknown" => .abortOnUnknown
  | _ =>
      match text.toList with
      | '-' :: _ => .unknown text
      | _ => .codeFile text

/-- What the arguments ask for. -/
inductive Request where
  | help
  | run (codePath : String) (settings : Settings)
  deriving DecidableEq

/-- What the remaining arguments ask for, after the code image and settings
read so far. -/
def parseFrom (codePath : Option String) (settings : Settings) :
    List String → Except ArgumentError Request
  | [] =>
      match codePath with
      | some path => .ok (.run path settings)
      | none => .error .noImage
  | text :: rest =>
      match Argument.ofText text with
      | .help => .ok .help
      | .number option =>
          match rest with
          | [] => .error (.missingValue option.name)
          | value :: rest =>
              match option.read value with
              | .ok number => parseFrom codePath (option.assign number settings) rest
              | .error error => .error error
      | .dataFile =>
          match rest with
          | [] => .error (.missingValue dataFileName)
          | path :: rest => parseFrom codePath { settings with dataPath := some path } rest
      | .resync => parseFrom codePath { settings with resync := true } rest
      | .abortOnUnknown => parseFrom codePath { settings with abortOnUnknown := true } rest
      | .unknown text => .error (.unknownOption text)
      | .codeFile path =>
          match codePath with
          | none => parseFrom (some path) settings rest
          | some _ => .error .severalImages

def parse (arguments : List String) : Except ArgumentError Request :=
  parseFrom none {} arguments

end Aap.CommandLine
