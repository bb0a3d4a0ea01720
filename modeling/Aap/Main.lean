import Aap.CommandLine.Process

/-!
# The command-line program

Files are read before the session begins, and what the simulated program writes
appears as soon as the instruction that writes it is executed.
-/

namespace Aap.CommandLine

/-- The number of a host error, which may be reported with its sign changed. -/
def errorNumber (code : UInt32) : Nat :=
  code.toInt32.toInt.natAbs

def fileError (error : IO.Error) : FileError :=
  let known :=
    match error with
    | .noFileOrDirectory _ code _
    | .permissionDenied _ code _
    | .inappropriateType _ code _
    | .invalidArgument _ code _ => FileError.ofNumber? (errorNumber code)
    | _ => none
  known.getD (.other (toString error))

def readFile (path : String) : IO (Except FileError (List Byte)) := do
  try
    let contents ← IO.FS.readBinFile path
    return .ok (contents.toList.map UInt8.toBitVec)
  catch error =>
    return .error (fileError error)

/-- Reads the files that the arguments name. -/
def readFiles (arguments : List String) : IO Files := do
  match parse arguments with
  | .ok (.run codePath settings) =>
      let paths := codePath :: settings.dataPath.toList
      let contents ← paths.mapM fun path => return (path, ← readFile path)
      return fun path => (contents.lookup path).getD (.error .notFound)
  | _ => return fun _ => .error .notFound

/-- Writes bytes to an output stream at once. -/
def writeBytes (stream : IO.FS.Stream) (bytes : List Byte) : IO Unit := do
  unless bytes.isEmpty do
    stream.write (ByteArray.mk (bytes.map UInt8.ofBitVec).toArray)
    stream.flush

def writeConsole (console : Console) : IO Unit := do
  writeBytes (← IO.getStdout) (console.bytes .stdout)
  writeBytes (← IO.getStderr) (console.bytes .stderr)

/-- Lets a process take its turns until it exits. -/
partial def drive (process : Process) : IO UInt32 := do
  match process.turn with
  | .write written next =>
      writeConsole written
      drive next
  | .exit written status =>
      writeConsole written
      return status.toUInt32

end Aap.CommandLine

def main (arguments : List String) : IO UInt32 := do
  let files ← Aap.CommandLine.readFiles arguments
  Aap.CommandLine.drive (.ofSession (Aap.CommandLine.begin files arguments))
