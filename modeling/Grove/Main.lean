import Grove.CommandLine
import Grove.Viewer.Session

/-!
# The program

The outer layer: it reads the configuration file, draws the key of forests without a fixed seed, and
prints what the command line has come to. A forest is shown by the numbers at the bottom of its
window.
-/

set_option autoImplicit false

namespace Grove

/-- Why the system refused to read a file. A directory can be opened, and is refused when it is
read; a path that leads through a file cannot even be opened. -/
def ReadError.ofSystem : IO.Error → ReadError
  | .permissionDenied .. => .permissionDenied
  | .inappropriateType none _ _ => .isDirectory
  | .inappropriateType (some _) _ _ => .notDirectory
  | .invalidArgument .. => .nameTooLong
  | _ => .notFound

def readContents (path : String) : IO (Except ReadError ByteArray) := do
  match ← (IO.FS.readBinFile path).toBaseIO with
  | .ok bytes => return .ok bytes
  | .error error => return .error (.ofSystem error)

/-- The path of the configuration file that the arguments name, if they name one. -/
def configPath? (arguments : List String) : Option String :=
  match CommandLine.parse arguments with
  | .ok (.view options) => options.configPath
  | _ => none

def systemEntropy : IO ChaCha := do
  let bytes ← IO.getRandomBytes 8
  return .ofSeed (bytes.toList.foldl (fun seed byte => seed * 256 + byte.toUInt64) 0)

def showForest (config : Configuration Float32) : IO UInt32 := do
  match Viewer.openOn config (← systemEntropy) with
  | .error _ =>
      IO.eprintln (CommandLine.programName ++ ": the forest is too wide to be planted")
      return 1
  | .ok viewer =>
      let (report, _) := viewer.observe (.ofSize ⟨800.0, 600.0⟩)
      IO.println report.statusText
      return 0

def runProgram (arguments : List String) : IO UInt32 := do
  let contents ←
    match configPath? arguments with
    | some path => readContents path
    | none => pure (.error .notFound)
  let outcome := CommandLine.run (fun _ => contents) arguments
  match outcome with
  | .printed text => IO.print text
  | .badUsage error => IO.eprintln ("error: " ++ error.message)
  | .badConfig path error => IO.eprint (CommandLine.badConfigText path error)
  | .shown config => return ← showForest config
  return outcome.code.toUInt32

end Grove

def main (arguments : List String) : IO UInt32 :=
  Grove.runProgram arguments
