/-
The program: the files and streams of the system round `Command.run`.
-/
import MarkupLens.Command.Run

namespace MarkupLens

/-- The fault of a file that the system reports. -/
def FileFault.ofError : IO.Error → FileFault
  | .noFileOrDirectory _ code text | .invalidArgument _ code text | .permissionDenied _ code text
  | .resourceExhausted _ code text | .inappropriateType _ code text | .noSuchThing _ code text
  | .alreadyExists _ code text | .otherError code text | .resourceBusy code text | .resourceVanished code text
  | .unsupportedOperation code text | .hardwareFault code text | .unsatisfiedConstraints code text
  | .illegalOperation code text | .protocolError code text | .timeExpired code text | .interrupted _ code text =>
    .system text.toList code.toNat
  | .unexpectedEof => .system "Input/output error" 5
  | .userError text => .system text.toList 5

/-- The bytes that an action reads, or why it cannot. -/
def readBytes (action : IO ByteArray) : IO (Except FileFault (List UInt8)) := do
  try return .ok (← action).toList
  catch e => return .error (.ofError e)

/-- The files and the standard input of the system. -/
def World.system : World IO where
  read path := readBytes do (← IO.FS.Handle.mk (String.ofList path) .read).readBinToEnd
  input := do return (← (← IO.getStdin).readBinToEnd).toList

/-- Runs the program. What goes wrong is told on the standard error. -/
def runProgram (args : List String) : IO UInt32 := do
  let outcome ← Command.run World.system (args.map String.toList)
  IO.print (String.ofList outcome.output)
  match outcome.message? with
  | some message => IO.eprintln (String.ofList message)
  | none => if outcome = .misused then IO.eprint (String.ofList Command.helpText)
  return UInt32.ofNat outcome.code

end MarkupLens

/-- The program. -/
def main (args : List String) : IO UInt32 := MarkupLens.runProgram args
