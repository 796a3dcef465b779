import ShiFormat.Command.Run

/-!
The command line program: reads the source, prints the outcome, writes the file back.
-/
namespace ShiFormat

def fileFaultOf : IO.Error → FileFault
  | .noFileOrDirectory .. => .missing
  | .inappropriateType _ code _ => if code = 21 || code = 0 - 21 then .directory else .notDirectory
  | error@(.invalidArgument _ code _) =>
    if code = 36 || code = 0 - 36 then .nameTooLong else .other (toString error)
  | error => .other (toString error)

def readSource : SourceName → IO (Except FileFault ByteArray)
  | .standardInput => return .ok (← (← IO.getStdin).readBinToEnd)
  | .file path => do
    try return .ok (← IO.FS.readBinFile path.text)
    catch error => return .error (fileFaultOf error)

/-- Colour is on when it is forced, and else on terminals where nothing turns it off. -/
def wantsColour : IO Bool := do
  let forced := ((← IO.getEnv "CLICOLOR_FORCE").getD "0") != "0"
  let refused := (← IO.getEnv "NO_COLOR").isSome || (← IO.getEnv "CLICOLOR") == some "0"
  return forced || (!refused && (← (← IO.getStdout).isTty))

end ShiFormat

open ShiFormat in
def main (arguments : List String) : IO UInt32 := do
  let environment : Environment := ⟨← wantsColour, ← IO.getEnv "SHINOBI_LOG"⟩
  let request := Request.ofArguments arguments
  let bytes ← match request with
    | .run o => readSource o.input
    | _ => pure (.error .missing)
  let outcome := request.outcome environment fun _ => bytes
  let errors ← IO.getStderr
  errors.putStr outcome.stderr
  (← IO.getStdout).putStr outcome.stdout
  match outcome.written, request.file? with
  | some text, some path =>
    try IO.FS.writeFile path.text text
    catch error =>
      let failed := Outcome.unwritable path (fileFaultOf error)
      errors.putStr failed.stderr
      return UInt32.ofNat failed.status
  | _, _ => pure ()
  return UInt32.ofNat outcome.status
