import PenScript.Main.Arguments

/-!
# The program

Reads the arguments and the script, and writes the answer.
-/

namespace PenScript.CommandLine

/-- The text of a script, or why it could not be read. -/
def readScript (request : Request) : IO (Except ReadFault String) := do
  try
    let bytes ← match request.input with
      | some path => IO.FS.readBinFile path
      | none => (← IO.getStdin).readBinToEnd
    match String.fromUTF8? bytes with
    | some source => return .ok source
    | none => return .error .invalidText
  catch
    | .noFileOrDirectory _ _ _ => return .error .notFound
    | .permissionDenied _ _ _ => return .error .denied
    | .inappropriateType _ _ _ => return .error .directory
    | error => return .error (.other error.toString)

def Response.write (response : Response) : IO UInt32 := do
  IO.print response.output
  IO.eprint response.errors
  return response.exit.toUInt32

end PenScript.CommandLine

open PenScript.CommandLine in
def main (arguments : List String) : IO UInt32 := do
  match parse arguments with
  | .error fault => (refuse fault).write
  | .ok .version => Response.write ⟨0, versionText, ""⟩
  | .ok .help => Response.write ⟨0, usageText, ""⟩
  | .ok (.run request) => (respond request (← readScript request)).write
