import DdlSchema.Command.Run
import DdlSchema.Diagnostic.Snippet

/-! The command line. -/
namespace DdlSchema
namespace Command

/-- Why the operating system refuses, with the number of the reason. -/
def reason : IO.Error → String
  | .noFileOrDirectory _ code details | .permissionDenied _ code details
  | .inappropriateType _ code details | .invalidArgument _ code details =>
    s!"{details} (os error {code})"
  | e => toString e

/-- The text of bytes, or the reason why it cannot be read. -/
def decoded (bytes : Except IO.Error ByteArray) : Except String String := do
  match String.fromUTF8? (← bytes.mapError reason) with
  | some text => .ok text
  | none => .error "stream did not contain valid UTF-8"

/-- Reads what an invocation names. -/
def InputSource.read : InputSource → BaseIO (Except String String)
  | file path =>
    return decoded (← (IO.FS.withFile path .read (·.readBinToEnd)).toBaseIO)
  | standardInput => do
    let input ← IO.getStdin
    return decoded (← input.readBinToEnd.toBaseIO)
  | inline text => return .ok text
  | missing => return .ok ""

end Command
end DdlSchema

open DdlSchema Command in
def main (args : List String) : IO UInt32 := do
  let result ← match interpret args with
    | .error r => pure (r.result "ddlschema")
    | .ok i =>
      let text ← if i.task.readsInput then i.input.read else pure (.ok "")
      let errors ← IO.getStderr
      let colored := i.color.resolve (← errors.isTty)
      pure (perform (Diagnostic.Drawing.snippets colored) (fun _ => text) i)
  (← IO.getStdout).putStr result.out
  (← IO.getStderr).putStr result.err
  return result.code.toUInt32
