import GermanLox.CommandLine
import Std.Time.DateTime.Timestamp

/-!
# The program

Reads arguments, files and standard input, and writes what the command line makes of them.
-/

namespace GermanLox
namespace Program

/-- More than any computer can use up. -/
def fuel : Nat := Nat.pow 2 62

/-- The clock starts at the present time and goes on by a millisecond with each reading. -/
def host (start : Std.Time.Timestamp) : Host where
  clock n := Float.ofInt (start.toMillisecondsSinceUnixEpoch.val + n) / 1000
  accepts _ := true

/-- What a failure to read a file means. -/
def readFault : IO.Error → ReadFault
  | .noFileOrDirectory _ _ _ => .missing
  | .inappropriateType _ 21 _ => .isDirectory
  | .inappropriateType _ _ _ => .notADirectory
  | .alreadyExists _ code reason => .other reason code.toNat
  | .otherError code reason => .other reason code.toNat
  | .resourceBusy code reason => .other reason code.toNat
  | .resourceVanished code reason => .other reason code.toNat
  | .unsupportedOperation code reason => .other reason code.toNat
  | .hardwareFault code reason => .other reason code.toNat
  | .unsatisfiedConstraints code reason => .other reason code.toNat
  | .illegalOperation code reason => .other reason code.toNat
  | .protocolError code reason => .other reason code.toNat
  | .timeExpired code reason => .other reason code.toNat
  | .interrupted _ code reason => .other reason code.toNat
  | .invalidArgument _ code reason => .other reason code.toNat
  | .permissionDenied _ code reason => .other reason code.toNat
  | .resourceExhausted _ code reason => .other reason code.toNat
  | .noSuchThing _ code reason => .other reason code.toNat
  | .unexpectedEof => .other "Unexpected end of file" 0
  | .userError reason => .other reason 0

def readFile (name : String) : IO (Except ReadFault (List UInt8)) := do
  try
    return .ok (← IO.FS.readBinFile name).toList
  catch failure =>
    return .error (readFault failure)

/-- Reads up to and with the next newline. -/
partial def readLine (input : IO.FS.Stream) (line : List UInt8) : IO (List UInt8) := do
  match (← input.read 1).toList with
  | [] => return line.reverse
  | byte :: _ => if byte = 10 then return (byte :: line).reverse else readLine input (byte :: line)

/-- Takes line after line until the input ends or is no text. -/
partial def prompt (input : IO.FS.Stream) (session : Session) : IO UInt32 := do
  IO.print CommandLine.promptText
  (← IO.getStdout).flush
  match CommandLine.lines (← readLine input []) with
  | [] =>
    IO.println ""
    return 0
  | line :: _ =>
    match CommandLine.answer (host (← Std.Time.Timestamp.now)) fuel line session with
    | none =>
      IO.eprint CommandLine.badLineText
      return UInt32.ofNat CommandLine.failureCode
    | some (output, complaints, session) =>
      IO.print output
      IO.eprint complaints
      prompt input session

end Program
end GermanLox

open GermanLox in
def main (arguments : List String) : IO UInt32 := do
  let request := Request.ofArguments arguments
  if CommandLine.keepsLog request then
    IO.FS.writeFile "app.log" "Logger initialized, writing to app.log\n"
  match request with
  | .start none _ => Program.prompt (← IO.getStdin) .start
  | .start (some name) _ =>
    let outcome := CommandLine.runScript (Program.host (← Std.Time.Timestamp.now)) Program.fuel name
      (readSource (← Program.readFile name))
    IO.print outcome.stdout
    IO.eprint outcome.stderr
    return UInt32.ofNat outcome.code
  | _ =>
    let outcome := CommandLine.run (Program.host (← Std.Time.Timestamp.now)) Program.fuel request
      (fun _ => .error .missing) []
    IO.print outcome.stdout
    IO.eprint outcome.stderr
    return UInt32.ofNat outcome.code
