import GermanLox.Session
import GermanLox.Source.Encoding

/-!
# The command line

What the arguments ask for, what running a script gives, and the prompt, which takes a line at a
time. All of it is a function of the arguments, the files and the input; reading and writing them
is left to the caller.
-/

namespace GermanLox

/-- What the arguments ask for. -/
inductive Request where
  /-- Run a script, or prompt for lines if there is none. -/
  | start (script : Option String) (log : Bool)
  | version
  | help
  | usage
deriving DecidableEq

namespace Request

/-- Reads the arguments from left to right. After `--` all of them are names. -/
def parse (script : Option String) (log namesOnly : Bool) : List String → Request
  | [] => .start script log
  | argument :: rest =>
    if namesOnly = false ∧ argument = "--" then parse script log true rest
    else if namesOnly = false ∧ argument.startsWith "-" ∧ argument ≠ "-" then
      if argument = "--log" then
        if log then .usage else parse script true false rest
      else if argument = "--version" ∨ argument.startsWith "-V" then .version
      else if argument = "--help" ∨ argument.startsWith "-h" then .help
      else .usage
    else if argument = "" ∨ script.isSome then .usage
    else parse (some argument) log namesOnly rest

def ofArguments (arguments : List String) : Request :=
  parse none false false arguments

end Request

/-- What a program leaves behind: its exit code and what it wrote. -/
structure Outcome where
  code : Nat
  stdout : String
  stderr : String
deriving DecidableEq

namespace CommandLine

def usageText : String := "Benutzung: dlox [script]\n"

def versionText : String := "dlox 0.1.0\n"

def helpText : String :=
  "Lox-Interpreter mit deutschen Schlüsselwörtern\n\n" ++
  "Usage: dlox [OPTIONS] [SCRIPT]\n\n" ++
  "Arguments:\n" ++
  "  [SCRIPT]  Script to run; starts a prompt when omitted\n\n" ++
  "Options:\n" ++
  "      --log      Enable logging to app.log\n" ++
  "  -h, --help     Print help\n" ++
  "  -V, --version  Print version\n"

/-- The exit code for wrong arguments. -/
def usageCode : Nat := 64

/-- The exit code for input that cannot be read. -/
def failureCode : Nat := 1

/-- What goes to the error output after a run. -/
def complaint : Verdict → String
  | .completed => ""
  | .rejected diagnostics => String.join (diagnostics.map fun d => d.message ++ "\n")
  | .failed fault => fault.report ++ "\n"
  | .outOfFuel => ""

/-- A failure with what caused it. -/
def failureText (what cause : String) : String :=
  "Error: " ++ what ++ "\n\nCaused by:\n    " ++ cause ++ "\n"

/-- Runs a script. -/
def runScript (host : Host) (fuel : Nat) (name : String) (source : Except ReadFault String) :
    Outcome :=
  match source with
  | .error fault =>
    ⟨failureCode, "", failureText ("Failed to read script " ++ Quoted.text name) fault.message⟩
  | .ok text =>
    let report := (Session.start.run host fuel text).1
    ⟨report.verdict.exitCode, report.output, complaint report.verdict⟩

/-- What the prompt shows before each line. -/
def promptText : String := "> "

/-- What the prompt says to a line that is no text. -/
def badLineText : String :=
  failureText "Failed to read from stdin" "stream did not contain valid UTF-8"

/-- The lines of an input; each ends with a newline, before which a carriage return is dropped.
The last line may go without. -/
def linesFrom (line : List UInt8) : List UInt8 → List (List UInt8)
  | [] => if line.isEmpty then [] else [line.reverse]
  | byte :: bytes =>
    if byte = 10 then
      let line :=
        match line with
        | 13 :: before => before
        | _ => line
      line.reverse :: linesFrom [] bytes
    else linesFrom (byte :: line) bytes

def lines (input : List UInt8) : List (List UInt8) :=
  linesFrom [] input

/-- One line at the prompt: what it prints, what it complains about, and the session after it;
or nothing if the line is no text. -/
def answer (host : Host) (fuel : Nat) (line : List UInt8) (session : Session) :
    Option (String × String × Session) :=
  match Utf8.decode line with
  | .error _ => none
  | .ok text =>
    let (report, session) := session.run host fuel text
    some (report.output, complaint report.verdict, session)

/-- A whole dialogue at the prompt, after what has been written so far. -/
def converse (host : Host) (fuel : Nat) (stdout stderr : String) (session : Session) :
    List (List UInt8) → Outcome
  | [] => ⟨0, stdout ++ promptText ++ "\n", stderr⟩
  | line :: rest =>
    match answer host fuel line session with
    | none => ⟨failureCode, stdout ++ promptText, stderr ++ badLineText⟩
    | some (output, complaints, session) =>
      converse host fuel (stdout ++ promptText ++ output) (stderr ++ complaints) session rest

/-- The whole program: what it leaves behind for given arguments, files and input. -/
def run (host : Host) (fuel : Nat) (request : Request)
    (file : String → Except ReadFault (List UInt8)) (input : List UInt8) : Outcome :=
  match request with
  | .usage => ⟨usageCode, usageText, ""⟩
  | .version => ⟨0, versionText, ""⟩
  | .help => ⟨0, helpText, ""⟩
  | .start (some name) _ => runScript host fuel name (readSource (file name))
  | .start none _ => converse host fuel "" "" .start (lines input)

/-- Whether a request leaves a log behind. -/
def keepsLog : Request → Bool
  | .start _ log => log
  | _ => false

end CommandLine
end GermanLox
