import MarkdownIndex.Cli.Run
import Std.Time.DateTime.Timestamp

/-!
# The machine that commands run on

The machine has files, a clock, variables and a terminal, and is connected to nothing: what a
command asks of the network or of a database is answered as if nobody were there, no service can be
run, and directories, of which only a connected command asks, are not listed.

* `Machine.answer` — the answers of the machine.
* `main` — run a command line on it.
-/

namespace MarkdownIndex.Machine

open Files

/-! ## Files -/

/-- Why a file cannot be read. -/
def fileError : IO.Error → FileError
  | .noFileOrDirectory _ _ _ => .notFound
  | .inappropriateType _ 21 _ => .isDirectory
  | .inappropriateType _ _ _ => .notDirectory
  | .invalidArgument _ _ _ => .nameTooLong
  | .permissionDenied _ _ _ => .denied
  | _ => .notFound

/-- The bytes of a file. -/
def read (path : Path) : IO (Except FileError (List UInt8)) := do
  match ← (IO.FS.readBinFile (Path.text path)).toBaseIO with
  | .ok bytes => return .ok bytes.toList
  | .error e => return .error (fileError e)

/-- A path leads to a file or a directory. -/
def leads (path : Path) : IO Bool := do
  match ← read path with
  | .ok _ => return true
  | .error e => return e == .isDirectory

/-! ## Variables -/

/-- The variables of the environment: each is a name and a value with `=` between them, and a byte
of zero ends it. -/
def splitVariables (bytes : List UInt8) : List (String × String) :=
  ((Text.decodeLossy bytes).splitOn (Char.ofNat 0)).filterMap fun entry =>
    match entry.dropWhile (· ≠ '=') with
    | [] => none
    | _ :: value => some (String.ofList (entry.takeWhile (· ≠ '=')), String.ofList value)

/-- The variables that the process was started with. -/
def environment : IO (List (String × String)) := do
  match ← read (Path.ofText "/proc/self/environ") with
  | .ok bytes => return splitVariables bytes
  | .error _ => return []

/-! ## Answers -/

/-- The time. -/
def now : IO Instant := do
  return (← Std.Time.Timestamp.now).toNanosecondsSinceUnixEpoch.val

/-- Let time pass. -/
def pause (milliseconds : Nat) : IO Unit :=
  IO.sleep milliseconds.toUInt32

/-- What is answered about the machine itself. -/
def host : (c : Host.Call) → IO (Host.Reply c)
  | .read path => read path
  | .modified _ => return none
  | .leads path => leads path
  | .scan scanner => return .error (.noRoot scanner.root)
  | .snapshot scanner => return .error (.noRoot scanner.root)
  | .now => now
  | .pause milliseconds => pause milliseconds
  | .rest milliseconds => do
    pause milliseconds
    return false
  | .stopping => return false

/-- What is answered instead of the network. -/
def net : (c : Net.Call) → IO (Net.Reply c)
  | .send _ _ _ => return .error .unreachable
  | .pause milliseconds => pause milliseconds

/-- What is answered instead of a database. -/
def database : (c : Database.Call) → IO (Database.Reply c)
  | .connect _ _ _ => return .error (.unreachable "Connection refused (os error 111)")
  | .execute _ => return .error (.unreachable "Connection refused (os error 111)")

/-- The answer of the machine to a request. -/
def answer : (c : Shell.Call) → IO (Shell.Reply c)
  | .host c => host c
  | .net c => net c
  | .database c => database c
  | .environment => environment
  | .print text => IO.print text
  | .serve _ _ => return .error ⟨"Cannot assign requested address (os error 99)", []⟩

end MarkdownIndex.Machine

/-- Run a command line. -/
def main (args : List String) : IO UInt32 := do
  let exit ← (MarkdownIndex.Cli.run args).run MarkdownIndex.Machine.answer
  IO.eprint exit.complaint
  return exit.code.toUInt32
