/-
# The program

The thin layer between the library and the machine it runs on: files are read and written,
the log goes to the error stream as events come in, and the exit code is handed over.

A draft is private until it takes the place of its file, and the place of a file always holds
one whole text, the old or the new one. Access rights can be set here but not read. So a file
keeps its own by being kept itself: it gets another name, its draft is put in its place, it is
given the new text under the other name, and then it is put back. That needs a file that may be
written to, and a system with hard links. What is flushed is handed to the system, without
waiting until it is on the disk.
-/
import Uncomment.Command.Run

namespace Uncomment

/-- The real machine, with the log that its environment asks for. -/
abbrev Machine := ReaderT (Option Log) IO

namespace Machine

/-- The number and the words of a refusal. -/
def reason : IO.Error → UInt32 × String
  | .alreadyExists _ code details | .inappropriateType _ code details
  | .invalidArgument _ code details | .noFileOrDirectory _ code details
  | .noSuchThing _ code details | .permissionDenied _ code details
  | .resourceExhausted _ code details | .interrupted _ code details
  | .hardwareFault code details | .illegalOperation code details | .otherError code details
  | .protocolError code details | .resourceBusy code details | .resourceVanished code details
  | .timeExpired code details | .unsatisfiedConstraints code details
  | .unsupportedOperation code details => (code, details)
  | .unexpectedEof => (0, "unexpected end of file")
  | .userError words => (0, words)

/-- Why the machine refused something. -/
def refusal (error : IO.Error) : IoError :=
  let (code, words) := reason error
  match (min code (0 - code)).toNat with
  | 2 => .noEntry
  | 13 => .denied
  | 17 => .alreadyExists
  | 20 => .notDirectory
  | 21 => .isDirectory
  | 27 => .tooLarge
  | 36 => .nameTooLong
  | 40 => .linkLoop
  | 0 => .other words
  | number => .other (words ++ " (os error " ++ number.repr ++ ")")

/-- What an action gives, or why it was refused. -/
def attempt (action : IO α) : Machine (Except IoError α) := do
  try return .ok (← action)
  catch error => return .error (refusal error)

/-- A path as the machine knows it. -/
def place (path : String) : IO.FS.DirEntry := { root := path, fileName := "" }

/-- The entries of a folder, and what lies below them. -/
partial def entries (enter : String → Bool) (path : String) : IO (List (String × Listing)) := do
  let found ← try (place path).root.readDir catch _ => pure #[]
  found.toList.mapM fun entry => do
    let kind ← try (some ∘ IO.FS.Metadata.type) <$> entry.path.symlinkMetadata
      catch _ => pure none
    match kind with
    | some .dir =>
      if enter entry.fileName then
        return (entry.fileName, .folder (← entries enter (Path.join path entry.fileName)))
      else return (entry.fileName, .folder [])
    | some .file => return (entry.fileName, .file)
    | _ => return (entry.fileName, .link)

/-- What a path leads to. -/
def survey (enter : String → Bool) (path : String) : IO Listing := do
  match (← (place path).root.metadata).type with
  | .dir => return .folder (← entries enter path)
  | _ => return .file

/-- A draft that is being written: where it is, and where the file is that it will replace. -/
structure Draft where
  target : String
  path : String
  handle : IO.FS.Handle

/-- The other name of a file, while its draft is in its place. -/
def Draft.aside (d : Draft) : String := d.path ++ "-aside"

/-- The access rights of a draft: its owner may read and write it. -/
def ownerOnly : IO.FileRight := { user := { read := true, write := true } }

/-- A new empty draft of the file that a path leads to. -/
def draft (path : String) : IO Draft := do
  let target ← IO.FS.realPath path
  let folder := (target.parent.map toString).getD "."
  let name := Path.join folder (".tmp" ++ (← IO.rand 100000 999999).repr)
  let handle ← IO.FS.Handle.mk name .writeNew
  IO.setAccessRights name ownerOnly
  return ⟨target.toString, name, handle⟩

/-- Writes a text into a draft. A refusal names the draft. -/
def fill (d : Draft) (text : String) : Machine (Except IoError Unit) := do
  match ← attempt (d.handle.write text.toUTF8) with
  | .error e => return .error (.concerning e d.path)
  | .ok () => return .ok ()

/-- Puts a draft in the place of its file, and then the file itself with the new text. -/
def commit (d : Draft) : IO Unit := do
  let text ← IO.FS.readBinFile d.path
  let file ← IO.FS.Handle.mk d.aside .readWrite
  IO.FS.rename d.path d.target
  file.truncate
  file.write text
  file.flush
  IO.FS.rename d.aside d.target

/-- Removes what is left of a draft. -/
def discard (d : Draft) : Machine Unit := do
  let _ ← attempt (IO.FS.removeFile d.aside)
  let _ ← attempt (IO.FS.removeFile d.path)

instance : Host Machine where
  Draft := Draft
  survey enter path := attempt (survey enter path)
  read path := attempt (IO.FS.readBinFile path)
  draft path := attempt (draft path)
  fill := fill
  flush d := attempt d.handle.flush
  protect d := attempt (IO.FS.hardLink d.target d.aside)
  commit d := attempt (commit d)
  discard := discard
  note event := do
    match (← read).bind (·.line? event) with
    | some line => IO.eprintln line
    | none => return ()

/-- All that is left on a stream. -/
partial def readAll (stream : IO.FS.Stream) (got : ByteArray) : IO ByteArray := do
  let more ← stream.read 65536
  if more.isEmpty then return got else readAll stream (got ++ more)

/-- The log that the environment asks for. -/
def log : IO (Option Log) := do
  let names := ["DECOMMENT_LOG", "RUST_LOG", "DECOMMENT_LOG_FORMAT"]
  let env ← names.mapM fun name => return (name, ← IO.getEnv name)
  return Log.ofEnv? fun name => (env.lookup name).join

end Machine

end Uncomment

open Uncomment in
/-- Runs the command line. -/
def main (words : List String) : IO UInt32 := do
  match Invocation.parse words with
  | .error .version =>
    IO.println versionLine
    return 0
  | .error .usage =>
    IO.eprintln "error: usage: decomment strip|check|print|explain [options] <path>"
    return 2
  | .ok invocation =>
    let terminal ← (← IO.getStdout).isTty
    let input ← if invocation.command.readsInput then Machine.readAll (← IO.getStdin) .empty
      else pure .empty
    let run : Machine Output := invocation.run (if terminal then .pretty else .json) input
    let out ← run.run (← Machine.log)
    IO.print out.stdout
    IO.eprint out.stderr
    return out.exit.toUInt32
