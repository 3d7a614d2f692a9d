/-
# Events

What a run says about itself while it is going on. Each event has a level, comes from a
part of the program, and carries named values. A log is asked for by environment
variables; its filter is a level, or a level for the parts whose name starts in a given
way, and each line of it is either plain text or JSON.

Key definitions: `Event`, `Log.ofEnv?`, `Log.lines`.
-/
import Uncomment.Json
import Uncomment.Options
import Uncomment.Report

namespace Uncomment

/-- How important an event is, from the most to the least. -/
inductive Level where
  | error
  | warn
  | info
  | debug
  | trace
deriving DecidableEq, Repr

namespace Level

/-- The name of a level in log lines. -/
def name : Level → String
  | error => "ERROR"
  | warn => "WARN"
  | info => "INFO"
  | debug => "DEBUG"
  | trace => "TRACE"

/-- The rank of a level, from the most important one. -/
def rank : Level → Nat
  | error => 1
  | warn => 2
  | info => 3
  | debug => 4
  | trace => 5

end Level

/-- Something that happens in a run. -/
inductive Event where
  | starting (path : String) (options : Options)
  | collected (root : String) (count : Nat)
  | readFailed (path : String) (error : IoError)
  | notUtf8 (path : String)
  | writeFailed (path : String) (error : IoError)
  | stripped (path : String) (bytesRemoved : Nat) (written : Bool)
  | diagnosed (path : String) (diagnostic : Diagnostic)
  | finished (root : String) (batch : Batch) (dryRun : Bool)
deriving DecidableEq, Repr

/-- The texts of a set, in braces. -/
def displaySet (texts : List String) : String :=
  "\x7b" ++ ", ".intercalate (texts.map Text.quoted) ++ "\x7d"

/-- A truth value in words. -/
def displayBool (b : Bool) : String := if b then "true" else "false"

/-- The name of a way to keep texts. -/
def Retention.display : Retention → String
  | never => "Never"
  | warnings => "Warnings"
  | all => "All"

/-- The options of a run in one line. -/
def Options.display (o : Options) : String :=
  "ProcessOptions \x7b extensions: " ++ displaySet o.extensions ++
    ", skip_dirs: " ++ displaySet o.skipDirs ++
    ", dry_run: " ++ displayBool o.dryRun ++
    ", tidy: " ++ displayBool o.tidy ++
    ", strip: StripOptions \x7b jsx_comments: " ++ displayBool o.scan.jsxComments ++ " \x7d" ++
    ", keep_source: " ++ o.keepSource.display ++ " \x7d"

namespace Event

/-- The level of an event. -/
def level : Event → Level
  | readFailed _ _ | notUtf8 _ | writeFailed _ _ => .warn
  | finished _ _ _ => .info
  | _ => .debug

/-- The part of the program that an event comes from. -/
def target : Event → String
  | starting _ _ => "decomment"
  | collected _ _ => "decomment_core::walk"
  | _ => "decomment_core::pipeline"

/-- An event in words. -/
def message : Event → String
  | starting _ _ => "starting run"
  | collected _ _ => "collected source files"
  | readFailed _ _ => "read failed"
  | notUtf8 _ => "skipping file that is not valid UTF-8"
  | writeFailed _ _ => "write failed"
  | stripped _ _ _ => "stripped comments"
  | diagnosed _ _ => "scanner diagnostic"
  | finished _ _ _ => "finished"

/-- The values that an event carries, in order. -/
def fields : Event → List (String × Json)
  | starting path options => [("path", .str path), ("options", .str options.display)]
  | collected root count => [("root", .str root), ("count", .num count)]
  | readFailed path error => [("path", .str path), ("error", .str error.message)]
  | notUtf8 path => [("path", .str path)]
  | writeFailed path error => [("path", .str path), ("error", .str error.message)]
  | stripped path bytes written =>
    [("path", .str path), ("bytes_removed", .num bytes), ("written", .bool written)]
  | diagnosed path d => [("path", .str path), ("diagnostic", .str d.display)]
  | finished root batch dryRun =>
    [("root", .str root), ("files", .num batch.files.length), ("modified", .num batch.modified),
     ("failed", .num batch.failed), ("bytes_removed", .num batch.bytesRemoved),
     ("dry_run", .bool dryRun)]

end Event

/-- The events that are logged: those of a level at least as important as a given one, from
the parts whose name starts in a given way. -/
structure LogFilter where
  target : String := ""
  /-- The least important level; nothing is logged without one. -/
  level : Option Level
deriving DecidableEq, Repr

namespace LogFilter

/-- A level by its name, in any case; `off` is no level at all. -/
def level? (name : String) : Option (Option Level) :=
  match String.ofList (Text.lower name.toList) with
  | "off" => some none
  | "error" => some (some .error)
  | "warn" => some (some .warn)
  | "info" => some (some .info)
  | "debug" => some (some .debug)
  | "trace" => some (some .trace)
  | _ => none

/-- The filter in a text: a level, or a target, an equals sign and a level. From any other
text nothing but errors is logged. -/
def parse (text : String) : LogFilter :=
  match (Text.splitOn '=' text.toList).map String.ofList with
  | [name] => { level := (level? name).getD (some .error) }
  | [target, name] =>
    match level? name with
    | some level => { target, level }
    | none => { level := some .error }
  | _ => { level := some .error }

/-- Whether an event is logged. -/
def admits (f : LogFilter) (e : Event) : Bool :=
  match f.level with
  | none => false
  | some level => e.level.rank ≤ level.rank && f.target.toList.isPrefixOf e.target.toList

end LogFilter

/-- A log: what goes into it, and how its lines are written. -/
structure Log where
  filter : LogFilter
  json : Bool
deriving DecidableEq, Repr

namespace Log

/-- The log that an environment asks for. The program's own variable wins over the common
one. -/
def ofEnv? (env : String → Option String) : Option Log :=
  match (env "DECOMMENT_LOG").or (env "RUST_LOG") with
  | none => none
  | some text =>
    let format := (env "DECOMMENT_LOG_FORMAT").getD ""
    some { filter := .parse text, json := Text.lower format.toList == "json".toList }

/-- A value in plain text. -/
def plain : Json → String
  | .str s => s
  | v => v.compact

/-- An event as a line of plain text. -/
def textLine (e : Event) : String :=
  let level := e.level.name
  String.ofList (List.replicate (5 - level.length) ' ') ++ level ++ " " ++ e.target ++ ": " ++
    e.message ++ String.join (e.fields.map fun (name, value) => " " ++ name ++ "=" ++ plain value)

/-- An event as a line of JSON. -/
def jsonLine (e : Event) : String :=
  Json.compact (.obj
    [("level", .str e.level.name), ("fields", .obj (("message", .str e.message) :: e.fields)),
     ("target", .str e.target)])

/-- The line of an event, if it is logged. -/
def line? (log : Log) (e : Event) : Option String :=
  if log.filter.admits e then some (if log.json then jsonLine e else textLine e) else none

/-- The lines of some events. -/
def lines (log : Log) (events : List Event) : List String := events.filterMap log.line?

end Log

end Uncomment
