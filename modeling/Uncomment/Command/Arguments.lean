/-
# The command line

The words after the name of the program. Some options may stand before the command or
after it; all others belong to a command. An option is given by its long name, or by a
letter, and letters may be put together behind one dash. Two dashes alone end the options.
A word that does not fit ends the reading with a usage error, except that asking for the
version ends it at once with the version.

Key definitions: `Invocation`, `Invocation.parse`.
-/
import Uncomment.Text.Split

namespace Uncomment

/-- How a report is written. -/
inductive Format where
  /-- For people, in colour. -/
  | pretty
  /-- For programs. -/
  | json
deriving DecidableEq, Repr

/-- What a command that scans texts is told about it. -/
structure ScanArgs where
  /-- The extensions asked for; the usual ones if there are none. -/
  extensions : List String := []
  noTidy : Bool := false
  keepBraces : Bool := false
deriving DecidableEq, Repr

/-- A command with what belongs to it. -/
inductive Command where
  | strip (path : String) (dryRun quiet : Bool) (scan : ScanArgs)
  | check (path : String) (quiet : Bool) (scan : ScanArgs)
  | print (file : String) (scan : ScanArgs)
  | explain (id : String)
deriving DecidableEq, Repr

/-- A command and how its report is to be written. -/
structure Invocation where
  format : Option Format
  verbose : Bool
  command : Command
deriving DecidableEq, Repr

/-- Why there is no command to run. -/
inductive Halt where
  | usage
  | version
deriving DecidableEq, Repr

/-- An option that takes no value. -/
inductive Flag where
  | verbose
  | version
  | dryRun
  | quiet
  | noTidy
  | keepBraces
deriving DecidableEq, Repr

namespace Flag

/-- The flag with a long name. -/
def ofName? : String → Option Flag
  | "verbose" => some verbose
  | "version" => some version
  | "dry-run" => some dryRun
  | "quiet" => some quiet
  | "no-tidy" => some noTidy
  | "keep-jsx-braces" => some keepBraces
  | _ => none

/-- The flag with a letter. -/
def ofLetter? : Char → Option Flag
  | 'v' => some verbose
  | 'V' => some version
  | 'd' => some dryRun
  | 'q' => some quiet
  | _ => none

end Flag

/-- The options that may stand in one part of the command line. The output format may stand
anywhere. -/
structure Grammar where
  flags : List Flag
  extensions : Bool := false

namespace Grammar

/-- What may stand before the command. -/
def top : Grammar := ⟨[.verbose, .version], false⟩

/-- What may stand after each command. -/
def ofCommand? : String → Option Grammar
  | "strip" => some ⟨[.verbose, .dryRun, .quiet, .noTidy, .keepBraces], true⟩
  | "check" => some ⟨[.verbose, .quiet, .noTidy, .keepBraces], true⟩
  | "print" => some ⟨[.verbose, .noTidy, .keepBraces], true⟩
  | "explain" => some ⟨[.verbose], false⟩
  | _ => none

end Grammar

/-- What a part of the command line gave. -/
structure Given where
  flags : List Flag := []
  format : Option Format := none
  extensions : List String := []
  /-- The words that are no options. -/
  operands : List String := []

namespace Given

/-- A flag is given, at most once. -/
def addFlag (g : Grammar) (given : Given) (flag : Flag) : Except Halt Given :=
  if !g.flags.contains flag then .error .usage
  else if flag = .version then .error .version
  else if given.flags.contains flag then .error .usage
  else .ok { given with flags := flag :: given.flags }

/-- The letters behind one dash are given. -/
def addLetters (g : Grammar) (given : Given) : List Char → Except Halt Given
  | [] => .ok given
  | c :: cs =>
    match Flag.ofLetter? c with
    | none => .error .usage
    | some flag => do addLetters g (← given.addFlag g flag) cs

/-- Whether a long name stands for an option that takes a value. -/
def takesValue (g : Grammar) (name : String) : Bool :=
  name == "output" || (g.extensions && name == "ext")

/-- An option is given with its value. The format is given at most once; extensions may be
given many times, and several at once between commas. -/
def addOption (given : Given) (name value : String) : Except Halt Given :=
  if name = "output" then
    match given.format, value with
    | none, "pretty" => .ok { given with format := some .pretty }
    | none, "json" => .ok { given with format := some .json }
    | _, _ => .error .usage
  else
    let entries := (Text.splitOn ',' value.toList).map String.ofList
    .ok { given with extensions := given.extensions ++ entries }

/-- A word that is no option is given. -/
def addOperand (given : Given) (word : String) : Given :=
  { given with operands := given.operands ++ [word] }

end Given

/-- A word of the command line by its shape. -/
inductive Word where
  /-- Two dashes alone. -/
  | dashes
  /-- A long name, and the value joined to it by an equals sign. -/
  | long (name : String) (value : Option String)
  /-- The letters behind one dash. -/
  | letters (cs : List Char)
  /-- Any other word, a dash alone included. -/
  | operand

namespace Word

/-- The shape of a word. -/
def ofString (word : String) : Word :=
  match word.toList with
  | ['-', '-'] => dashes
  | '-' :: '-' :: cs =>
    let name := String.ofList (cs.takeWhile (· ≠ '='))
    match cs.dropWhile (· ≠ '=') with
    | [] => long name none
    | _ :: value => long name (some (String.ofList value))
  | '-' :: c :: cs => letters (c :: cs)
  | _ => operand

end Word

namespace Given

/-- Reads the words that belong to one part of the command line. With `stop` the part ends
at its first operand, and what follows that operand is handed back. -/
def read (g : Grammar) (stop : Bool) (given : Given) :
    List String → Except Halt (Given × List String)
  | [] => .ok (given, [])
  | word :: rest =>
    match Word.ofString word with
    | .dashes => if stop then .error .usage else .ok (rest.foldl addOperand given, [])
    | .long name (some value) => do
      if takesValue g name then read g stop (← given.addOption name value) rest
      else .error .usage
    | .long name none => do
      if takesValue g name then
        match rest with
        | [] => .error .usage
        | value :: rest =>
          match Word.ofString value with
          | .operand => read g stop (← given.addOption name value) rest
          | _ => .error .usage
      else
        match Flag.ofName? name with
        | none => .error .usage
        | some flag => read g stop (← given.addFlag g flag) rest
    | .letters cs => do read g stop (← given.addLetters g cs) rest
    | .operand =>
      if stop then .ok (given.addOperand word, rest)
      else read g stop (given.addOperand word) rest

/-- What a command is told about scanning. -/
def scan (given : Given) : ScanArgs where
  extensions := given.extensions
  noTidy := given.flags.contains .noTidy
  keepBraces := given.flags.contains .keepBraces

/-- The command of a given name, with its one operand. A path to process is not empty. -/
def command? (given : Given) (name : String) : Option Command :=
  match name, given.operands with
  | "strip", [path] =>
    if path.isEmpty then none
    else some (.strip path (given.flags.contains .dryRun) (given.flags.contains .quiet) given.scan)
  | "check", [path] =>
    if path.isEmpty then none else some (.check path (given.flags.contains .quiet) given.scan)
  | "print", [file] => some (.print file given.scan)
  | "explain", [id] => some (.explain id)
  | _, _ => none

end Given

namespace Invocation

/-- The command that some words ask for. Of two formats the one after the command counts. -/
def parse (words : List String) : Except Halt Invocation := do
  let (before, rest) ← Given.read .top true {} words
  match before.operands with
  | [name] =>
    match Grammar.ofCommand? name with
    | none => .error .usage
    | some grammar =>
      let (after, _) ← Given.read grammar false {} rest
      match after.command? name with
      | none => .error .usage
      | some command =>
        return {
          format := after.format.or before.format
          verbose := before.flags.contains .verbose || after.flags.contains .verbose
          command }
  | _ => .error .usage

end Invocation

end Uncomment
