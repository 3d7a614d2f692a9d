/-
# JSON documents

The values that reports and log lines are written as. An object made by `Json.object` has
its keys in increasing order. A document is written either over several lines, indented by
two spaces a level, or on one line.

Key definitions: `Json`, `Json.object`, `Json.pretty`, `Json.compact`.
-/
import Uncomment.Text.Quoted

namespace Uncomment

/-- A JSON value. All numbers are natural. -/
inductive Json where
  | null
  | bool (value : Bool)
  | num (value : Nat)
  | str (value : String)
  | arr (values : List Json)
  | obj (fields : List (String × Json))
deriving Repr

namespace Json

/-- An object with its keys in increasing order. -/
def object (fields : List (String × Json)) : Json :=
  obj (fields.mergeSort (fun a b => decide (a.1 ≤ b.1)))

/-- A text, or null if there is none. -/
def ofText? : Option String → Json
  | none => null
  | some text => str text

/-- A character inside a JSON string. -/
def escapeChar (c : Char) : List Char :=
  if c = '\x22' ∨ c = '\\' then ['\\', c]
  else if c = '\x08' then ['\\', 'b']
  else if c = '\x0c' then ['\\', 'f']
  else if c = '\n' then ['\\', 'n']
  else if c = '\r' then ['\\', 'r']
  else if c = '\t' then ['\\', 't']
  else if c.toNat < 0x20 then
    ['\\', 'u', '0', '0'] ++ (if c.toNat < 0x10 then ['0'] else []) ++ Text.hexDigits c.toNat
  else [c]

/-- A JSON string. -/
def quote (text : String) : String :=
  String.ofList ('\x22' :: text.toList.flatMap escapeChar ++ ['\x22'])

/-- The indentation of a level. -/
def indent (level : Nat) : String := String.ofList (List.replicate (2 * level) ' ')

/-- A value that is written on one line however it is nested. -/
def scalar : Json → String
  | bool true => "true"
  | bool false => "false"
  | num n => n.repr
  | str s => quote s
  | _ => "null"

mutual

/-- A value over several lines, inside `level` others. -/
def prettyAt (level : Nat) : Json → String
  | arr [] => "[]"
  | arr (v :: vs) =>
    "[\n" ++ ",\n".intercalate (prettyItems (level + 1) (v :: vs)) ++ "\n" ++ indent level ++ "]"
  | obj [] => "\x7b\x7d"
  | obj (f :: fs) =>
    "\x7b\n" ++ ",\n".intercalate (prettyFields (level + 1) (f :: fs)) ++ "\n" ++ indent level ++
      "\x7d"
  | v => scalar v

/-- The items of an array, each on a line of its own. -/
def prettyItems (level : Nat) : List Json → List String
  | [] => []
  | v :: vs => (indent level ++ prettyAt level v) :: prettyItems level vs

/-- The fields of an object, each on a line of its own. -/
def prettyFields (level : Nat) : List (String × Json) → List String
  | [] => []
  | (k, v) :: fs => (indent level ++ quote k ++ ": " ++ prettyAt level v) :: prettyFields level fs

end

/-- A document over several lines. -/
def pretty (v : Json) : String := prettyAt 0 v

mutual

/-- A document on one line. -/
def compact : Json → String
  | arr vs => "[" ++ ",".intercalate (compactItems vs) ++ "]"
  | obj fs => "\x7b" ++ ",".intercalate (compactFields fs) ++ "\x7d"
  | v => scalar v

/-- The items of an array on one line. -/
def compactItems : List Json → List String
  | [] => []
  | v :: vs => compact v :: compactItems vs

/-- The fields of an object on one line. -/
def compactFields : List (String × Json) → List String
  | [] => []
  | (k, v) :: fs => (quote k ++ ":" ++ compact v) :: compactFields fs

end

end Json

end Uncomment
