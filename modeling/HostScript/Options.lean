import HostScript.Text.Json.Reader
import HostScript.Text.Lowercase

/-!
# Compile options

Options say what a script may do and how far analysis and calls may go. They can be read from
JSON, by name or as a list in the order of the fields; whatever is not given keeps its default.
-/

namespace HostScript

open Text (Document)

/-- How the names of host members become names in scripts. -/
inductive Naming where
  | exact
  /-- The first character in lower case. -/
  | camelCase
deriving DecidableEq, Repr

def Naming.apply : Naming → String → String
  | exact, name => name
  | camelCase, name =>
    match name.toList with
    | [] => ""
    | c :: cs => String.ofList (Text.lowercase c ++ cs)

structure Options where
  /-- Whether `print` statements are permitted. -/
  allowPrint : Bool := true
  /-- Whether scripts may build records and arrays. -/
  allowLiterals : Bool := true
  /-- Report warnings with a compiled program. -/
  collectWarnings : Bool := false
  naming : Naming := .exact
  /-- How deep script calls may nest at run time. -/
  maxCallDepth : Nat := 256
  /-- How many passes analysis may take to settle. -/
  maxPasses : Nat := 4
deriving DecidableEq, Repr

namespace Options

inductive Field where
  | allowPrint
  | allowLiterals
  | collectWarnings
  | naming
  | maxCallDepth
  | maxPasses
deriving DecidableEq, Repr

namespace Field

def all : List Field :=
  [allowPrint, allowLiterals, collectWarnings, naming, maxCallDepth, maxPasses]

def name : Field → String
  | allowPrint => "allow_print"
  | allowLiterals => "allow_literals"
  | collectWarnings => "collect_warnings"
  | naming => "member_naming"
  | maxCallDepth => "max_call_depth"
  | maxPasses => "max_passes"

end Field

def bool? : Document → Option Bool
  | .bool b => some b
  | _ => none

def namingOf? : String → Option Naming
  | "exact" => some .exact
  | "camel_case" => some .camelCase
  | _ => none

/-- A naming is its name, alone or as the only member of an object with the value null. -/
def naming? : Document → Option Naming
  | .str (some name) => namingOf? name
  | .object [(some name, .null)] => namingOf? name
  | _ => none

/-- A count is written in digits only and fits 64 bits. -/
def count? : Document → Option Nat
  | .number spelling =>
    if spelling.all Char.isDigit then
      let n := spelling.foldl (fun n c => n * 10 + (c.toNat - '0'.toNat)) 0
      if n < UInt64.size then some n else none
    else none
  | _ => none

def setField? (options : Options) (value : Document) : Field → Option Options
  | .allowPrint => (bool? value).map fun b => { options with allowPrint := b }
  | .allowLiterals => (bool? value).map fun b => { options with allowLiterals := b }
  | .collectWarnings => (bool? value).map fun b => { options with collectWarnings := b }
  | .naming => (naming? value).map fun n => { options with naming := n }
  | .maxCallDepth => (count? value).map fun n => { options with maxCallDepth := n }
  | .maxPasses => (count? value).map fun n => { options with maxPasses := n }

/-- Members may come in any order. An unknown name is skipped, a known one may be given once. -/
def ofMembers? (options : Options) (seen : List Field) :
    List (Option String × Document) → Option Options
  | [] => some options
  | (none, _) :: _ => none
  | (some name, value) :: members =>
    match Field.all.find? (·.name == name) with
    | none => ofMembers? options seen members
    | some field =>
      if seen.contains field then none
      else do
        let options ← setField? options value field
        ofMembers? options (field :: seen) members

def ofItems? (options : Options) : List Field → List Document → Option Options
  | _, [] => some options
  | [], _ :: _ => none
  | field :: fields, value :: values => do
    let options ← setField? options value field
    ofItems? options fields values

def ofDocument? : Document → Option Options
  | .object members => ofMembers? {} [] members
  | .array items => ofItems? {} Field.all items
  | _ => none

def ofJson? (text : String) : Option Options :=
  Document.read? text >>= ofDocument?

end Options

end HostScript
