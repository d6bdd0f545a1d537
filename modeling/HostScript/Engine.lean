import HostScript.Code.Entry
import HostScript.Machine
import HostScript.Script.Parser

/-!
# The engine

The engine knows the types of the host and compiles scripts against them. A program can be run any
number of times.
-/

namespace HostScript

open Text (Json)

structure Engine where
  registry : Registry
  options : Options

/-- A compiled script. -/
structure Program where
  code : Code
  /-- The host types as they were when the script was compiled. -/
  types : Snapshot
  input : Option HostTypeId
  warnings : List Diagnostic
  maxCallDepth : Nat

/-- Why a script cannot be evaluated. -/
inductive ScriptError where
  | compile (diagnostics : List Diagnostic)
  | runtime (error : RuntimeError)

/-- What bounds the work of compiling and running. -/
structure Budget where
  /-- Analyses of lambdas for unknown arguments in one pass. -/
  analyses : Nat
  /-- Operations of one run. -/
  steps : Nat

namespace Engine

def new (options : Options) : Engine where
  registry := { naming := options.naming }
  options := options

/-- Change the registry. -/
def inRegistry {α : Type} (action : Registry.Register α) : StateM Engine (Except TypeError α) :=
  modifyGet fun e =>
    match action e.registry with
    | .ok a registry => (.ok a, { e with registry })
    | .error error registry => (.error error, { e with registry })

def registerType (desc : TypeDescriptor) : StateM Engine (Except TypeError HostTypeId) :=
  inRegistry (Registry.registerType desc)

/-- Register functions that extend the types of their first parameters. -/
def registerExtension (desc : TypeDescriptor) : StateM Engine (Except TypeError Unit) :=
  inRegistry (Registry.registerExtension desc)

/-- The type under which data of a kind becomes an object. -/
def typeFor (e : Engine) (dataType : String) : Except TypeError HostTypeId :=
  match e.registry.idOf? dataType with
  | some id => .ok id
  | none => .error (.notRegistered dataType)

/-- The type of the input must be valid. -/
def checkInput : Option HostTypeId → StateM Engine (Except (List Problem) Unit)
  | none => return .ok ()
  | some id => do
    match ← inRegistry (Registry.validate false id) with
    | .ok _ => return .ok ()
    | .error e =>
      return .error [⟨.unusableInput ((← get).registry.typeName id) e.message, ⟨0, 0⟩⟩]

/-- The tree of a source text. -/
def parse (source : String) : Except (List Problem) Script := do
  Script.parse (← Lexer.scan source 0)

/-- The program of a source text whose input type was checked. -/
def build (e : Engine) (source : String) (input : Option HostTypeId) (analyses : Nat) :
    Option (Except (List Problem) Program) :=
  match parse source with
  | .error problems => some (.error problems)
  | .ok script =>
    (script.analyze e.registry e.options input analyses).map fun result => do
      let analysis ← result
      match analysis.generate script e.registry with
      | .error problem => .error [problem]
      | .ok code =>
        let warnings := if e.options.collectWarnings then analysis.warnings else []
        return {
          code
          types := e.registry.snapshot
          input
          warnings := warnings.map (Problem.diagnostic source)
          maxCallDepth := e.options.maxCallDepth }

/-- Compile a script for an input of a given type, or for none. `none` if the budget is used up. -/
def compile (source : String) (input : Option HostTypeId) (analyses : Nat) :
    StateM Engine (Option (Except (List Diagnostic) Program)) := do
  let diagnostics := List.map (Problem.diagnostic source)
  match ← checkInput input with
  | .error problems => return some (.error (diagnostics problems))
  | .ok _ => return ((← get).build source input analyses).map (Except.mapError diagnostics)

end Engine

namespace Program

variable {σ : Type}

/-- Run the code. Look-ups of other programs do not count for this one. -/
def execute (p : Program) (host : HostCode σ) (input : Value) (steps : Nat) :
    Run σ (Option Value) := do
  modify fun w => { w with lookups := {} }
  let env : Env σ := { types := p.types, code := host }
  Machine.run { env, code := p.code, input, maxDepth := p.maxCallDepth } steps

/-- Run a program on an input object. `none` if the budget is used up. -/
def run (p : Program) (host : HostCode σ) (input : HostObject) (steps : Nat) :
    Run σ (Option Value) := do
  match p.input with
  | some id =>
    if input.typeId ≠ id then
      throw (.typeMismatch "input" (Dynamic.typeName p.types id) input.typeName)
  | none => pure ()
  p.execute host (.host input) steps

/-- Run a program that was compiled for no input. -/
def runWithoutInput (p : Program) (host : HostCode σ) (steps : Nat) : Run σ (Option Value) := do
  if p.input.isSome then
    throw (.nullReference "input")
  p.execute host .null steps

end Program

namespace Engine

variable {σ : Type}

/-- Compile a script and run it once on an input object. -/
def eval (host : HostCode σ) (source : String) (input : HostObject) (budget : Budget)
    (w : World σ) : StateM Engine (Option (Except ScriptError Value) × World σ) := do
  match ← compile source (some input.typeId) budget.analyses with
  | none => return (none, w)
  | some (.error diagnostics) => return (some (.error (.compile diagnostics)), w)
  | some (.ok program) =>
    match program.run host input budget.steps w with
    | .ok result w => return (result.map .ok, w)
    | .error e w => return (some (.error (.runtime e)), w)

end Engine

/-! ### Reports -/

namespace Diagnostic

def members (d : Diagnostic) : List (String × Json) :=
  [("severity", .str d.severity.name), ("kind", .str d.kind.name), ("message", .str d.message),
    ("line", .nat d.position.line), ("column", .nat d.position.column)]

def toJson (d : Diagnostic) : Json :=
  .object d.members

end Diagnostic

namespace ScriptError

def code : ScriptError → String
  | compile _ => "compile"
  | runtime _ => "runtime"

def message : ScriptError → String
  | compile diagnostics => String.intercalate "; " (diagnostics.map Diagnostic.text)
  | runtime e => e.message

def toJson (e : ScriptError) : Json :=
  let detail : Json := match e with
    | compile diagnostics => .array (diagnostics.map Diagnostic.toJson)
    | runtime e => e.toJson
  .object [("code", .str e.code), ("detail", detail)]

end ScriptError

end HostScript
