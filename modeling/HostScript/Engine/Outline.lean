import HostScript.Engine
import HostScript.Value.Outline

/-!
# Outlines of programs and results

What is known of a program, and the results and failures of runs, as JSON documents.
-/

namespace HostScript

open Text (Json)

def Diagnostic.outlines (diagnostics : List Diagnostic) : Json :=
  .array (diagnostics.map fun d => .object (d.members ++ [("text", .str d.text)]))

namespace Program

def members (p : Program) : List (String × Json) :=
  [("dynamic_ops", .nat p.code.dynamicOps), ("uses_dynamic", .bool p.code.usesDynamic),
    ("warnings", Diagnostic.outlines p.warnings), ("input", (p.input.map Json.nat).getD .null)]

end Program

namespace Outline

/-- A failure by its code, its wording and its details. -/
def failure (code message : String) (detail : Json) : List (String × Json) :=
  [("error", .str code), ("message", .str message), ("detail", .str detail.render)]

end Outline

def TypeError.members (e : TypeError) : List (String × Json) :=
  Outline.failure e.code e.message e.toJson

def RuntimeError.members (e : RuntimeError) : List (String × Json) :=
  Outline.failure e.code e.message e.toJson

def ScriptError.members (e : ScriptError) : List (String × Json) :=
  Outline.failure e.code e.message e.toJson

namespace Value

/-- The value, its text and its JSON text. -/
def members (h : Heap) (v : Value) : List (String × Json) :=
  let json := ((v.toJson? h).map Json.render).getD "error: value nesting is too deep to serialize"
  [("value", v.outline h), ("display", .str (v.display h)), ("json", .str json)]

/-- What can be asked of a value. -/
def facts (h : Heap) (v : Value) : Json :=
  let optional (j : Option Json) : Json := j.getD .null
  .object [("type", .str v.typeName), ("null", .bool (v.same .null)),
    ("number", optional (v.number?.map fun x => .str (Number.Form.display.write x))),
    ("bool", optional (v.bool?.map Json.bool)), ("str", optional (v.str?.map Json.str)),
    ("host", optional (v.host?.map fun o => .str ("HostObject(" ++ o.typeName ++ ")"))),
    ("items", optional ((v.items? h).map fun vs => .array (vs.map (·.outline h)))),
    ("receiver", optional ((Receiver.ofValue? v).map fun r => .str r.describe))]

end Value

end HostScript
